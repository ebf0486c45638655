import Mathlib.Tactic

/-! Logs that only grow at their end, and properties of every entry that speak
of the entries before it. -/
namespace IotFirmware.Chronicle
variable {ε : Type} {log done : List ε} {P : ε → List ε → Prop}

/-- `P` holds of every entry and the entries before it. -/
def Each (P : ε → List ε → Prop) (log : List ε) : Prop :=
  ∀ before e after, log = before ++ e :: after → P e before

theorem each_nil : Each P [] := fun before e after h => by simp at h

/-- Growing a log keeps the property of old entries; only new ones need proof. -/
theorem Each.append (h : Each P log)
    (hdone : ∀ before e after, done = before ++ e :: after → P e (log ++ before)) : Each P (log ++ done) := by
  intro before e after he
  rcases List.append_eq_append_iff.mp he with ⟨rest, rfl, hrest⟩ | ⟨rest, hlog, hrest⟩
  · exact hdone rest e after hrest
  · cases rest with
    | nil =>
      obtain rfl : log = before := by simpa using hlog
      simpa using hdone [] e after (by simpa using hrest.symm)
    | cons x rest =>
      obtain ⟨rfl, -⟩ := List.cons.inj hrest
      exact h before e rest hlog

theorem Each.snoc {e : ε} (h : Each P log) (he : P e log) : Each P (log ++ [e]) := by
  refine h.append fun before e' after hsplit => ?_
  obtain ⟨rfl, rfl, _⟩ : before = [] ∧ e = e' ∧ after = [] := by
    cases before <;> simp_all
  simpa using he

/-- An entry at an index comes with the entries before it. -/
theorem split_at {i : Nat} {e : ε} (h : log[i]? = some e) :
    ∃ before after, log = before ++ e :: after ∧ before.length = i := by
  obtain ⟨hi, rfl⟩ := List.getElem?_eq_some_iff.mp h
  exact ⟨log.take i, log.drop (i + 1), by simp, by simp [hi.le]⟩

end IotFirmware.Chronicle
