import Mathlib.Tactic

/-! A loop that polls for bytes until it has what it wants or its clock says the
time is up, and when two clocks make no difference to it. -/
namespace IotFirmware.TimedRead

/-- One pass of a polling loop: how long after the start it checks the clock, and the byte waiting then, if any. -/
structure Pass where
  elapsed : ℕ
  byte : Option UInt8

variable (full : List UInt8 → Bool) (inTime inTime' : ℕ → Bool)

/-- The bytes read, and how many checks of the clock that took; nothing while the loop is still polling. -/
def timedRead : List Pass → (bytes : List UInt8) → (checks : ℕ) → Option (List UInt8 × ℕ)
  | [], _, _ => none
  | pass :: passes, bytes, checks =>
    if inTime pass.elapsed then
      match pass.byte with
      | none => timedRead passes bytes (checks + 1)
      | some b =>
        if full (bytes ++ [b]) then some (bytes ++ [b], checks + 1)
        else timedRead passes (bytes ++ [b]) (checks + 1)
    else some (bytes, checks + 1)

/-- The passes in which the clock is checked, up to the one that ends the loop. -/
def clockChecks : List Pass → (bytes : List UInt8) → List Pass
  | [], _ => []
  | pass :: passes, bytes =>
    pass ::
      if inTime pass.elapsed then
        match pass.byte with
        | none => clockChecks passes bytes
        | some b => if full (bytes ++ [b]) then [] else clockChecks passes (bytes ++ [b])
      else []

variable {full inTime inTime'}

theorem mem_of_mem_clockChecks {passes : List Pass} {bytes : List UInt8} {pass : Pass}
    (h : pass ∈ clockChecks full inTime passes bytes) : pass ∈ passes := by
  induction passes generalizing bytes with
  | nil => exact h
  | cons first passes ih =>
    rw [clockChecks, List.mem_cons] at h
    rcases h with rfl | h
    · exact List.mem_cons_self
    · apply List.mem_cons_of_mem
      split at h
      · split at h
        · exact ih h
        · split at h
          · exact absurd h List.not_mem_nil
          · exact ih h
      · exact absurd h List.not_mem_nil

/-- A read that ends has checked the clock. -/
theorem lt_of_timedRead {passes : List Pass} {bytes out : List UInt8} {checks k : ℕ}
    (h : timedRead full inTime passes bytes checks = some (out, k)) : checks < k := by
  induction passes generalizing bytes checks with
  | nil => exact absurd h (by simp [timedRead])
  | cons pass passes ih =>
    rw [timedRead] at h
    split at h
    · split at h
      · exact (Nat.lt_succ_self checks).trans (ih h)
      · split at h
        · obtain ⟨-, rfl⟩ := Prod.mk.inj (Option.some.inj h)
          exact Nat.lt_succ_self checks
        · exact (Nat.lt_succ_self checks).trans (ih h)
    · obtain ⟨-, rfl⟩ := Prod.mk.inj (Option.some.inj h)
      exact Nat.lt_succ_self checks

/-- Two clocks make no difference exactly when every check of one would have gone the same way by the other. -/
theorem timedRead_eq_iff {passes : List Pass} {bytes : List UInt8} {checks : ℕ} :
    timedRead full inTime passes bytes checks = timedRead full inTime' passes bytes checks ↔
      ∀ pass ∈ clockChecks full inTime' passes bytes, inTime pass.elapsed = inTime' pass.elapsed := by
  induction passes generalizing bytes checks with
  | nil => simp [timedRead, clockChecks]
  | cons pass passes ih =>
    rw [clockChecks, List.forall_mem_cons]
    cases hin : inTime pass.elapsed <;> cases hin' : inTime' pass.elapsed
    · simp [timedRead, hin, hin']
    · -- one loop stops here, the other reads on
      simp only [Bool.false_eq_true, false_and, iff_false, timedRead, hin, hin', if_true, if_false]
      intro h
      split at h
      · exact absurd (lt_of_timedRead h.symm) (lt_irrefl _)
      · split at h
        · simpa using (Prod.mk.inj (Option.some.inj h)).1
        · exact absurd (lt_of_timedRead h.symm) (lt_irrefl _)
    · simp only [Bool.true_eq_false, false_and, iff_false, timedRead, hin, hin', if_true, Bool.false_eq_true, if_false]
      intro h
      split at h
      · exact absurd (lt_of_timedRead h) (lt_irrefl _)
      · split at h
        · simpa using (Prod.mk.inj (Option.some.inj h)).1
        · exact absurd (lt_of_timedRead h) (lt_irrefl _)
    · simp only [timedRead, hin, hin', if_true, true_and]
      cases pass.byte with
      | none => exact ih
      | some b =>
        dsimp only
        split
        · simp
        · exact ih

/-- Where two clocks agree up to the first check behind the time of one, the same passes are in time by both. -/
theorem takeWhile_of_clockChecks {passes : List Pass} {bytes : List UInt8}
    (h : ∀ pass ∈ clockChecks (fun _ => false) inTime' passes bytes, inTime pass.elapsed = inTime' pass.elapsed) :
    (passes.takeWhile fun pass => inTime pass.elapsed) = passes.takeWhile fun pass => inTime' pass.elapsed := by
  induction passes generalizing bytes with
  | nil => rfl
  | cons pass passes ih =>
    rw [clockChecks, List.forall_mem_cons] at h
    obtain ⟨hpass, hrest⟩ := h
    rw [List.takeWhile_cons, List.takeWhile_cons, hpass]
    cases hin : inTime' pass.elapsed with
    | false => rfl
    | true =>
      rw [hin, if_pos rfl] at hrest
      cases hbyte : pass.byte with
      | none =>
        rw [hbyte] at hrest
        rw [ih hrest]
      | some b =>
        rw [hbyte] at hrest
        rw [ih hrest]

end IotFirmware.TimedRead
