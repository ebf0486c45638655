import Mathlib.Tactic

/-! Runs of a labelled transition system with their full history: the invariant
rule, cutting a run at any of its moves, and transport along a simulation. -/
namespace IotFirmware

structure Move (σ ℓ : Type) where
  before : σ
  label : ℓ
  after : σ

/-- `Run Step s moves t`: the moves lead from `s` to `t`, each by one step. -/
inductive Run {σ ℓ : Type} (Step : σ → ℓ → σ → Prop) (s : σ) : List (Move σ ℓ) → σ → Prop
  | nil : Run Step s [] s
  | snoc {moves : List (Move σ ℓ)} {m t : σ} {a : ℓ} :
      Run Step s moves m → Step m a t → Run Step s (moves ++ [⟨m, a, t⟩]) t

/-- An item of two lists in a row is in the first or in the second. -/
theorem split_append {α : Type} {xs ys front back : List α} {a : α} (h : xs ++ ys = front ++ a :: back) :
    (∃ rest, xs = front ++ a :: rest) ∨ ∃ skipped, front = xs ++ skipped ∧ ys = skipped ++ a :: back := by
  rcases List.append_eq_append_iff.mp h with ⟨skipped, hfront, hys⟩ | ⟨rest, hxs, hrest⟩
  · exact .inr ⟨skipped, hfront, hys⟩
  · cases rest with
    | nil => exact .inr ⟨[], by simpa using hxs.symm, by simpa using hrest.symm⟩
    | cons x rest =>
      obtain ⟨rfl, -⟩ := List.cons.inj hrest
      exact .inl ⟨rest, hxs⟩

/-- An item of a list with one more at its end is that one, or is before it. -/
theorem split_snoc {α : Type} {xs front back : List α} {x a : α} (h : xs ++ [x] = front ++ a :: back) :
    (∃ rest, xs = front ++ a :: rest) ∨ (front = xs ∧ a = x) := by
  rcases split_append h with hbefore | ⟨skipped, rfl, hone⟩
  · exact .inl hbefore
  · cases skipped with
    | nil => exact .inr ⟨List.append_nil xs, (List.cons.inj hone).1.symm⟩
    | cons y rest => simp at hone

namespace Run
variable {σ τ ℓ κ : Type} {Step : σ → ℓ → σ → Prop} {s m t : σ} {a : ℓ} {moves tail : List (Move σ ℓ)}

/-- The invariant rule over histories: what holds before any move and is kept
by every step holds at the end of every run. -/
theorem invariant (Inv : List (Move σ ℓ) → σ → Prop) (hinit : Inv [] s)
    (hstep : ∀ moves m a t, Run Step s moves m → Inv moves m → Step m a t → Inv (moves ++ [⟨m, a, t⟩]) t)
    (h : Run Step s moves t) : Inv moves t := by
  induction h with
  | nil => exact hinit
  | snoc hrun hs ih => exact hstep _ _ _ _ hrun ih hs

theorem append (h : Run Step s moves m) (h' : Run Step m tail t) : Run Step s (moves ++ tail) t := by
  induction h' with
  | nil => simpa using h
  | snoc _ hs ih =>
    rw [← List.append_assoc]
    exact .snoc ih hs

theorem cons (h : Step s a m) (h' : Run Step m tail t) : Run Step s (⟨s, a, m⟩ :: tail) t := by
  have hone : Run Step s ([] ++ [⟨s, a, m⟩]) m := .snoc .nil h
  exact hone.append h'

/-- The last move of a run that has one. -/
theorem snoc_inv {x : Move σ ℓ} (h : Run Step s (moves ++ [x]) t) :
    Run Step s moves x.before ∧ Step x.before x.label x.after ∧ x.after = t := by
  generalize he : moves ++ [x] = full at h
  cases h with
  | nil => exact absurd he (by simp)
  | snoc hrun hs =>
    obtain ⟨rfl, hx⟩ := List.append_inj' he rfl
    obtain rfl : x = _ := by simpa using hx
    exact ⟨hrun, hs, rfl⟩

/-- A run can be cut between any two of its moves. -/
theorem split (h : Run Step s (moves ++ tail) t) : ∃ m, Run Step s moves m ∧ Run Step m tail t := by
  induction tail using List.reverseRecOn generalizing t with
  | nil => exact ⟨t, by simpa using h, .nil⟩
  | append_singleton front x ih =>
    rw [← List.append_assoc] at h
    obtain ⟨hfront, hs, rfl⟩ := h.snoc_inv
    obtain ⟨m, hm, hrest⟩ := ih hfront
    exact ⟨m, hm, .snoc hrest hs⟩

/-- Every move of a run is a step out of a state the earlier moves reach. -/
theorem move {x : Move σ ℓ} {front : List (Move σ ℓ)} (h : Run Step s (front ++ x :: tail) t) :
    Run Step s front x.before ∧ Step x.before x.label x.after ∧ Run Step x.after tail t := by
  rw [show front ++ x :: tail = (front ++ [x]) ++ tail by simp] at h
  obtain ⟨m, hm, hrest⟩ := h.split
  obtain ⟨hfront, hs, rfl⟩ := hm.snoc_inv
  exact ⟨hfront, hs, hrest⟩

/-- A run of no moves stays where it is. -/
theorem nil_inv (h : Run Step s [] t) : t = s := by
  generalize he : ([] : List (Move σ ℓ)) = moves at h
  cases h with
  | nil => rfl
  | snoc => exact absurd he (by simp)

/-- The first move of a run that has one. -/
theorem cons_inv {x : Move σ ℓ} (h : Run Step s (x :: tail) t) :
    x.before = s ∧ Step x.before x.label x.after ∧ Run Step x.after tail t := by
  obtain ⟨hnone, hs, hrest⟩ := move (show Run Step s ([] ++ x :: tail) t from h)
  exact ⟨hnone.nil_inv, hs, hrest⟩

/-- What holds before a run holds after it, or one of its moves ends it. -/
theorem persists_or_ends (P : σ → Prop) (hP : P s) (h : Run Step s moves t) :
    P t ∨ ∃ x ∈ moves, P x.before ∧ ¬ P x.after := by
  induction h with
  | nil => exact .inl hP
  | @snoc moves m t a _ _ ih =>
    rcases ih with hm | ⟨x, hx, hends⟩
    · by_cases ht : P t
      · exact .inl ht
      · exact .inr ⟨⟨m, a, t⟩, by simp, hm, ht⟩
    · exact .inr ⟨x, List.mem_append_left _ hx, hends⟩

/-- A run of steps is one of any system that has them. -/
theorem mono {Step' : σ → ℓ → σ → Prop} (hstep : ∀ m a t, Step m a t → Step' m a t) (h : Run Step s moves t) :
    Run Step' s moves t := by
  induction h with
  | nil => exact .nil
  | snoc _ hs ih => exact ih.snoc (hstep _ _ _ hs)

/-- Forward simulation: matching every step matches every run, label by label. -/
theorem simulate {Step' : τ → κ → τ → Prop} (R : σ → τ → Prop) (f : ℓ → κ)
    (hstep : ∀ s u a s', R s u → Step s a s' → ∃ u', Step' u (f a) u' ∧ R s' u')
    {u : τ} (hR : R s u) (h : Run Step s moves t) :
    ∃ moves' u', Run Step' u moves' u' ∧ moves'.map (·.label) = moves.map (f ·.label) ∧ R t u' := by
  induction h with
  | nil => exact ⟨[], u, .nil, rfl, hR⟩
  | snoc _ hs ih =>
    obtain ⟨moves', v, hrun, hlabels, hv⟩ := ih
    obtain ⟨u', hu, hR'⟩ := hstep _ _ _ _ hv hs
    exact ⟨_, u', .snoc hrun hu, by simp [hlabels], hR'⟩

end Run

/-- The moves of a deterministic system fed a list of labels. -/
def movesOf {σ ℓ : Type} (next : σ → ℓ → σ) : σ → List ℓ → List (Move σ ℓ)
  | _, [] => []
  | s, a :: rest => ⟨s, a, next s a⟩ :: movesOf next (next s a) rest

theorem run_movesOf {σ ℓ : Type} (next : σ → ℓ → σ) (s : σ) (labels : List ℓ) :
    Run (fun s a t => t = next s a) s (movesOf next s labels) (labels.foldl next s) := by
  induction labels generalizing s with
  | nil => exact .nil
  | cons a rest ih => exact .cons rfl (ih (next s a))

/-- The same where each label must be enabled. -/
theorem run_of_enabled {σ ℓ : Type} {next : σ → ℓ → σ} {Enabled : σ → ℓ → Prop} (labels : List ℓ) (s : σ)
    (hen : ∀ m ∈ movesOf next s labels, Enabled m.before m.label) :
    Run (fun s a t => Enabled s a ∧ t = next s a) s (movesOf next s labels) (labels.foldl next s) := by
  induction labels generalizing s with
  | nil => exact .nil
  | cons a rest ih =>
    obtain ⟨ha, hrest⟩ := List.forall_mem_cons.mp hen
    exact .cons ⟨ha, rfl⟩ (ih _ hrest)

theorem after_of_mem_movesOf {σ ℓ : Type} {next : σ → ℓ → σ} {s : σ} {labels : List ℓ} {m : Move σ ℓ}
    (hm : m ∈ movesOf next s labels) : m.after = next m.before m.label := by
  induction labels generalizing s with
  | nil => cases hm
  | cons a rest ih =>
    rcases List.mem_cons.mp hm with rfl | hm
    · rfl
    · exact ih hm

/-- The progress rule: where every state short of the goal has some step that
keeps the invariant and lowers the rank, there is a run to the goal. -/
theorem exists_run_of_rank {σ ℓ : Type} {Step : σ → ℓ → σ → Prop} (Inv : List (Move σ ℓ) → σ → Prop) (rank : σ → Nat)
    (Goal : σ → Prop) {s : σ} (hinit : Inv [] s)
    (hstep : ∀ moves m, Inv moves m → ¬ Goal m →
      ∃ a t, Step m a t ∧ Inv (moves ++ [⟨m, a, t⟩]) t ∧ rank t < rank m) :
    ∃ moves t, Run Step s moves t ∧ Inv moves t ∧ Goal t := by
  have hgo (n : Nat) : ∀ moves m, Run Step s moves m → Inv moves m → rank m ≤ n →
      ∃ moves t, Run Step s moves t ∧ Inv moves t ∧ Goal t := by
    induction n with
    | zero =>
      intro moves m hrun hinv hrank
      by_cases hgoal : Goal m
      · exact ⟨moves, m, hrun, hinv, hgoal⟩
      · obtain ⟨_, _, _, _, hlower⟩ := hstep moves m hinv hgoal
        omega
    | succ n ih =>
      intro moves m hrun hinv hrank
      by_cases hgoal : Goal m
      · exact ⟨moves, m, hrun, hinv, hgoal⟩
      · obtain ⟨a, t, hs, hinv', hlower⟩ := hstep moves m hinv hgoal
        exact ih _ t (hrun.snoc hs) hinv' (by omega)
  exact hgo _ [] s .nil hinit le_rfl

/-- The ranking rule: while every step either is a good one or keeps `Waits` and
lowers the rank, more steps than the rank contain a good one. -/
theorem exists_good_of_rank {σ ℓ : Type} {next : σ → ℓ → σ} (Waits : σ → Prop) (rank : σ → Nat) (Good : Move σ ℓ → Prop)
    {s : σ} {labels : List ℓ} (hwaits : Waits s) (hrank : rank s < labels.length)
    (hstep : ∀ m ∈ movesOf next s labels, Waits m.before → Good m ∨ (Waits m.after ∧ rank m.after < rank m.before)) :
    ∃ m ∈ movesOf next s labels, Good m := by
  induction labels generalizing s with
  | nil => exact absurd hrank (Nat.not_lt_zero _)
  | cons a rest ih =>
    rw [movesOf] at hstep ⊢
    obtain ⟨hhead, htail⟩ := List.forall_mem_cons.mp hstep
    rcases hhead hwaits with hgood | ⟨hwaits', hlower⟩
    · exact ⟨_, List.mem_cons_self, hgood⟩
    · have hrank' : rank (next s a) < rest.length := by
        simp only [List.length_cons] at hrank
        dsimp only at hlower
        omega
      obtain ⟨m, hm, hgood⟩ := ih hwaits' hrank' htail
      exact ⟨m, List.mem_cons_of_mem _ hm, hgood⟩

end IotFirmware
