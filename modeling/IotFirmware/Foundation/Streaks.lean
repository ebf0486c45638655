import Mathlib.Data.List.DropRight
import Mathlib.Tactic

/-! Streaks of one value in a list: the one a list ends with, and whether there
is one of some length anywhere. -/
namespace IotFirmware.Streaks
variable {α : Type} [DecidableEq α] {a b : α} {l : List α} {n : ℕ}

/-- The length of the streak of `a` that a list ends with. -/
def trailing (a : α) (l : List α) : ℕ := (l.rtakeWhile (· = a)).length

@[simp] theorem trailing_nil : trailing a [] = 0 := by simp [trailing]

@[simp] theorem trailing_concat_self : trailing a (l ++ [a]) = trailing a l + 1 := by
  simp [trailing]

theorem trailing_concat_ne (h : b ≠ a) : trailing a (l ++ [b]) = 0 := by
  simp [trailing, h]

/-- A list ends with `n` times `a` when its last streak is that long. -/
theorem replicate_suffix_iff : List.replicate n a <:+ l ↔ n ≤ trailing a l := by
  induction l using List.reverseRecOn generalizing n with
  | nil => simp
  | append_singleton l b ih =>
    cases n with
    | zero => simp
    | succ n =>
      rw [List.replicate_succ', List.suffix_concat_iff]
      by_cases h : b = a
      · subst h
        simp [ih]
      · simp [trailing_concat_ne h, Ne.symm h]

/-- One more `a` makes a streak where the last one was a single `a` short of it. -/
theorem replicate_infix_concat_self :
    List.replicate n a <:+: l ++ [a] ↔ List.replicate n a <:+: l ∨ n ≤ trailing a l + 1 := by
  rw [List.infix_concat_iff, replicate_suffix_iff, trailing_concat_self]
  exact or_comm

/-- Anything else makes none. -/
theorem replicate_infix_concat_ne (hn : 0 < n) (h : b ≠ a) :
    List.replicate n a <:+: l ++ [b] ↔ List.replicate n a <:+: l := by
  rw [List.infix_concat_iff, replicate_suffix_iff, trailing_concat_ne h]
  simp [hn.ne']

/-- Where there is no streak of a length, the last one is shorter. -/
theorem trailing_lt (h : ¬ List.replicate n a <:+: l) : trailing a l < n := by
  by_contra hlong
  exact h (replicate_suffix_iff.mpr (not_lt.mp hlong)).isInfix

end IotFirmware.Streaks
