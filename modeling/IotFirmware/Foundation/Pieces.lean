import Mathlib.Order.Monotone.Basic
import Mathlib.Algebra.BigOperators.Group.List.Basic
import Mathlib.Algebra.GroupWithZero.Nat

/-! Positions on a line that is cut into pieces: which piece one is in, and that
order is by piece first and then by the offset into it. -/
namespace IotFirmware.Pieces

/-- Which of the pieces of these lengths, laid end to end, a position is in, and
how far into it. -/
def pieceOf : List ℕ → ℕ → ℕ × ℕ
  | [], n => (0, n)
  | len :: lens, n =>
    if n < len then (0, n)
    else
      let (k, offset) := pieceOf lens (n - len)
      (k + 1, offset)

theorem pieceOf_spec {lens : List ℕ} {n : ℕ} (h : n < lens.sum) : ∃ hk : (pieceOf lens n).1 < lens.length,
    (pieceOf lens n).2 < lens[(pieceOf lens n).1] ∧ (lens.take (pieceOf lens n).1).sum + (pieceOf lens n).2 = n := by
  induction lens generalizing n with
  | nil => simp at h
  | cons len lens ih =>
    by_cases hlen : n < len
    · simp [pieceOf, hlen]
    · rw [List.sum_cons] at h
      obtain ⟨hk, hoffset, hsum⟩ := ih (show n - len < lens.sum by omega)
      simp only [pieceOf, if_neg hlen, List.length_cons, List.getElem_cons_succ, List.take_succ_cons, List.sum_cons]
      exact ⟨by omega, hoffset, by omega⟩

/-- Where the pieces between the values of `start` lie, positions are in the
order of their pieces, and in a piece in the order of their offsets. -/
theorem lt_iff_of_pieces {start : ℕ → ℕ} (hmono : Monotone start) {k l a b : ℕ} (ha : start k + a < start (k + 1))
    (hb : start l + b < start (l + 1)) : start k + a < start l + b ↔ k < l ∨ k = l ∧ a < b := by
  rcases lt_trichotomy k l with hlt | rfl | hgt
  · have hnext : start (k + 1) ≤ start l := hmono hlt
    simp only [hlt, true_or, iff_true]
    omega
  · simp
  · have hnext : start (l + 1) ≤ start k := hmono hgt
    simp only [hgt.ne', hgt.not_gt, false_and, or_self, iff_false]
    omega

end IotFirmware.Pieces
