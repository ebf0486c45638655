import Mathlib.Data.Int.Log
import Mathlib.Tactic

/-! Single and double precision rounding of exact numbers. -/
namespace IotFirmware

/-- The nearest integer, of two the even one. -/
def roundEven (x : ℚ) : ℤ :=
  if x - ⌊x⌋ < 1 / 2 ∨ (x - ⌊x⌋ = 1 / 2 ∧ Even ⌊x⌋) then ⌊x⌋ else ⌊x⌋ + 1

/-- The single precision number nearest to one in their range. -/
def nearestFloat (x : ℚ) : ℚ :=
  let ulp : ℚ := 2 ^ max (Int.log 2 |x| - 23) (-149)
  roundEven (x / ulp) * ulp

def nearestDouble (x : ℚ) : ℚ :=
  let ulp : ℚ := 2 ^ max (Int.log 2 |x| - 52) (-1074)
  roundEven (x / ulp) * ulp

theorem roundEven_intCast (n : ℤ) : roundEven (n : ℚ) = n := by
  rw [roundEven, Int.floor_intCast, sub_self, if_pos (.inl (by norm_num))]

/-- A double holds every integer up to 2 ^ 53. -/
theorem nearestDouble_intCast {v : ℤ} (hv : |v| ≤ 2 ^ 53) : nearestDouble v = v := by
  obtain ⟨n, hn⟩ : ∃ n : ℤ, (v : ℚ) / 2 ^ max (Int.log 2 |(v : ℚ)| - 52) (-1074) = n := by
    by_cases hlog : Int.log 2 |(v : ℚ)| ≤ 52
    · obtain ⟨k, hk⟩ := Int.exists_eq_neg_ofNat (show max (Int.log 2 |(v : ℚ)| - 52) (-1074) ≤ 0 by omega)
      refine ⟨v * 2 ^ k, ?_⟩
      rw [hk, zpow_neg, zpow_natCast, div_inv_eq_mul]
      push_cast
      rfl
    · have hne : |(v : ℚ)| ≠ 0 := by
        intro h
        rw [h, Int.log_zero_right] at hlog
        omega
      have hfloor : ((2 : ℕ) : ℚ) ^ Int.log 2 |(v : ℚ)| ≤ |(v : ℚ)| :=
        Int.zpow_log_le_self (by norm_num) (by positivity)
      have hlow : (2 : ℚ) ^ (53 : ℤ) ≤ |(v : ℚ)| :=
        (zpow_le_zpow_right₀ (by norm_num) (by omega : 53 ≤ Int.log 2 |(v : ℚ)|)).trans hfloor
      have habs : |v| = 2 ^ 53 := by
        refine le_antisymm hv ?_
        have : ((2 ^ 53 : ℤ) : ℚ) ≤ ((|v| : ℤ) : ℚ) := by
          push_cast
          exact hlow
        exact_mod_cast this
      have hexact : Int.log 2 |(v : ℚ)| = 53 := by
        have hcast : |(v : ℚ)| = (2 : ℚ) ^ (53 : ℤ) := by
          rw [← Int.cast_abs, habs]
          norm_num
        rw [hcast]
        exact Int.log_zpow (by norm_num) 53
      rw [hexact]
      rcases abs_eq (by norm_num) |>.mp habs with rfl | rfl
      · exact ⟨2 ^ 52, by norm_num⟩
      · exact ⟨-2 ^ 52, by norm_num⟩
  rw [nearestDouble, hn, roundEven_intCast, ← hn, div_mul_cancel₀]
  positivity

end IotFirmware
