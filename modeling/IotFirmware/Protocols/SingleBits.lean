import IotFirmware.Foundation.Strtof
import IotFirmware.Protocols.DlmsApdu

/-! The bits a magnitude is stored as, read back: they stand for the single
nearest to it. -/
namespace IotFirmware

private theorem roundEven_bounds {x : ℚ} {n : ℕ} (hx : 0 ≤ x) (hn : x < n) : 0 ≤ roundEven x ∧ roundEven x ≤ n := by
  have hfloor := Int.floor_nonneg.mpr hx
  have hbelow : ⌊x⌋ < n := Int.floor_lt.mpr (by exact_mod_cast hn)
  unfold roundEven
  split <;> omega

/-- The spacing of the singles around a number, as a power of two. -/
def ulpExponent (x : ℚ) : ℤ := max (Int.log 2 |x| - 23) (-149)

/-- A single is at most 2 ^ 24 times the spacing. -/
theorem nearestFloat_eq {x : ℚ} (hx : 0 ≤ x) : ∃ n : ℕ, n ≤ 2 ^ 24 ∧ nearestFloat x = n * 2 ^ ulpExponent x := by
  have hulp : (0 : ℚ) < 2 ^ ulpExponent x := by positivity
  have hlarge : x / 2 ^ ulpExponent x < ((2 ^ 24 : ℕ) : ℚ) := by
    rw [div_lt_iff₀ hulp]
    have hlog : x < ((2 : ℕ) : ℚ) ^ (Int.log 2 |x| + 1) := by
      have := Int.lt_zpow_succ_log_self (by norm_num : 1 < 2) |x|
      rwa [abs_of_nonneg hx] at this ⊢
    calc x < ((2 : ℕ) : ℚ) ^ (Int.log 2 |x| + 1) := hlog
      _ ≤ 2 ^ (24 + ulpExponent x) := by
        push_cast
        exact zpow_le_zpow_right₀ (by norm_num) (by unfold ulpExponent; omega)
      _ = ((2 ^ 24 : ℕ) : ℚ) * 2 ^ ulpExponent x := by
        rw [zpow_add₀ (by norm_num)]
        norm_num
  obtain ⟨hlow, hhigh⟩ := roundEven_bounds (div_nonneg hx hulp.le) hlarge
  refine ⟨(roundEven (x / 2 ^ ulpExponent x)).toNat, by omega, ?_⟩
  have hcast : (((roundEven (x / 2 ^ ulpExponent x)).toNat : ℕ) : ℚ) = roundEven (x / 2 ^ ulpExponent x) := by
    exact_mod_cast Int.toNat_of_nonneg hlow
  rw [hcast]
  rfl

/-- A single as its significand times the spacing its bits are counted in. -/
theorem exists_significand {y : ℚ} {n : ℕ} {e : ℤ} (hn : n ≤ 2 ^ 24) (he : -149 ≤ e)
    (hy : y = n * 2 ^ e) (hpos : y ≠ 0) :
    ∃ m : ℕ, m < 2 ^ 24 ∧ (m < 2 ^ 23 → max (Int.log 2 y) (-126) = -126) ∧
      y = m * 2 ^ (max (Int.log 2 y) (-126) - 23) := by
  have hypos : 0 < y := lt_of_le_of_ne (by rw [hy]; positivity) (Ne.symm hpos)
  have hfloor : (2 : ℚ) ^ Int.log 2 y ≤ y := Int.zpow_log_le_self (by norm_num) hypos
  have hceil : y < (2 : ℚ) ^ (Int.log 2 y + 1) := Int.lt_zpow_succ_log_self (by norm_num) y
  set E := max (Int.log 2 y) (-126) with hE
  -- the significand is whole since the spacing of the bits is no wider than that of the rounding
  obtain ⟨m, hm⟩ : ∃ m : ℕ, y = m * 2 ^ (E - 23) := by
    by_cases hle : E - 23 ≤ e
    · obtain ⟨k, hk⟩ := Int.le.dest hle
      refine ⟨n * 2 ^ k, ?_⟩
      rw [hy, ← hk, zpow_add₀ (by norm_num), zpow_natCast]
      push_cast
      ring
    · have hlarge : (2 : ℚ) ^ (24 + e) ≤ y :=
        (zpow_le_zpow_right₀ (by norm_num) (by omega)).trans hfloor
      have hsmall : y ≤ 2 ^ (24 + e) := by
        rw [hy, zpow_add₀ (by norm_num)]
        gcongr
        exact_mod_cast hn
      have hexact : y = 2 ^ (24 + e) := le_antisymm hsmall hlarge
      have hlog : Int.log 2 y = 24 + e := by
        rw [hexact]
        exact Int.log_zpow (by norm_num) (24 + e)
      refine ⟨2 ^ 23, ?_⟩
      rw [hexact, show (24 + e : ℤ) = 23 + (E - 23) by omega, zpow_add₀ (by norm_num)]
      norm_num
  have hspacing : (0 : ℚ) < 2 ^ (E - 23) := by positivity
  refine ⟨m, ?_, fun hsmall => ?_, hm⟩
  · have hlt : (m : ℚ) * 2 ^ (E - 23) < 2 ^ (24 : ℤ) * 2 ^ (E - 23) := by
      rw [← hm, ← zpow_add₀ (by norm_num)]
      exact hceil.trans_le (zpow_le_zpow_right₀ (by norm_num) (by omega))
    have := lt_of_mul_lt_mul_right hlt hspacing.le
    exact_mod_cast this
  · by_contra hnormal
    have hlog : E = Int.log 2 y := by omega
    have hle : (2 : ℚ) ^ (23 : ℤ) * 2 ^ (E - 23) ≤ m * 2 ^ (E - 23) := by
      rw [← hm, ← zpow_add₀ (by norm_num), add_sub_cancel, hlog]
      exact hfloor
    have := le_of_mul_le_mul_right hle hspacing
    have : 2 ^ 23 ≤ m := by exact_mod_cast this
    omega

/-- The value of bits put together from a significand and an exponent field. -/
theorem float32Value_ofNat {m k : ℕ} (hm : m < 2 ^ 24) (hk : k ≤ 253) (hsub : m < 2 ^ 23 → k = 0) :
    float32Value (UInt32.ofNat (m + k * 2 ^ 23)) = .rational (m * 2 ^ ((k : ℤ) - 149)) := by
  set bits := UInt32.ofNat (m + k * 2 ^ 23) with hbits
  have hnat : bits.toNat = m + k * 2 ^ 23 := by
    rw [hbits, UInt32.toNat_ofNat']
    omega
  have hsign : bits >>> 31 ≠ 1 := by
    intro h
    have := congrArg UInt32.toNat h
    rw [UInt32.toNat_shiftRight, Nat.shiftRight_eq_div_pow, hnat] at this
    simp at this
    omega
  have hexponent : ((bits >>> 23) &&& 0xFF).toNat = (m + k * 2 ^ 23) / 2 ^ 23 := by
    have h255 (n : ℕ) : n &&& 255 = n % 256 := Nat.and_two_pow_sub_one_eq_mod n 8
    rw [UInt32.toNat_and, UInt32.toNat_shiftRight, Nat.shiftRight_eq_div_pow, hnat]
    simp only [UInt32.reduceToNat, Nat.reduceMod, h255]
    omega
  have hmantissa : (bits &&& 0x7FFFFF).toNat = (m + k * 2 ^ 23) % 2 ^ 23 := by
    rw [UInt32.toNat_and, hnat]
    exact Nat.and_two_pow_sub_one_eq_mod _ 23
  have hfield : (m + k * 2 ^ 23) / 2 ^ 23 = if m < 2 ^ 23 then 0 else k + 1 := by
    split <;> omega
  have hrest : (m + k * 2 ^ 23) % 2 ^ 23 = if m < 2 ^ 23 then m else m - 2 ^ 23 := by
    split <;> omega
  simp only [float32Value, hsign, hexponent, hmantissa, hfield, hrest, decide_false]
  by_cases hnormal : m < 2 ^ 23
  · obtain rfl := hsub hnormal
    simp only [hnormal, if_true, Nat.reduceEqDiff, if_false, Nat.cast_zero, zero_sub]
  · have hk255 : ¬ k + 1 = 255 := by omega
    have hcast : (2 : ℚ) ^ 23 + ((m - 2 ^ 23 : ℕ) : ℚ) = m := by
      rw [Nat.cast_sub (by omega)]
      push_cast
      ring
    simp only [hnormal, if_false, hk255, Nat.succ_ne_zero, hcast]
    congr 3
    push_cast
    ring

/-- The bits of a magnitude stand for the single nearest to it, as long as there is one. -/
theorem float32Value_magnitudeBits {x : ℚ} (hx : 0 ≤ x) (hmax : Int.log 2 (nearestFloat x) ≤ 127) :
    float32Value (Strtof.magnitudeBits x) = .rational (nearestFloat x) := by
  obtain ⟨n, hn, hy⟩ := nearestFloat_eq hx
  have hulp : -149 ≤ ulpExponent x := by
    unfold ulpExponent
    omega
  rw [Strtof.magnitudeBits]
  set y := nearestFloat x
  by_cases hzero : y = 0
  · rw [if_pos hzero, hzero]
    exact float32Value_ofNat (m := 0) (k := 0) (by norm_num) (by norm_num) (fun _ => rfl) |>.trans (by simp)
  · obtain ⟨m, hm, hsub, hsig⟩ := exists_significand hn hulp hy hzero
    rw [if_neg hzero]
    dsimp only
    set E := max (Int.log 2 y) (-126) with hE
    have hspacing : (2 : ℚ) ^ (E - 23) ≠ 0 := by positivity
    have hfloor : (y / 2 ^ (E - 23)).floor.toNat = m := by
      have hdiv : y / 2 ^ (E - 23) = ((m : ℤ) : ℚ) := by
        rw [div_eq_iff hspacing, hsig]
        push_cast
        rfl
      rw [hdiv, Rat.floor_intCast, Int.toNat_natCast]
    obtain ⟨k, hk⟩ : ∃ k : ℕ, E + 126 = k := Int.eq_ofNat_of_zero_le (by omega)
    rw [if_neg (by omega), hfloor, hk, Int.toNat_natCast, float32Value_ofNat hm (by omega) (fun h => by
      have := hsub h
      omega)]
    congr 1
    rw [hsig, show E - 23 = (k : ℤ) - 149 by omega]

end IotFirmware
