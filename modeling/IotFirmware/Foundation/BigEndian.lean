import Mathlib.Tactic

/-! Numbers as big endian two's complement bytes, and read back from a 64 bit
accumulator that the bytes were shifted into. -/
namespace IotFirmware

/-- The low `width` bytes of a number, the highest first. -/
def bigEndian : (width : ℕ) → ℤ → List UInt8
  | 0, _ => []
  | width + 1, v => bigEndian width (v / 256) ++ [UInt8.ofNat (v % 256).toNat]

def shiftIn (raw : UInt64) (b : UInt8) : UInt64 := (raw <<< 8) ||| b.toUInt64

@[simp] theorem bigEndian_length (width : ℕ) (v : ℤ) : (bigEndian width v).length = width := by
  induction width generalizing v with
  | zero => rfl
  | succ width ih => simp [bigEndian, ih]

theorem toNat_shiftIn {raw : UInt64} (h : raw.toNat < 2 ^ 56) (b : UInt8) :
    (shiftIn raw b).toNat = raw.toNat * 256 + b.toNat := by
  have hor := Nat.shiftLeft_add_eq_or_of_lt (show b.toNat < 2 ^ 8 from b.toNat_lt) raw.toNat
  rw [shiftIn, UInt64.toNat_or, UInt64.toNat_shiftLeft, UInt8.toNat_toUInt64]
  simp only [UInt64.reduceToNat, Nat.reduceMod]
  rw [Nat.mod_eq_of_lt (by rw [Nat.shiftLeft_eq]; omega), ← hor, Nat.shiftLeft_eq]

def ofBigEndian (bytes : List UInt8) : ℕ := bytes.foldl (fun n b => n * 256 + b.toNat) 0

theorem ofBigEndian_append (bytes : List UInt8) (b : UInt8) :
    ofBigEndian (bytes ++ [b]) = ofBigEndian bytes * 256 + b.toNat := by
  simp [ofBigEndian]

theorem ofBigEndian_lt (bytes : List UInt8) : ofBigEndian bytes < 256 ^ bytes.length := by
  induction bytes using List.reverseRecOn with
  | nil => simp [ofBigEndian]
  | append_singleton bytes b ih =>
    have hb := b.toNat_lt
    rw [ofBigEndian_append, List.length_append, List.length_singleton, Nat.pow_succ]
    omega

/-- Up to eight bytes are shifted in without loss. -/
theorem toNat_foldl_shiftIn {bytes : List UInt8} (h : bytes.length ≤ 8) :
    (bytes.foldl shiftIn 0).toNat = ofBigEndian bytes := by
  induction bytes using List.reverseRecOn with
  | nil => rfl
  | append_singleton bytes b ih =>
    rw [List.length_append, List.length_singleton] at h
    have hraw := ih (by omega)
    have hlt : ofBigEndian bytes < 2 ^ 56 := by
      calc ofBigEndian bytes < 256 ^ bytes.length := ofBigEndian_lt bytes
        _ ≤ 256 ^ 7 := Nat.pow_le_pow_right (by omega) (by omega)
        _ = 2 ^ 56 := by norm_num
    rw [List.foldl_append, List.foldl_cons, List.foldl_nil, toNat_shiftIn (hraw ▸ hlt), hraw, ofBigEndian_append]

/-- The bytes of a number spell it, modulo what they can hold. -/
theorem ofBigEndian_bigEndian (width : ℕ) (v : ℤ) : (ofBigEndian (bigEndian width v) : ℤ) = v % 256 ^ width := by
  induction width generalizing v with
  | zero => simp [bigEndian, ofBigEndian]
  | succ width ih =>
    have hbyte : (UInt8.ofNat (v % 256).toNat).toNat = (v % 256).toNat := by
      rw [UInt8.toNat_ofNat']
      omega
    have hpow : (0 : ℤ) < 256 ^ width := by positivity
    have hlow := Int.emod_nonneg (v / 256) hpow.ne'
    have hhigh := Int.emod_lt_of_pos (v / 256) hpow
    rw [bigEndian, ofBigEndian_append, Nat.cast_add, Nat.cast_mul, ih, hbyte, Int.toNat_of_nonneg (by omega)]
    have hsplit : v = (v / 256 % 256 ^ width * 256 + v % 256) + 256 ^ (width + 1) * (v / 256 / 256 ^ width) := by
      linear_combination -Int.mul_ediv_add_emod v 256 - 256 * Int.mul_ediv_add_emod (v / 256) (256 ^ width)
    have hmod : (v / 256 % 256 ^ width * 256 + v % 256) % 256 ^ (width + 1) =
        v / 256 % 256 ^ width * 256 + v % 256 :=
      Int.emod_eq_of_lt (by omega) (by rw [pow_succ]; omega)
    conv_rhs => rw [hsplit, Int.add_mul_emod_self_left, hmod]
    rfl

/-- A 32 bit word put together again from its four bytes. -/
theorem word_of_bytes (raw : UInt32) : (raw >>> 24).toUInt8.toUInt32 <<< 24 ||| (raw >>> 16).toUInt8.toUInt32 <<< 16 |||
    (raw >>> 8).toUInt8.toUInt32 <<< 8 ||| raw.toUInt8.toUInt32 = raw := by
  apply UInt32.toBitVec_inj.mp
  apply BitVec.eq_of_getLsbD_eq
  intro i hi
  have h24 : (24 : UInt32).toBitVec % 32 = 24#32 := by decide
  have h16 : (16 : UInt32).toBitVec % 32 = 16#32 := by decide
  have h8 : (8 : UInt32).toBitVec % 32 = 8#32 := by decide
  simp only [UInt32.toBitVec_or, UInt32.toBitVec_shiftLeft, UInt8.toBitVec_toUInt32, UInt32.toBitVec_toUInt8,
    UInt32.toBitVec_shiftRight, h24, h16, h8, BitVec.getLsbD_or, BitVec.shiftLeft_eq', BitVec.ushiftRight_eq',
    BitVec.getLsbD_shiftLeft, BitVec.getLsbD_setWidth, BitVec.getLsbD_ushiftRight, BitVec.toNat_ofNat, Nat.reducePow,
    Nat.reduceMod, hi, decide_true, Bool.true_and]
  obtain h | ⟨h, h'⟩ | ⟨h, h'⟩ | h : i < 8 ∨ (8 ≤ i ∧ i < 16) ∨ (16 ≤ i ∧ i < 24) ∨ 24 ≤ i := by omega
  · simp [h, show i < 16 by omega, show i < 24 by omega]
  · simp [show ¬ i < 8 by omega, h', show i < 24 by omega, show i - 8 < 8 by omega, show 8 + (i - 8) = i by omega]
    omega
  · simp [h', show ¬ i < 8 by omega, show ¬ i < 16 by omega, show ¬ i - 8 < 8 by omega, show i - 16 < 8 by omega,
      show 16 + (i - 16) = i by omega]
    omega
  · simp [show ¬ i < 8 by omega, show ¬ i < 24 by omega, show ¬ i < 16 by omega, show ¬ i - 8 < 8 by omega,
      show ¬ i - 16 < 8 by omega, show i - 24 < 8 by omega, show 24 + (i - 24) = i by omega]
    omega

end IotFirmware
