import IotFirmware.Foundation.SingleFloat
import IotFirmware.Protocols.DlmsApdu

/-! The fixed size integer types of COSEM Data, their encodings, and what the
reader makes of them. -/
namespace IotFirmware
open Checked

inductive AxdrInteger where
  | integer
  | unsigned
  | long
  | longUnsigned
  | doubleLong
  | doubleLongUnsigned
  | long64
  | long64Unsigned
  deriving DecidableEq

namespace AxdrInteger

def tag : AxdrInteger → UInt8
  | integer => 0x0F
  | unsigned => 0x11
  | long => 0x10
  | longUnsigned => 0x12
  | doubleLong => 0x05
  | doubleLongUnsigned => 0x06
  | long64 => 0x14
  | long64Unsigned => 0x15

def width : AxdrInteger → ℕ
  | integer | unsigned => 1
  | long | longUnsigned => 2
  | doubleLong | doubleLongUnsigned => 4
  | long64 | long64Unsigned => 8

def Contains : AxdrInteger → ℤ → Prop
  | integer, v => -2 ^ 7 ≤ v ∧ v < 2 ^ 7
  | unsigned, v => 0 ≤ v ∧ v < 2 ^ 8
  | long, v => -2 ^ 15 ≤ v ∧ v < 2 ^ 15
  | longUnsigned, v => 0 ≤ v ∧ v < 2 ^ 16
  | doubleLong, v => -2 ^ 31 ≤ v ∧ v < 2 ^ 31
  | doubleLongUnsigned, v => 0 ≤ v ∧ v < 2 ^ 32
  | long64, v => -2 ^ 63 ≤ v ∧ v < 2 ^ 63
  | long64Unsigned, v => 0 ≤ v ∧ v < 2 ^ 64

/-- A value as Data: the tag and big endian two's complement. -/
def encode (t : AxdrInteger) (v : ℤ) : List UInt8 := t.tag :: bigEndian t.width v

private theorem width_le (t : AxdrInteger) : t.width ≤ 8 := by
  cases t <;> decide

end AxdrInteger

/-- The low bits of a number in range, taken as signed, are the number. -/
theorem bmod_eq_of_emod_eq {n m : ℕ} {v : ℤ} (hn : (n : ℤ) = v % m) (hlow : -m ≤ v * 2) (hhigh : v * 2 < m) :
    (n : ℤ).bmod m = v := by
  rw [hn, Int.emod_bmod, Int.bmod_eq_of_le_mul_two hlow hhigh]

/-- Every type but long64 is read back from its bytes. -/
theorem numberValue_tag {t : AxdrInteger} (ht : t ≠ .long64) {v : ℤ} (hv : t.Contains v) {raw : UInt64}
    (hraw : (raw.toNat : ℤ) = v % 256 ^ t.width) : numberValue t.tag raw = .rational v := by
  have hsigned {n : ℤ} (h : n = v) : Number.rational n = .rational v := by rw [h]
  cases t <;> simp only [AxdrInteger.Contains, AxdrInteger.width] at hv hraw
  case integer =>
    refine hsigned ((BitVec.toInt_eq_toNat_bmod raw.toUInt8.toBitVec).trans ?_)
    rw [UInt8.toNat_toBitVec, UInt64.toNat_toUInt8]
    exact bmod_eq_of_emod_eq (by omega) (by omega) (by omega)
  case long =>
    refine hsigned ((BitVec.toInt_eq_toNat_bmod raw.toUInt16.toBitVec).trans ?_)
    rw [UInt16.toNat_toBitVec, UInt64.toNat_toUInt16]
    exact bmod_eq_of_emod_eq (by omega) (by omega) (by omega)
  case doubleLong =>
    refine hsigned ((BitVec.toInt_eq_toNat_bmod raw.toUInt32.toBitVec).trans ?_)
    rw [UInt32.toNat_toBitVec, UInt64.toNat_toUInt32]
    exact bmod_eq_of_emod_eq (by omega) (by omega) (by omega)
  case long64 => exact absurd rfl ht
  all_goals
    change Number.rational (raw.toNat : ℚ) = _
    rw [← Int.cast_natCast, hraw, Int.emod_eq_of_lt hv.1 (by omega)]

private theorem numberSize_tag {t : AxdrInteger} (ht : t ≠ .long64) : numberSize t.tag = some t.width := by
  cases t
  case long64 => exact absurd rfl ht
  all_goals rfl

/-- An encoded value is decoded exactly, whatever follows it. -/
theorem decodeNumber_encode {t : AxdrInteger} (ht : t ≠ .long64) {v : ℤ} (hv : t.Contains v) (rest : List UInt8) :
    decodeNumber (t.encode v ++ rest) = .ok (.rational v) := by
  have hlen : 1 + t.width ≤ (t.encode v ++ rest).length := by
    simp [AxdrInteger.encode, add_comm]
  have hslice : slice (t.encode v ++ rest) 1 t.width = .ok (bigEndian t.width v) :=
    slice_eq_ok.mpr ⟨hlen, List.take_left' (bigEndian_length _ _)⟩
  have hraw : ((((bigEndian t.width v).foldl shiftIn 0).toNat : ℕ) : ℤ) = v % 256 ^ t.width := by
    rw [toNat_foldl_shiftIn (by simpa using t.width_le), ofBigEndian_bigEndian]
  simp only [decodeNumber, bind_eq_ok, require_eq_ok, byteAt_eq_ok]
  refine ⟨(), by simp [AxdrInteger.encode], t.tag, rfl, ?_⟩
  rw [numberSize_tag ht]
  simp only [bind_eq_ok, require_eq_ok, pure_eq_ok]
  exact ⟨(), hlen, _, hslice, numberValue_tag ht hv hraw⟩

/-- Decoding into a double of the caller's: whether it succeeds, and what the double holds then. -/
def decodeNumberInto (data : List UInt8) (val : Number) : Checked Unit × Number :=
  match decodeNumber data with
  | .ok n => (.ok (), n.map nearestDouble)
  | .error e => (.error e, val)

private theorem decodeNumber_cons {tag : UInt8} {size : ℕ} (hsize : numberSize tag = some size) (behind : List UInt8) :
    decodeNumber (tag :: behind) = (do
      require (1 + size ≤ (tag :: behind).length)
      pure (numberValue tag ((← slice (tag :: behind) 1 size).foldl shiftIn 0))) := by
  simp [decodeNumber, hsize, require, byteAt, bind, Except.bind]

/-- An encoding cut short is refused, whatever its type. -/
theorem decodeNumber_take (t : AxdrInteger) (v : ℤ) {k : ℕ} (hk : k < (t.encode v).length) :
    decodeNumber ((t.encode v).take k) = failure := by
  rw [AxdrInteger.encode, List.length_cons, bigEndian_length] at hk
  cases k with
  | zero => rfl
  | succ k =>
    have hshort : ¬ 1 + t.width ≤ (t.tag :: (bigEndian t.width v).take k).length := by
      rw [List.length_cons, List.length_take, bigEndian_length]
      omega
    rw [AxdrInteger.encode, List.take_succ_cons]
    by_cases ht : t = .long64
    · subst ht
      rfl
    · rw [decodeNumber_cons (numberSize_tag ht), require, if_neg hshort]
      rfl

/-- A tag that is not in the table is refused, whatever follows it. -/
theorem decodeNumber_long64 (v : ℤ) (rest : List UInt8) :
    decodeNumber (AxdrInteger.long64.encode v ++ rest) = failure := rfl

/-- The values of every fixed size integer type but long64 are decoded exactly, and no encoding cut short is. -/
theorem decodeNumber_inverts_iff {t : AxdrInteger} {v : ℤ} (hv : t.Contains v) (hexact : |v| ≤ 2 ^ 53)
    (rest : List UInt8) (val : Number) :
    (decodeNumberInto (t.encode v ++ rest) val = (.ok (), .rational v) ∧
        ∀ k < (t.encode v).length, decodeNumberInto ((t.encode v).take k) val = (failure, val)) ↔
      t ≠ .long64 := by
  constructor
  · rintro ⟨hdecoded, -⟩ rfl
    rw [decodeNumberInto, decodeNumber_long64] at hdecoded
    exact failure_ne_ok () (Prod.mk.inj hdecoded).1
  · intro ht
    refine ⟨?_, fun k hk => ?_⟩
    · rw [decodeNumberInto, decodeNumber_encode ht hv rest]
      dsimp only [Number.map]
      rw [nearestDouble_intCast hexact]
    · rw [decodeNumberInto, decodeNumber_take t v hk]
      rfl

theorem decodeNumber_inverts_long :
    decodeNumberInto (AxdrInteger.long.encode (-123) ++ [0x00]) .nan = (.ok (), .rational (-123 : ℤ)) ∧
      ∀ k < (AxdrInteger.long.encode (-123)).length,
        decodeNumberInto ((AxdrInteger.long.encode (-123)).take k) .nan = (failure, .nan) :=
  (decodeNumber_inverts_iff (t := .long) (v := -123) ⟨by norm_num, by norm_num⟩ (by norm_num) [0x00] .nan).mpr
    (by decide)

/-- A long64 five is refused. -/
theorem decodeNumber_long64_refused :
    ¬ ∀ (t : AxdrInteger) (v : ℤ) (rest : List UInt8) (val : Number), t.Contains v → |v| ≤ 2 ^ 53 →
      decodeNumberInto (t.encode v ++ rest) val = (.ok (), .rational v) ∧
        ∀ k < (t.encode v).length, decodeNumberInto ((t.encode v).take k) val = (failure, val) := by
  intro h
  have hfive := (h .long64 5 [] .nan ⟨by norm_num, by norm_num⟩ (by norm_num)).1
  rw [decodeNumberInto, decodeNumber_long64] at hfive
  exact failure_ne_ok () (Prod.mk.inj hfive).1

/-- A scaler multiplies by its power of ten. -/
theorem applyScaler_rational (value : ℚ) (scaler : Int8) :
    applyScaler (.rational value) scaler = .rational (value * 10 ^ scaler.toInt) := by
  have hpower (n : ℕ) : (· * 10)^[n] (1 : ℚ) = 10 ^ n := by
    induction n with
    | zero => rfl
    | succ n ih => rw [Function.iterate_succ_apply', ih, pow_succ]
  have hsign : scaler < 0 ↔ scaler.toInt < 0 := Int8.lt_iff_toInt_lt
  simp only [applyScaler, hpower, Number.map, hsign]
  split
  case isTrue hneg =>
    have habs : scaler.toInt = -(scaler.toInt.natAbs : ℤ) := by omega
    conv_rhs => rw [habs, zpow_neg, zpow_natCast]
    rw [div_eq_mul_inv]
  case isFalse hpos =>
    have habs : scaler.toInt = (scaler.toInt.natAbs : ℤ) := by omega
    conv_rhs => rw [habs, zpow_natCast]

end IotFirmware
