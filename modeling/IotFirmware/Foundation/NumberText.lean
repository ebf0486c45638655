import IotFirmware.Foundation.CStrings
import IotFirmware.Foundation.Pieces
import Mathlib.Data.List.Lex
import Mathlib.Data.Nat.Log

/-! Natural numbers as text of a fixed width or of just the digits they need, read
back by their digits, and in the order of the numbers. -/
namespace IotFirmware.NumberText
open Strtof

def digitOf (d : ℕ) : UInt8 := UInt8.ofNat (if d < 10 then 0x30 + d else 0x57 + d)

theorem digitValue_digitOf {d : ℕ} (h : d < 16) : digitValue (digitOf d) = some d := by
  revert d
  decide

theorem isDigit_digitOf {base d : ℕ} (hbase : base ≤ 16) (h : d < base) : isDigit base (digitOf d) = true := by
  rw [isDigit, digitValue_digitOf (h.trans_le hbase)]
  simpa using h

theorem digitOf_lt_iff {c d : ℕ} (hc : c < 16) (hd : d < 16) : digitOf c < digitOf d ↔ c < d := by
  have htable : ∀ c < 16, ∀ d < 16, digitOf c < digitOf d ↔ c < d := by decide
  exact htable c hc d hd

theorem digitOf_inj {c d : ℕ} (hc : c < 16) (hd : d < 16) : digitOf c = digitOf d ↔ c = d := by
  constructor
  · intro h
    have hvalue := digitValue_digitOf hc
    rw [h, digitValue_digitOf hd] at hvalue
    exact (Option.some.inj hvalue).symm
  · exact congrArg digitOf

/-- The last digits of a number, so many of them. -/
def padded (base : ℕ) : ℕ → ℕ → List UInt8
  | 0, _ => []
  | width + 1, n => padded base width (n / base) ++ [digitOf (n % base)]

def decimalText (n : ℕ) : List UInt8 := padded 10 (Nat.log 10 n + 1) n

section Padded
variable {base width a b n : ℕ}

@[simp] theorem length_padded (base width n : ℕ) : (padded base width n).length = width := by
  induction width generalizing n with
  | zero => rfl
  | succ width ih => rw [padded, List.length_append, ih, List.length_singleton]

theorem isDigit_padded (hpos : 0 < base) (hbase : base ≤ 16) : ∀ d ∈ padded base width n, isDigit base d = true := by
  induction width generalizing n with
  | zero => simp [padded]
  | succ width ih =>
    rw [padded, List.forall_mem_append, List.forall_mem_singleton]
    exact ⟨ih, isDigit_digitOf hbase (Nat.mod_lt n hpos)⟩

/-- The digits of a number that they are enough for have its value. -/
theorem digitsValue_padded (hpos : 0 < base) (hbase : base ≤ 16) (h : n < base ^ width) :
    digitsValue base (padded base width n) = n := by
  induction width generalizing n with
  | zero =>
    obtain rfl : n = 0 := by simpa using h
    rfl
  | succ width ih =>
    have hlt := Nat.mod_lt n hpos
    have hdiv := Nat.div_add_mod n base
    rw [padded, digitsValue_append, ih (Nat.div_lt_of_lt_mul (by rwa [pow_succ'] at h)), List.length_singleton,
      pow_one, digitsValue, List.foldl_cons, List.foldl_nil, digitValue_digitOf (by omega)]
    simp only [Option.getD_some]
    rw [Nat.mul_comm]
    omega

/-- Texts that start with as many digits are in the order of those numbers, and then
of what is behind. -/
theorem padded_append_lt (hpos : 0 < base) (hbase : base ≤ 16) (ha : a < base ^ width) (hb : b < base ^ width)
    (s t : List UInt8) : padded base width a ++ s < padded base width b ++ t ↔ a < b ∨ a = b ∧ s < t := by
  induction width generalizing a b s t with
  | zero =>
    obtain rfl : a = 0 := by simpa using ha
    obtain rfl : b = 0 := by simpa using hb
    simp [padded]
  | succ width ih =>
    have hmono : Monotone fun k => base * k := fun _ _ h => Nat.mul_le_mul_left _ h
    have hin (n : ℕ) : base * (n / base) + n % base < base * (n / base + 1) := by
      rw [Nat.mul_succ]
      exact Nat.add_lt_add_left (Nat.mod_lt n hpos) _
    have horder := Pieces.lt_iff_of_pieces hmono (hin a) (hin b)
    have heq : a = b ↔ a / base = b / base ∧ a % base = b % base :=
      ⟨fun h => by simp [h], fun h => by rw [← Nat.div_add_mod a base, h.1, h.2, Nat.div_add_mod]⟩
    simp only [Nat.div_add_mod] at horder
    rw [pow_succ'] at ha hb
    have hamod := Nat.mod_lt a hpos
    have hbmod := Nat.mod_lt b hpos
    rw [padded, padded, List.append_assoc, List.append_assoc, ih (Nat.div_lt_of_lt_mul ha) (Nat.div_lt_of_lt_mul hb),
      List.singleton_append, List.singleton_append, List.cons_lt_cons_iff, digitOf_lt_iff (by omega) (by omega),
      digitOf_inj (by omega) (by omega), horder, heq]
    grind

theorem padded_succ (base width n : ℕ) :
    padded base (width + 1) n = digitOf (n / base ^ width % base) :: padded base width n := by
  induction width generalizing n with
  | zero => simp [padded]
  | succ width ih =>
    rw [padded, ih, Nat.div_div_eq_div_mul, ← pow_succ', List.cons_append]
    rfl

end Padded

section Decimal
variable {n : ℕ}

theorem isDigit_decimalText : ∀ d ∈ decimalText n, isDigit 10 d = true := isDigit_padded (by decide) (by decide)

theorem digitsValue_decimalText (n : ℕ) : digitsValue 10 (decimalText n) = n :=
  digitsValue_padded (by decide) (by decide) (Nat.lt_pow_succ_log_self (by decide) n)

theorem decimalText_length_pos (n : ℕ) : 0 < (decimalText n).length := by simp [decimalText]

theorem decimalText_length_le {width : ℕ} (hwidth : width ≠ 0) (h : n < 10 ^ width) :
    (decimalText n).length ≤ width := by
  rw [decimalText, length_padded]
  exact Nat.log_lt_of_lt_pow' hwidth h

/-- A number of more than one digit does not start with a zero. -/
theorem decimalText_head (n : ℕ) : (decimalText n).length = 1 ∨ (decimalText n).head? ≠ some 0x30 := by
  rw [decimalText, length_padded, padded_succ, List.head?_cons]
  rcases Nat.eq_zero_or_pos n with rfl | hpos
  · simp
  · have hone : 0 < n / 10 ^ Nat.log 10 n :=
      Nat.div_pos (Nat.pow_log_le_self 10 hpos.ne') (by positivity)
    have hten : n / 10 ^ Nat.log 10 n < 10 := Nat.div_lt_of_lt_mul (by
      rw [← pow_succ]
      exact Nat.lt_pow_succ_log_self (by decide) n)
    refine .inr fun hzero => ?_
    rw [Nat.mod_eq_of_lt hten] at hzero
    have hdigit : n / 10 ^ Nat.log 10 n = 0 :=
      (digitOf_inj (by omega) (by decide)).mp (Option.some.inj hzero)
    omega

/-- A number with just so many digits needs no zeros in front. -/
theorem decimalText_eq_padded {width : ℕ} (hle : 10 ^ width ≤ n) (hlt : n < 10 ^ (width + 1)) :
    decimalText n = padded 10 (width + 1) n := by
  rw [decimalText, Nat.log_eq_of_pow_le_of_lt_pow hle hlt]

end Decimal

/-- Numbers in decimal with these bytes between them. -/
def readFields : List UInt8 → List UInt8 → Option (List ℕ)
  | [], s => if s ≠ [] ∧ s.all (isDigit 10) then some [digitsValue 10 s] else none
  | stop :: stops, s =>
    match s.dropWhile (isDigit 10) with
    | [] => none
    | b :: rest =>
      if b = stop ∧ s.takeWhile (isDigit 10) ≠ [] then
        (readFields stops rest).map (digitsValue 10 (s.takeWhile (isDigit 10)) :: ·)
      else none

section Fields
variable {text : List UInt8}

theorem readFields_cons {stop : UInt8} (hne : text ≠ []) (hdigits : ∀ b ∈ text, isDigit 10 b = true)
    (hstop : isDigit 10 stop = false) (stops rest : List UInt8) :
    readFields (stop :: stops) (text ++ stop :: rest) = (readFields stops rest).map (digitsValue 10 text :: ·) := by
  have htake : (text ++ stop :: rest).takeWhile (isDigit 10) = text := by
    rw [List.takeWhile_append_of_pos hdigits, List.takeWhile_cons_of_neg (by simp [hstop]), List.append_nil]
  have hdrop : (text ++ stop :: rest).dropWhile (isDigit 10) = stop :: rest := by
    rw [List.dropWhile_append_of_pos hdigits, List.dropWhile_cons_of_neg (by simp [hstop])]
  rw [readFields, hdrop, htake]
  exact if_pos ⟨rfl, hne⟩

theorem readFields_padded {width n : ℕ} (hwidth : 0 < width) (hn : n < 10 ^ width) {stop : UInt8}
    (hstop : isDigit 10 stop = false) (stops rest : List UInt8) :
    readFields (stop :: stops) (padded 10 width n ++ stop :: rest) = (readFields stops rest).map (n :: ·) := by
  have hne : padded 10 width n ≠ [] := List.ne_nil_of_length_pos (by rwa [length_padded])
  rw [readFields_cons hne (isDigit_padded (by decide) (by decide)) hstop, digitsValue_padded (by decide) (by decide) hn]

end Fields
end IotFirmware.NumberText
