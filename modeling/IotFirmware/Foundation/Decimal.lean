import IotFirmware.Foundation.StrtofScan
import Mathlib.Data.List.TakeWhile
import Mathlib.Data.Nat.Digits.Defs

/-! Plain decimal numbers, as text and as exact numbers. -/
namespace IotFirmware

inductive PlusMinus where
  | plus
  | minus
  deriving DecidableEq, Repr

/-- A number in digits, with an optional sign and an optional point, and no exponent. -/
structure PlainDecimal where
  sign : Option PlusMinus
  whole : List (Fin 10)
  fraction : Option (List (Fin 10))
  some_digit : whole ++ fraction.getD [] ≠ []

namespace PlainDecimal

def digitByte (d : Fin 10) : UInt8 := UInt8.ofNat (0x30 + d)

def signText : Option PlusMinus → List UInt8
  | none => []
  | some .plus => [0x2B]
  | some .minus => [0x2D]

def fractionText : Option (List (Fin 10)) → List UInt8
  | none => []
  | some digits => 0x2E :: digits.map digitByte

def text (d : PlainDecimal) : List UInt8 :=
  signText d.sign ++ (d.whole.map digitByte ++ fractionText d.fraction)

def negative (d : PlainDecimal) : Bool := d.sign = some .minus

def digitsNat (digits : List (Fin 10)) : Nat := Nat.ofDigits 10 (digits.map Fin.val).reverse

def magnitude (d : PlainDecimal) : ℚ :=
  digitsNat (d.whole ++ d.fraction.getD []) / 10 ^ (d.fraction.getD []).length

theorem isDigit_digitByte (d : Fin 10) : Strtof.isDigit 10 (digitByte d) = true := by
  revert d
  decide

theorem digitValue_digitByte (d : Fin 10) : Strtof.digitValue (digitByte d) = some d.val := by
  revert d
  decide

theorem digitsValue_digits (digits : List (Fin 10)) :
    Strtof.digitsValue 10 (digits.map digitByte) = digitsNat digits := by
  induction digits using List.reverseRecOn with
  | nil => rfl
  | append_singleton digits d ih =>
    rw [Strtof.digitsValue] at ih
    rw [Strtof.digitsValue, List.map_append, List.foldl_append, ih]
    simp only [digitsNat, List.map_append, List.map_cons, List.map_nil, List.reverse_append, List.reverse_cons,
      List.reverse_nil, List.nil_append, List.singleton_append, List.foldl_cons, List.foldl_nil,
      digitValue_digitByte, Option.getD_some, Nat.ofDigits_cons]
    ring

theorem takeWhile_digits (digits : List (Fin 10)) :
    (digits.map digitByte).takeWhile (Strtof.isDigit 10) = digits.map digitByte := by
  rw [List.takeWhile_eq_self_iff, List.forall_mem_map]
  exact fun d _ => isDigit_digitByte d

theorem dropWhile_digits (digits : List (Fin 10)) :
    (digits.map digitByte).dropWhile (Strtof.isDigit 10) = [] := by
  rw [List.dropWhile_eq_nil_iff, List.forall_mem_map]
  exact fun d _ => isDigit_digitByte d

variable (d : PlainDecimal)

def unsigned : List UInt8 := d.whole.map digitByte ++ fractionText d.fraction

theorem mem_unsigned {b : UInt8} (h : b ∈ d.unsigned) : b = 0x2E ∨ ∃ digit, b = digitByte digit := by
  have hfraction : ∀ fraction, b ∈ fractionText fraction → b = 0x2E ∨ ∃ digit, b = digitByte digit := by
    intro fraction hb
    cases fraction with
    | none => exact absurd hb List.not_mem_nil
    | some digits =>
      rcases List.mem_cons.mp hb with rfl | hb
      · exact .inl rfl
      · obtain ⟨digit, -, rfl⟩ := List.mem_map.mp hb
        exact .inr ⟨digit, rfl⟩
  rcases List.mem_append.mp h with hb | hb
  · obtain ⟨digit, -, rfl⟩ := List.mem_map.mp hb
    exact .inr ⟨digit, rfl⟩
  · exact hfraction _ hb

/-- The text holds no letter. -/
theorem keyword_unsigned {word : List UInt8} (hword : 0x6E ∈ word ∨ 0x78 ∈ word) :
    Strtof.keyword word d.unsigned = none := by
  rw [Strtof.keyword_eq, if_neg]
  intro h
  have hletter : ∀ digit, Strtof.lowerCase (digitByte digit) ≠ 0x6E ∧ Strtof.lowerCase (digitByte digit) ≠ 0x78 := by
    decide
  have hmem : ∀ w ∈ word, w ≠ 0x6E ∧ w ≠ 0x78 := by
    intro w hw
    rw [← h] at hw
    obtain ⟨b, hb, rfl⟩ := List.mem_map.mp hw
    rcases d.mem_unsigned (List.mem_of_mem_take hb) with rfl | ⟨digit, rfl⟩
    · decide
    · exact hletter digit
  rcases hword with hw | hw
  · exact (hmem _ hw).1 rfl
  · exact (hmem _ hw).2 rfl

theorem exists_unsigned : ∃ b rest, d.unsigned = b :: rest ∧ b ≠ 0x2D ∧ b ≠ 0x2B ∧ Strtof.isSpace b = false := by
  have hdigit : ∀ digit, digitByte digit ≠ 0x2D ∧ digitByte digit ≠ 0x2B ∧
      Strtof.isSpace (digitByte digit) = false := by decide
  cases hs : d.unsigned with
  | nil =>
    have hsome := d.some_digit
    cases hfraction : d.fraction <;> simp_all [unsigned, fractionText]
  | cons b rest =>
    refine ⟨b, rest, rfl, ?_⟩
    rcases d.mem_unsigned (hs ▸ List.mem_cons_self : b ∈ d.unsigned) with rfl | ⟨digit, rfl⟩
    · decide
    · exact hdigit digit

theorem mem_text {b : UInt8} (h : b ∈ d.text) : b = 0x2B ∨ b = 0x2D ∨ b = 0x2E ∨ ∃ digit, b = digitByte digit := by
  have hsign : ∀ sign, b ∈ signText sign → b = 0x2B ∨ b = 0x2D := by
    intro sign hb
    rcases sign with _ | _ | _
    · exact absurd hb List.not_mem_nil
    · exact .inl (List.mem_singleton.mp hb)
    · exact .inr (List.mem_singleton.mp hb)
  rw [text, ← unsigned, List.mem_append] at h
  rcases h with h | h
  · exact (hsign _ h).imp_right .inl
  · exact .inr (.inr (d.mem_unsigned h))

/-- The text holds no byte that is part of no number. -/
theorem not_mem_text {z : UInt8} (hsigns : z ≠ 0x2B ∧ z ≠ 0x2D ∧ z ≠ 0x2E) (hdigit : ∀ digit, z ≠ digitByte digit) :
    z ∉ d.text := by
  intro h
  rcases d.mem_text h with h | h | h | ⟨digit, h⟩
  · exact hsigns.1 h
  · exact hsigns.2.1 h
  · exact hsigns.2.2 h
  · exact hdigit digit h

theorem sign_text : Strtof.sign (d.text.dropWhile Strtof.isSpace) = (d.negative, d.unsigned) := by
  obtain ⟨b, rest, hunsigned, hminus, hplus, hspace⟩ := d.exists_unsigned
  rw [text, ← unsigned, hunsigned, negative]
  rcases d.sign with _ | _ | _
  · simp [signText, hspace, Strtof.sign, hminus, hplus]
  · rfl
  · rfl

/-- The digits of a plain decimal read as its magnitude, and nothing is left of them. -/
theorem mantissa_text :
    Strtof.mantissa 10 d.unsigned = some (d.magnitude, []) := by
  have hsome := d.some_digit
  have hdot : Strtof.isDigit 10 0x2E = false := by decide
  cases hfraction : d.fraction with
  | none =>
    rw [unsigned, hfraction, fractionText, List.append_nil, Strtof.mantissa_whole (by simp [dropWhile_digits]),
      takeWhile_digits, dropWhile_digits, if_neg (by simpa [hfraction] using hsome), digitsValue_digits]
    simp [magnitude, hfraction]
  | some digits =>
    rw [unsigned, hfraction, fractionText, Strtof.mantissa_point
        (by rw [Strtof.dropWhile_stop hdot, dropWhile_digits, List.nil_append]),
      Strtof.takeWhile_stop hdot, takeWhile_digits, takeWhile_digits, dropWhile_digits,
      if_neg (by simpa [hfraction] using hsome), ← List.map_append, digitsValue_digits]
    simp [magnitude, hfraction]

theorem decimal_text :
    Strtof.decimal d.unsigned = some (d.magnitude, []) := by
  rw [Strtof.decimal, mantissa_text]
  simp [Strtof.exponent]

end PlainDecimal

/-- `strtof` takes the whole of a plain decimal and makes the nearest float of it. -/
theorem strtof_text (d : PlainDecimal) :
    strtof d.text = some (Strtof.signBit d.negative ||| Strtof.magnitudeBits d.magnitude, []) := by
  have hmagnitude : Strtof.magnitude d.unsigned = some (Strtof.magnitudeBits d.magnitude, []) := by
    rw [Strtof.magnitude, d.keyword_unsigned (.inl (by decide)), d.keyword_unsigned (.inr (by decide)),
      d.decimal_text]
    rfl
  have hnan : Strtof.keyword (ascii "nan") d.unsigned = none := d.keyword_unsigned (.inl (by decide))
  simp only [strtof, d.sign_text, hnan, hmagnitude, Option.map_some]

def PlainDecimal.bits (d : PlainDecimal) : UInt32 := Strtof.signBit d.negative ||| Strtof.magnitudeBits d.magnitude

/-- The text is a plain decimal in the range of a single, and these are its bits. -/
def SpellsFloat (text : List UInt8) (bits : UInt32) : Prop :=
  ∃ d : PlainDecimal, text = d.text ∧ Strtof.magnitudeBits d.magnitude ≠ 0x7F800000 ∧ bits = d.bits

theorem SpellsFloat.strtof {text : List UInt8} {bits : UInt32} (h : SpellsFloat text bits) :
    strtof text = some (bits, []) := by
  obtain ⟨d, rfl, -, rfl⟩ := h
  exact strtof_text d

end IotFirmware
