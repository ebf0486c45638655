import IotFirmware.Foundation.Decimal

/-! `atof` on the bytes of a string, narrowed to a single. -/
namespace IotFirmware
namespace Strtof

/-- The single nearest to the double nearest to a magnitude. -/
def narrowedBits (x : ℚ) : UInt32 := magnitudeBits (nearestDouble x)

def doubleMagnitude (s : List UInt8) : Option UInt32 :=
  match keyword (ascii "inf") s with
  | some _ => some 0x7F800000
  | none =>
    match (keyword (ascii "0x") s).bind hexadecimal with
    | some (value, _) => some (narrowedBits value)
    | none => (decimal s).map fun scanned => narrowedBits scanned.1

end Strtof

/-- The number a string starts with, whatever is behind it; zero where none does. -/
def atof (s : List UInt8) : UInt32 :=
  let (negative, s) := Strtof.sign (s.dropWhile Strtof.isSpace)
  match Strtof.keyword (ascii "nan") s with
  | some _ => Strtof.signBit negative ||| 0x7FC00000
  | none => ((Strtof.doubleMagnitude s).map fun bits => Strtof.signBit negative ||| bits).getD 0

/-- The text is a plain decimal in the range of a single, and these are the bits
`atof` rounds it to. -/
def SpellsDouble (text : List UInt8) (bits : UInt32) : Prop :=
  ∃ d : PlainDecimal, text = d.text ∧ Strtof.narrowedBits d.magnitude ≠ 0x7F800000 ∧
    bits = Strtof.signBit d.negative ||| Strtof.narrowedBits d.magnitude

theorem atof_text (d : PlainDecimal) :
    atof d.text = Strtof.signBit d.negative ||| Strtof.narrowedBits d.magnitude := by
  have hnan : Strtof.keyword (ascii "nan") d.unsigned = none := d.keyword_unsigned (.inl (by decide))
  have hmagnitude : Strtof.doubleMagnitude d.unsigned = some (Strtof.narrowedBits d.magnitude) := by
    rw [Strtof.doubleMagnitude, d.keyword_unsigned (.inl (by decide)), d.keyword_unsigned (.inr (by decide)),
      d.decimal_text]
    rfl
  simp only [atof, d.sign_text, hnan, hmagnitude, Option.map_some, Option.getD_some]

theorem SpellsDouble.atof {text : List UInt8} {bits : UInt32} (h : SpellsDouble text bits) : atof text = bits := by
  obtain ⟨d, rfl, -, rfl⟩ := h
  exact atof_text d

/-- A plain decimal is some text, and none of it a NUL. -/
theorem PlainDecimal.text_ne_nil (d : PlainDecimal) : d.text ≠ [] := by
  obtain ⟨b, rest, hunsigned, -⟩ := d.exists_unsigned
  rw [text, ← unsigned, hunsigned]
  simp

theorem PlainDecimal.nul_not_mem_text (d : PlainDecimal) : 0 ∉ d.text := d.not_mem_text (by decide) (by decide)

end IotFirmware
