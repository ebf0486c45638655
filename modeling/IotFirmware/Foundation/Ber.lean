import Mathlib.Tactic

/-! BER fields with definite lengths in short form, or in long form with one
length byte. -/
namespace IotFirmware

/-- A length in short form, or behind 0x81. -/
def berLength (long : Bool) (n : ℕ) : List UInt8 := if long then [0x81, UInt8.ofNat n] else [UInt8.ofNat n]

structure BerField where
  tag : UInt8
  value : List UInt8
  long : Bool
  fits : value.length < if long then 256 else 128

namespace BerField

def encode (f : BerField) : List UInt8 := f.tag :: (berLength f.long f.value.length ++ f.value)

end BerField

theorem berLength_length_pos (long : Bool) (n : ℕ) : 0 < (berLength long n).length := by
  cases long <;> simp [berLength]

end IotFirmware
