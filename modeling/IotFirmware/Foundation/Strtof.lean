import IotFirmware.Foundation.Bytes
import IotFirmware.Foundation.SingleFloat

/-! `strtof` on the bytes of a string: what it takes for a number, and the single
precision bits it makes of it. -/
namespace IotFirmware

/-- What the C string functions see of a string. -/
def cString (s : List UInt8) : List UInt8 := s.takeWhile (· ≠ 0)

namespace Strtof

/-- The bits of the single nearest to a magnitude, infinity past the largest one. -/
def magnitudeBits (x : ℚ) : UInt32 :=
  let y := nearestFloat x
  if y = 0 then 0
  else
    let exponent := max (Int.log 2 y) (-126)
    if 127 < exponent then 0x7F800000
    else UInt32.ofNat ((y / 2 ^ (exponent - 23)).floor.toNat + (exponent + 126).toNat * 2 ^ 23)

def signBit (negative : Bool) : UInt32 := if negative then 0x80000000 else 0

def isSpace (b : UInt8) : Bool := b == 0x20 || (0x09 ≤ b && b ≤ 0x0D)

def digitValue (b : UInt8) : Option Nat :=
  if 0x30 ≤ b ∧ b ≤ 0x39 then some (b.toNat - 0x30)
  else if 0x41 ≤ b ∧ b ≤ 0x46 then some (b.toNat - 0x41 + 10)
  else if 0x61 ≤ b ∧ b ≤ 0x66 then some (b.toNat - 0x61 + 10)
  else none

def isDigit (base : Nat) (b : UInt8) : Bool := (digitValue b).any (· < base)

def digitsValue (base : Nat) (digits : List UInt8) : Nat :=
  digits.foldl (fun value b => value * base + (digitValue b).getD 0) 0

/-- Bytes of a word whatever their case, and what is behind them. -/
def keyword (word s : List UInt8) : Option (List UInt8) :=
  if (s.take word.length).map (fun b => if 0x41 ≤ b ∧ b ≤ 0x5A then b + 0x20 else b) = word then
    some (s.drop word.length)
  else none

def sign : List UInt8 → Bool × List UInt8
  | 0x2D :: rest => (true, rest)
  | 0x2B :: rest => (false, rest)
  | s => (false, s)

def mantissa (base : Nat) (s : List UInt8) : Option (ℚ × List UInt8) :=
  let whole := s.takeWhile (isDigit base)
  match s.dropWhile (isDigit base) with
  | 0x2E :: rest =>
    let fraction := rest.takeWhile (isDigit base)
    if whole = [] ∧ fraction = [] then none
    else some (digitsValue base (whole ++ fraction) / base ^ fraction.length, rest.dropWhile (isDigit base))
  | rest => if whole = [] then none else some (digitsValue base whole, rest)

/-- An optional exponent behind either case of its marker, always in decimal. -/
def exponent (upper lower : UInt8) : List UInt8 → Int × List UInt8
  | [] => (0, [])
  | b :: rest =>
    let (negative, digits) := sign rest
    if (b = upper ∨ b = lower) ∧ digits.takeWhile (isDigit 10) ≠ [] then
      let magnitude : Int := digitsValue 10 (digits.takeWhile (isDigit 10))
      (if negative then -magnitude else magnitude, digits.dropWhile (isDigit 10))
    else (0, b :: rest)

def decimal (s : List UInt8) : Option (ℚ × List UInt8) :=
  (mantissa 10 s).map fun (value, rest) =>
    let (power, rest) := exponent 0x45 0x65 rest
    (value * 10 ^ power, rest)

def hexadecimal (s : List UInt8) : Option (ℚ × List UInt8) :=
  (mantissa 16 s).map fun (value, rest) =>
    let (power, rest) := exponent 0x50 0x70 rest
    (value * 2 ^ power, rest)

def magnitude (s : List UInt8) : Option (UInt32 × List UInt8) :=
  match keyword (ascii "inf") s with
  | some rest => some (0x7F800000, (keyword (ascii "inity") rest).getD rest)
  | none =>
    match (keyword (ascii "0x") s).bind hexadecimal with
    | some (value, rest) => some (magnitudeBits value, rest)
    | none => (decimal s).map fun (value, rest) => (magnitudeBits value, rest)

/-- What a NaN may carry in brackets. -/
def nanTail : List UInt8 → List UInt8
  | 0x28 :: rest =>
    match rest.dropWhile fun b => isDigit 10 b || b == 0x5F || (0x41 ≤ b && b ≤ 0x5A) || (0x61 ≤ b && b ≤ 0x7A) with
    | 0x29 :: behind => behind
    | _ => 0x28 :: rest
  | s => s

end Strtof

/-- The float at the start of a string and the bytes from `end` on, or nothing
when no number starts there. -/
def strtof (s : List UInt8) : Option (UInt32 × List UInt8) :=
  let (negative, s) := Strtof.sign (s.dropWhile Strtof.isSpace)
  match Strtof.keyword (ascii "nan") s with
  | some rest => some (Strtof.signBit negative ||| 0x7FC00000, Strtof.nanTail rest)
  | none => (Strtof.magnitude s).map fun (bits, rest) => (Strtof.signBit negative ||| bits, rest)

end IotFirmware
