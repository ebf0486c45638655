import IotFirmware.Foundation.BigEndian
import IotFirmware.Foundation.Checked

/-! The APDUs of a DLMS/COSEM reading session: the requests as they are sent,
and the checks on what the meter answers. -/
namespace IotFirmware
open Checked

/-- A number as the meter reports it, exact where the firmware has a double. -/
inductive Number where
  | rational (value : ℚ)
  | infinity (negative : Bool)
  | nan
  deriving DecidableEq

/-- Multiply or divide by something positive, which moves neither an infinity nor a NaN. -/
def Number.map (f : ℚ → ℚ) : Number → Number
  | .rational value => .rational (f value)
  | n => n

/-- Largest APDU that fits one frame after the LLC header. -/
def dlmsApduMax : Nat := 125
def dlmsClassRegister : UInt16 := 3
def dlmsAttrValue : UInt8 := 2
def dlmsAttrScalerUnit : UInt8 := 3
def dlmsGetResponseHeaderLen : Nat := 4
def dlmsUnitWh : UInt8 := 30
def dlmsUnitV : UInt8 := 35

/-- The association request: logical name referencing, no ciphering, no
authentication, only GET proposed. -/
def buildAarq : List UInt8 :=
  [0x60, 0x1D,
   0xA1, 0x09, 0x06, 0x07, 0x60, 0x85, 0x74, 0x05, 0x08, 0x01, 0x01,
   0xBE, 0x10, 0x04, 0x0E,
   0x01, 0x00, 0x00, 0x00, 0x06,
   0x5F, 0x1F, 0x04, 0x00, 0x00, 0x00, 0x10,
   UInt8.ofNat (dlmsApduMax >>> 8), UInt8.ofNat (dlmsApduMax &&& 0xFF)]

def buildGetRequest (obis : Vector UInt8 6) (attr : UInt8) : List UInt8 :=
  0xC0 :: 0x01 :: 0xC1 :: (dlmsClassRegister >>> 8).toUInt8 :: (dlmsClassRegister &&& 0xFF).toUInt8 ::
    (obis.toList ++ [attr, 0x00])

/-- Reads a BER length of one byte, or of one byte behind 0x81, and where it ends. -/
def readBerLength (buf : List UInt8) (limit pos : Nat) : Checked (Nat × Nat) := do
  require (pos < limit)
  let first ← byteAt buf pos
  if first < 0x80 then pure (first.toNat, pos + 1)
  else if first = 0x81 ∧ pos + 1 < limit then pure ((← byteAt buf (pos + 1)).toNat, pos + 2)
  else failure

/-- What the fields of an AARE read so far have said; `none` is the firmware's -1. -/
structure AareFields where
  result : Option UInt8 := none
  diagnostic : Option UInt8 := none
  initiated : Bool := false
  deriving DecidableEq, Repr

/-- Takes in one field; of each kind the last one of the right form counts. -/
def aareField (fields : AareFields) (tag : UInt8) (value : List UInt8) : AareFields :=
  if tag = 0xA2 then
    match value with
    | [type, len, result] => if type = 0x02 ∧ len = 0x01 then { fields with result := some result } else fields
    | _ => fields
  else if tag = 0xA3 then
    match value with
    | [_, _, type, len, diagnostic] =>
      if type = 0x02 ∧ len = 0x01 then { fields with diagnostic := some diagnostic } else fields
    | _ => fields
  else if tag = 0xBE then
    match value with
    | type :: _ :: response :: _ => if type = 0x04 then { fields with initiated := response = 0x08 } else fields
    | _ => fields
  else fields

/-- Walks the fields between `pos` and `limit`; each takes up one of the `fuel` passes at least. -/
def aareFields (apdu : List UInt8) (limit : Nat) : (fuel : Nat) → (pos : Nat) → AareFields → Checked AareFields
  | 0, _, fields => pure fields
  | fuel + 1, pos, fields =>
    if pos < limit then do
      let tag ← byteAt apdu pos
      let (valueLen, pos) ← readBerLength apdu limit (pos + 1)
      require (valueLen ≤ (← sub limit pos))
      aareFields apdu limit fuel (pos + valueLen) (aareField fields tag (← slice apdu pos valueLen))
    else pure fields

def checkAare (apdu : List UInt8) : Checked Unit := do
  require (2 ≤ apdu.length)
  require ((← byteAt apdu 0) = 0x61)
  let (bodyLen, pos) ← readBerLength apdu apdu.length 1
  require (bodyLen ≤ (← sub apdu.length pos))
  let fields ← aareFields apdu (pos + bodyLen) bodyLen pos {}
  require (fields.result = some 0)
  require (fields.initiated = true)

def parseGetResponse (apdu : List UInt8) : Checked (List UInt8) := do
  require (dlmsGetResponseHeaderLen ≤ apdu.length)
  require ((← byteAt apdu 0) = 0xC4)
  let type ← byteAt apdu 1
  require (type ≠ 0x02)
  require (type = 0x01)
  require ((← byteAt apdu 2) = 0xC1)
  let choice ← byteAt apdu 3
  if choice = 0x01 ∧ dlmsGetResponseHeaderLen < apdu.length then
    -- the data-access-result, read for the log
    let _ ← byteAt apdu 4
    failure
  else
    require (choice = 0x00 ∧ apdu.length ≠ dlmsGetResponseHeaderLen)
    slice apdu dlmsGetResponseHeaderLen (← sub apdu.length dlmsGetResponseHeaderLen)

def float32Value (bits : UInt32) : Number :=
  let negative := bits >>> 31 = 1
  let exponent := ((bits >>> 23) &&& 0xFF).toNat
  let mantissa := (bits &&& 0x7FFFFF).toNat
  if exponent = 255 then
    if mantissa = 0 then .infinity negative else .nan
  else
    let magnitude : ℚ :=
      if exponent = 0 then mantissa * (2 : ℚ) ^ (-149 : ℤ) else (2 ^ 23 + mantissa) * (2 : ℚ) ^ ((exponent : ℤ) - 150)
    .rational (if negative then -magnitude else magnitude)

def numberSize (tag : UInt8) : Option Nat :=
  if tag = 0x0F ∨ tag = 0x11 then some 1
  else if tag = 0x10 ∨ tag = 0x12 then some 2
  else if tag = 0x05 ∨ tag = 0x06 ∨ tag = 0x17 then some 4
  else if tag = 0x15 then some 8
  else none

/-- The value of the bytes shifted in behind a numeric tag: sign extended, a float, or as they are. -/
def numberValue (tag : UInt8) (raw : UInt64) : Number :=
  if tag = 0x0F then .rational raw.toUInt8.toInt8.toInt
  else if tag = 0x10 then .rational raw.toUInt16.toInt16.toInt
  else if tag = 0x05 then .rational raw.toUInt32.toInt32.toInt
  else if tag = 0x17 then float32Value raw.toUInt32
  else .rational raw.toNat

def decodeNumber (data : List UInt8) : Checked Number := do
  require (data.length ≠ 0)
  let tag ← byteAt data 0
  match numberSize tag with
  | none => failure
  | some size =>
    require (1 + size ≤ data.length)
    pure (numberValue tag ((← slice data 1 size).foldl shiftIn 0))

/-- Decodes a scaler_unit, the structure 02 02 0F scaler 16 unit, for the unit expected. -/
def decodeScalerUnit (data : List UInt8) (unit : UInt8) : Checked Int8 := do
  require (data.length = 6)
  require ((← byteAt data 0) = 0x02)
  require ((← byteAt data 1) = 0x02)
  require ((← byteAt data 2) = 0x0F)
  require ((← byteAt data 4) = 0x16)
  require ((← byteAt data 5) = unit)
  pure (← byteAt data 3).toInt8

/-- Multiplies by ten to the power of a scaler, dividing for a negative one. -/
def applyScaler (value : Number) (scaler : Int8) : Number :=
  let power := (· * 10)^[scaler.toInt.natAbs] (1 : ℚ)
  if scaler < 0 then value.map (· / power) else value.map (· * power)

end IotFirmware
