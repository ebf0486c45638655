import IotFirmware.Foundation.Checked

/-! HDLC framing: the frame check sequence, address fields, and frames built
and parsed byte by byte. -/
namespace IotFirmware
open Checked

def hdlcInfoMax : Nat := 128
def hdlcAddressMax : Nat := 4
/-- Largest frame: flags, format, two four byte addresses, control, HCS, info, FCS. -/
def hdlcFrameMax : Nat := hdlcInfoMax + 19
def hdlcFlag : UInt8 := 0x7E
/-- High byte of the format field, before the length. -/
def hdlcFormatTypeA : UInt8 := 0xA0

def hdlcFcsBit (crc : UInt16) : UInt16 :=
  if crc &&& 1 ≠ 0 then (crc >>> 1) ^^^ 0x8408 else crc >>> 1

def hdlcFcsByte (crc : UInt16) (b : UInt8) : UInt16 := hdlcFcsBit^[8] (crc ^^^ b.toUInt16)

def hdlcFcs (data : List UInt8) : UInt16 := ~~~(data.foldl hdlcFcsByte 0xFFFF)

/-- An encoded address: one, two or four bytes, the low bit set on the last only. -/
structure HdlcAddress where
  lead : List UInt8
  last : UInt8
  lead_even : ∀ b ∈ lead, b &&& 1 = 0
  last_odd : last &&& 1 ≠ 0
  lead_length : lead.length = 0 ∨ lead.length = 1 ∨ lead.length = 3
  deriving DecidableEq

namespace HdlcAddress

def bytes (a : HdlcAddress) : List UInt8 := a.lead ++ [a.last]

def len (a : HdlcAddress) : Nat := a.bytes.length

end HdlcAddress

private theorem even_shiftLeft (b : UInt8) : b <<< 1 &&& 1 = 0 := by
  apply UInt8.toNat_inj.mp
  simp only [UInt8.toNat_and, UInt8.toNat_shiftLeft, UInt8.reduceToNat, Nat.reduceMod, Nat.reducePow,
    Nat.shiftLeft_eq, Nat.and_one_is_mod]
  omega

private theorem odd_or_one (b : UInt8) : (b ||| 1) &&& 1 ≠ 0 := by
  intro h
  have hnat : (b.toNat ||| 1) % 2 = 0 := by simpa [Nat.and_one_is_mod] using congrArg UInt8.toNat h
  have hodd : (b.toNat ||| 1) % 2 = 1 := Nat.or_mod_two_eq_one.mpr (.inr rfl)
  omega

/-- Encodes an address field; the lower address is left out when `size` is 1. -/
def hdlcAddress (upper lower : UInt16) (size : UInt8) : Option HdlcAddress :=
  let max : UInt16 := if size = 4 then 0x3FFF else 0x7F
  if max < upper ∨ (1 < size ∧ max < lower) then none
  else if size = 1 then
    some ⟨[], (upper <<< 1).toUInt8 ||| 1, by simp, odd_or_one _, by simp⟩
  else if size = 2 then
    some ⟨[(upper <<< 1).toUInt8], (lower <<< 1).toUInt8 ||| 1, by simp [even_shiftLeft], odd_or_one _, by simp⟩
  else if size = 4 then
    some ⟨[((upper >>> 7) <<< 1).toUInt8, ((upper &&& 0x7F) <<< 1).toUInt8, ((lower >>> 7) <<< 1).toUInt8],
      ((lower &&& 0x7F) <<< 1).toUInt8 ||| 1, by simp [even_shiftLeft], odd_or_one _, by simp⟩
  else none

structure HdlcFrame where
  dest : HdlcAddress
  src : HdlcAddress
  control : UInt8
  info : List UInt8
  deriving DecidableEq

def hdlcFcsBytes (data : List UInt8) : List UInt8 :=
  [(hdlcFcs data &&& 0xFF).toUInt8, (hdlcFcs data >>> 8).toUInt8]

/-- Builds a complete frame. The HCS is only written when there is an info field. -/
def hdlcBuildFrame (dest src : HdlcAddress) (control : UInt8) (info : List UInt8) : Option (List UInt8) :=
  if hdlcInfoMax < info.length then none
  else
    let length := 2 + dest.len + src.len + 1 + 2
    let length := if 0 < info.length then length + (2 + info.length) else length
    let out := [hdlcFlag, hdlcFormatTypeA ||| UInt8.ofNat (length >>> 8), UInt8.ofNat (length &&& 0xFF)]
    let out := out ++ dest.bytes ++ src.bytes ++ [control]
    let out := if 0 < info.length then out ++ hdlcFcsBytes (out.drop 1) ++ info else out
    let out := out ++ hdlcFcsBytes (out.drop 1)
    some (out ++ [hdlcFlag])

/-- Reads address bytes from `pos` on, up to the first with its low bit set.
`lead` holds the ones read so far, and `more` further ones are allowed. -/
def parseAddressLoop (buf : List UInt8) (limit pos : Nat) (lead : List UInt8) (heven : ∀ b ∈ lead, b &&& 1 = 0) :
    (more : Nat) → lead.length + more = hdlcAddressMax → Checked (HdlcAddress × Nat)
  | 0, _ => failure
  | more + 1, hmore => do
    require (pos < limit)
    let b ← byteAt buf pos
    if hb : b &&& 1 = 0 then
      parseAddressLoop buf limit (pos + 1) (lead ++ [b]) (by simpa [or_imp, forall_and] using ⟨heven, hb⟩) more
        (by simpa [add_assoc, add_comm 1] using hmore)
    else if h3 : lead.length + 1 = 3 then failure
    else pure (⟨lead, b, heven, hb, by simp only [hdlcAddressMax] at hmore; omega⟩, pos + 1)

def parseAddress (buf : List UInt8) (limit pos : Nat) : Checked (HdlcAddress × Nat) :=
  parseAddressLoop buf limit pos [] (by simp) hdlcAddressMax (by simp)

def checkFcs (buf : List UInt8) (pos : Nat) (fcs : UInt16) : Checked Unit := do
  require ((← byteAt buf pos).toUInt16 = fcs &&& 0xFF)
  require ((← byteAt buf (pos + 1)).toUInt16 = fcs >>> 8)

/-- Reads the HCS and the info field between `pos` and `fcsPos`, both absent or both present. -/
def parseInfo (buf : List UInt8) (pos fcsPos : Nat) : Checked (List UInt8) := do
  let rest ← sub fcsPos pos
  if rest = 0 then pure []
  else if 3 ≤ rest then do
    checkFcs buf pos (hdlcFcs (← slice buf 1 (← sub pos 1)))
    slice buf (pos + 2) (← sub rest 2)
  else failure

def hdlcParseFrame (buf : List UInt8) : Checked HdlcFrame := do
  require (9 ≤ buf.length)
  require ((← byteAt buf 0) = hdlcFlag)
  require ((← byteAt buf (← sub buf.length 1)) = hdlcFlag)
  let format ← byteAt buf 1
  require (format &&& 0xF8 = hdlcFormatTypeA)
  let length := (format &&& 0x07).toNat <<< 8 ||| (← byteAt buf 2).toNat
  require (length = (← sub buf.length 2))
  let fcsPos ← sub buf.length 3
  let (dest, pos) ← parseAddress buf fcsPos 3
  let (src, pos) ← parseAddress buf fcsPos pos
  require (pos < fcsPos)
  let control ← byteAt buf pos
  let info ← parseInfo buf (pos + 1) fcsPos
  checkFcs buf fcsPos (hdlcFcs (← slice buf 1 (← sub fcsPos 1)))
  pure ⟨dest, src, control, info⟩

end IotFirmware
