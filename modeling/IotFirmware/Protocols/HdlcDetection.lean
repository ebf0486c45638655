import IotFirmware.Foundation.Crc
import IotFirmware.Protocols.HdlcRoundTrip

/-! What the HDLC checksum catches: the parser stays inside its buffer, and no
short burst and no odd number of flipped bits turns a frame into another. -/
namespace IotFirmware
open Checked

/-- The generator of the HDLC checksum, reflected. -/
def hdlcPoly : BitVec 16 := 0x8408

private theorem toBitVec_hdlcFcsByte (crc : UInt16) (b : UInt8) :
    (hdlcFcsByte crc b).toBitVec = Crc.byte hdlcPoly crc.toBitVec b :=
  Crc.toBitVec_byte (Crc.toBitVec_step 0x8408) crc b

private theorem toBitVec_hdlcFcs (data : List UInt8) :
    (hdlcFcs data).toBitVec = Crc.run hdlcPoly 0xFFFF#16 data ^^^ 0xFFFF#16 := by
  rw [hdlcFcs, UInt16.toBitVec_not, Crc.toBitVec_foldl toBitVec_hdlcFcsByte]
  exact (BitVec.xor_allOnes).symm

/-- A body and its checksum, as they stand between the flags. -/
theorem hdlcFcsBytes_guarded (data : List UInt8) :
    data ++ hdlcFcsBytes data = Crc.guarded hdlcPoly 0xFFFF#16 0xFFFF#16 data := by
  rw [Crc.guarded, ← toBitVec_hdlcFcs]
  rfl

private theorem inBounds_parseAddressLoop {buf : List UInt8} {limit : Nat} (hlimit : limit ≤ buf.length) (more : Nat) :
    ∀ (pos : Nat) (lead : List UInt8) (heven : ∀ b ∈ lead, b &&& 1 = 0) (hmore : lead.length + more = hdlcAddressMax),
      (parseAddressLoop buf limit pos lead heven more hmore).InBounds := by
  induction more with
  | zero =>
    intro pos lead heven hmore
    exact inBounds_failure
  | succ more ih =>
    intro pos lead heven hmore
    apply inBounds_require_bind
    intro hpos
    apply inBounds_byteAt_bind (by omega)
    intro b
    split
    · exact ih _ _ _ _
    · split
      · exact inBounds_failure
      · exact inBounds_pure _

theorem inBounds_parseAddress {buf : List UInt8} {limit : Nat} (hlimit : limit ≤ buf.length) (pos : Nat) :
    (parseAddress buf limit pos).InBounds :=
  inBounds_parseAddressLoop hlimit hdlcAddressMax pos [] (by simp) (by simp)

private theorem inBounds_checkFcs {buf : List UInt8} {pos : Nat} (hpos : pos + 1 < buf.length) (fcs : UInt16) :
    (checkFcs buf pos fcs).InBounds := by
  apply inBounds_byteAt_bind (by omega)
  intro low
  apply inBounds_require_bind
  intro _
  apply inBounds_byteAt_bind hpos
  intro high
  exact inBounds_require _

private theorem inBounds_parseInfo {buf : List UInt8} {pos fcsPos : Nat} (hpos : 1 ≤ pos) (hle : pos ≤ fcsPos)
    (hlimit : fcsPos ≤ buf.length) : (parseInfo buf pos fcsPos).InBounds := by
  apply inBounds_sub_bind hle
  intro rest hrest
  split_ifs with h0 h3
  · exact inBounds_pure _
  · apply inBounds_sub_bind hpos
    intro covered hcovered
    apply inBounds_bind (inBounds_slice (by omega))
    intro _ _
    apply inBounds_bind (inBounds_checkFcs (by omega) _)
    intro _ _
    apply inBounds_sub_bind (by omega)
    intro n hn
    exact inBounds_slice (by omega)
  · exact inBounds_failure

/-- The parser never reads outside the bytes it is given. -/
theorem inBounds_hdlcParseFrame (buf : List UInt8) : (hdlcParseFrame buf).InBounds := by
  apply inBounds_require_bind
  intro hlen
  apply inBounds_byteAt_bind (by omega)
  intro _
  apply inBounds_require_bind
  intro _
  apply inBounds_sub_bind (by omega)
  intro last hlast
  apply inBounds_byteAt_bind (by omega)
  intro _
  apply inBounds_require_bind
  intro _
  apply inBounds_byteAt_bind (by omega)
  intro format
  apply inBounds_require_bind
  intro _
  apply inBounds_byteAt_bind (by omega)
  intro low
  apply inBounds_sub_bind (by omega)
  intro _ _
  apply inBounds_require_bind
  intro _
  apply inBounds_sub_bind (by omega)
  intro fcsPos hfcsPos
  apply inBounds_bind (inBounds_parseAddress (by omega) _)
  rintro ⟨dest, destEnd⟩ _
  apply inBounds_bind (inBounds_parseAddress (by omega) _)
  rintro ⟨src, pos⟩ _
  apply inBounds_require_bind
  intro hpos
  apply inBounds_byteAt_bind (by omega)
  intro control
  apply inBounds_bind (inBounds_parseInfo (by omega) hpos (by omega))
  intro info _
  apply inBounds_sub_bind (by omega)
  intro covered hcovered
  apply inBounds_bind (inBounds_slice (by omega))
  intro _ _
  apply inBounds_bind (inBounds_checkFcs (by omega) _)
  intro _ _
  exact inBounds_pure _

private theorem HdlcFrame.wire_guarded (f : HdlcFrame) :
    f.wire = hdlcFlag :: (Crc.guarded hdlcPoly 0xFFFF#16 0xFFFF#16 f.body ++ [hdlcFlag]) := by
  rw [← hdlcFcsBytes_guarded, HdlcFrame.wire]

/-- A frame changed within two adjacent bytes, or by an odd number of flipped
bits, is never accepted as another one. -/
theorem hdlcParseFrame_detects {frame changed : List UInt8} {f : HdlcFrame} (h : hdlcParseFrame frame = .ok f)
    (hlen : changed.length = frame.length) (hne : changed ≠ frame)
    (hflips : Crc.DifferInPair frame changed ∨ Odd (Crc.flips frame changed)) : hdlcParseFrame changed = failure := by
  apply (inBounds_hdlcParseFrame changed).eq_failure
  intro g hg
  obtain ⟨rfl, -⟩ := wire_of_hdlcParseFrame h
  obtain ⟨rfl, -⟩ := wire_of_hdlcParseFrame hg
  apply hne
  have hbody : f.body.length = g.body.length := by
    have hf := f.wire_length
    have hg := g.wire_length
    have hf' := f.body_length
    have hg' := g.body_length
    omega
  have hguarded : (Crc.guarded hdlcPoly 0xFFFF#16 0xFFFF#16 f.body).length =
      (Crc.guarded hdlcPoly 0xFFFF#16 0xFFFF#16 g.body).length := by
    rw [← hdlcFcsBytes_guarded, ← hdlcFcsBytes_guarded]
    simp [hdlcFcsBytes, hbody]
  rw [f.wire_guarded, g.wire_guarded] at hflips ⊢
  have hsame := Crc.guarded_eq_of_flips rfl rfl hbody
    (hflips.imp (@Crc.DifferInPair.inner _ _ hguarded [hdlcFlag] [hdlcFlag])
      (Crc.flips_inner hguarded [hdlcFlag] [hdlcFlag] ▸ ·))
  rw [hsame]

theorem hdlcParseFrame_detects_snrm : hdlcParseFrame [0x7E, 0xA0, 0x07, 0x03, 0x21, 0x92, 0x0F, 0x01, 0x7E] = failure :=
  @hdlcParseFrame_detects [0x7E, 0xA0, 0x07, 0x03, 0x21, 0x93, 0x0F, 0x01, 0x7E]
    [0x7E, 0xA0, 0x07, 0x03, 0x21, 0x92, 0x0F, 0x01, 0x7E]
    ⟨⟨[], 0x03, by simp, by decide, by simp⟩, ⟨[], 0x21, by simp, by decide, by simp⟩, 0x93, []⟩
    (by decide +kernel) rfl (by decide) (.inr (by decide +kernel))

end IotFirmware
