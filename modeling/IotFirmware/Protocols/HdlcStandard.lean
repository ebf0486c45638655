import IotFirmware.Protocols.HdlcDetection

/-! HDLC frames and addresses as the standard lays them out, written down apart from the
firmware, and that its frames are these. -/
namespace IotFirmware
open Checked

namespace HdlcStandard

/-- Seven bits of an address in each byte, the lowest bit set in the last one only. -/
def addressField : (groups : List ℕ) → List UInt8
  | [] => []
  | [last] => [UInt8.ofNat (2 * last + 1)]
  | group :: groups => UInt8.ofNat (2 * group) :: addressField groups

/-- The groups of a server address of one, two or four bytes. -/
def serverGroups (logical physical : ℕ) : (size : ℕ) → List ℕ
  | 1 => [logical]
  | 2 => [logical, physical]
  | _ => [logical / 128, logical % 128, physical / 128, physical % 128]

/-- Bytes and the frame check sequence over them, low byte first: the remainder by
x^16 + x^12 + x^5 + 1 from all ones, inverted. -/
def withFcs (bytes : List UInt8) : List UInt8 := Crc.guarded 0x8408#16 0xFFFF#16 0xFFFF#16 bytes

/-- Every byte of a frame but the two flags. -/
def frameLength (dest src info : List UInt8) : ℕ :=
  dest.length + src.length + if info = [] then 5 else 7 + info.length

/-- A frame: flags around the format and its length, the addresses, the control byte and,
behind a check sequence of its own, an information field. -/
def frame (dest src : List UInt8) (control : UInt8) (info : List UInt8) : List UInt8 :=
  let length := frameLength dest src info
  let header := UInt8.ofNat (0xA0 + length / 256) :: UInt8.ofNat (length % 256) :: (dest ++ src ++ [control])
  0x7E :: (withFcs (if info = [] then header else withFcs header ++ info) ++ [0x7E])

end HdlcStandard
open HdlcStandard

private theorem withFcs_eq (bytes : List UInt8) : withFcs bytes = bytes ++ hdlcFcsBytes bytes := by
  rw [hdlcFcsBytes_guarded]
  rfl

private theorem HdlcFrame.length_eq (f : HdlcFrame) : f.length = frameLength f.dest.bytes f.src.bytes f.info := by
  rw [HdlcFrame.length, frameLength, HdlcAddress.len, HdlcAddress.len]
  split <;> omega

/-- Where its length fits the eleven bits for it, a frame is the standard's. -/
theorem HdlcFrame.wire_eq_frame {f : HdlcFrame} (hmax : f.length ≤ 0x7FF) :
    f.wire = frame f.dest.bytes f.src.bytes f.control f.info := by
  have hformat : hdlcFormatTypeA ||| UInt8.ofNat (f.length >>> 8) = UInt8.ofNat (0xA0 + f.length / 256) := by
    rw [← UInt8.toNat_inj, toNat_format hmax, UInt8.toNat_ofNat']
    omega
  have hlow : UInt8.ofNat (f.length &&& 0xFF) = UInt8.ofNat (f.length % 256) :=
    congrArg UInt8.ofNat (Nat.and_two_pow_sub_one_eq_mod f.length 8)
  rw [HdlcFrame.wire, HdlcFrame.body, HdlcFrame.header, hformat, hlow, frame, ← f.length_eq, withFcs_eq]
  by_cases hinfo : f.info = []
  · rw [if_pos hinfo, infoField, if_pos hinfo]
    simp [hdlcFlag]
  · rw [if_neg hinfo, infoField, if_neg hinfo, withFcs_eq]
    simp [hdlcFlag]

/-- The bytes taken for a frame are the standard's for what is returned. -/
theorem hdlcParseFrame_eq_ok_iff {buf : List UInt8} {f : HdlcFrame} :
    hdlcParseFrame buf = .ok f ↔
      buf = frame f.dest.bytes f.src.bytes f.control f.info ∧
        frameLength f.dest.bytes f.src.bytes f.info < 2 ^ 11 := by
  rw [← f.length_eq]
  constructor
  · intro h
    obtain ⟨hwire, hmax⟩ := wire_of_hdlcParseFrame h
    exact ⟨hwire.trans (f.wire_eq_frame hmax), by omega⟩
  · rintro ⟨rfl, hmax⟩
    have hle : f.length ≤ 0x7FF := by omega
    rw [← f.wire_eq_frame hle]
    exact hdlcParseFrame_wire hle

private theorem shiftLeft_group {x : UInt16} (h : x ≤ 0x7F) : (x <<< 1).toUInt8 = UInt8.ofNat (2 * x.toNat) := by
  have hx : x.toNat ≤ 0x7F := UInt16.le_iff_toNat_le.mp h
  rw [← UInt8.toNat_inj]
  simp only [UInt16.toNat_toUInt8, UInt16.toNat_shiftLeft, UInt16.reduceToNat, Nat.reduceMod, Nat.shiftLeft_eq,
    UInt8.toNat_ofNat']
  omega

theorem shiftLeft_last {x : UInt16} (h : x ≤ 0x7F) : (x <<< 1).toUInt8 ||| 1 = UInt8.ofNat (2 * x.toNat + 1) := by
  have hx : x.toNat ≤ 0x7F := UInt16.le_iff_toNat_le.mp h
  have hor : 2 * x.toNat + 1 = 2 * x.toNat ||| 1 := by
    have hadd := Nat.shiftLeft_add_eq_or_of_lt (show 1 < 2 ^ 1 by decide) x.toNat
    rwa [Nat.shiftLeft_eq, pow_one, Nat.mul_comm] at hadd
  rw [shiftLeft_group h, ← UInt8.toNat_inj, UInt8.toNat_or, UInt8.toNat_ofNat', UInt8.toNat_ofNat',
    Nat.mod_eq_of_lt (by omega), Nat.mod_eq_of_lt (by omega)]
  exact hor.symm

/-- An address that is encoded is the standard's field for it. -/
theorem bytes_hdlcAddress {upper lower : UInt16} {size : UInt8} {a : HdlcAddress}
    (h : hdlcAddress upper lower size = some a) :
    a.bytes = addressField (serverGroups upper.toNat lower.toNat size.toNat) := by
  have hgroups {x : UInt16} (hx : x ≤ 0x3FFF) : x >>> 7 ≤ 0x7F ∧ x &&& 0x7F ≤ 0x7F ∧
      (x >>> 7).toNat = x.toNat / 128 ∧ (x &&& 0x7F).toNat = x.toNat % 128 := by
    have hle : x.toNat ≤ 0x3FFF := UInt16.le_iff_toNat_le.mp hx
    have hhigh : (x >>> 7).toNat = x.toNat / 128 := by simp [Nat.shiftRight_eq_div_pow]
    have hlow : (x &&& 0x7F).toNat = x.toNat % 128 := Nat.and_two_pow_sub_one_eq_mod x.toNat 7
    refine ⟨UInt16.le_iff_toNat_le.mpr ?_, UInt16.le_iff_toNat_le.mpr ?_, hhigh, hlow⟩
    · show (x >>> 7).toNat ≤ 127
      omega
    · show (x &&& 0x7F).toNat ≤ 127
      omega
  simp only [hdlcAddress, Option.ite_none_left_eq_some, not_or, not_and, UInt16.not_lt] at h
  obtain ⟨⟨hupper, hlower⟩, h⟩ := h
  split_ifs at h with h1 h2 h4
  · subst h1
    cases h
    exact congrArg (fun b => [b]) (shiftLeft_last hupper)
  · subst h2
    cases h
    exact congrArg₂ (fun b b' => [b, b']) (shiftLeft_group hupper) (shiftLeft_last (hlower (by decide)))
  · subst h4
    cases h
    obtain ⟨hhigh, hlow, hhighNat, hlowNat⟩ := hgroups hupper
    obtain ⟨hhigh', hlow', hhighNat', hlowNat'⟩ := hgroups (hlower (by decide))
    simp only [HdlcAddress.bytes, serverGroups, addressField, UInt8.reduceToNat, shiftLeft_group hhigh,
      shiftLeft_group hlow, shiftLeft_group hhigh', shiftLeft_last hlow', hhighNat, hlowNat, hhighNat', hlowNat']
    rfl

end IotFirmware
