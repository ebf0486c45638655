import IotFirmware.Protocols.AareExact

/-! The APDUs with which a reading session goes on, byte by byte: the checks on what the
meter answers take exactly these. -/
namespace IotFirmware
open Checked

/-- An AARE that accepts the association, whatever follows it. -/
def OpensAssociation (apdu : List UInt8) : Prop :=
  ∃ (long : Bool) (fields : List BerField) (rest : List UInt8), apdu = aareApdu long fields ++ rest ∧
    (fields.flatMap BerField.encode).length < (if long then 256 else 128) ∧ AcceptsAssociation fields

def getResponse (data : List UInt8) : List UInt8 := [0xC4, 0x01, 0xC1, 0x00] ++ data

def scalerUnitData (scaler : Int8) (unit : UInt8) : List UInt8 := [0x02, 0x02, 0x0F, scaler.toUInt8, 0x16, unit]

/-- The tags of the numeric Data types that are read, and how many bytes stand behind each. -/
def numberTypes : List (UInt8 × ℕ) :=
  [(0x0F, 1), (0x11, 1), (0x10, 2), (0x12, 2), (0x05, 4), (0x06, 4), (0x17, 4), (0x15, 8)]

def StartsWithNumber (data : List UInt8) : Prop :=
  ∃ number ∈ numberTypes, ∃ bytes rest, bytes.length = number.2 ∧ data = number.1 :: (bytes ++ rest)

theorem opensAssociation_iff {apdu : List UInt8} : OpensAssociation apdu ↔ checkAare apdu = .ok () := by
  refine ⟨?_, exists_aareApdu_of_checkAare⟩
  rintro ⟨long, fields, rest, rfl, hfits, haccepts⟩
  exact (checkAare_aareApdu_append rest hfits).mpr haccepts

theorem parseGetResponse_eq_ok_iff {apdu data : List UInt8} :
    parseGetResponse apdu = .ok data ↔ apdu = getResponse data ∧ data ≠ [] := by
  simp only [parseGetResponse, bind_eq_ok, require_eq_ok, byteAt_eq_ok]
  constructor
  · rintro ⟨_, hlen, _, htag, _, rfl, _, htype, _, -, _, rfl, _, hinvoke, _, rfl, choice, hchoice, hread⟩
    split at hread
    · simp [bind_eq_ok] at hread
    · simp only [bind_eq_ok, require_eq_ok, slice_eq_ok, sub_eq_ok] at hread
      obtain ⟨_, ⟨rfl, hmore⟩, count, hcount, -, rfl⟩ := hread
      have hwhole : apdu = getResponse (apdu.drop dlmsGetResponseHeaderLen) :=
        drop_eq_cons_iff.mpr ⟨htag, drop_eq_cons_iff.mpr ⟨htype, drop_eq_cons_iff.mpr ⟨hinvoke,
          drop_eq_cons_iff.mpr ⟨hchoice, rfl⟩⟩⟩⟩
      have hall : (apdu.drop dlmsGetResponseHeaderLen).take count = apdu.drop dlmsGetResponseHeaderLen := by
        rw [List.take_of_length_le]
        rw [List.length_drop]
        omega
      rw [hall]
      refine ⟨hwhole, fun hnil => hmore ?_⟩
      rw [List.drop_eq_nil_iff] at hnil
      omega
  · rintro ⟨rfl, h⟩
    have hpos := List.length_pos_iff.mpr h
    have hlen : (getResponse data).length = 4 + data.length := by
      rw [getResponse, List.length_append]
      rfl
    simp only [dlmsGetResponseHeaderLen, hlen]
    refine ⟨(), by omega, _, rfl, (), rfl, _, rfl, (), by decide, (), rfl, _, rfl, (), rfl, _, rfl, ?_⟩
    rw [if_neg (by simp)]
    simp only [bind_eq_ok, require_eq_ok, slice_eq_ok, sub_eq_ok]
    exact ⟨(), ⟨trivial, by omega⟩, _, rfl, hlen.ge, List.take_length⟩

theorem decodeScalerUnit_eq_ok_iff {data : List UInt8} {unit : UInt8} {scaler : Int8} :
    decodeScalerUnit data unit = .ok scaler ↔ data = scalerUnitData scaler unit := by
  simp only [decodeScalerUnit, bind_eq_ok, require_eq_ok, byteAt_eq_ok, pure_eq_ok]
  constructor
  · rintro ⟨_, hlen, _, h0, _, rfl, _, h1, _, rfl, _, h2, _, rfl, _, h4, _, rfl, _, h5, _, rfl, b, h3, rfl⟩
    have hend : data.drop 6 = [] := List.drop_eq_nil_of_le hlen.le
    exact drop_eq_cons_iff.mpr ⟨h0, drop_eq_cons_iff.mpr ⟨h1, drop_eq_cons_iff.mpr ⟨h2,
      drop_eq_cons_iff.mpr ⟨h3, drop_eq_cons_iff.mpr ⟨h4, drop_eq_cons_iff.mpr ⟨h5, hend⟩⟩⟩⟩⟩⟩
  · rintro rfl
    exact ⟨(), rfl, _, rfl, (), rfl, _, rfl, (), rfl, _, rfl, (), rfl, _, rfl, (), rfl, _, rfl, (), rfl, _, rfl, rfl⟩

theorem numberSize_eq_some_iff {tag : UInt8} {size : ℕ} : numberSize tag = some size ↔ (tag, size) ∈ numberTypes := by
  constructor
  · intro h
    rw [numberSize] at h
    split_ifs at h with h1 h2 h4 h8
    all_goals obtain rfl := Option.some.inj h
    · rcases h1 with rfl | rfl <;> decide
    · rcases h2 with rfl | rfl <;> decide
    · rcases h4 with rfl | rfl | rfl <;> decide
    · subst h8
      decide
  · have hall : ∀ number ∈ numberTypes, numberSize number.1 = some number.2 := by decide
    exact hall (tag, size)

/-- Decoded is exactly what starts with a number. -/
theorem startsWithNumber_iff {data : List UInt8} : StartsWithNumber data ↔ ∃ raw, decodeNumber data = .ok raw := by
  constructor
  · rintro ⟨⟨tag, size⟩, hnumber, bytes, rest, hbytes, rfl⟩
    have hlen : 1 + size ≤ (tag :: (bytes ++ rest)).length := by
      simp only [List.length_cons, List.length_append]
      dsimp only at hbytes
      omega
    refine ⟨numberValue tag (bytes.foldl shiftIn 0), ?_⟩
    simp only [decodeNumber, bind_eq_ok, require_eq_ok, byteAt_eq_ok]
    refine ⟨(), by simp, tag, rfl, ?_⟩
    rw [numberSize_eq_some_iff.mpr hnumber]
    simp only [bind_eq_ok, require_eq_ok, pure_eq_ok, slice_eq_ok]
    exact ⟨(), hlen, _, ⟨hlen, List.take_left' hbytes⟩, rfl⟩
  · rintro ⟨raw, h⟩
    simp only [decodeNumber, bind_eq_ok, require_eq_ok, byteAt_eq_ok] at h
    obtain ⟨_, -, tag, htag, hread⟩ := h
    cases hsize : numberSize tag with
    | none => simp [hsize] at hread
    | some size =>
      simp only [hsize, bind_eq_ok, require_eq_ok] at hread
      obtain ⟨_, hlen, -⟩ := hread
      refine ⟨(tag, size), numberSize_eq_some_iff.mp hsize, (data.drop 1).take size, (data.drop 1).drop size, ?_, ?_⟩
      · rw [List.length_take, List.length_drop]
        dsimp only
        omega
      · rw [List.take_append_drop]
        exact drop_eq_cons_iff.mpr ⟨htag, rfl⟩

end IotFirmware
