import IotFirmware.Protocols.Hdlc

/-! The parser accepts exactly the wire form of the frame it returns, so building
and parsing are inverse to each other. -/
namespace IotFirmware
open Checked

namespace HdlcAddress

theorem bytes_inj {a a' : HdlcAddress} (h : a.bytes = a'.bytes) : a = a' := by
  obtain ⟨hlead, hlast⟩ := List.append_inj' h rfl
  cases a
  cases a'
  simp_all

theorem len_eq (a : HdlcAddress) : a.bytes.length = a.lead.length + 1 := by
  simp [bytes]

/-- An odd byte of an address ends it, an even one does not. -/
theorem bytes_eq_append_cons {a : HdlcAddress} {lead tail : List UInt8} {b : UInt8}
    (h : a.bytes = lead ++ b :: tail) :
    (b &&& 1 ≠ 0 ∧ a.lead = lead ∧ a.last = b ∧ tail = []) ∨ (b &&& 1 = 0 ∧ tail ≠ []) := by
  rcases List.eq_nil_or_concat tail with rfl | ⟨front, c, rfl⟩
  · obtain ⟨hlead, hlast⟩ := List.append_inj' h rfl
    obtain rfl := (List.cons.inj hlast).1
    exact .inl ⟨a.last_odd, hlead, rfl, rfl⟩
  · have hsplit : a.lead ++ [a.last] = (lead ++ b :: front) ++ [c] := by simpa [bytes] using h
    have hlead := (List.append_inj' hsplit rfl).1
    exact .inr ⟨a.lead_even b (by simp [hlead]), by simp⟩

end HdlcAddress

/-- The loop ends behind the address that starts with the bytes read so far. -/
theorem parseAddressLoop_eq_ok {buf : List UInt8} {limit : Nat} {a : HdlcAddress} {next : Nat} (more : Nat) :
    ∀ (pos : Nat) (lead : List UInt8) (heven : ∀ b ∈ lead, b &&& 1 = 0) (hmore : lead.length + more = hdlcAddressMax),
      parseAddressLoop buf limit pos lead heven more hmore = .ok (a, next) ↔
        ∃ tail, a.bytes = lead ++ tail ∧ tail <+: buf.drop pos ∧ next = pos + tail.length ∧ next ≤ limit := by
  -- an address never consists of the even bytes read so far alone
  have hmust (lead : List UInt8) (heven : ∀ b ∈ lead, b &&& 1 = 0) : a.bytes ≠ lead := by
    intro hbytes
    exact a.last_odd (heven a.last (by simp [← hbytes, HdlcAddress.bytes]))
  induction more with
  | zero =>
    intro pos lead heven hmore
    simp only [parseAddressLoop, failure_ne_ok, false_iff]
    rintro ⟨tail, hbytes, -, -, -⟩
    have hlen := congrArg List.length hbytes
    have hlead := a.lead_length
    simp only [HdlcAddress.len_eq, List.length_append, hdlcAddressMax] at hlen hmore
    obtain rfl := List.eq_nil_of_length_eq_zero (show tail.length = 0 by omega)
    exact hmust lead heven (by simpa using hbytes)
  | succ more ih =>
    intro pos lead heven hmore
    simp only [parseAddressLoop, bind_eq_ok, require_eq_ok, byteAt_eq_ok]
    constructor
    · rintro ⟨_, hpos, b, hb, hread⟩
      split at hread
      case isTrue hb0 =>
        obtain ⟨tail, hbytes, hpre, hnext, hle⟩ := (ih _ _ _ _).mp hread
        refine ⟨b :: tail, by simpa using hbytes, cons_prefix_drop_iff.mpr ⟨hb, hpre⟩, ?_, hle⟩
        simp only [List.length_cons]
        omega
      case isFalse hb1 =>
        split at hread
        · simp at hread
        · rw [pure_eq_ok] at hread
          obtain ⟨rfl, rfl⟩ := Prod.mk.inj hread
          exact ⟨[b], rfl, cons_prefix_drop_iff.mpr ⟨hb, List.nil_prefix⟩, rfl, hpos⟩
    · rintro ⟨tail, hbytes, hpre, hnext, hle⟩
      cases tail with
      | nil => exact absurd (by simpa using hbytes) (hmust lead heven)
      | cons b tail =>
        obtain ⟨hb, htail⟩ := cons_prefix_drop_iff.mp hpre
        simp only [List.length_cons] at hnext
        refine ⟨(), by omega, b, hb, ?_⟩
        rcases HdlcAddress.bytes_eq_append_cons hbytes with ⟨hb1, hlead, hlast, rfl⟩ | ⟨hb0, -⟩
        · have h3 : lead.length + 1 ≠ 3 := by
            have := a.lead_length
            rw [hlead] at this
            omega
          rw [dif_neg hb1, dif_neg h3, pure_eq_ok]
          subst hlead hlast hnext
          rfl
        · rw [dif_pos hb0]
          exact (ih _ _ _ _).mpr ⟨tail, by simpa using hbytes, htail, by omega, hle⟩

/-- An address is read exactly where its bytes stand, before the limit. -/
theorem parseAddress_eq_ok {buf : List UInt8} {limit pos : Nat} {a : HdlcAddress} {next : Nat} :
    parseAddress buf limit pos = .ok (a, next) ↔
      a.bytes <+: buf.drop pos ∧ next = pos + a.len ∧ next ≤ limit := by
  unfold parseAddress
  rw [parseAddressLoop_eq_ok]
  simp [HdlcAddress.len]

def infoField (header info : List UInt8) : List UInt8 :=
  if info = [] then [] else hdlcFcsBytes header ++ info

private theorem infoField_length (header info : List UInt8) :
    (infoField header info).length = if info = [] then 0 else 2 + info.length := by
  unfold infoField
  split
  · rfl
  · simp [hdlcFcsBytes]
    omega

namespace HdlcFrame

/-- What the length field says: every byte but the two flags. -/
def length (f : HdlcFrame) : Nat :=
  2 + f.dest.len + f.src.len + 1 + 2 + if f.info = [] then 0 else 2 + f.info.length

/-- Format, addresses and control: what the HCS covers. -/
def header (f : HdlcFrame) : List UInt8 :=
  [hdlcFormatTypeA ||| UInt8.ofNat (f.length >>> 8), UInt8.ofNat (f.length &&& 0xFF)] ++ f.dest.bytes ++ f.src.bytes ++
    [f.control]

/-- The header and the info field behind its HCS: what the FCS covers. -/
def body (f : HdlcFrame) : List UInt8 :=
  f.header ++ infoField f.header f.info

def wire (f : HdlcFrame) : List UInt8 := hdlcFlag :: (f.body ++ hdlcFcsBytes f.body ++ [hdlcFlag])

private theorem header_length (f : HdlcFrame) : f.header.length = f.dest.len + f.src.len + 3 := by
  simp [header, HdlcAddress.len]
  omega

theorem body_length (f : HdlcFrame) : f.body.length + 2 = f.length := by
  simp only [body, length, List.length_append, header_length, infoField_length]
  omega

/-- Every frame the builder makes fits the length field. -/
theorem length_le {f : HdlcFrame} (h : f.info.length ≤ hdlcInfoMax) : f.length ≤ hdlcInfoMax + 17 := by
  have hdest := f.dest.lead_length
  have hsrc := f.src.lead_length
  simp only [length, HdlcAddress.len, HdlcAddress.len_eq]
  split <;> omega

theorem wire_length (f : HdlcFrame) : f.wire.length = f.length + 2 := by
  simp [wire, hdlcFcsBytes, ← body_length]

end HdlcFrame

theorem hdlcBuildFrame_eq (dest src : HdlcAddress) (control : UInt8) (info : List UInt8) :
    hdlcBuildFrame dest src control info =
      if hdlcInfoMax < info.length then none else some (HdlcFrame.wire ⟨dest, src, control, info⟩) := by
  unfold hdlcBuildFrame HdlcFrame.wire HdlcFrame.body infoField HdlcFrame.header HdlcFrame.length
  by_cases hinfo : info = []
  · simp [hinfo]
  · simp [hinfo, List.length_pos_iff]

private theorem toUInt16_eq_low_iff (b : UInt8) (w : UInt16) : b.toUInt16 = w &&& 0xFF ↔ b = (w &&& 0xFF).toUInt8 := by
  have hand : w.toNat &&& 255 = w.toNat % 256 := Nat.and_two_pow_sub_one_eq_mod w.toNat 8
  have hb := b.toNat_lt
  simp only [← UInt8.toNat_inj, ← UInt16.toNat_inj, UInt8.toNat_toUInt16, UInt16.toNat_and, UInt16.toNat_toUInt8,
    UInt16.reduceToNat, hand]
  omega

private theorem toUInt16_eq_high_iff (b : UInt8) (w : UInt16) : b.toUInt16 = w >>> 8 ↔ b = (w >>> 8).toUInt8 := by
  have hb := b.toNat_lt
  have hw := w.toNat_lt
  simp only [← UInt8.toNat_inj, ← UInt16.toNat_inj, UInt8.toNat_toUInt16, UInt16.toNat_shiftRight,
    UInt16.toNat_toUInt8, UInt16.reduceToNat, Nat.reduceMod, Nat.shiftRight_eq_div_pow]
  omega

private theorem checkFcs_eq_ok {buf : List UInt8} {pos : Nat} {data : List UInt8} {u : Unit} :
    checkFcs buf pos (hdlcFcs data) = .ok u ↔ hdlcFcsBytes data <+: buf.drop pos := by
  simp only [checkFcs, bind_eq_ok, require_eq_ok, byteAt_eq_ok, hdlcFcsBytes, cons_prefix_drop_iff, List.nil_prefix,
    and_true, toUInt16_eq_low_iff, toUInt16_eq_high_iff]
  constructor
  · rintro ⟨_, hlow, _, rfl, _, hhigh, rfl⟩
    exact ⟨hlow, hhigh⟩
  · rintro ⟨hlow, hhigh⟩
    exact ⟨_, hlow, (), rfl, _, hhigh, rfl⟩

/-- The info field is read exactly where it stands between the header and the FCS. -/
theorem parseInfo_eq_ok {buf : List UInt8} {pos fcsPos : Nat} (hpos : 1 ≤ pos) (hle : pos ≤ fcsPos)
    (hlimit : fcsPos ≤ buf.length) {info : List UInt8} :
    parseInfo buf pos fcsPos = .ok info ↔
      buf.drop pos = infoField ((buf.drop 1).take (pos - 1)) info ++ buf.drop fcsPos := by
  simp only [parseInfo, bind_eq_ok, sub_eq_ok, infoField]
  constructor
  · rintro ⟨rest, rfl, hread⟩
    split at hread
    case isTrue hrest =>
      obtain rfl := pure_eq_ok.mp hread
      simp [hrest]
    case isFalse hrest =>
      split at hread
      case isFalse => simp at hread
      case isTrue h3 =>
        simp only [bind_eq_ok, sub_eq_ok, slice_eq_ok] at hread
        obtain ⟨n, hn, _, ⟨hheader, rfl⟩, _, hfcs, count, hcount, hslice, rfl⟩ := hread
        obtain rfl : n = pos - 1 := by omega
        have hne : (buf.drop (pos + 2)).take count ≠ [] := by
          rw [← List.length_pos_iff, List.length_take, List.length_drop]
          omega
        have hdrop := prefix_drop_iff.mp (checkFcs_eq_ok.mp hfcs)
        have htail : buf.drop (pos + rest) = (buf.drop (pos + 2)).drop count := by
          rw [List.drop_drop]
          congr 1
          omega
        rw [if_neg hne, List.append_assoc, htail, List.take_append_drop]
        exact hdrop
  · intro hdrop
    refine ⟨fcsPos - pos, by omega, ?_⟩
    have hlength := congrArg List.length hdrop
    rw [List.length_append, List.length_drop, List.length_drop] at hlength
    split at hdrop
    case isTrue hnil =>
      rw [if_pos hnil, List.length_nil] at hlength
      rw [if_pos (by omega), hnil, pure_eq_ok]
    case isFalse hne =>
      have hinfo := List.length_pos_iff.mpr hne
      rw [if_neg hne, List.length_append, show (hdlcFcsBytes _).length = 2 from rfl] at hlength
      rw [if_neg (by omega), if_pos (by omega)]
      simp only [bind_eq_ok, sub_eq_ok, slice_eq_ok]
      have htail : buf.drop (pos + 2) = info ++ buf.drop fcsPos := by
        rw [← List.drop_drop, hdrop, List.append_assoc]
        rfl
      refine ⟨pos - 1, by omega, _, ⟨by omega, rfl⟩, (), checkFcs_eq_ok.mpr ?_, info.length, by omega, by omega, ?_⟩
      · rw [hdrop, List.append_assoc]
        exact List.prefix_append _ _
      · rw [htail, List.take_left]

private theorem format_iff (format : UInt8) : format &&& 0xF8 = hdlcFormatTypeA ↔ format.toNat / 8 = 20 := by
  have h : ∀ i : Fin 256, i.val &&& 0xF8 = 0xA0 ↔ i.val / 8 = 20 := by decide +kernel
  simpa [← UInt8.toNat_inj, hdlcFormatTypeA] using h ⟨format.toNat, format.toNat_lt⟩

theorem toNat_format {n : Nat} (h : n ≤ 0x7FF) : (hdlcFormatTypeA ||| UInt8.ofNat (n >>> 8)).toNat = 160 + n / 256 := by
  have hor := Nat.shiftLeft_add_eq_or_of_lt (show n / 256 < 2 ^ 3 by omega) 20
  simp only [hdlcFormatTypeA, UInt8.toNat_or, UInt8.toNat_ofNat', UInt8.reduceToNat, Nat.shiftRight_eq_div_pow]
  rw [Nat.mod_eq_of_lt (by omega)]
  exact hor.symm

/-- The two format bytes the parser accepts for a length are the two it is built with. -/
theorem format_length_iff (format low : UInt8) (n : Nat) :
    (format &&& 0xF8 = hdlcFormatTypeA ∧ (format &&& 0x07).toNat <<< 8 ||| low.toNat = n) ↔
      n ≤ 0x7FF ∧ format = hdlcFormatTypeA ||| UInt8.ofNat (n >>> 8) ∧ low = UInt8.ofNat (n &&& 0xFF) := by
  have hlow := low.toNat_lt
  have hmod : (format &&& 7).toNat = format.toNat % 8 := by
    simpa using Nat.and_two_pow_sub_one_eq_mod format.toNat 3
  have hlength : (format &&& 7).toNat <<< 8 ||| low.toNat = format.toNat % 8 * 256 + low.toNat := by
    rw [hmod, ← Nat.shiftLeft_add_eq_or_of_lt hlow, Nat.shiftLeft_eq]
  rw [hlength, format_iff, ← UInt8.toNat_inj, ← UInt8.toNat_inj, Nat.and_two_pow_sub_one_eq_mod n 8,
    UInt8.toNat_ofNat']
  constructor
  · rintro ⟨hformat, rfl⟩
    have hle : format.toNat % 8 * 256 + low.toNat ≤ 0x7FF := by omega
    rw [toNat_format hle]
    omega
  · rintro ⟨hle, hformat, hlow⟩
    rw [toNat_format hle] at hformat
    omega

/-- An accepted frame is the wire form of what is returned. -/
theorem wire_of_hdlcParseFrame {buf : List UInt8} {f : HdlcFrame} (h : hdlcParseFrame buf = .ok f) :
    buf = f.wire ∧ f.length ≤ 0x7FF := by
  simp only [hdlcParseFrame, bind_eq_ok, require_eq_ok, byteAt_eq_ok, sub_eq_ok, slice_eq_ok, parseAddress_eq_ok,
    checkFcs_eq_ok, pure_eq_ok, Prod.exists, exists_and_left, exists_const] at h
  obtain ⟨hlen, _, hopen, rfl, k, hk, _, hclose, rfl, format, hformat, hF8, low, hlow, n, hn, hlength, fcsPos, hfcsPos,
    dest, _, ⟨hdest, rfl, hle₁⟩, src, _, ⟨hsrc, rfl, hle₂⟩, hlt, control, hcontrol, info, hinfo, m, hm, _,
    ⟨hslice, rfl⟩, hfcs, rfl⟩ := h
  obtain ⟨hmax, rfl, rfl⟩ := (format_length_iff _ _ _).mp ⟨hF8, hlength⟩
  set f : HdlcFrame := ⟨dest, src, control, info⟩ with hf
  rw [parseInfo_eq_ok (by omega) (by omega) (by omega)] at hinfo
  -- the bytes behind the control byte are as many as the length field leaves
  have hlengths := congrArg List.length hinfo
  rw [List.length_append, List.length_drop, List.length_drop, infoField_length] at hlengths
  obtain rfl : n = f.length := by
    simp only [HdlcFrame.length, hf]
    omega
  have hheader : buf.drop 1 = f.header ++ buf.drop (3 + dest.len + src.len + 1) := by
    rw [drop_eq_cons_iff.mpr ⟨hformat, rfl⟩, drop_eq_cons_iff.mpr ⟨hlow, rfl⟩, prefix_drop_iff.mp hdest,
      ← HdlcAddress.len, prefix_drop_iff.mp hsrc, ← HdlcAddress.len, drop_eq_cons_iff.mpr ⟨hcontrol, rfl⟩]
    simp [HdlcFrame.header, hf]
  have hbody : buf.drop 1 = f.body ++ buf.drop fcsPos := by
    have htake : (buf.drop 1).take (3 + dest.len + src.len + 1 - 1) = f.header := by
      rw [hheader, List.take_left']
      rw [HdlcFrame.header_length]
      change dest.len + src.len + 3 = _
      omega
    rw [HdlcFrame.body, List.append_assoc, ← htake, ← hinfo, htake]
    exact hheader
  have htake : (buf.drop 1).take m = f.body := by
    rw [hbody, List.take_left']
    have := f.body_length
    omega
  have hlast : buf.drop (fcsPos + 2) = [hdlcFlag] := by
    obtain rfl : k = fcsPos + 2 := by omega
    exact drop_eq_cons_iff.mpr ⟨hclose, List.drop_eq_nil_of_le (by omega)⟩
  refine ⟨?_, hmax⟩
  calc buf = hdlcFlag :: buf.drop 1 := drop_eq_cons_iff.mpr ⟨hopen, rfl⟩
    _ = f.wire := by
      rw [hbody, prefix_drop_iff.mp hfcs, htake, show (hdlcFcsBytes f.body).length = 2 from rfl, hlast,
        HdlcFrame.wire, List.append_assoc]

/-! What stands at each position of a frame on the wire. -/
namespace HdlcFrame
variable (f : HdlcFrame)

def trailer : List UInt8 := infoField f.header f.info ++ (hdlcFcsBytes f.body ++ [hdlcFlag])

private theorem wire_drop_dest : f.wire.drop 3 = f.dest.bytes ++ (f.src.bytes ++ f.control :: f.trailer) := by
  simp [wire, body, header, trailer]

private theorem wire_drop_src : f.wire.drop (3 + f.dest.len) = f.src.bytes ++ f.control :: f.trailer := by
  rw [← List.drop_drop, wire_drop_dest, HdlcAddress.len, List.drop_left]

private theorem wire_drop_control : f.wire.drop (3 + f.dest.len + f.src.len) = f.control :: f.trailer := by
  rw [← List.drop_drop, wire_drop_src, HdlcAddress.len, List.drop_left]

private theorem wire_drop_fcs : f.wire.drop (f.body.length + 1) = hdlcFcsBytes f.body ++ [hdlcFlag] := by
  simp [wire]

private theorem wire_drop_closing : f.wire.drop (f.body.length + 3) = [hdlcFlag] := by
  rw [show f.body.length + 3 = f.body.length + 1 + 2 from rfl, ← List.drop_drop, wire_drop_fcs]
  rfl

private theorem wire_take_header : (f.wire.drop 1).take (3 + f.dest.len + f.src.len + 1 - 1) = f.header := by
  simp only [wire, body, List.drop_succ_cons, List.drop_zero, List.append_assoc]
  rw [List.take_left']
  rw [header_length]
  omega

private theorem wire_take_body : (f.wire.drop 1).take f.body.length = f.body := by
  simp [wire]

end HdlcFrame

/-- The wire form of a frame is accepted, as long as its length fits the length field. -/
theorem hdlcParseFrame_wire {f : HdlcFrame} (hmax : f.length ≤ 0x7FF) : hdlcParseFrame f.wire = .ok f := by
  have hbody := f.body_length
  have hwire := f.wire_length
  have hlength : f.length = 2 + f.dest.len + f.src.len + 1 + 2 + (infoField f.header f.info).length := by
    rw [infoField_length, HdlcFrame.length]
  have hdest := f.dest.len_eq
  have hsrc := f.src.len_eq
  rw [← HdlcAddress.len] at hdest hsrc
  obtain ⟨hformat, hformatLength⟩ := (format_length_iff _ _ f.length).mpr ⟨hmax, rfl, rfl⟩
  obtain ⟨hcontrol, htrailer⟩ := drop_eq_cons_iff.mp f.wire_drop_control
  have hclosing := (drop_eq_cons_iff.mp f.wire_drop_closing).1
  have hinfo : parseInfo f.wire (3 + f.dest.len + f.src.len + 1) (f.body.length + 1) = .ok f.info := by
    rw [parseInfo_eq_ok (by omega) (by omega) (by omega), f.wire_take_header, f.wire_drop_fcs, htrailer]
    rfl
  have hfcs : hdlcFcsBytes f.body <+: f.wire.drop (f.body.length + 1) := by
    rw [f.wire_drop_fcs]
    exact List.prefix_append _ _
  simp only [hdlcParseFrame, bind_eq_ok, require_eq_ok, byteAt_eq_ok, sub_eq_ok, slice_eq_ok, parseAddress_eq_ok,
    checkFcs_eq_ok, pure_eq_ok, Prod.exists, exists_and_left, exists_const]
  exact ⟨by omega, hdlcFlag, rfl, rfl, f.body.length + 3, by omega, hdlcFlag, hclosing, rfl, _, rfl, hformat, _, rfl,
    f.length, by omega, hformatLength, f.body.length + 1, by omega, f.dest, _,
    ⟨⟨_, f.wire_drop_dest.symm⟩, rfl, by omega⟩, f.src, _, ⟨⟨_, f.wire_drop_src.symm⟩, rfl, by omega⟩, by omega,
    f.control, hcontrol, f.info, hinfo, f.body.length, by omega, f.body, ⟨by omega, f.wire_take_body⟩, hfcs, rfl⟩

namespace HdlcAddress

/-- The upper address and, beyond one byte, the lower one: seven bits from each byte. -/
def decode (a : HdlcAddress) : Nat × Option Nat :=
  match a.lead with
  | [upper] => (upper.toNat / 2, some (a.last.toNat / 2))
  | [upper, upperLow, lower] =>
    (upper.toNat / 2 * 128 + upperLow.toNat / 2, some (lower.toNat / 2 * 128 + a.last.toNat / 2))
  | _ => (a.last.toNat / 2, none)

end HdlcAddress

private theorem half_shiftLeft {x : UInt16} (h : x ≤ 0x7F) : (x <<< 1).toUInt8.toNat / 2 = x.toNat := by
  have hx : x.toNat ≤ 0x7F := UInt16.le_iff_toNat_le.mp h
  simp only [UInt16.toNat_toUInt8, UInt16.toNat_shiftLeft, UInt16.reduceToNat, Nat.reduceMod, Nat.reducePow,
    Nat.shiftLeft_eq]
  omega

private theorem half_or_one (b : UInt8) : (b ||| 1).toNat / 2 = b.toNat / 2 := by
  rw [UInt8.toNat_or, Nat.or_div_two]
  simp

/-- Up to 14 bits are split over two bytes and put back together. -/
theorem half_split {x : UInt16} (h : x ≤ 0x3FFF) :
    ((x >>> 7) <<< 1).toUInt8.toNat / 2 * 128 + ((x &&& 0x7F) <<< 1).toUInt8.toNat / 2 = x.toNat := by
  have hx : x.toNat ≤ 0x3FFF := UInt16.le_iff_toNat_le.mp h
  have hhigh : (x >>> 7).toNat = x.toNat / 128 := by simp [Nat.shiftRight_eq_div_pow]
  have hlow : (x &&& 0x7F).toNat = x.toNat % 128 := Nat.and_two_pow_sub_one_eq_mod x.toNat 7
  have hle {y : UInt16} (hy : y.toNat ≤ 127) : y ≤ 0x7F := UInt16.le_iff_toNat_le.mpr hy
  rw [half_shiftLeft (hle (by omega)), half_shiftLeft (hle (by omega)), hhigh, hlow]
  omega

/-- An encoded address decodes to what was encoded. -/
theorem decode_hdlcAddress {upper lower : UInt16} {size : UInt8} {a : HdlcAddress}
    (h : hdlcAddress upper lower size = some a) :
    a.len = size.toNat ∧ a.decode = (upper.toNat, if size = 1 then none else some lower.toNat) := by
  simp only [hdlcAddress, Option.ite_none_left_eq_some, not_or, not_and, UInt16.not_lt] at h
  obtain ⟨⟨hupper, hlower⟩, h⟩ := h
  split_ifs at h with h1 h2 h4
  · subst h1
    cases h
    exact ⟨rfl, Prod.ext ((half_or_one _).trans (half_shiftLeft hupper)) rfl⟩
  · subst h2
    cases h
    refine ⟨rfl, Prod.ext (half_shiftLeft hupper) (congrArg some ?_)⟩
    exact (half_or_one _).trans (half_shiftLeft (hlower (by decide)))
  · subst h4
    cases h
    refine ⟨rfl, Prod.ext (half_split hupper) (congrArg some ?_)⟩
    rw [half_or_one]
    exact half_split (hlower (by decide))

/-- Building and parsing are exact inverses, and addresses are encoded injectively. -/
theorem hdlcFrame_roundTrip :
    (∀ (dest src : HdlcAddress) (control : UInt8) (info : List UInt8), info.length ≤ hdlcInfoMax →
      ∃ out, hdlcBuildFrame dest src control info = some out ∧ out.length ≤ hdlcFrameMax ∧
        hdlcParseFrame out = .ok ⟨dest, src, control, info⟩) ∧
    (∀ (buf : List UInt8) (frame : HdlcFrame), hdlcParseFrame buf = .ok frame → frame.info.length ≤ hdlcInfoMax →
      hdlcBuildFrame frame.dest frame.src frame.control frame.info = some buf) ∧
    (∀ (size : UInt8) (upper lower upper' lower' : UInt16) (a : HdlcAddress),
      hdlcAddress upper lower size = some a → hdlcAddress upper' lower' size = some a →
        upper = upper' ∧ (size ≠ 1 → lower = lower')) := by
  refine ⟨?_, ?_, ?_⟩
  · intro dest src control info hinfo
    set f : HdlcFrame := ⟨dest, src, control, info⟩
    have hlength : f.length ≤ hdlcInfoMax + 17 := HdlcFrame.length_le hinfo
    refine ⟨f.wire, ?_, ?_, hdlcParseFrame_wire (hlength.trans (by decide))⟩
    · rw [hdlcBuildFrame_eq, if_neg (by omega)]
    · rw [f.wire_length, hdlcFrameMax]
      omega
  · intro buf frame hparse hinfo
    obtain ⟨rfl, -⟩ := wire_of_hdlcParseFrame hparse
    rw [hdlcBuildFrame_eq, if_neg (by omega)]
  · intro size upper lower upper' lower' a h h'
    obtain ⟨-, hdecode⟩ := decode_hdlcAddress h
    rw [(decode_hdlcAddress h').2] at hdecode
    obtain ⟨hupper, hlower⟩ := Prod.mk.inj hdecode
    refine ⟨UInt16.toNat_inj.mp hupper.symm, ?_⟩
    intro hsize
    rw [if_neg hsize, if_neg hsize] at hlower
    exact UInt16.toNat_inj.mp (Option.some.inj hlower).symm

/-- A GET of the import register, from client 16 to logical device 1 at physical address 17
in four bytes: built, taken apart and rebuilt, and the address is of no other device. -/
theorem hdlcFrame_roundTrip_get : ∃ server client out, hdlcAddress 1 17 4 = some server ∧
    hdlcAddress 16 0 1 = some client ∧
      out = [0x7E, 0xA0, 0x1C, 0x00, 0x02, 0x00, 0x23, 0x21, 0x32, 0x9F, 0x28, 0xE6, 0xE6, 0x00, 0xC0, 0x01, 0xC1,
        0x00, 0x03, 0x01, 0x00, 0x01, 0x08, 0x00, 0xFF, 0x02, 0x00, 0x32, 0x68, 0x7E] ∧
      hdlcBuildFrame server client 0x32 (out.extract 11 27) = some out ∧
      hdlcParseFrame out = .ok ⟨server, client, 0x32, out.extract 11 27⟩ ∧
      ∀ upper lower, hdlcAddress upper lower 4 = some server → upper = 1 ∧ lower = 17 := by
  obtain ⟨server, hserver⟩ : ∃ a, hdlcAddress 1 17 4 = some a := ⟨_, rfl⟩
  obtain ⟨client, hclient⟩ : ∃ a, hdlcAddress 16 0 1 = some a := ⟨_, rfl⟩
  let sent : List UInt8 := [0x7E, 0xA0, 0x1C, 0x00, 0x02, 0x00, 0x23, 0x21, 0x32, 0x9F, 0x28, 0xE6, 0xE6, 0x00, 0xC0,
    0x01, 0xC1, 0x00, 0x03, 0x01, 0x00, 0x01, 0x08, 0x00, 0xFF, 0x02, 0x00, 0x32, 0x68, 0x7E]
  obtain ⟨hforth, hback, hinjective⟩ := hdlcFrame_roundTrip
  obtain ⟨out, hout, -, hparse⟩ := hforth server client 0x32 (sent.extract 11 27) (by decide)
  -- what is built is this, since this is parsed as the frame
  have hsent : hdlcParseFrame sent = .ok ⟨server, client, 0x32, sent.extract 11 27⟩ := by
    cases hserver
    cases hclient
    decide +kernel
  have hbuild := hback sent _ hsent (show 16 ≤ hdlcInfoMax by decide)
  obtain rfl : sent = out := Option.some.inj (hbuild.symm.trans hout)
  refine ⟨server, client, sent, hserver, hclient, rfl, hout, hparse, fun upper lower h => ?_⟩
  obtain ⟨hupper, hlower⟩ := hinjective 4 upper lower 1 17 server h hserver
  exact ⟨hupper, hlower (by decide)⟩

end IotFirmware
