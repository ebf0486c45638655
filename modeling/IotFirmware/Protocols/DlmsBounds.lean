import IotFirmware.Protocols.AareExact
import IotFirmware.Protocols.DlmsSession
import IotFirmware.Protocols.FrameHunt
import IotFirmware.Protocols.HdlcDetection

/-! The DLMS reader against any meter: every store is inside the frame buffer,
and every byte read of a reply is one that was received. -/
namespace IotFirmware
open Checked

def lengthField (frame : List UInt8) : ℕ := (frame.getD 1 0 &&& 0x07).toNat <<< 8 ||| (frame.getD 2 0).toNat

def storeFrameByte (buf : List UInt8) (total : ℕ) (b : UInt8) : Checked Hunt :=
  if buf.length = 0 then
    if b = hdlcFlag then do pure (.reading (← store hdlcFrameMax buf buf.length b) total)
    else pure (.reading [] total)
  else if buf.length = 1 ∧ b = hdlcFlag then pure (.reading buf total)
  else if buf.length = 1 ∧ b &&& 0xF0 ≠ hdlcFormatTypeA &&& 0xF0 then pure (.reading [] total)
  else do
    let buf ← store hdlcFrameMax buf buf.length b
    if buf.length = 3 then
      let length := ((← byteAt buf 1) &&& 0x07).toNat <<< 8 ||| (← byteAt buf 2).toNat
      if length < 7 ∨ hdlcFrameMax < length + 2 then pure (.reading [] total)
      else if buf.length = length + 2 then pure (.complete buf)
      else pure (.reading buf (length + 2))
    else if buf.length = total then pure (.complete buf)
    else pure (.reading buf total)

def storeFrameLoop (startTime : UInt32) : List Poll → (buf : List UInt8) → (total : ℕ) → Checked (List UInt8)
  | [], _, _ => failure
  | poll :: polls, buf, total =>
    if poll.now - startTime < dlmsTimeout then
      match poll.byte with
      | none => storeFrameLoop startTime polls buf total
      | some b => do
        match ← storeFrameByte buf total b with
        | .reading buf total => storeFrameLoop startTime polls buf total
        | .complete frame => pure frame
    else failure

def received (turn : Turn) : List UInt8 := turn.polls.filterMap Poll.byte

/-- A frame as long as its length field says, behind an opening flag. -/
structure WellDelimited (frame : List UInt8) : Prop where
  flag : frame.head? = some hdlcFlag
  length : frame.length = lengthField frame + 2
  fits : frame.length ≤ hdlcFrameMax

/-- The bytes kept so far, and the length awaited once their header has given one. -/
structure Hunting (buf : List UInt8) (total : ℕ) : Prop where
  flag : buf = [] ∨ buf.head? = some hdlcFlag
  room : (buf.length ≤ 2 ∧ total = 0) ∨
    (3 ≤ buf.length ∧ buf.length < total ∧ total = lengthField buf + 2 ∧ total ≤ hdlcFrameMax)

private theorem hunting_nil : Hunting [] 0 := ⟨.inl rfl, .inl ⟨Nat.zero_le _, rfl⟩⟩

private theorem lengthField_append {buf : List UInt8} (h : 3 ≤ buf.length) (rest : List UInt8) :
    lengthField (buf ++ rest) = lengthField buf := by
  obtain ⟨a, b, c, more, rfl⟩ : ∃ a b c more, buf = a :: b :: c :: more := by
    match buf, h with
    | a :: b :: c :: more, _ => exact ⟨a, b, c, more, rfl⟩
  rfl

private theorem store_eq_ok {max : ℕ} {buf : List UInt8} (h : buf.length < max) (b : UInt8) :
    store max buf buf.length b = .ok (buf ++ [b]) := by
  rw [store, if_pos ⟨h, rfl⟩]

def StoredAs (buf : List UInt8) (b : UInt8) : Hunt → Prop
  | .reading buf' total' => Hunting buf' total' ∧ buf' <:+ buf ++ [b]
  | .complete frame => WellDelimited frame ∧ frame = buf ++ [b]

private theorem storeFrameByte_first (b : UInt8) :
    storeFrameByte [] 0 b = .ok (readFrameByte [] 0 b) ∧ StoredAs [] b (readFrameByte [] 0 b) := by
  by_cases hflag : b = hdlcFlag
  · subst hflag
    exact ⟨rfl, ⟨.inr rfl, .inl ⟨by simp, rfl⟩⟩, List.suffix_rfl⟩
  · have hread : readFrameByte [] 0 b = .reading [] 0 := by simp [readFrameByte, hflag]
    rw [hread]
    exact ⟨by simp [storeFrameByte, hflag, pure, Except.pure], hunting_nil, List.nil_suffix⟩

private theorem storeFrameByte_second (b : UInt8) :
    storeFrameByte [hdlcFlag] 0 b = .ok (readFrameByte [hdlcFlag] 0 b) ∧
      StoredAs [hdlcFlag] b (readFrameByte [hdlcFlag] 0 b) := by
  by_cases hflag : b = hdlcFlag
  · subst hflag
    exact ⟨rfl, ⟨.inr rfl, .inl ⟨by simp, rfl⟩⟩, List.suffix_append _ _⟩
  · by_cases hformat : b &&& 0xF0 = hdlcFormatTypeA &&& 0xF0
    · have hread : readFrameByte [hdlcFlag] 0 b = .reading [hdlcFlag, b] 0 := by
        simp [readFrameByte, hflag, hformat]
      rw [hread]
      refine ⟨?_, ⟨.inr rfl, .inl ⟨by simp, rfl⟩⟩, List.suffix_rfl⟩
      simp [storeFrameByte, hflag, hformat, store, hdlcFrameMax, hdlcInfoMax, bind, Except.bind, pure, Except.pure]
    · have hread : readFrameByte [hdlcFlag] 0 b = .reading [] 0 := by simp [readFrameByte, hflag, hformat]
      rw [hread]
      exact ⟨by simp [storeFrameByte, hflag, hformat, pure, Except.pure], hunting_nil, List.nil_suffix⟩

private theorem storeFrameByte_third (format b : UInt8) :
    storeFrameByte [hdlcFlag, format] 0 b = .ok (readFrameByte [hdlcFlag, format] 0 b) ∧
      StoredAs [hdlcFlag, format] b (readFrameByte [hdlcFlag, format] 0 b) := by
  set length := (format &&& 0x07).toNat <<< 8 ||| b.toNat with hlength
  have hstored : storeFrameByte [hdlcFlag, format] 0 b =
      if length < 7 ∨ hdlcFrameMax < length + 2 then .ok (.reading [] 0)
      else if 3 = length + 2 then .ok (.complete [hdlcFlag, format, b])
      else .ok (.reading [hdlcFlag, format, b] (length + 2)) := by
    rw [storeFrameByte, if_neg (by simp), if_neg (by simp), if_neg (by simp), store_eq_ok (show 2 < 147 by decide)]
    rfl
  by_cases hbad : length < 7 ∨ hdlcFrameMax < length + 2
  · have hread : readFrameByte [hdlcFlag, format] 0 b = .reading [] 0 := by
      simp [readFrameByte, -UInt8.toNat_and, ← hlength, hbad]
    rw [hread, hstored, if_pos hbad]
    exact ⟨rfl, hunting_nil, List.nil_suffix⟩
  · obtain ⟨hmin, hmax⟩ := not_or.mp hbad
    have hread : readFrameByte [hdlcFlag, format] 0 b = .reading [hdlcFlag, format, b] (length + 2) := by
      simp [readFrameByte, -UInt8.toNat_and, ← hlength, hbad]
      omega
    rw [hread, hstored, if_neg hbad, if_neg (by omega)]
    refine ⟨rfl, ⟨.inr rfl, .inr ⟨by simp, ?_, rfl, by omega⟩⟩, List.suffix_rfl⟩
    simp only [List.length_cons, List.length_nil]
    omega

/-- A byte is stored inside the buffer, and what is kept is what was received last. -/
theorem storeFrameByte_spec {buf : List UInt8} {total : ℕ} (h : Hunting buf total) (b : UInt8) :
    storeFrameByte buf total b = .ok (readFrameByte buf total b) ∧ StoredAs buf b (readFrameByte buf total b) := by
  rcases h.room with ⟨hshort, rfl⟩ | ⟨hlong, hroom, htotal, hmax⟩
  · rcases buf with _ | ⟨first, _ | ⟨format, _ | ⟨low, more⟩⟩⟩
    · exact storeFrameByte_first b
    · obtain rfl : first = hdlcFlag := by simpa using h.flag
      exact storeFrameByte_second b
    · obtain rfl : first = hdlcFlag := by simpa using h.flag
      exact storeFrameByte_third format b
    · simp at hshort
  · have hstored : storeFrameByte buf total b =
        if buf.length + 1 = total then .ok (.complete (buf ++ [b])) else .ok (.reading (buf ++ [b]) total) := by
      rw [storeFrameByte, if_neg (by omega), if_neg (by omega), if_neg (by omega), store_eq_ok (by omega)]
      change (if (buf ++ [b]).length = 3 then _ else _) = _
      rw [List.length_append, List.length_singleton, if_neg (by omega)]
      rfl
    have hhead : (buf ++ [b]).head? = some hdlcFlag := by
      rcases h.flag with rfl | hflag
      · simp at hlong
      · rw [List.head?_append, hflag, Option.some_or]
    have hfield := lengthField_append hlong [b]
    rw [hstored, readFrameByte_body hlong]
    split
    case isTrue hlast =>
      refine ⟨rfl, ⟨hhead, ?_, ?_⟩, rfl⟩
      · rw [hfield, List.length_append, List.length_singleton, hlast, htotal]
      · rw [List.length_append, List.length_singleton, hlast]
        exact hmax
    case isFalse hmore =>
      refine ⟨rfl, ⟨.inr hhead, .inr ⟨?_, ?_, by rw [hfield, htotal], hmax⟩⟩, List.suffix_rfl⟩
      · rw [List.length_append]
        omega
      · rw [List.length_append, List.length_singleton]
        omega

/-- Over the whole loop: no store leaves the buffer, and a frame is a stretch of what was received. -/
theorem storeFrameLoop_spec (startTime : UInt32) (polls : List Poll) :
    ∀ (buf : List UInt8) (total : ℕ) (before : List UInt8), Hunting buf total → buf <:+ before →
      storeFrameLoop startTime polls buf total = readFrameLoop startTime polls buf total ∧
        (storeFrameLoop startTime polls buf total).InBounds ∧
        ∀ frame, readFrameLoop startTime polls buf total = .ok frame →
          WellDelimited frame ∧ frame <:+: before ++ polls.filterMap Poll.byte := by
  induction polls with
  | nil => exact fun buf total before _ _ => ⟨rfl, inBounds_failure, fun frame h => absurd h (failure_ne_ok _)⟩
  | cons poll polls ih =>
    intro buf total before hhunting hsuffix
    rw [storeFrameLoop, readFrameLoop]
    by_cases hnow : poll.now - startTime < dlmsTimeout
    · rw [if_pos hnow, if_pos hnow]
      cases hbyte : poll.byte with
      | none =>
        rw [List.filterMap_cons_none hbyte]
        exact ih buf total before hhunting hsuffix
      | some b =>
        obtain ⟨hstored, hnext⟩ := storeFrameByte_spec hhunting b
        have hbefore : buf ++ [b] <:+ before ++ [b] := by
          obtain ⟨front, rfl⟩ := hsuffix
          exact ⟨front, (List.append_assoc _ _ _).symm⟩
        rw [List.filterMap_cons_some hbyte, ← List.singleton_append, ← List.append_assoc]
        dsimp only
        rw [hstored]
        cases hread : readFrameByte buf total b with
        | reading buf' total' =>
          rw [hread] at hnext
          exact ih buf' total' (before ++ [b]) hnext.1 (hnext.2.trans hbefore)
        | complete frame =>
          rw [hread] at hnext
          obtain ⟨hshape, rfl⟩ := hnext
          refine ⟨rfl, inBounds_ok _, fun frame h => ?_⟩
          obtain rfl := Except.ok.inj h
          exact ⟨hshape, List.infix_append_of_infix_left hbefore.isInfix⟩
    · rw [if_neg hnow, if_neg hnow]
      exact ⟨rfl, inBounds_failure, fun frame h => absurd h (failure_ne_ok _)⟩

def storeFrame (turn : Turn) : Checked (List UInt8) := storeFrameLoop turn.startTime turn.polls [] 0

private theorem storeFrame_eq (turn : Turn) : storeFrame turn = readFrame turn :=
  (storeFrameLoop_spec turn.startTime turn.polls [] 0 [] hunting_nil List.suffix_rfl).1

theorem inBounds_readFrame (turn : Turn) : (readFrame turn).InBounds :=
  storeFrame_eq turn ▸ (storeFrameLoop_spec turn.startTime turn.polls [] 0 [] hunting_nil List.suffix_rfl).2.1

private theorem readFrame_received {turn : Turn} {frame : List UInt8} (h : readFrame turn = .ok frame) :
    WellDelimited frame ∧ frame <:+: received turn :=
  (storeFrameLoop_spec turn.startTime turn.polls [] 0 [] hunting_nil List.suffix_rfl).2.2 frame h

private theorem inBounds_parseGetResponse (apdu : List UInt8) : (parseGetResponse apdu).InBounds := by
  refine inBounds_require_bind fun hlen => ?_
  have hheader : 4 ≤ apdu.length := hlen
  refine inBounds_byteAt_bind (by omega) fun tag => ?_
  refine inBounds_require_bind fun _ => ?_
  refine inBounds_byteAt_bind (by omega) fun type => ?_
  refine inBounds_require_bind fun _ => ?_
  refine inBounds_require_bind fun _ => ?_
  refine inBounds_byteAt_bind (by omega) fun invoke => ?_
  refine inBounds_require_bind fun _ => ?_
  refine inBounds_byteAt_bind (by omega) fun choice => ?_
  split
  case isTrue herror =>
    have hresult : 4 < apdu.length := herror.2
    exact inBounds_byteAt_bind hresult fun _ => inBounds_failure
  case isFalse =>
    refine inBounds_require_bind fun _ => ?_
    exact inBounds_sub_bind hlen fun n hn => inBounds_slice (by omega)

private theorem inBounds_decodeNumber (data : List UInt8) : (decodeNumber data).InBounds := by
  refine inBounds_require_bind fun hlen => ?_
  refine inBounds_byteAt_bind (by omega) fun tag => ?_
  split
  · exact inBounds_failure
  · refine inBounds_require_bind fun hsize => ?_
    exact inBounds_bind (inBounds_slice hsize) fun _ _ => inBounds_pure _

theorem inBounds_decodeScalerUnit (data : List UInt8) (unit : UInt8) : (decodeScalerUnit data unit).InBounds := by
  refine inBounds_require_bind fun hlen => ?_
  refine inBounds_byteAt_bind (by omega) fun _ => inBounds_require_bind fun _ => ?_
  refine inBounds_byteAt_bind (by omega) fun _ => inBounds_require_bind fun _ => ?_
  refine inBounds_byteAt_bind (by omega) fun _ => inBounds_require_bind fun _ => ?_
  refine inBounds_byteAt_bind (by omega) fun _ => inBounds_require_bind fun _ => ?_
  refine inBounds_byteAt_bind (by omega) fun _ => inBounds_require_bind fun _ => ?_
  exact inBounds_byteAt_bind (by omega) fun _ => inBounds_pure _

namespace DlmsCosemReader
variable (bus : Bus) (r : DlmsCosemReader)

private theorem inBounds_receive : (r.receive bus).InBounds := by
  refine inBounds_bind (inBounds_readFrame _) fun buf _ => ?_
  refine inBounds_bind (inBounds_hdlcParseFrame buf) fun frame _ => ?_
  exact inBounds_require_bind fun _ => inBounds_require_bind fun _ => inBounds_pure _

private theorem inBounds_replyApdu (frame : HdlcFrame) : (r.replyApdu frame).InBounds := by
  refine inBounds_require_bind fun _ => inBounds_require_bind fun _ => inBounds_require_bind fun _ => ?_
  refine inBounds_require_bind fun hlen => ?_
  have hllc : 3 ≤ frame.info.length := hlen.1
  refine inBounds_bind (inBounds_slice hllc) fun llc _ => ?_
  refine inBounds_require_bind fun _ => ?_
  exact inBounds_sub_bind hlen.1 fun n hn => inBounds_slice (by omega)

private theorem inBounds_connect : (r.connect bus).1.InBounds := by
  unfold connect
  split
  · exact inBounds_failure
  · split
    case h_1 e hreceive => exact (inBounds_receive bus _).error hreceive
    case h_2 => split_ifs <;> simp

private theorem inBounds_disconnect : (r.disconnect bus).1.InBounds := by
  unfold disconnect
  split
  · exact inBounds_failure
  · split
    case h_1 e hreceive => exact (inBounds_receive bus _).error hreceive
    case h_2 => split_ifs <;> simp

private theorem inBounds_exchange (apdu : List UInt8) : (r.exchange bus apdu).1.InBounds := by
  unfold exchange
  split_ifs
  · exact inBounds_failure
  · dsimp only
    split
    · exact inBounds_failure
    · split
      case h_1 e hreply =>
        exact (inBounds_bind (inBounds_receive bus _) fun frame _ => inBounds_replyApdu _ frame).error hreply
      case h_2 => exact inBounds_ok _

private theorem inBounds_associate : (r.associate bus).1.InBounds := by
  unfold associate
  split
  case h_1 hexchange => exact (inBounds_exchange bus r buildAarq).error (congrArg Prod.fst hexchange)
  case h_2 => exact inBounds_checkAare _

theorem inBounds_getAttribute (obis : Vector UInt8 6) (attr : UInt8) : (r.getAttribute bus obis attr).1.InBounds := by
  unfold getAttribute
  split
  case h_1 hexchange => exact (inBounds_exchange bus r _).error (congrArg Prod.fst hexchange)
  case h_2 => exact inBounds_parseGetResponse _

private theorem inBounds_readAssociated (obis : Vector UInt8 6) (unit : UInt8) :
    (r.readAssociated bus obis unit).1.InBounds := by
  unfold readAssociated
  split
  case h_1 hassociate => exact (inBounds_associate bus r).error (congrArg Prod.fst hassociate)
  case h_2 =>
    split
    case h_1 hget => exact (inBounds_getAttribute bus _ obis _).error (congrArg Prod.fst hget)
    case h_2 data _ _ =>
      split
      case h_1 hscaler => exact (inBounds_decodeScalerUnit data unit).error hscaler
      case h_2 =>
        split
        case h_1 hget => exact (inBounds_getAttribute bus _ obis _).error (congrArg Prod.fst hget)
        case h_2 data _ _ =>
          have hnumber := inBounds_decodeNumber data
          cases h : decodeNumber data with
          | ok raw => exact inBounds_ok _
          | error e => exact hnumber.error h

theorem inBounds_readRegister (obis : Vector UInt8 6) (unit : UInt8) : (r.readRegister bus obis unit).1.InBounds := by
  unfold readRegister
  split
  case h_1 hconnect => exact (inBounds_connect bus r).error (congrArg Prod.fst hconnect)
  case h_2 => exact inBounds_readAssociated bus _ obis unit

theorem inBounds_probe : (r.probe bus).1.InBounds := by
  unfold probe
  split
  case h_1 hconnect => exact (inBounds_connect bus r).error (congrArg Prod.fst hconnect)
  case h_2 => exact inBounds_associate bus _

/-- The info field of a frame is a stretch of its bytes. -/
theorem info_isInfix {buf : List UInt8} {frame : HdlcFrame} (h : hdlcParseFrame buf = .ok frame) :
    frame.info <:+: buf := by
  obtain ⟨rfl, -⟩ := wire_of_hdlcParseFrame h
  by_cases hinfo : frame.info = []
  · rw [hinfo]
    exact List.nil_infix
  · have hbody : frame.info <:+: frame.body := by
      refine ⟨frame.header ++ hdlcFcsBytes frame.header, [], ?_⟩
      simp [HdlcFrame.body, infoField, hinfo]
    exact hbody.trans ⟨[hdlcFlag], hdlcFcsBytes frame.body ++ [hdlcFlag], by simp [HdlcFrame.wire]⟩

/-- The APDU of a reply fits the caller's buffer, and is a stretch of what was received for it. -/
theorem exchange_received {apdu resp : List UInt8} (h : (r.exchange bus apdu).1 = .ok resp) :
    resp.length ≤ dlmsApduMax ∧ resp <:+: received (bus (r.exchange bus apdu).2.sent) := by
  unfold exchange at h ⊢
  split_ifs at h ⊢ with hlen
  · exact absurd h (failure_ne_ok _)
  dsimp only at h ⊢
  split at h
  · exact absurd h (failure_ne_ok _)
  · rename_i r' hsend
    cases hreply : r'.receive bus >>= r'.replyApdu with
    | error e =>
      rw [hreply] at h
      exact absurd h (by simp)
    | ok found =>
      rw [hreply] at h
      dsimp only
      obtain rfl := Except.ok.inj h
      obtain ⟨frame, hreceive, happdu⟩ := bind_eq_ok.mp hreply
      obtain ⟨buf, hread, hparse, -, -⟩ := receive_eq_ok.mp hreceive
      obtain ⟨-, hinfo, hmax⟩ := replyApdu_eq_ok.mp happdu
      have hresp : found <:+: frame.info := by
        rw [hinfo]
        exact (List.suffix_append _ _).isInfix
      exact ⟨hmax, hresp.trans ((info_isInfix hparse).trans (readFrame_received hread).2)⟩

end DlmsCosemReader

theorem parseGetResponse_isInfix {apdu data : List UInt8} (h : parseGetResponse apdu = .ok data) : data <:+: apdu := by
  simp only [parseGetResponse, bind_eq_ok, require_eq_ok, byteAt_eq_ok] at h
  obtain ⟨-, -, _, -, -, -, _, -, -, -, -, -, _, -, -, -, choice, -, h⟩ := h
  split at h
  · obtain ⟨_, -, h⟩ := bind_eq_ok.mp h
    exact absurd h (failure_ne_ok _)
  · simp only [bind_eq_ok, require_eq_ok, sub_eq_ok, slice_eq_ok] at h
    obtain ⟨-, -, n, -, -, rfl⟩ := h
    exact (List.take_prefix _ _).isInfix.trans (List.drop_suffix _ _).isInfix

/-- Whatever a meter sends, no store leaves the frame buffer and no read leaves the bytes received for the reply. -/
theorem dlmsReader_inBounds :
    (∀ turn, storeFrame turn = readFrame turn ∧ (storeFrame turn).InBounds ∧
      ∀ frame, readFrame turn = .ok frame → frame <:+: received turn ∧ WellDelimited frame) ∧
    (∀ buf : List UInt8, (hdlcParseFrame buf).InBounds ∧
      ∀ limit ≤ buf.length, ∀ pos, (parseAddress buf limit pos).InBounds ∧ (readBerLength buf limit pos).InBounds) ∧
    (∀ apdu : List UInt8, (checkAare apdu).InBounds ∧ (parseGetResponse apdu).InBounds ∧
      ∀ data, parseGetResponse apdu = .ok data →
        data <:+: apdu ∧ (decodeNumber data).InBounds ∧ ∀ unit, (decodeScalerUnit data unit).InBounds) ∧
    (∀ (bus : Bus) (r : DlmsCosemReader), (∀ apdu, (r.exchange bus apdu).1.InBounds ∧
        ∀ resp, (r.exchange bus apdu).1 = .ok resp →
          resp.length ≤ dlmsApduMax ∧ resp <:+: received (bus (r.exchange bus apdu).2.sent)) ∧
      (r.connect bus).1.InBounds ∧ (r.disconnect bus).1.InBounds ∧ (r.probe bus).1.InBounds ∧
      ∀ obis unit, (r.readRegister bus obis unit).1.InBounds) := by
  refine ⟨fun turn => ⟨storeFrame_eq turn, ?_, fun frame h => ?_⟩, fun buf => ⟨inBounds_hdlcParseFrame buf, ?_⟩,
    fun apdu => ⟨inBounds_checkAare apdu, inBounds_parseGetResponse apdu, fun data h => ?_⟩, fun bus r => ?_⟩
  · rw [storeFrame_eq]
    exact inBounds_readFrame turn
  · exact (readFrame_received h).symm
  · exact fun limit hlimit pos => ⟨inBounds_parseAddress hlimit pos, inBounds_readBerLength hlimit pos⟩
  · exact ⟨parseGetResponse_isInfix h, inBounds_decodeNumber data, inBounds_decodeScalerUnit data⟩
  · exact ⟨fun apdu => ⟨r.inBounds_exchange bus apdu, fun resp h => r.exchange_received bus h⟩, r.inBounds_connect bus,
      r.inBounds_disconnect bus, r.inBounds_probe bus, r.inBounds_readRegister bus⟩

end IotFirmware
