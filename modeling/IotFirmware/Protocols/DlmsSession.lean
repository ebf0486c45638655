import Mathlib.Data.Nat.Bitwise
import IotFirmware.Foundation.Script
import IotFirmware.Protocols.DlmsAnswers
import IotFirmware.Protocols.DlmsCosem
import IotFirmware.Protocols.HdlcStandard

/-! A reading session against any bus is a script: SNRM, the association, the
two GETs, and one DISC whenever the link came up. -/
namespace IotFirmware
open Checked Script

/-- One frame from the server to the client is read behind the frames sent. -/
def Answers (bus : Bus) (client server : HdlcAddress) (sent : List (List UInt8)) (frame : HdlcFrame) : Prop :=
  (bus sent).sendOk = true ∧ frame.dest = client ∧ frame.src = server ∧
    HdlcStandard.frameLength client.bytes server.bytes frame.info < 2 ^ 11 ∧
      readFrame (bus sent) = .ok (HdlcStandard.frame client.bytes server.bytes frame.control frame.info)

/-- A final I-frame with this control byte, carrying an APDU that is taken. -/
def CarriesApdu (control : UInt8) (Takes : List UInt8 → Prop) (frame : HdlcFrame) : Prop :=
  frame.control = control ∧ ∃ apdu, frame.info = [0xE6, 0xE7, 0x00] ++ apdu ∧ apdu.length ≤ 125 ∧ Takes apdu

theorem answers_iff {bus : Bus} {client server : HdlcAddress} {sent : List (List UInt8)} {frame : HdlcFrame} :
    Answers bus client server sent frame ↔
      (bus sent).sendOk = true ∧ ∃ buf, readFrame (bus sent) = .ok buf ∧ hdlcParseFrame buf = .ok frame ∧
        frame.dest = client ∧ frame.src = server := by
  simp only [hdlcParseFrame_eq_ok_iff]
  constructor
  · rintro ⟨hsend, rfl, rfl, hlength, hread⟩
    exact ⟨hsend, _, hread, ⟨rfl, hlength⟩, rfl, rfl⟩
  · rintro ⟨hsend, _, hread, ⟨rfl, hlength⟩, rfl, rfl⟩
    exact ⟨hsend, rfl, rfl, hlength, hread⟩

private theorem sameAddress_iff {a b : HdlcAddress} : sameAddress a b = true ↔ a = b := by
  simp only [sameAddress, Bool.and_eq_true, beq_iff_eq]
  exact ⟨fun h => HdlcAddress.bytes_inj h.2, fun h => h ▸ ⟨rfl, rfl⟩⟩

/-- The association request behind its LLC header: logical names, no ciphering, no
authentication, GET proposed and APDUs of up to 125 bytes. -/
def aarqInfo : List UInt8 :=
  [0xE6, 0xE6, 0x00, 0x60, 0x1D, 0xA1, 0x09, 0x06, 0x07, 0x60, 0x85, 0x74, 0x05, 0x08, 0x01, 0x01,
   0xBE, 0x10, 0x04, 0x0E, 0x01, 0x00, 0x00, 0x00, 0x06, 0x5F, 0x1F, 0x04, 0x00, 0x00, 0x00, 0x10, 0x00, 0x7D]

/-- The GET of one attribute of a Register behind its LLC header. -/
def getAttributeInfo (obis : Vector UInt8 6) (attr : UInt8) : List UInt8 :=
  [0xE6, 0xE6, 0x00, 0xC0, 0x01, 0xC1, 0x00, 0x03] ++ obis.toList ++ [attr, 0x00]

namespace DlmsCosemReader

abbrev Step := ScriptStep (List UInt8) HdlcFrame

section Steps
variable (r : DlmsCosemReader) (obis : Vector UInt8 6) (unit : UInt8)

def request (control : UInt8) (info : List UInt8) : List UInt8 :=
  HdlcStandard.frame r.server.bytes r.client.bytes control info

def snrmStep : Step := ⟨r.request 0x93 [], fun frame => frame.control = 0x73⟩

def aarqStep : Step := ⟨r.request 0x10 aarqInfo, CarriesApdu 0x30 OpensAssociation⟩

def scalerUnitStep : Step :=
  ⟨r.request 0x32 (getAttributeInfo obis 3), CarriesApdu 0x52 fun apdu =>
    ∃ scaler, apdu = getResponse (scalerUnitData scaler unit)⟩

def valueStep : Step :=
  ⟨r.request 0x54 (getAttributeInfo obis 2), CarriesApdu 0x74 fun apdu =>
    ∃ data, apdu = getResponse data ∧ StartsWithNumber data⟩

def discFrame : List UInt8 := r.request 0x53 []

private theorem aarqStep_eq : r.aarqStep =
    ⟨r.request 0x10 (llcSend ++ buildAarq), CarriesApdu 0x30 fun apdu => checkAare apdu = .ok ()⟩ := by
  have htakes : OpensAssociation = fun apdu => checkAare apdu = .ok () := funext fun _ => propext opensAssociation_iff
  rw [aarqStep, htakes]
  rfl

private theorem scalerUnitStep_eq : r.scalerUnitStep obis unit =
    ⟨r.request 0x32 (llcSend ++ buildGetRequest obis dlmsAttrScalerUnit), CarriesApdu 0x52 fun apdu =>
      ∃ data, parseGetResponse apdu = .ok data ∧ ∃ scaler, decodeScalerUnit data unit = .ok scaler⟩ := by
  have htakes : (fun apdu => ∃ scaler, apdu = getResponse (scalerUnitData scaler unit)) = fun apdu =>
      ∃ data, parseGetResponse apdu = .ok data ∧ ∃ scaler, decodeScalerUnit data unit = .ok scaler := by
    funext apdu
    simp only [parseGetResponse_eq_ok_iff, decodeScalerUnit_eq_ok_iff, eq_iff_iff]
    constructor
    · rintro ⟨scaler, rfl⟩
      exact ⟨_, ⟨rfl, by simp [scalerUnitData]⟩, scaler, rfl⟩
    · rintro ⟨_, ⟨rfl, -⟩, scaler, rfl⟩
      exact ⟨scaler, rfl⟩
  rw [scalerUnitStep, htakes]
  rfl

private theorem valueStep_eq : r.valueStep obis =
    ⟨r.request 0x54 (llcSend ++ buildGetRequest obis dlmsAttrValue), CarriesApdu 0x74 fun apdu =>
      ∃ data, parseGetResponse apdu = .ok data ∧ ∃ raw, decodeNumber data = .ok raw⟩ := by
  have htakes : (fun apdu => ∃ data, apdu = getResponse data ∧ StartsWithNumber data) = fun apdu =>
      ∃ data, parseGetResponse apdu = .ok data ∧ ∃ raw, decodeNumber data = .ok raw := by
    funext apdu
    simp only [parseGetResponse_eq_ok_iff, startsWithNumber_iff, eq_iff_iff]
    constructor
    · rintro ⟨data, rfl, raw, hraw⟩
      refine ⟨data, ⟨rfl, ?_⟩, raw, hraw⟩
      rintro rfl
      simp [decodeNumber, bind_eq_ok, require_eq_ok] at hraw
    · rintro ⟨data, ⟨rfl, -⟩, raw, hraw⟩
      exact ⟨data, rfl, raw, hraw⟩
  rw [valueStep, htakes]
  rfl

private theorem request_eq_wire (control : UInt8) {info : List UInt8} (hinfo : info.length ≤ hdlcInfoMax) :
    r.request control info = HdlcFrame.wire ⟨r.server, r.client, control, info⟩ := by
  have hlength := @HdlcFrame.length_le ⟨r.server, r.client, control, info⟩ hinfo
  exact (HdlcFrame.wire_eq_frame (hlength.trans (by decide))).symm

theorem hdlcParseFrame_request (control : UInt8) {info : List UInt8} (hinfo : info.length ≤ hdlcInfoMax) :
    hdlcParseFrame (r.request control info) = .ok ⟨r.server, r.client, control, info⟩ := by
  have hlength := @HdlcFrame.length_le ⟨r.server, r.client, control, info⟩ hinfo
  rw [r.request_eq_wire control hinfo]
  exact hdlcParseFrame_wire (hlength.trans (by decide))

end Steps

section Operations
variable {bus : Bus} {r : DlmsCosemReader}

structure Extends (r r' : DlmsCosemReader) (frames : List (List UInt8)) : Prop where
  client : r'.client = r.client
  server : r'.server = r.server
  sent : r'.sent = r.sent ++ frames

theorem Extends.trans {r r' r'' : DlmsCosemReader} {frames frames' : List (List UInt8)} (h : r.Extends r' frames)
    (h' : r'.Extends r'' frames') : r.Extends r'' (frames ++ frames') :=
  ⟨h'.client.trans h.client, h'.server.trans h.server, by rw [h'.sent, h.sent, List.append_assoc]⟩

theorem Extends.request_eq {r r' : DlmsCosemReader} {frames : List (List UInt8)} (h : r.Extends r' frames)
    (control : UInt8) (info : List UInt8) : r'.request control info = r.request control info := by
  rw [request, request, h.client, h.server]

def InSequence (r : DlmsCosemReader) (n : UInt8) : Prop := r.vs = n ∧ r.vr = n

theorem receive_eq_ok {frame : HdlcFrame} :
    r.receive bus = .ok frame ↔ ∃ buf, readFrame (bus r.sent) = .ok buf ∧ hdlcParseFrame buf = .ok frame ∧
      frame.dest = r.client ∧ frame.src = r.server := by
  simp only [receive, bind_eq_ok, require_eq_ok, pure_eq_ok, sameAddress_iff]
  constructor
  · rintro ⟨buf, hread, _, hparse, _, hdest, _, hsrc, rfl⟩
    exact ⟨buf, hread, hparse, hdest, hsrc⟩
  · rintro ⟨buf, hread, hparse, hdest, hsrc⟩
    exact ⟨buf, hread, frame, hparse, (), hdest, (), hsrc, rfl⟩

/-- The control bytes of a final I-frame with N(S) and N(R) as given. -/
theorem iFrame_iff (c ns nr : UInt8) :
    (c &&& 1 = 0 ∧ c &&& hdlcPf ≠ 0 ∧ (c >>> 1) &&& 0x07 = ns ∧ c >>> 5 = nr) ↔
      ns.toNat < 8 ∧ c.toNat = 32 * nr.toNat + 16 + 2 * ns.toNat := by
  have hc := c.toNat_lt
  have hpf : c.toNat &&& 16 = (decide (c.toNat / 16 % 2 = 1)).toNat * 16 := by
    rw [show 16 = 2 ^ 4 from rfl, Nat.and_two_pow, Nat.testBit_eq_decide_div_mod_eq]
  have h7 (n : Nat) : n &&& 7 = n % 8 := Nat.and_two_pow_sub_one_eq_mod n 3
  simp only [ne_eq, ← UInt8.toNat_inj, UInt8.toNat_and, UInt8.toNat_shiftRight, hdlcPf, UInt8.reduceToNat,
    Nat.and_one_is_mod, Nat.reduceMod, Nat.shiftRight_eq_div_pow, Nat.reducePow, h7, hpf]
  by_cases h : c.toNat / 16 % 2 = 1
  · rw [decide_eq_true h, Bool.toNat_true]
    omega
  · rw [decide_eq_false h, Bool.toNat_false]
    omega

theorem replyApdu_eq_ok {frame : HdlcFrame} {resp : List UInt8} :
    r.replyApdu frame = .ok resp ↔
      (frame.control &&& 1 = 0 ∧ frame.control &&& hdlcPf ≠ 0 ∧ (frame.control >>> 1) &&& 0x07 = r.vr ∧
        frame.control >>> 5 = (r.vs + 1) &&& 0x07) ∧ frame.info = llcRecv ++ resp ∧ resp.length ≤ dlmsApduMax := by
  simp only [replyApdu, bind_eq_ok, require_eq_ok, slice_eq_ok, sub_eq_ok]
  simp only [dlmsLlcLen, List.drop_zero]
  constructor
  · rintro ⟨_, hi, _, hpf, _, ⟨hns, hnr⟩, _, ⟨_, hmax⟩, _, ⟨_, rfl⟩, _, hllc, n, hn, _, hresp⟩
    have hlen : n = (frame.info.drop 3).length := by
      rw [List.length_drop]
      omega
    rw [hlen, List.take_length] at hresp
    refine ⟨⟨hi, hpf, hns, hnr⟩, ?_, ?_⟩
    · rw [← hllc, ← hresp, List.take_append_drop]
    · simp only [← hresp, ← hlen, dlmsApduMax, hdlcInfoMax] at hmax ⊢
      omega
  · rintro ⟨⟨hi, hpf, hns, hnr⟩, hinfo, hmax⟩
    have hlen : frame.info.length = 3 + resp.length := by
      rw [hinfo, List.length_append]
      rfl
    rw [dlmsApduMax] at hmax
    refine ⟨(), hi, (), hpf, (), ⟨hns, hnr⟩, (), ⟨by omega, by rw [hdlcInfoMax]; omega⟩, llcRecv, ⟨by omega, ?_⟩,
      (), rfl, resp.length, hlen.symm, by omega, ?_⟩
    · rw [hinfo]
      rfl
    · rw [hinfo]
      exact List.take_length

/-- From both counters at `n`, a reply is taken when its control byte has the next numbers. -/
theorem replyApdu_eq_ok_of_inSequence {n reply : UInt8} (hseq : r.InSequence n) (hn : n.toNat < 8)
    (hreply : reply.toNat = 32 * ((n + 1) &&& 0x07).toNat + 16 + 2 * n.toNat) {frame : HdlcFrame} {resp : List UInt8} :
    r.replyApdu frame = .ok resp ↔
      frame.control = reply ∧ frame.info = llcRecv ++ resp ∧ resp.length ≤ dlmsApduMax := by
  rw [replyApdu_eq_ok, hseq.1, hseq.2, iFrame_iff, ← hreply, UInt8.toNat_inj]
  simp only [hn, true_and]

def afterSend (r : DlmsCosemReader) (control : UInt8) (info : List UInt8) : DlmsCosemReader :=
  { r with sent := r.sent ++ [r.request control info] }

theorem extends_afterSend (control : UInt8) (info : List UInt8) :
    r.Extends (r.afterSend control info) [r.request control info] :=
  ⟨rfl, rfl, rfl⟩

/-- A frame is answered when it is sent and the right frame is received behind it. -/
theorem sendFrame_spec (bus : Bus) (r : DlmsCosemReader) (control : UInt8) (info : List UInt8)
    (h : info.length ≤ hdlcInfoMax) : ∃ ok, r.sendFrame bus control info = (ok, r.afterSend control info) ∧
      ∀ frame, Answers bus r.client r.server (r.sent ++ [r.request control info]) frame ↔
        ok = true ∧ (r.afterSend control info).receive bus = .ok frame := by
  refine ⟨(bus (r.sent ++ [r.request control info])).sendOk, ?_, ?_⟩
  · simp only [sendFrame, hdlcBuildFrame_eq, if_neg (Nat.not_lt.mpr h), ← r.request_eq_wire control h]
    rfl
  · intro frame
    rw [answers_iff, receive_eq_ok]
    rfl

/-- SNRM is sent, and the link is up when the answer is UA. -/
theorem connect_spec (bus : Bus) (r : DlmsCosemReader) : ∃ res r', r.connect bus = (res, r') ∧
    r.Extends r' [r.snrmStep.message] ∧
      (res = .ok () ↔ Accepted (Answers bus r.client r.server) r.sent r.snrmStep) ∧
        (res = .ok () → r'.InSequence 0) := by
  obtain ⟨ok, hsend, hanswers⟩ := r.sendFrame_spec bus hdlcSnrm [] (Nat.zero_le _)
  have hextends := r.extends_afterSend hdlcSnrm []
  have haccepted : Accepted (Answers bus r.client r.server) r.sent r.snrmStep ↔
      ∃ frame, (ok = true ∧ (r.afterSend hdlcSnrm []).receive bus = .ok frame) ∧ frame.control = hdlcUa :=
    exists_congr fun frame => and_congr_left' (hanswers frame)
  rw [haccepted]
  simp only [connect, hsend]
  cases ok with
  | false => exact ⟨_, _, rfl, hextends, by simp, by simp⟩
  | true =>
    cases hreceive : (r.afterSend hdlcSnrm []).receive bus with
    | error e =>
      simp only [hreceive]
      exact ⟨_, _, rfl, hextends, by simp, by simp⟩
    | ok frame =>
      simp only [hreceive]
      by_cases hdm : frame.control = hdlcDm
      · rw [if_pos hdm]
        exact ⟨_, _, rfl, hextends, by simp [hdm, hdlcDm, hdlcUa], by simp⟩
      · rw [if_neg hdm]
        by_cases hua : frame.control = hdlcUa
        · rw [if_neg (not_not.mpr hua)]
          exact ⟨_, _, rfl, ⟨rfl, rfl, rfl⟩, by simp [hua], fun _ => ⟨rfl, rfl⟩⟩
        · rw [if_pos hua]
          exact ⟨_, _, rfl, hextends, by simp [hua], by simp⟩

/-- DISC is sent, whatever comes of it. -/
theorem disconnect_spec (bus : Bus) (r : DlmsCosemReader) : r.Extends (r.disconnect bus).2 [r.discFrame] := by
  obtain ⟨ok, hsend, -⟩ := r.sendFrame_spec bus hdlcDisc [] (Nat.zero_le _)
  have hextends := r.extends_afterSend hdlcDisc []
  simp only [disconnect, hsend]
  cases ok with
  | false => exact hextends
  | true =>
    dsimp only
    cases (r.afterSend hdlcDisc []).receive bus with
    | error e => exact hextends
    | ok frame =>
      dsimp only
      split <;> exact hextends

/-- One APDU is sent in an I-frame, and the APDU of a reply in sequence is returned. -/
theorem exchange_spec (bus : Bus) (r : DlmsCosemReader) {n control reply : UInt8} (hseq : r.InSequence n)
    (hn : n.toNat < 8) (hcontrol : control = (n <<< 5) ||| hdlcPf ||| (n <<< 1))
    (hreply : reply.toNat = 32 * ((n + 1) &&& 0x07).toNat + 16 + 2 * n.toNat) {apdu : List UInt8}
    (hapdu : apdu.length ≤ dlmsApduMax) :
    ∃ res r', r.exchange bus apdu = (res, r') ∧ r.Extends r' [r.request control (llcSend ++ apdu)] ∧
      (∀ Takes, Accepted (Answers bus r.client r.server) r.sent
        ⟨r.request control (llcSend ++ apdu), CarriesApdu reply Takes⟩ ↔ ∃ resp, res = .ok resp ∧ Takes resp) ∧
        ∀ resp, res = .ok resp → r'.InSequence ((n + 1) &&& 0x07) := by
  have hinfo : (llcSend ++ apdu).length ≤ hdlcInfoMax := by
    rw [List.length_append, hdlcInfoMax, show llcSend.length = 3 from rfl]
    rw [dlmsApduMax] at hapdu
    omega
  obtain ⟨ok, hsend, hanswers⟩ := r.sendFrame_spec bus control _ hinfo
  have hextends := r.extends_afterSend control (llcSend ++ apdu)
  have haccepted (Takes : List UInt8 → Prop) : Accepted (Answers bus r.client r.server) r.sent
      ⟨r.request control (llcSend ++ apdu), CarriesApdu reply Takes⟩ ↔
        ok = true ∧ ∃ resp, (r.afterSend control (llcSend ++ apdu)).receive bus >>=
          (r.afterSend control (llcSend ++ apdu)).replyApdu = .ok resp ∧ Takes resp := by
    have hreplies (frame : HdlcFrame) (resp : List UInt8) :
        (r.afterSend control (llcSend ++ apdu)).replyApdu frame = .ok resp ↔
          frame.control = reply ∧ frame.info = llcRecv ++ resp ∧ resp.length ≤ dlmsApduMax :=
      replyApdu_eq_ok_of_inSequence hseq hn hreply
    simp only [bind_eq_ok, hreplies]
    constructor
    · rintro ⟨frame, hanswer, hreply, resp, hinfo, hlen, htakes⟩
      obtain ⟨hok, hreceive⟩ := (hanswers frame).mp hanswer
      exact ⟨hok, resp, ⟨frame, hreceive, hreply, hinfo, hlen⟩, htakes⟩
    · rintro ⟨hok, resp, ⟨frame, hreceive, hreply, hinfo, hlen⟩, htakes⟩
      exact ⟨frame, (hanswers frame).mpr ⟨hok, hreceive⟩, hreply, resp, hinfo, hlen, htakes⟩
  simp only [haccepted, exchange, if_neg (Nat.not_lt.mpr hapdu), hseq.1, hseq.2, ← hcontrol, hsend]
  cases ok with
  | false => exact ⟨_, _, rfl, hextends, by simp, by simp⟩
  | true =>
    cases hres : (r.afterSend control (llcSend ++ apdu)).receive bus >>=
        (r.afterSend control (llcSend ++ apdu)).replyApdu with
    | error e =>
      simp only [hres]
      exact ⟨_, _, rfl, hextends, by simp, by simp⟩
    | ok resp =>
      simp only [hres]
      refine ⟨_, _, rfl, ⟨rfl, rfl, rfl⟩, by simp, ?_⟩
      intro _ _
      exact ⟨by rw [← hseq.1]; rfl, by rw [← hseq.2]; rfl⟩

/-- The AARQ is sent, and the association is open when its AARE is accepted. -/
theorem associate_spec (bus : Bus) (r : DlmsCosemReader) (hseq : r.InSequence 0) :
    ∃ res r', r.associate bus = (res, r') ∧ r.Extends r' [r.aarqStep.message] ∧
      (res = .ok () ↔ Accepted (Answers bus r.client r.server) r.sent r.aarqStep) ∧
        (res = .ok () → r'.InSequence 1) := by
  obtain ⟨res, r', hrun, hextends, haccepted, hnext⟩ := exchange_spec bus r hseq (by decide)
    (show 0x10 = _ by decide) (show (0x30 : UInt8).toNat = _ by decide) (show buildAarq.length ≤ _ by decide)
  simp only [aarqStep_eq, haccepted, associate, hrun]
  cases res with
  | error e => exact ⟨_, _, rfl, hextends, by simp, by simp⟩
  | ok resp => exact ⟨_, _, rfl, hextends, by simp, fun _ => hnext resp rfl⟩

/-- A GET is sent, and the Data of its response is returned. -/
theorem getAttribute_spec (bus : Bus) (r : DlmsCosemReader) (obis : Vector UInt8 6) (attr : UInt8)
    {n control reply : UInt8} (hseq : r.InSequence n) (hn : n.toNat < 8)
    (hcontrol : control = (n <<< 5) ||| hdlcPf ||| (n <<< 1))
    (hreply : reply.toNat = 32 * ((n + 1) &&& 0x07).toNat + 16 + 2 * n.toNat) :
    ∃ res r', r.getAttribute bus obis attr = (res, r') ∧
      r.Extends r' [r.request control (llcSend ++ buildGetRequest obis attr)] ∧
        (∀ Takes : List UInt8 → Prop, Accepted (Answers bus r.client r.server) r.sent
          ⟨r.request control (llcSend ++ buildGetRequest obis attr),
            CarriesApdu reply fun apdu => ∃ data, parseGetResponse apdu = .ok data ∧ Takes data⟩ ↔
              ∃ data, res = .ok data ∧ Takes data) ∧
          ∀ data, res = .ok data → r'.InSequence ((n + 1) &&& 0x07) := by
  obtain ⟨res, r', hrun, hextends, haccepted, hnext⟩ := exchange_spec bus r hseq hn hcontrol hreply
    (show (buildGetRequest obis attr).length ≤ _ by simp [buildGetRequest, dlmsApduMax])
  simp only [haccepted, getAttribute, hrun]
  cases res with
  | error e => exact ⟨_, _, rfl, hextends, by simp, by simp⟩
  | ok resp => exact ⟨_, _, rfl, hextends, by simp, fun _ _ => hnext resp rfl⟩

/-- On a link that is up, the association and both GETs are followed as a script. -/
theorem readAssociated_spec (bus : Bus) (r : DlmsCosemReader) (obis : Vector UInt8 6) (unit : UInt8)
    (hseq : r.InSequence 0) : ∃ res r' attempted all, r.readAssociated bus obis unit = (res, r') ∧
      r.Extends r' attempted ∧
        Follows (Answers bus r.client r.server) r.sent [r.aarqStep, r.scalerUnitStep obis unit, r.valueStep obis]
          attempted all ∧ ((∃ val, res = .ok val) ↔ all) := by
  obtain ⟨assoc, r₁, hassoc, hextends₁, hok₁, hseq₁⟩ := associate_spec bus r hseq
  rw [scalerUnitStep_eq, valueStep_eq]
  unfold readAssociated
  rw [hassoc]
  cases assoc with
  | error e => exact ⟨_, _, _, _, rfl, hextends₁, .refused ((not_congr hok₁).mp (by simp)), by simp⟩
  | ok u =>
    have hyes₁ := hok₁.mp rfl
    obtain ⟨got₂, r₂, hget₂, hextends₂, haccepted₂, hseq₂⟩ := getAttribute_spec bus r₁ obis dlmsAttrScalerUnit
      (hseq₁ rfl) (by decide) (show 0x32 = _ by decide) (show (0x52 : UInt8).toNat = _ by decide)
    simp only [hextends₁.client, hextends₁.server, hextends₁.sent, hextends₁.request_eq] at haccepted₂ hextends₂
    have hok₂ := haccepted₂ fun data => ∃ scaler, decodeScalerUnit data unit = .ok scaler
    have hextends := hextends₁.trans hextends₂
    simp only [hget₂]
    cases got₂ with
    | error e =>
      have hno₂ := (not_congr hok₂).mpr (by simp)
      exact ⟨_, _, _, _, rfl, hextends, .accepted hyes₁ (.refused hno₂), by simp⟩
    | ok data =>
      cases hscaler : decodeScalerUnit data unit with
      | error e =>
        have hno := (not_congr hok₂).mpr (by simp [hscaler])
        simp only [hscaler]
        exact ⟨_, _, _, _, rfl, hextends, .accepted hyes₁ (.refused hno), by simp⟩
      | ok scaler =>
        have hyes₂ := hok₂.mpr ⟨data, rfl, scaler, hscaler⟩
        obtain ⟨got₃, r₃, hget₃, hextends₃, haccepted₃, -⟩ := getAttribute_spec bus r₂ obis dlmsAttrValue
          (hseq₂ data rfl) (by decide) (show 0x54 = _ by decide) (show (0x74 : UInt8).toNat = _ by decide)
        simp only [hextends.client, hextends.server, hextends.sent, hextends.request_eq, ← List.append_assoc]
          at haccepted₃ hextends₃
        have hok₃ := haccepted₃ fun data => ∃ raw, decodeNumber data = .ok raw
        have hextends := hextends.trans hextends₃
        simp only [hscaler, hget₃]
        cases got₃ with
        | error e =>
          have hno := (not_congr hok₃).mpr (by simp)
          exact ⟨_, _, _, _, rfl, hextends, .accepted hyes₁ (.accepted hyes₂ (.refused hno)), by simp⟩
        | ok data =>
          cases hraw : decodeNumber data with
          | error e =>
            have hno := (not_congr hok₃).mpr (by simp [hraw])
            simp only [hraw]
            exact ⟨_, _, _, _, rfl, hextends, .accepted hyes₁ (.accepted hyes₂ (.refused hno)), by simp [Except.map]⟩
          | ok raw =>
            have hyes₃ := hok₃.mpr ⟨data, rfl, raw, hraw⟩
            simp only [hraw]
            exact ⟨_, _, _, _, rfl, hextends, .accepted hyes₁ (.accepted hyes₂ (.accepted hyes₃ .finished)),
              by simp [Except.map]⟩

end Operations

section Sessions
variable {bus : Bus} {r r' : DlmsCosemReader} {requests : List Step} {attempted : List (List UInt8)}
  {all success : Prop}

/-- The frame of each request differs from DISC. -/
def NotDisc (r : DlmsCosemReader) (step : Step) : Prop :=
  ∃ control info, step.message = r.request control info ∧ control ≠ 0x53 ∧ info.length ≤ hdlcInfoMax

/-- What a session does on the bus and when it succeeds: SNRM comes first; the
other frames are a prefix of the requests, each attempted exactly when every step
before it was accepted; and one DISC ends the session exactly when UA was read. -/
structure SessionDiscipline (bus : Bus) (r r' : DlmsCosemReader) (requests : List Step) (success : Prop) : Prop where
  linkDown : ¬ AcceptedAt (Answers bus r.client r.server) r.sent (r.snrmStep :: requests) 0 →
    r'.sent = r.sent ++ [r.snrmStep.message]
  linkUp : AcceptedAt (Answers bus r.client r.server) r.sent (r.snrmStep :: requests) 0 →
    ∃ attempted, r'.sent = r.sent ++ (r.snrmStep.message :: attempted ++ [r.discFrame]) ∧
      attempted <+: requests.map (·.message) ∧ ∀ i < requests.length, i < attempted.length ↔
        ∀ j ≤ i, AcceptedAt (Answers bus r.client r.server) r.sent (r.snrmStep :: requests) j
  discOnce : r.discFrame ∉ (r.snrmStep :: requests).map (·.message)
  success_iff : success ↔
    ∀ j < requests.length + 1, AcceptedAt (Answers bus r.client r.server) r.sent (r.snrmStep :: requests) j

theorem request_control_inj {control control' : UInt8} {info info' : List UInt8} (hinfo : info.length ≤ hdlcInfoMax)
    (hinfo' : info'.length ≤ hdlcInfoMax) (h : r.request control info = r.request control' info') :
    control = control' := by
  have hparse := r.hdlcParseFrame_request control hinfo
  rw [h, r.hdlcParseFrame_request control' hinfo'] at hparse
  exact (congrArg HdlcFrame.control (Except.ok.inj hparse)).symm

private theorem discFrame_notMem (h : ∀ step ∈ requests, r.NotDisc step) :
    r.discFrame ∉ (r.snrmStep :: requests).map (·.message) := by
  intro hmem
  obtain ⟨step, hstep, hmessage⟩ := List.mem_map.mp hmem
  obtain ⟨control, info, hsent, hcontrol, hinfo⟩ : r.NotDisc step := by
    rcases List.mem_cons.mp hstep with rfl | hrequest
    · exact ⟨0x93, [], rfl, by decide, Nat.zero_le _⟩
    · exact h step hrequest
  exact hcontrol (request_control_inj hinfo (Nat.zero_le _) (hsent.symm.trans hmessage))

private theorem sessionDiscipline_down (hno : ¬ Accepted (Answers bus r.client r.server) r.sent r.snrmStep)
    (hextends : r.Extends r' [r.snrmStep.message]) (hdisc : ∀ step ∈ requests, r.NotDisc step) (hfail : ¬ success) :
    SessionDiscipline bus r r' requests success where
  linkDown _ := hextends.sent
  linkUp h := absurd (acceptedAt_zero.mp h) hno
  discOnce := discFrame_notMem hdisc
  success_iff := iff_of_false hfail fun h => hno (acceptedAt_zero.mp (h 0 (by omega)))

private theorem sessionDiscipline_up (hyes : Accepted (Answers bus r.client r.server) r.sent r.snrmStep)
    (hfollows : Follows (Answers bus r.client r.server) (r.sent ++ [r.snrmStep.message]) requests attempted all)
    (hextends : r.Extends r' ([r.snrmStep.message] ++ attempted ++ [r.discFrame]))
    (hdisc : ∀ step ∈ requests, r.NotDisc step) (hsuccess : success ↔ all) :
    SessionDiscipline bus r r' requests success where
  linkDown h := absurd (acceptedAt_zero.mpr hyes) h
  linkUp _ := by
    refine ⟨attempted, hextends.sent, hfollows.isPrefix, ?_⟩
    intro i hi
    have hwhole := (Follows.accepted hyes hfollows).attempted_iff (Nat.add_lt_add_right hi 1)
    rw [List.length_cons, Nat.add_lt_add_iff_right] at hwhole
    simpa only [Nat.lt_add_one_iff] using hwhole
  discOnce := discFrame_notMem hdisc
  success_iff := hsuccess.trans (Follows.accepted hyes hfollows).all_iff

private theorem readSteps_notDisc (r : DlmsCosemReader) (obis : Vector UInt8 6) (unit : UInt8) :
    ∀ step ∈ [r.aarqStep, r.scalerUnitStep obis unit, r.valueStep obis], r.NotDisc step := by
  simp only [List.mem_cons, List.not_mem_nil, or_false]
  rintro step (rfl | rfl | rfl)
  · exact ⟨_, _, rfl, by decide, by decide⟩
  · exact ⟨_, _, rfl, by decide, by simp [getAttributeInfo, hdlcInfoMax]⟩
  · exact ⟨_, _, rfl, by decide, by simp [getAttributeInfo, hdlcInfoMax]⟩

private theorem readRegister_discipline (bus : Bus) (r : DlmsCosemReader) (obis : Vector UInt8 6) (unit : UInt8) :
    SessionDiscipline bus r (r.readRegister bus obis unit).2
      [r.aarqStep, r.scalerUnitStep obis unit, r.valueStep obis]
      (∃ val, (r.readRegister bus obis unit).1 = .ok val) := by
  obtain ⟨res, r₁, hconnect, hextends₁, hok, hseq⟩ := connect_spec bus r
  unfold readRegister
  rw [hconnect]
  cases res with
  | error e =>
    have hno := (not_congr hok).mp (by simp)
    exact sessionDiscipline_down hno hextends₁ (r.readSteps_notDisc obis unit) (by simp)
  | ok u =>
    obtain ⟨res, r₂, attempted, all, hread, hextends₂, hfollows, hall⟩ :=
      readAssociated_spec bus r₁ obis unit (hseq rfl)
    have hextends₃ := disconnect_spec bus r₂
    simp only [aarqStep, scalerUnitStep, valueStep, discFrame, hextends₁.client, hextends₁.server, hextends₁.sent,
      hextends₁.request_eq, hextends₂.request_eq] at hfollows hextends₃
    simp only [hread]
    exact sessionDiscipline_up (hok.mp rfl) hfollows ((hextends₁.trans hextends₂).trans hextends₃)
      (r.readSteps_notDisc obis unit) hall

private theorem probe_discipline (bus : Bus) (r : DlmsCosemReader) :
    SessionDiscipline bus r (r.probe bus).2 [r.aarqStep] ((r.probe bus).1 = .ok ()) := by
  have hdisc : ∀ step ∈ [r.aarqStep], r.NotDisc step :=
    List.forall_mem_singleton.mpr ⟨_, _, rfl, by decide, by decide⟩
  obtain ⟨res, r₁, hconnect, hextends₁, hok, hseq⟩ := connect_spec bus r
  unfold probe
  rw [hconnect]
  cases res with
  | error e => exact sessionDiscipline_down ((not_congr hok).mp (by simp)) hextends₁ hdisc (by simp)
  | ok u =>
    obtain ⟨res, r₂, hassoc, hextends₂, hok₂, -⟩ := associate_spec bus r₁ (hseq rfl)
    have hextends₃ := disconnect_spec bus r₂
    simp only [aarqStep, discFrame, hextends₁.client, hextends₁.server, hextends₁.sent, hextends₁.request_eq,
      hextends₂.request_eq] at hok₂ hextends₂ hextends₃
    simp only [hassoc]
    have hextends := (hextends₁.trans hextends₂).trans hextends₃
    cases res with
    | error e =>
      exact sessionDiscipline_up (hok.mp rfl) (.refused ((not_congr hok₂).mp (by simp))) hextends hdisc (by simp)
    | ok u => exact sessionDiscipline_up (hok.mp rfl) (.accepted (hok₂.mp rfl) .finished) hextends hdisc (by simp)

/-- A getter's session is that of its Register, and it writes its output exactly when it succeeds. -/
structure GetterDiscipline (bus : Bus) (r : DlmsCosemReader) (obis : Vector UInt8 6) (unit : UInt8)
    (g : GetResult × DlmsCosemReader) : Prop where
  session : SessionDiscipline bus r g.2 [r.aarqStep, r.scalerUnitStep obis unit, r.valueStep obis]
    (g.1.status = .ok ())
  written_iff : g.1.written.isSome ↔ g.1.status = .ok ()

private theorem getRegister_discipline (bus : Bus) (r : DlmsCosemReader) (obis : Vector UInt8 6) (unit : UInt8)
    (convert : Number → Number) : GetterDiscipline bus r obis unit (r.getRegister bus obis unit convert) := by
  have h := readRegister_discipline bus r obis unit
  revert h
  unfold getRegister
  rcases r.readRegister bus obis unit with ⟨_ | val, r'⟩
  · exact fun h => ⟨by simpa using h, by simp⟩
  · exact fun h => ⟨by simpa using h, by simp⟩

/-- Whatever the bus does, every session keeps the discipline. -/
theorem dlms_session_discipline (bus : Bus) (r : DlmsCosemReader) :
    (∀ obis unit, SessionDiscipline bus r (r.readRegister bus obis unit).2
      [r.aarqStep, r.scalerUnitStep obis unit, r.valueStep obis]
        (∃ val, (r.readRegister bus obis unit).1 = .ok val)) ∧
      SessionDiscipline bus r (r.probe bus).2 [r.aarqStep] ((r.probe bus).1 = .ok ()) ∧
        GetterDiscipline bus r r.config.importObis 30 (r.getImport bus) ∧
          GetterDiscipline bus r r.config.exportObis 30 (r.getExport bus) ∧
            GetterDiscipline bus r r.config.voltageObis 35 (r.getVoltage bus) :=
  ⟨readRegister_discipline bus r, probe_discipline bus r, getRegister_discipline bus r _ _ _,
    getRegister_discipline bus r _ _ _, getRegister_discipline bus r _ _ _⟩

end Sessions
end DlmsCosemReader
end IotFirmware
