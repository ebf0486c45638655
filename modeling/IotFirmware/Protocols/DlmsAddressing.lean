import IotFirmware.Config.Rs485Loader
import IotFirmware.Protocols.DlmsSession

/-! The addresses in the frames of the DLMS reader against the numbers stored in
NVS, over all calls on any bus. -/
namespace IotFirmware
open Checked

namespace DlmsCosemReader

inductive ReaderCall where
  | probe
  | getImport
  | getExport
  | getVoltage

def ReaderCall.after (bus : Bus) (r : DlmsCosemReader) : ReaderCall → DlmsCosemReader
  | .probe => (r.probe bus).2
  | .getImport => (r.getImport bus).2
  | .getExport => (r.getExport bus).2
  | .getVoltage => (r.getVoltage bus).2

def afterCalls (bus : Bus) (r : DlmsCosemReader) (calls : List ReaderCall) : DlmsCosemReader :=
  calls.foldl (ReaderCall.after bus) r

/-- From one state of the reader to a later one, each frame sent is one it builds for its server. -/
def Sends (r r' : DlmsCosemReader) : Prop :=
  ∃ frames, r.Extends r' frames ∧ ∀ frame ∈ frames, ∃ control info, info.length ≤ hdlcInfoMax ∧
    frame = r.request control info

section Sends
variable {bus : Bus} {r r' r'' : DlmsCosemReader}

theorem Sends.refl (r : DlmsCosemReader) : r.Sends r := ⟨[], ⟨rfl, rfl, by simp⟩, by simp⟩

theorem Sends.trans (h : r.Sends r') (h' : r'.Sends r'') : r.Sends r'' := by
  obtain ⟨frames, hextends, hframes⟩ := h
  obtain ⟨frames', hextends', hframes'⟩ := h'
  refine ⟨frames ++ frames', hextends.trans hextends', List.forall_mem_append.mpr ⟨hframes, ?_⟩⟩
  intro frame hframe
  obtain ⟨control, info, hinfo, hrequest⟩ := hframes' frame hframe
  exact ⟨control, info, hinfo, hrequest.trans (hextends.request_eq control info)⟩

/-- The counters are not in what is sent. -/
theorem Sends.count (h : r.Sends r') (vs vr : UInt8) : r.Sends { r' with vs := vs, vr := vr } := by
  obtain ⟨frames, hextends, hframes⟩ := h
  exact ⟨frames, ⟨hextends.client, hextends.server, hextends.sent⟩, hframes⟩

private theorem sends_sendFrame (bus : Bus) (r : DlmsCosemReader) (control : UInt8) (info : List UInt8)
    (hinfo : info.length ≤ hdlcInfoMax) : r.Sends (r.sendFrame bus control info).2 := by
  obtain ⟨ok, hsend, -⟩ := r.sendFrame_spec bus control info hinfo
  rw [hsend]
  exact ⟨_, r.extends_afterSend control info, List.forall_mem_singleton.mpr ⟨control, info, hinfo, rfl⟩⟩

private theorem sends_connect (bus : Bus) (r : DlmsCosemReader) : r.Sends (r.connect bus).2 := by
  have hsend := r.sends_sendFrame bus hdlcSnrm [] (Nat.zero_le _)
  unfold connect
  revert hsend
  rcases r.sendFrame bus hdlcSnrm [] with ⟨_ | _, r₁⟩
  · exact fun hsend => hsend
  · intro hsend
    dsimp only
    cases r₁.receive bus with
    | error e => exact hsend
    | ok frame =>
      dsimp only
      split_ifs
      · exact hsend
      · exact hsend
      · exact hsend.count 0 0

private theorem sends_disconnect (bus : Bus) (r : DlmsCosemReader) : r.Sends (r.disconnect bus).2 :=
  ⟨_, r.disconnect_spec bus, List.forall_mem_singleton.mpr ⟨0x53, [], Nat.zero_le _, rfl⟩⟩

theorem sends_exchange (bus : Bus) (r : DlmsCosemReader) (apdu : List UInt8) : r.Sends (r.exchange bus apdu).2 := by
  unfold exchange
  split
  · exact .refl r
  · rename_i hfits
    have hinfo : (llcSend ++ apdu).length ≤ hdlcInfoMax := by
      simp only [dlmsApduMax, hdlcInfoMax, llcSend, List.length_append, List.length_cons, List.length_nil] at hfits ⊢
      omega
    have hsend := r.sends_sendFrame bus ((r.vr <<< 5) ||| hdlcPf ||| (r.vs <<< 1)) _ hinfo
    dsimp only
    revert hsend
    rcases r.sendFrame bus ((r.vr <<< 5) ||| hdlcPf ||| (r.vs <<< 1)) (llcSend ++ apdu) with ⟨_ | _, r₁⟩
    · exact fun hsend => hsend
    · intro hsend
      dsimp only
      cases r₁.receive bus >>= r₁.replyApdu with
      | error e => exact hsend
      | ok resp => exact hsend.count _ _

/-- Of the answer only the result is read, the reader is left as the exchange left it. -/
theorem associate_snd (bus : Bus) (r : DlmsCosemReader) : (r.associate bus).2 = (r.exchange bus buildAarq).2 := by
  unfold associate
  rcases r.exchange bus buildAarq with ⟨_ | _, r₁⟩
  · rfl
  · rfl

private theorem getAttribute_snd (bus : Bus) (r : DlmsCosemReader) (obis : Vector UInt8 6) (attr : UInt8) :
    (r.getAttribute bus obis attr).2 = (r.exchange bus (buildGetRequest obis attr)).2 := by
  unfold getAttribute
  rcases r.exchange bus (buildGetRequest obis attr) with ⟨_ | _, r₁⟩
  · rfl
  · rfl

private theorem getRegister_snd (bus : Bus) (r : DlmsCosemReader) (obis : Vector UInt8 6) (unit : UInt8)
    (convert : Number → Number) : (r.getRegister bus obis unit convert).2 = (r.readRegister bus obis unit).2 := by
  unfold getRegister
  rcases r.readRegister bus obis unit with ⟨_ | _, r₁⟩
  · rfl
  · rfl

private theorem sends_associate (bus : Bus) (r : DlmsCosemReader) : r.Sends (r.associate bus).2 := by
  rw [associate_snd]
  exact r.sends_exchange bus buildAarq

private theorem sends_getAttribute (bus : Bus) (r : DlmsCosemReader) (obis : Vector UInt8 6) (attr : UInt8) :
    r.Sends (r.getAttribute bus obis attr).2 := by
  rw [getAttribute_snd]
  exact r.sends_exchange bus _

private theorem sends_readAssociated (bus : Bus) (r : DlmsCosemReader) (obis : Vector UInt8 6) (unit : UInt8) :
    r.Sends (r.readAssociated bus obis unit).2 := by
  have hassociate := r.sends_associate bus
  unfold readAssociated
  revert hassociate
  rcases r.associate bus with ⟨_ | _, r₁⟩
  · exact fun h => h
  · intro hassociate
    have hscaler := hassociate.trans (r₁.sends_getAttribute bus obis dlmsAttrScalerUnit)
    dsimp only
    revert hscaler
    rcases r₁.getAttribute bus obis dlmsAttrScalerUnit with ⟨_ | data, r₂⟩
    · exact fun h => h
    · intro hscaler
      dsimp only
      cases decodeScalerUnit data unit with
      | error e => exact hscaler
      | ok scaler =>
        have hvalue := hscaler.trans (r₂.sends_getAttribute bus obis dlmsAttrValue)
        dsimp only
        revert hvalue
        rcases r₂.getAttribute bus obis dlmsAttrValue with ⟨_ | _, r₃⟩
        · exact fun h => h
        · exact fun h => h

private theorem sends_readRegister (bus : Bus) (r : DlmsCosemReader) (obis : Vector UInt8 6) (unit : UInt8) :
    r.Sends (r.readRegister bus obis unit).2 := by
  have hconnect := r.sends_connect bus
  unfold readRegister
  revert hconnect
  rcases r.connect bus with ⟨_ | _, r₁⟩
  · exact fun h => h
  · intro hconnect
    exact (hconnect.trans (r₁.sends_readAssociated bus obis unit)).trans (sends_disconnect bus _)

private theorem sends_probe (bus : Bus) (r : DlmsCosemReader) : r.Sends (r.probe bus).2 := by
  have hconnect := r.sends_connect bus
  unfold probe
  revert hconnect
  rcases r.connect bus with ⟨_ | _, r₁⟩
  · exact fun h => h
  · intro hconnect
    exact (hconnect.trans (r₁.sends_associate bus)).trans (sends_disconnect bus _)

private theorem sends_getRegister (bus : Bus) (r : DlmsCosemReader) (obis : Vector UInt8 6) (unit : UInt8)
    (convert : Number → Number) : r.Sends (r.getRegister bus obis unit convert).2 := by
  rw [getRegister_snd]
  exact r.sends_readRegister bus obis unit

private theorem sends_call (bus : Bus) (r : DlmsCosemReader) (call : ReaderCall) : r.Sends (call.after bus r) := by
  cases call with
  | probe => exact r.sends_probe bus
  | getImport => exact r.sends_getRegister bus _ _ _
  | getExport => exact r.sends_getRegister bus _ _ _
  | getVoltage => exact r.sends_getRegister bus _ _ _

theorem sends_calls (bus : Bus) (r : DlmsCosemReader) (calls : List ReaderCall) : r.Sends (afterCalls bus r calls) := by
  induction calls generalizing r with
  | nil => exact .refl r
  | cons call calls ih => exact (r.sends_call bus call).trans (ih (call.after bus r))

end Sends

/-- Every frame of a reader that has sent none yet goes from its client to its server. -/
theorem parse_sent {bus : Bus} {r : DlmsCosemReader} (hfresh : r.sent = []) {calls : List ReaderCall}
    {frame : List UInt8} (hsent : frame ∈ (afterCalls bus r calls).sent) :
    ∃ control info, hdlcParseFrame frame = .ok ⟨r.server, r.client, control, info⟩ := by
  obtain ⟨frames, hextends, hframes⟩ := r.sends_calls bus calls
  rw [hextends.sent, hfresh, List.nil_append] at hsent
  obtain ⟨control, info, hinfo, rfl⟩ := hframes frame hsent
  exact ⟨control, info, r.hdlcParseFrame_request control hinfo⟩

/-- The first frame goes out whatever the bus does. -/
theorem exists_sent (bus : Bus) (r : DlmsCosemReader) : ∃ frame, frame ∈ (afterCalls bus r [.probe]).sent := by
  obtain ⟨res, r₁, hconnect, hextends, -⟩ := connect_spec bus r
  have hmem : r.snrmStep.message ∈ r₁.sent := by simp [hextends.sent]
  refine ⟨r.snrmStep.message, ?_⟩
  simp only [afterCalls, List.foldl_cons, List.foldl_nil, ReaderCall.after, probe, hconnect]
  cases res with
  | error e => exact hmem
  | ok u =>
    obtain ⟨frames, hlater, -⟩ := (r₁.sends_associate bus).trans (sends_disconnect bus _)
    dsimp only
    rw [hlater.sent]
    exact List.mem_append_left _ hmem

end DlmsCosemReader

structure StoredAddress where
  client : UInt32
  logical : UInt32
  physical : UInt32
  addrLen : UInt32

namespace StoredAddress

structure In (a : StoredAddress) (nvs : Nvs) : Prop where
  client : nvs (ascii "dlms_client") = some (.uint a.client)
  logical : nvs (ascii "dlms_logical") = some (.uint a.logical)
  physical : nvs (ascii "dlms_physical") = some (.uint a.physical)
  addrLen : nvs (ascii "dlms_addr_len") = some (.uint a.addrLen)

/-- A frame's destination and source decode to exactly the stored numbers. -/
def NamedBy (a : StoredAddress) (frame : List UInt8) : Prop :=
  ∃ parsed, hdlcParseFrame frame = .ok parsed ∧ parsed.dest.len = a.addrLen.toNat ∧
    parsed.dest.decode = (a.logical.toNat, if a.addrLen.toNat = 1 then none else some a.physical.toNat) ∧
    parsed.src.decode = (a.client.toNat, none)

/-- Either the reader refuses the config, or every frame it sends has the stored addresses. -/
def UsedExactly (a : StoredAddress) (config : DlmsCosemConfig) : Prop :=
  DlmsCosemReader.init config = none ∨ ∃ r, DlmsCosemReader.init config = some r ∧
    ∀ bus calls, ∀ frame ∈ (r.afterCalls bus calls).sent, a.NamedBy frame

/-- No number that matters is longer than its field: one byte for the client and
the size, two for the numbers of the server. -/
def Fits (a : StoredAddress) : Prop :=
  a.client.toNat < 2 ^ 8 ∧ a.addrLen.toNat < 2 ^ 8 ∧ a.logical.toNat < 2 ^ 16 ∧
    (a.addrLen.toNat ≠ 1 → a.physical.toNat < 2 ^ 16)

def OutOfRange (a : StoredAddress) : Prop :=
  let size := a.addrLen.toNat % 2 ^ 8
  let max := if size = 4 then 0x3FFF else 0x7F
  0x7F < a.client.toNat % 2 ^ 8 ∨ (size ≠ 1 ∧ size ≠ 2 ∧ size ≠ 4) ∨ max < a.logical.toNat % 2 ^ 16 ∨
    (1 < size ∧ max < a.physical.toNat % 2 ^ 16)

variable {a : StoredAddress} {nvs : Nvs} {config : DlmsCosemConfig}

/-- The config holds the stored numbers, each cut to its field. -/
structure CutTo (a : StoredAddress) (config : DlmsCosemConfig) : Prop where
  client : config.clientSap = a.client.toUInt8
  logical : config.serverLogical = a.logical.toUInt16
  physical : config.serverPhysical = a.physical.toUInt16
  addrLen : config.serverAddrLen = a.addrLen.toUInt8

private theorem In.cutTo (h : a.In nvs) : a.CutTo (loadDlmsCosemConfig nvs) :=
  ⟨congrArg UInt32.toUInt8 (Nvs.readU32_of_stored h.client _),
    congrArg UInt32.toUInt16 (Nvs.readU32_of_stored h.logical _),
    congrArg UInt32.toUInt16 (Nvs.readU32_of_stored h.physical _),
    congrArg UInt32.toUInt8 (Nvs.readU32_of_stored h.addrLen _)⟩

/-- An address is encoded when both halves are in range and the size is one of three. -/
theorem hdlcAddress_eq_none {upper lower : UInt16} {size : UInt8} :
    hdlcAddress upper lower size = none ↔
      (size.toNat ≠ 1 ∧ size.toNat ≠ 2 ∧ size.toNat ≠ 4) ∨
        (if size.toNat = 4 then 0x3FFF else 0x7F) < upper.toNat ∨
          (1 < size.toNat ∧ (if size.toNat = 4 then 0x3FFF else 0x7F) < lower.toNat) := by
  have hmax : (if size = 4 then 0x3FFF else 0x7F : UInt16).toNat = if size.toNat = 4 then 0x3FFF else 0x7F := by
    have hfour : size = 4 ↔ size.toNat = 4 := UInt8.toNat_inj.symm
    simp only [hfour]
    split <;> rfl
  have hsizes : (size.toNat ≠ 1 ∧ size.toNat ≠ 2 ∧ size.toNat ≠ 4) ↔ (size ≠ 1 ∧ size ≠ 2 ∧ size ≠ 4) := by
    simp only [ne_eq, ← UInt8.toNat_inj, UInt8.reduceToNat]
  rw [← hmax, ← UInt16.lt_iff_toNat_lt, ← UInt16.lt_iff_toNat_lt, hsizes, hdlcAddress]
  generalize (if size = 4 then 0x3FFF else 0x7F : UInt16) = max
  by_cases hrange : max < upper ∨ (1 < size ∧ max < lower)
  · rw [if_pos hrange]
    exact iff_of_true rfl (.inr hrange)
  rw [if_neg hrange]
  by_cases hone : size = 1
  · rw [if_pos hone]
    exact iff_of_false (Option.some_ne_none _) fun h => h.elim (fun h => h.1 hone) hrange
  rw [if_neg hone]
  by_cases htwo : size = 2
  · rw [if_pos htwo]
    exact iff_of_false (Option.some_ne_none _) fun h => h.elim (fun h => h.2.1 htwo) hrange
  rw [if_neg htwo]
  by_cases hfour : size = 4
  · rw [if_pos hfour]
    exact iff_of_false (Option.some_ne_none _) fun h => h.elim (fun h => h.2.2 hfour) hrange
  · rw [if_neg hfour]
    exact iff_of_true rfl (.inl ⟨hone, htwo, hfour⟩)

/-- The reader refuses exactly what is out of range in the fields of its config. -/
theorem CutTo.init_eq_none (h : a.CutTo config) : DlmsCosemReader.init config = none ↔ a.OutOfRange := by
  have hclient : hdlcAddress config.clientSap.toUInt16 0 1 = none ↔ 0x7F < a.client.toNat % 2 ^ 8 := by
    rw [hdlcAddress_eq_none, h.client]
    simp
  have hserver : hdlcAddress config.serverLogical config.serverPhysical config.serverAddrLen = none ↔
      (a.addrLen.toNat % 2 ^ 8 ≠ 1 ∧ a.addrLen.toNat % 2 ^ 8 ≠ 2 ∧ a.addrLen.toNat % 2 ^ 8 ≠ 4) ∨
        (if a.addrLen.toNat % 2 ^ 8 = 4 then 0x3FFF else 0x7F) < a.logical.toNat % 2 ^ 16 ∨
          (1 < a.addrLen.toNat % 2 ^ 8 ∧
            (if a.addrLen.toNat % 2 ^ 8 = 4 then 0x3FFF else 0x7F) < a.physical.toNat % 2 ^ 16) := by
    rw [hdlcAddress_eq_none, h.logical, h.physical, h.addrLen]
    simp only [UInt32.toNat_toUInt8, UInt32.toNat_toUInt16]
  unfold DlmsCosemReader.init OutOfRange
  dsimp only
  rw [← hclient, ← hserver]
  cases hdlcAddress config.clientSap.toUInt16 0 1 with
  | none => simp
  | some client =>
    cases hdlcAddress config.serverLogical config.serverPhysical config.serverAddrLen with
    | none => simp
    | some server => simp

/-- A reader that is set up sends frames whose addresses are the numbers as cut. -/
theorem CutTo.decode (h : a.CutTo config) {r : DlmsCosemReader} (hinit : DlmsCosemReader.init config = some r) :
    r.sent = [] ∧ r.server.len = a.addrLen.toNat % 2 ^ 8 ∧
      r.server.decode = (a.logical.toNat % 2 ^ 16,
        if a.addrLen.toNat % 2 ^ 8 = 1 then none else some (a.physical.toNat % 2 ^ 16)) ∧
      r.client.decode = (a.client.toNat % 2 ^ 8, none) := by
  unfold DlmsCosemReader.init at hinit
  simp only [Option.bind_eq_bind, Option.bind_eq_some_iff] at hinit
  obtain ⟨client, hclient, server, hserver, hr⟩ := hinit
  obtain rfl := Option.some.inj hr
  obtain ⟨-, hclient⟩ := decode_hdlcAddress hclient
  obtain ⟨hlen, hserver⟩ := decode_hdlcAddress hserver
  rw [h.client] at hclient
  rw [h.logical, h.physical, h.addrLen] at hserver
  rw [h.addrLen] at hlen
  refine ⟨rfl, by simpa using hlen, ?_, by simpa using hclient⟩
  simp only [UInt32.toNat_toUInt16, ← UInt8.toNat_inj, UInt32.toNat_toUInt8, UInt8.reduceToNat] at hserver
  exact hserver

/-- Numbers as cut are the numbers stored exactly when they fit. -/
theorem fits_iff : a.Fits ↔ a.addrLen.toNat % 2 ^ 8 = a.addrLen.toNat ∧
    (a.logical.toNat % 2 ^ 16, if a.addrLen.toNat % 2 ^ 8 = 1 then none else some (a.physical.toNat % 2 ^ 16)) =
      (a.logical.toNat, if a.addrLen.toNat = 1 then none else some a.physical.toNat) ∧
    ((a.client.toNat % 2 ^ 8, none) : Nat × Option Nat) = (a.client.toNat, none) := by
  unfold Fits
  rw [Nat.mod_eq_iff_lt (by decide), Prod.mk.injEq, Prod.mk.injEq, Nat.mod_eq_iff_lt (by decide),
    Nat.mod_eq_iff_lt (by decide)]
  by_cases hlen : a.addrLen.toNat < 2 ^ 8
  · rw [Nat.mod_eq_of_lt hlen]
    by_cases hone : a.addrLen.toNat = 1
    · simp [hone]
      tauto
    · simp [hone]
      tauto
  · exact iff_of_false (fun h => hlen h.2.1) fun h => hlen h.1

/-- The addresses are used exactly or refused when the stored numbers fit their
fields, or what is left of them in the fields is out of range. -/
theorem CutTo.usedExactly_iff (h : a.CutTo config) : a.UsedExactly config ↔ a.Fits ∨ a.OutOfRange := by
  unfold UsedExactly
  rw [h.init_eq_none, or_comm]
  refine or_congr_left' fun hrange => ?_
  obtain ⟨r, hinit⟩ := Option.ne_none_iff_exists'.mp (mt h.init_eq_none.mp hrange)
  obtain ⟨hfresh, hlen, hserver, hclient⟩ := h.decode hinit
  rw [fits_iff]
  constructor
  · rintro ⟨r', hinit', hnamed⟩
    obtain rfl := Option.some.inj (hinit.symm.trans hinit')
    obtain ⟨frame, hsent⟩ := r.exists_sent fun _ => ⟨false, 0, []⟩
    obtain ⟨parsed, hparsed, hlen', hserver', hclient'⟩ := hnamed _ _ frame hsent
    obtain ⟨control, info, hparse⟩ := DlmsCosemReader.parse_sent hfresh hsent
    obtain rfl := Except.ok.inj (hparse.symm.trans hparsed)
    exact ⟨hlen.symm.trans hlen', hserver.symm.trans hserver', hclient.symm.trans hclient'⟩
  · rintro ⟨hkept, hkept', hkept''⟩
    refine ⟨r, hinit, fun bus calls frame hsent => ?_⟩
    obtain ⟨control, info, hparse⟩ := DlmsCosemReader.parse_sent hfresh hsent
    exact ⟨_, hparse, hlen.trans hkept, hserver.trans hkept', hclient.trans hkept''⟩

end StoredAddress

/-- Over every number that can be stored: after the config is loaded the
addresses are used exactly or refused in exactly these cases. -/
theorem dlms_addresses_exact_iff {opened : Bool} {efuseUid : Uid} {nvs : Nvs} {cfg : Rs485NodeConfig}
    (hload : loadRs485NodeConfig opened efuseUid nvs = some cfg) (a : StoredAddress) (hstored : a.In nvs) :
    a.UsedExactly cfg.dlms ↔ a.Fits ∨ a.OutOfRange := by
  rw [(loadRs485NodeConfig_eq_some hload).2]
  exact hstored.cutTo.usedExactly_iff

def StoredAddress.nvs (a : StoredAddress) : Nvs :=
  (((Nvs.blank.put (ascii "dlms_client") (.uint a.client)).put (ascii "dlms_logical") (.uint a.logical)).put
    (ascii "dlms_physical") (.uint a.physical)).put (ascii "dlms_addr_len") (.uint a.addrLen)

private theorem StoredAddress.in_nvs (a : StoredAddress) : a.In a.nvs := by
  constructor <;> simp [StoredAddress.nvs, Nvs.put, ascii]

/-- The public client and a server with a two byte address. -/
theorem dlms_addresses_exact_iff_public : ∃ cfg,
    loadRs485NodeConfig true (Vector.replicate uidLen 0) (StoredAddress.nvs ⟨16, 1, 17, 2⟩) = some cfg ∧
      StoredAddress.UsedExactly ⟨16, 1, 17, 2⟩ cfg.dlms := by
  obtain ⟨cfg, hload⟩ : ∃ cfg,
    loadRs485NodeConfig true (Vector.replicate uidLen 0) (StoredAddress.nvs ⟨16, 1, 17, 2⟩) = some cfg := ⟨_, rfl⟩
  exact ⟨cfg, hload, (dlms_addresses_exact_iff hload _ (StoredAddress.in_nvs _)).mpr
    (.inl ⟨by decide, by decide, by decide, by decide⟩)⟩

/-- Client 272 is not refused: every frame comes from client 16. -/
theorem dlms_client_cut : ∃ cfg r,
    loadRs485NodeConfig true (Vector.replicate uidLen 0) (StoredAddress.nvs ⟨272, 1, 17, 2⟩) = some cfg ∧
      DlmsCosemReader.init cfg.dlms = some r ∧ r.client.decode = (16, none) ∧
      ¬ StoredAddress.UsedExactly ⟨272, 1, 17, 2⟩ cfg.dlms := by
  obtain ⟨cfg, hload⟩ : ∃ cfg,
    loadRs485NodeConfig true (Vector.replicate uidLen 0) (StoredAddress.nvs ⟨272, 1, 17, 2⟩) = some cfg := ⟨_, rfl⟩
  have hcut : StoredAddress.CutTo ⟨272, 1, 17, 2⟩ cfg.dlms := by
    rw [(loadRs485NodeConfig_eq_some hload).2]
    exact (StoredAddress.in_nvs _).cutTo
  have hrange : ¬ StoredAddress.OutOfRange ⟨272, 1, 17, 2⟩ := by
    unfold StoredAddress.OutOfRange
    decide
  obtain ⟨r, hinit⟩ := Option.ne_none_iff_exists'.mp (mt hcut.init_eq_none.mp hrange)
  refine ⟨cfg, r, hload, hinit, (hcut.decode hinit).2.2.2, ?_⟩
  rw [hcut.usedExactly_iff]
  rintro (hfits | hout)
  · exact absurd hfits.1 (by decide)
  · exact hrange hout

end IotFirmware
