import IotFirmware.Protocols.AareGrammar
import IotFirmware.Protocols.AxdrInteger
import IotFirmware.Protocols.DlmsSession
import IotFirmware.Protocols.FrameHunt

/-! A meter that answers as the standard says is read exactly, whatever its
addresses, its scaler and the integer type of its registers. -/
namespace IotFirmware
open Checked Script

namespace DlmsCosemConfig
variable (config : DlmsCosemConfig)

def clientField : List UInt8 := HdlcStandard.addressField [config.clientSap.toNat]

def serverField : List UInt8 :=
  HdlcStandard.addressField
    (HdlcStandard.serverGroups config.serverLogical.toNat config.serverPhysical.toNat config.serverAddrLen.toNat)

def request (control : UInt8) (info : List UInt8) : List UInt8 :=
  HdlcStandard.frame config.serverField config.clientField control info

def reply (control : UInt8) (info : List UInt8) : List UInt8 :=
  HdlcStandard.frame config.clientField config.serverField control info

/-- Behind the frames sent, any number of idle flags and one frame from the server arrive in time. -/
def Replies (bus : Bus) (sent : List (List UInt8)) (control : UInt8) (info : List UInt8) : Prop :=
  info.length ≤ 128 ∧ ∃ idle, Delivers (bus sent) (List.replicate idle 0x7E ++ config.reply control info)

/-- The meter answers a session for one Register as the standard says: UA with any
info field, an accepting AARE, then the register's scaler_unit and its value, each
I-frame numbered in sequence. -/
structure ConformingMeter (bus : Bus) (sent : List (List UInt8)) (obis : Vector UInt8 6) (unit : UInt8)
    (scaler : Int8) (value : List UInt8) : Prop where
  ua : ∃ info, config.Replies bus (sent ++ [config.request 0x93 []]) 0x73 info
  aare : ∃ long fields, AcceptsAssociation fields ∧
    config.Replies bus (sent ++ [config.request 0x93 [], config.request 0x10 aarqInfo]) 0x30
      ([0xE6, 0xE7, 0x00] ++ aareApdu long fields)
  scalerUnit : config.Replies bus
    (sent ++ [config.request 0x93 [], config.request 0x10 aarqInfo, config.request 0x32 (getAttributeInfo obis 3)]) 0x52
      ([0xE6, 0xE7, 0x00] ++ getResponse (scalerUnitData scaler unit))
  value : config.Replies bus
    (sent ++ [config.request 0x93 [], config.request 0x10 aarqInfo, config.request 0x32 (getAttributeInfo obis 3),
      config.request 0x54 (getAttributeInfo obis 2)]) 0x74 ([0xE6, 0xE7, 0x00] ++ getResponse value)

end DlmsCosemConfig

namespace DlmsCosemReader
open DlmsCosemConfig

/-- A reader that was set up with this config, whatever it has sent since. -/
def SetUp (config : DlmsCosemConfig) (r : DlmsCosemReader) : Prop :=
  ∃ r₀, init config = some r₀ ∧ r.config = config ∧ r.client = r₀.client ∧ r.server = r₀.server

variable {config : DlmsCosemConfig} {bus : Bus} {r : DlmsCosemReader} {sent : List (List UInt8)} {control : UInt8}
  {info apdu : List UInt8}

theorem SetUp.fields (h : SetUp config r) :
    r.client.bytes = config.clientField ∧ r.server.bytes = config.serverField := by
  obtain ⟨r₀, hinit, -, hclient, hserver⟩ := h
  simp only [init, Option.bind_eq_bind, Option.bind_eq_some_iff] at hinit
  obtain ⟨client, hclient₀, server, hserver₀, hr₀⟩ := hinit
  obtain rfl := Option.some.inj hr₀
  rw [hclient, hserver]
  exact ⟨(bytes_hdlcAddress hclient₀).trans (by rw [UInt8.toNat_toUInt16]; rfl), bytes_hdlcAddress hserver₀⟩

theorem SetUp.request_eq (h : SetUp config r) (control : UInt8) (info : List UInt8) :
    config.request control info = r.request control info := by
  rw [DlmsCosemConfig.request, request, h.fields.1, h.fields.2]

private theorem apdu_le (h : config.Replies bus sent control ([0xE6, 0xE7, 0x00] ++ apdu)) : apdu.length ≤ 125 := by
  have hle := h.1
  rw [List.length_append, List.length_cons, List.length_cons, List.length_singleton] at hle
  omega

/-- A reply that arrives is read and found to be for this client. -/
theorem SetUp.answers (hr : SetUp config r) (h : config.Replies bus sent control info) :
    Answers bus r.client r.server sent ⟨r.client, r.server, control, info⟩ := by
  obtain ⟨hinfo, idle, hdelivers⟩ := h
  have hlength := @HdlcFrame.length_le ⟨r.client, r.server, control, info⟩ hinfo
  have hwire : config.reply control info = HdlcFrame.wire ⟨r.client, r.server, control, info⟩ := by
    rw [HdlcFrame.wire_eq_frame (hlength.trans (by decide)), reply, hr.fields.1, hr.fields.2]
  rw [hwire] at hdelivers
  refine answers_iff.mpr ⟨hdelivers.1, _, readFrame_wire ?_ hdelivers, ?_, rfl, rfl⟩
  · rw [hdlcFrameMax]
    omega
  · exact hdlcParseFrame_wire (hlength.trans (by decide))

/-- A reply whose APDU is taken lets the session go on. -/
theorem SetUp.accepted {Takes : List UInt8 → Prop} {message : List UInt8} (hr : SetUp config r)
    (h : config.Replies bus (sent ++ [message]) control ([0xE6, 0xE7, 0x00] ++ apdu)) (htakes : Takes apdu) :
    Accepted (Answers bus r.client r.server) sent ⟨message, CarriesApdu control Takes⟩ :=
  ⟨_, hr.answers h, rfl, apdu, rfl, apdu_le h, htakes⟩

/-- A conforming meter's Register is read, scaled. -/
theorem readRegister_conforming {obis : Vector UInt8 6} {unit : UInt8} {scaler : Int8} {value : List UInt8}
    {raw : Number} (hr : SetUp config r) (h : config.ConformingMeter bus r.sent obis unit scaler value)
    (hne : value ≠ []) (hraw : decodeNumber value = .ok raw) :
    (r.readRegister bus obis unit).1 = .ok (applyScaler raw scaler) := by
  obtain ⟨info, hua⟩ := h.ua
  obtain ⟨long, fields, haccepts, haare⟩ := h.aare
  have hscalerUnit := h.scalerUnit
  have hvalue := h.value
  simp only [hr.request_eq] at hua haare hscalerUnit hvalue
  rw [List.append_cons] at haare hscalerUnit hvalue
  rw [List.append_cons] at hscalerUnit hvalue
  rw [List.append_cons] at hvalue
  have hopens : OpensAssociation (aareApdu long fields) := by
    refine ⟨long, fields, [], (List.append_nil _).symm, ?_, haccepts⟩
    have hle := apdu_le haare
    simp only [aareApdu, List.length_cons, List.length_append] at hle
    split <;> omega
  -- SNRM is answered by UA
  obtain ⟨res, r₁, hconnect, hextends₁, hok₁, hseq₁⟩ := connect_spec bus r
  obtain rfl := hok₁.mpr ⟨_, hr.answers hua, rfl⟩
  -- the association is accepted
  obtain ⟨res, r₂, hassoc, hextends₂, hok₂, hseq₂⟩ := associate_spec bus r₁ (hseq₁ rfl)
  simp only [aarqStep, hextends₁.client, hextends₁.server, hextends₁.sent, hextends₁.request_eq] at hok₂ hextends₂
  obtain rfl := hok₂.mpr (hr.accepted haare hopens)
  have hextends := hextends₁.trans hextends₂
  -- the scaler_unit is read
  obtain ⟨res, r₃, hget₃, hextends₃, haccepted₃, hseq₃⟩ := getAttribute_spec bus r₂ obis dlmsAttrScalerUnit
    (hseq₂ rfl) (by decide) (show 0x32 = _ by decide) (show (0x52 : UInt8).toNat = _ by decide)
  simp only [hextends.client, hextends.server, hextends.sent, hextends.request_eq, ← List.append_assoc]
    at haccepted₃ hextends₃
  obtain ⟨_, rfl, rfl⟩ := (haccepted₃ (· = scalerUnitData scaler unit)).mp
    (hr.accepted hscalerUnit ⟨_, parseGetResponse_eq_ok_iff.mpr ⟨rfl, by simp [scalerUnitData]⟩, rfl⟩)
  have hextends := hextends.trans hextends₃
  -- the value is read
  obtain ⟨res, r₄, hget₄, -, haccepted₄, -⟩ := getAttribute_spec bus r₃ obis dlmsAttrValue
    (hseq₃ _ rfl) (by decide) (show 0x54 = _ by decide) (show (0x74 : UInt8).toNat = _ by decide)
  simp only [hextends.client, hextends.server, hextends.sent, hextends.request_eq, ← List.append_assoc]
    at haccepted₄
  obtain ⟨_, rfl, rfl⟩ := (haccepted₄ (· = value)).mp
    (hr.accepted hvalue ⟨_, parseGetResponse_eq_ok_iff.mpr ⟨rfl, hne⟩, rfl⟩)
  have hscaler := (@decodeScalerUnit_eq_ok_iff (scalerUnitData scaler unit) unit scaler).mpr rfl
  simp only [readRegister, hconnect, readAssociated, hassoc, hget₃, hscaler, hget₄, hraw]
  rfl

/-- A getter on a conforming meter stores the value times ten to the scaler, converted. -/
theorem getRegister_conforming {obis : Vector UInt8 6} {unit : UInt8} {scaler : Int8} {t : AxdrInteger} {v : ℤ}
    (hr : SetUp config r) (ht : t.width ≤ 4) (hv : t.Contains v)
    (h : config.ConformingMeter bus r.sent obis unit scaler (t.encode v)) (convert : Number → Number) :
    (r.getRegister bus obis unit convert).1 = ⟨.ok (), some (convert (.rational (v * 10 ^ scaler.toInt)))⟩ := by
  have hlong : t ≠ .long64 := by
    rintro rfl
    exact absurd ht (by decide)
  have hraw : decodeNumber (t.encode v) = .ok (.rational v) := by
    simpa using decodeNumber_encode hlong hv []
  have hread := readRegister_conforming hr h (List.cons_ne_nil _ _) hraw
  rw [applyScaler_rational] at hread
  unfold getRegister
  rcases hsession : r.readRegister bus obis unit with ⟨res, r'⟩
  rw [hsession] at hread
  obtain rfl : res = _ := hread
  rfl

/-- Import and export are read in thousandths and voltage as it is, from any
integer register of up to four bytes and with any scaler. -/
theorem conforming_meter_read (hr : SetUp config r) (bus : Bus) (scaler : Int8) (t : AxdrInteger) (v : ℤ)
    (ht : t.width ≤ 4) (hv : t.Contains v) :
    (config.ConformingMeter bus r.sent config.importObis 30 scaler (t.encode v) →
      (r.getImport bus).1 = ⟨.ok (), some (.rational (v * 10 ^ scaler.toInt / 1000))⟩) ∧
    (config.ConformingMeter bus r.sent config.exportObis 30 scaler (t.encode v) →
      (r.getExport bus).1 = ⟨.ok (), some (.rational (v * 10 ^ scaler.toInt / 1000))⟩) ∧
    (config.ConformingMeter bus r.sent config.voltageObis 35 scaler (t.encode v) →
      (r.getVoltage bus).1 = ⟨.ok (), some (.rational (v * 10 ^ scaler.toInt))⟩) := by
  obtain ⟨-, -, hconfig, -⟩ := id hr
  rw [getImport, getExport, getVoltage, hconfig]
  exact ⟨fun h => getRegister_conforming hr ht hv h _, fun h => getRegister_conforming hr ht hv h _,
    fun h => getRegister_conforming hr ht hv h _⟩

/-- A bus on which the frames sent are answered at once, by these replies in turn. -/
def promptBus (replies : List (List UInt8)) : Bus := fun sent =>
  ⟨true, 0, (replies.getD (sent.length - 1) []).map fun b => ⟨0, some b⟩⟩

private theorem replies_promptBus {replies : List (List UInt8)} {sent : List (List UInt8)} {control : UInt8}
    {info : List UInt8} (hinfo : info.length ≤ 128)
    (hreply : replies.getD (sent.length - 1) [] = config.reply control info) :
    config.Replies (promptBus replies) sent control info := by
  refine ⟨hinfo, 0, rfl, _, [], (List.append_nil _).symm, ?_, ?_⟩
  · simp [promptBus, dlmsTimeout]
  · simp only [promptBus, hreply, List.filterMap_map]
    exact List.filterMap_some

/-- -12345678 Wh at a scaler of -2, from a meter with a four byte address that answers at once. -/
theorem conforming_meter_read_import : ∃ config r bus, init config = some r ∧
    (r.getImport bus).1 = ⟨.ok (), some (.rational ((-12345678 : ℤ) * 10 ^ (-2 : Int8).toInt / 1000))⟩ := by
  let obis : Vector UInt8 6 := #v[1, 0, 1, 8, 0, 255]
  let result : BerField := ⟨0xA2, [0x02, 0x01, 0x00], false, by decide⟩
  let initiate : BerField := ⟨0xBE, [0x04, 0x01, 0x08], false, by decide⟩
  let config : DlmsCosemConfig := ⟨16, 1, 4660, 4, obis, obis, obis⟩
  obtain ⟨r, hinit⟩ : ∃ r, init config = some r := ⟨_, rfl⟩
  have hsetUp : r.sent = [] ∧ SetUp config r := by
    cases hinit
    exact ⟨rfl, _, rfl, rfl, rfl, rfl⟩
  obtain ⟨hsent, hr⟩ := hsetUp
  let bus := promptBus [config.reply 0x73 [],
    config.reply 0x30 ([0xE6, 0xE7, 0x00] ++ aareApdu false [result, initiate]),
    config.reply 0x52 ([0xE6, 0xE7, 0x00] ++ getResponse (scalerUnitData (-2) 30)),
    config.reply 0x74 ([0xE6, 0xE7, 0x00] ++ getResponse (AxdrInteger.doubleLong.encode (-12345678)))]
  have hmeter : config.ConformingMeter bus r.sent config.importObis 30 (-2)
      (AxdrInteger.doubleLong.encode (-12345678)) := by
    refine ⟨⟨[], replies_promptBus (by decide) ?_⟩, ⟨false, [result, initiate], ⟨rfl, rfl⟩,
      replies_promptBus (by decide) ?_⟩, replies_promptBus (by decide) ?_, replies_promptBus (by decide) ?_⟩
    all_goals
      rw [hsent]
      rfl
  exact ⟨config, r, bus, hinit,
    (conforming_meter_read hr bus (-2) .doubleLong (-12345678) (by decide) (by simp [AxdrInteger.Contains])).1 hmeter⟩

end DlmsCosemReader
end IotFirmware
