import IotFirmware.Buses.HttpBus
import IotFirmware.Foundation.Atof
import IotFirmware.Foundation.Json
import IotFirmware.Interfaces.Reader

/-! The camera reader: a flow of the camera's JSON document as a reading. -/
namespace IotFirmware

structure CamHttpConfig where
  host : List UInt8
  path : List UInt8
  flowName : List UInt8
  exportFlowName : List UInt8

def httpScheme : List UInt8 := ascii "http://"
def errorKey : List UInt8 := ascii "error"
def valueKey : List UInt8 := ascii "value"
def noError : List UInt8 := ascii "no error"

structure CamHttpReader where
  config : CamHttpConfig
  bus : HttpBus

namespace CamHttpReader

/-- The host and the import flow have to be named. -/
def init (r : CamHttpReader) : Bool := !(r.config.host.isEmpty || r.config.flowName.isEmpty)

/-- `passes` bounds the passes of the loop; the bus has no more bytes than that. -/
def readResponseLoop : (passes : Nat) → HttpBus → (out : List UInt8) → List UInt8 × HttpBus
  | 0, bus, out => (out, bus)
  | passes + 1, bus, out =>
    if bus.available then
      match bus.readByte with
      | (none, bus) => (out, bus)
      | (some capture, bus) => readResponseLoop passes bus (out ++ [capture])
    else (out, bus)

def readResponse (bus : HttpBus) : Option (List UInt8) × HttpBus :=
  let (out, bus) := readResponseLoop bus.remaining.length bus []
  (if out.length = 0 then none else some out, bus)

def url (config : CamHttpConfig) : List UInt8 := httpScheme ++ config.host ++ config.path

section Reading
variable (lib : JsonAccess)

def fetch (net : CamNetwork) (r : CamHttpReader) : Option Json × CamHttpReader :=
  match r.bus.send net (url r.config) with
  | (false, bus) => (none, { r with bus })
  | (true, bus) =>
    match readResponse bus with
    | (none, bus) => (none, { r with bus })
    | (some body, bus) => (lib.deserializeJson body, { r with bus })

/-- One flow of a parsed document. The error and the value are C strings, and
empty where the member is no string. -/
def flowValue (flow : List UInt8) (doc : Json) : Option UInt32 :=
  let number := lib.member doc flow
  if lib.isNull number then none
  else
    let errorMessage := cString (lib.textOr (lib.member number errorKey) [])
    if errorMessage ≠ [] ∧ errorMessage ≠ noError then none
    else
      let valueStr := cString (lib.textOr (lib.member number valueKey) [])
      if valueStr = [] then none else some (atof valueStr)

def readFlow (flow : List UInt8) : Getter CamHttpReader CamNetwork := fun net r val =>
  match r.fetch lib net with
  | (none, r) => (false, val, r)
  | (some doc, r) =>
    match flowValue lib flow doc with
    | none => (false, val, r)
    | some value => (true, value, r)

def getImport : Getter CamHttpReader CamNetwork := fun net r val =>
  readFlow lib r.config.flowName net r val

def getExport : Getter CamHttpReader CamNetwork := fun net r val =>
  if r.config.exportFlowName = [] then (false, val, r)
  else readFlow lib r.config.exportFlowName net r val

def getVoltage : Getter CamHttpReader CamNetwork := fun _ r val => (false, val, r)

def probe (net : CamNetwork) (r : CamHttpReader) : Bool × CamHttpReader :=
  match r.fetch lib net with
  | (none, r) => (false, r)
  | (some doc, r) =>
    if lib.isNull (lib.member doc r.config.flowName) then (false, r)
    else if r.config.exportFlowName ≠ [] ∧ lib.isNull (lib.member doc r.config.exportFlowName) then (false, r)
    else (true, r)

theorem readFlow_untouched (flow : List UInt8) : (readFlow lib flow).Untouched := by
  intro net r val h
  simp only [readFlow] at h ⊢
  split
  · rfl
  · split
    · rfl
    · simp_all

private theorem getImport_untouched : (getImport lib).Untouched := fun net r =>
  readFlow_untouched lib r.config.flowName net r

private theorem getExport_untouched : (getExport lib).Untouched := by
  intro net r val h
  simp only [getExport] at h ⊢
  split
  · rfl
  case isFalse hflow =>
    rw [if_neg hflow] at h
    exact readFlow_untouched lib r.config.exportFlowName net r val h

private theorem getVoltage_untouched : getVoltage.Untouched := fun _ _ _ _ => rfl

end Reading

theorem readResponseLoop_eq (passes : Nat) (bus : HttpBus) (out : List UInt8) (h : bus.remaining.length ≤ passes) :
    (readResponseLoop passes bus out).1 = out ++ bus.remaining ∧
      (readResponseLoop passes bus out).2.remaining = [] := by
  induction passes generalizing bus out with
  | zero =>
    rw [List.length_eq_zero_iff.mp (Nat.le_zero.mp h)]
    exact ⟨by simp [readResponseLoop], List.length_eq_zero_iff.mp (Nat.le_zero.mp h)⟩
  | succ passes ih =>
    rw [readResponseLoop]
    cases hremaining : bus.remaining with
    | nil =>
      rw [if_neg fun havailable => (bus.available_iff.mp havailable) hremaining]
      exact ⟨by simp, hremaining⟩
    | cons b rest =>
      obtain ⟨bus', hread, hrest⟩ := HttpBus.readByte_eq hremaining
      rw [if_pos (bus.available_iff.mpr (by simp [hremaining])), hread]
      have := ih bus' (out ++ [b]) (by rw [hremaining] at h; rw [hrest]; exact Nat.le_of_succ_le_succ h)
      simpa [hrest] using this

/-- The whole body is read, and nothing of it is left behind. -/
theorem readResponse_eq (bus : HttpBus) :
    (readResponse bus).1 = (if bus.remaining = [] then none else some bus.remaining) ∧
      (readResponse bus).2.remaining = [] := by
  obtain ⟨hout, hbus⟩ := readResponseLoop_eq bus.remaining.length bus [] le_rfl
  refine ⟨?_, hbus⟩
  simp only [readResponse, hout, List.nil_append, List.length_eq_zero_iff]

end CamHttpReader

def camHttpReader (lib : JsonAccess) : Reader CamHttpReader CamNetwork where
  probe := CamHttpReader.probe lib
  getImport := CamHttpReader.getImport lib
  getExport := CamHttpReader.getExport lib
  getVoltage := CamHttpReader.getVoltage
  import_untouched := CamHttpReader.getImport_untouched lib
  export_untouched := CamHttpReader.getExport_untouched lib
  voltage_untouched := CamHttpReader.getVoltage_untouched

end IotFirmware
