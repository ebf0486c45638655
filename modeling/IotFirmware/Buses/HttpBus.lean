import Mathlib.Data.List.Basic

/-! The HTTP client bus to the camera: one GET for each request, its body handed
out byte by byte. -/
namespace IotFirmware

structure HttpBusConfig where
  requestTimeoutMs : UInt32
  httpUser : List UInt8
  httpPass : List UInt8

structure HttpRequest where
  url : List UInt8
  timeoutMs : UInt32
  authorization : Option (List UInt8 × List UInt8)

/-- The access point around one request: whether it is up, whether the camera
has joined it, and the status and the body a GET comes back with. -/
structure CamNetwork where
  apUp : Bool
  hasStations : Bool
  get : HttpRequest → Int × List UInt8

def httpCodeOk : Int := 200

structure HttpBus where
  config : HttpBusConfig
  response : List UInt8 := []
  readIndex : Nat := 0

namespace HttpBus

def init (net : CamNetwork) : Bool := net.apUp

/-- Authorization is set when there is a user. -/
def request (config : HttpBusConfig) (url : List UInt8) : HttpRequest where
  url := url
  timeoutMs := config.requestTimeoutMs
  authorization := if config.httpUser.length > 0 then some (config.httpUser, config.httpPass) else none

/-- Performs a GET. The previous body is gone even when it fails. -/
def send (net : CamNetwork) (bus : HttpBus) (data : List UInt8) : Bool × HttpBus :=
  let bus := { bus with response := [], readIndex := 0 }
  if !net.apUp then (false, bus)
  else if !net.hasStations then (false, bus)
  else
    let (status, body) := net.get (request bus.config data)
    if status ≠ httpCodeOk then (false, bus) else (true, { bus with response := body })

def available (bus : HttpBus) : Bool := bus.readIndex < bus.response.length

def readByte (bus : HttpBus) : Option UInt8 × HttpBus :=
  if !bus.available then (none, bus)
  else (bus.response[bus.readIndex]?, { bus with readIndex := bus.readIndex + 1 })

def remaining (bus : HttpBus) : List UInt8 := bus.response.drop bus.readIndex

theorem available_iff (bus : HttpBus) : bus.available = true ↔ bus.remaining ≠ [] := by
  simp [available, remaining]

theorem readByte_eq {bus : HttpBus} {b : UInt8} {rest : List UInt8} (h : bus.remaining = b :: rest) :
    ∃ bus' : HttpBus, bus.readByte = (some b, bus') ∧ bus'.remaining = rest := by
  have havailable : bus.available = true := (available_iff bus).mpr (by simp [h])
  refine ⟨{ bus with readIndex := bus.readIndex + 1 }, ?_, ?_⟩
  · rw [readByte, havailable, ← List.head?_drop, ← remaining, h]
    rfl
  · rw [remaining, ← List.tail_drop, ← remaining, h]
    rfl

/-- The camera can be reached, and answers the request with this body. -/
structure Answers (net : CamNetwork) (config : HttpBusConfig) (url body : List UInt8) : Prop where
  apUp : net.apUp = true
  hasStations : net.hasStations = true
  get : net.get (request config url) = (httpCodeOk, body)

theorem Answers.send {net : CamNetwork} {bus : HttpBus} {url body : List UInt8} (h : Answers net bus.config url body) :
    bus.send net url = (true, { bus with response := body, readIndex := 0 }) := by
  simp [HttpBus.send, h.apUp, h.hasStations, h.get]

theorem answers_of_send {net : CamNetwork} {bus bus' : HttpBus} {url : List UInt8}
    (h : bus.send net url = (true, bus')) : Answers net bus.config url bus'.remaining := by
  simp only [HttpBus.send] at h
  split at h
  · simp at h
  case isFalse hup =>
    split at h
    · simp at h
    case isFalse hstations =>
      split at h
      · simp at h
      case isFalse hstatus =>
        obtain ⟨-, rfl⟩ := Prod.mk.inj h
        exact ⟨by simpa using hup, by simpa using hstations, Prod.ext (by simpa using hstatus) rfl⟩

end HttpBus
end IotFirmware
