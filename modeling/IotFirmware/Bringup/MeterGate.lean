import IotFirmware.Interfaces.Reader
import IotFirmware.Interfaces.SharedPayload

/-! What every end node brings up: its payload's identity fields, and the gate
that keeps it not ready until its meter answers a probe. -/
namespace IotFirmware

def probeRetryMs : UInt32 := 5000
def readsBeforeLost : UInt8 := 3

/-- The static payload once `endNodeBringUp` has set its identity fields. -/
def bringUpPayload (uid : Uid) (communityId unitId nodeType : UInt8) : Payload where
  uid
  seq := 0
  kwhImport := 0
  kwhExport := 0
  voltage := 0
  communityId
  unitId
  nodeType

structure MeterGate where
  retryMs : UInt32 := probeRetryMs
  lostAfter : UInt8 := readsBeforeLost
  isReady : Bool := false
  probeDue : Bool := true
  lastProbeMs : UInt32 := 0
  failedReads : UInt8 := 0
  deriving DecidableEq

/-- What a call to `ready` takes from outside: its two `millis()` readings, and
what happens on the bus around the probe. -/
structure GateInput (ι : Type) where
  now : UInt32
  later : UInt32
  probe : ι

namespace MeterGate
variable {ρ ι : Type}

/-- Whether the node may read its meter, with the probe's result where one was due. -/
def ready (gate : MeterGate) (reader : Reader ρ ι) (i : GateInput ι) (r : ρ) :
    Bool × Option Bool × MeterGate × ρ :=
  if gate.isReady then (true, none, gate, r)
  else if gate.probeDue = false ∧ i.now - gate.lastProbeMs < gate.retryMs then (false, none, gate, r)
  else
    let gate := { gate with probeDue := false, lastProbeMs := i.later }
    match reader.probe i.probe r with
    | (false, r) => (false, some false, gate, r)
    | (true, r) => (true, some true, { gate with isReady := true, failedReads := 0 }, r)

/-- Records the result of a read, ignored while not ready. -/
def reportRead (gate : MeterGate) (success : Bool) : MeterGate :=
  if gate.isReady = false then gate
  else if success then { gate with failedReads := 0 }
  else
    let failedReads := gate.failedReads + 1
    if failedReads < gate.lostAfter then { gate with failedReads }
    else { gate with failedReads, isReady := false, probeDue := true }

end MeterGate
end IotFirmware
