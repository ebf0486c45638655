import IotFirmware.Bringup.MeterGate
import IotFirmware.Protocols.Iec6205621

/-! The three meter nodes: each loop pass with what it reads of its meter and
the payload it sends. -/
namespace IotFirmware

def rs485PollIntervalMs : UInt32 := 60 * 1000

/-- What a node asks of its meter and tells its substation, in order; a failed
read is `none`. -/
inductive NodeEvent where
  | probed (ok : Bool)
  | imported (reading : Option UInt32)
  | exported (reading : Option UInt32)
  | voltage (reading : Option UInt32)
  | sent (p : Payload)
  deriving DecidableEq, Repr

def NodeEvent.sent? : NodeEvent → Option Payload
  | .sent p => some p
  | .probed _ | .imported _ | .exported _ | .voltage _ => none

inductive States where
  | read
  | sleep
  | send
  | request
  deriving DecidableEq, Repr

/-- A node's static state past setup, whichever node it is: `state` is the RS485
node's own. -/
structure EndNode (ρ : Type) where
  gate : MeterGate
  reader : ρ
  payload : Payload
  lastPoll : UInt32 := 0
  state : States := .read

/-- What one loop pass takes from outside: what `ready` does, the node's own
`millis()` readings, what happens on the bus around each getter, and the next
sequence number. Whether the send succeeds is only logged. -/
structure NodeInput (ι : Type) where
  gate : GateInput ι
  now : UInt32
  later : UInt32
  importIo : ι
  exportIo : ι
  voltageIo : ι
  seq : UInt32

namespace EndNode
variable {ρ ι : Type}

def setup (r : ρ) (uid : Uid) (communityId unitId nodeType : UInt8) : EndNode ρ where
  gate := {}
  reader := r
  payload := bringUpPayload uid communityId unitId nodeType

/-- `gate->ready()`, at the top of every loop. -/
def checkReady (n : EndNode ρ) (reader : Reader ρ ι) (i : GateInput ι) : Bool × EndNode ρ × List NodeEvent :=
  match n.gate.ready reader i n.reader with
  | (ready, probed, gate, r) => (ready, { n with gate, reader := r }, (probed.map NodeEvent.probed).toList)

def report (n : EndNode ρ) (success : Bool) : EndNode ρ := { n with gate := n.gate.reportRead success }

/-- The sequence number is drawn and the payload sent. -/
def send (n : EndNode ρ) (seq : UInt32) : EndNode ρ × List NodeEvent :=
  ({ n with payload := { n.payload with seq } }, [.sent { n.payload with seq }])

end EndNode

section Loops
variable {ρ ι : Type} (reader : Reader ρ ι)

/-- The READ step: the getters write the payload's own fields, and the first
failure ends the pass. -/
def rs485Read (n : EndNode ρ) (i : NodeInput ι) : EndNode ρ × List NodeEvent :=
  match reader.getImport i.importIo n.reader n.payload.kwhImport with
  | (false, val, r) =>
    (({ n with reader := r, payload := { n.payload with kwhImport := val } }).report false, [.imported none])
  | (true, kwhImport, r) =>
    let n := { n with reader := r, payload := { n.payload with kwhImport } }
    match reader.getExport i.exportIo n.reader n.payload.kwhExport with
    | (false, val, r) =>
      (({ n with reader := r, payload := { n.payload with kwhExport := val } }).report false,
        [.imported (some kwhImport), .exported none])
    | (true, kwhExport, r) =>
      let n := { n with reader := r, payload := { n.payload with kwhExport } }
      match reader.getVoltage i.voltageIo n.reader n.payload.voltage with
      | (false, val, r) =>
        (({ n with reader := r, payload := { n.payload with voltage := val } }).report false,
          [.imported (some kwhImport), .exported (some kwhExport), .voltage none])
      | (true, voltage, r) =>
        ({ ({ n with reader := r, payload := { n.payload with voltage } }).report true with state := .send },
          [.imported (some kwhImport), .exported (some kwhExport), .voltage (some voltage)])

def rs485NodeLoop (n : EndNode ρ) (i : NodeInput ι) : EndNode ρ × List NodeEvent :=
  match n.checkReady reader i.gate with
  | (false, n, probes) => (n, probes)
  | (true, n, probes) =>
    match n.state with
    | .read =>
      let (n, events) := rs485Read reader n i
      (n, probes ++ events)
    | .send =>
      let (n, events) := n.send i.seq
      ({ n with lastPoll := i.now, state := .sleep }, probes ++ events)
    | .sleep => (if rs485PollIntervalMs ≤ i.now - n.lastPoll then { n with state := .read } else n, probes)
    | .request => (n, probes)

/-- The timed part of the IR and CV loops: a node not ready reads straight away
once it is, a ready one once its interval has passed. -/
def pollDue (n : EndNode ρ) (i : NodeInput ι) (pollIntervalMs : UInt32) :
    Bool × EndNode ρ × List NodeEvent :=
  match n.checkReady reader i.gate with
  | (false, n, probes) => (false, { n with lastPoll := i.now - pollIntervalMs }, probes)
  | (true, n, probes) =>
    if i.now - n.lastPoll < pollIntervalMs then (false, n, probes)
    else (true, { n with lastPoll := i.later }, probes)

def irPoll (n : EndNode ρ) (i : NodeInput ι) : EndNode ρ × List NodeEvent :=
  match reader.getImport i.importIo n.reader 0 with
  | (false, _, r) => (({ n with reader := r }).report false, [.imported none])
  | (true, importVal, r) =>
    let n := ({ n with reader := r }).report true
    let n := { n with payload := { n.payload with kwhImport := importVal } }
    -- best effort: a failed export read leaves the payload's own value
    match reader.getExport i.exportIo n.reader 0 with
    | (false, _, r) =>
      let (n, events) := ({ n with reader := r }).send i.seq
      (n, [.imported (some importVal), .exported none] ++ events)
    | (true, exportVal, r) =>
      let (n, events) := ({ n with reader := r, payload := { n.payload with kwhExport := exportVal } }).send i.seq
      (n, [.imported (some importVal), .exported (some exportVal)] ++ events)

def irNodeLoop (pollIntervalMs : UInt32) (n : EndNode ρ) (i : NodeInput ι) : EndNode ρ × List NodeEvent :=
  match pollDue reader n i pollIntervalMs with
  | (false, n, probes) => (n, probes)
  | (true, n, probes) =>
    let (n, events) := irPoll reader n i
    (n, probes ++ events)

/-- The CV node's reading and sending, once a poll is due. Without an export flow
no export is read, and the payload keeps its own. -/
def cvPoll (exportFlowName : List UInt8) (n : EndNode ρ) (i : NodeInput ι) : EndNode ρ × List NodeEvent :=
  match reader.getImport i.importIo n.reader 0 with
  | (false, _, r) => (({ n with reader := r }).report false, [.imported none])
  | (true, importVal, r) =>
    let n := { n with reader := r }
    if exportFlowName ≠ [] then
      match reader.getExport i.exportIo n.reader n.payload.kwhExport with
      | (false, _, r) => (({ n with reader := r }).report false, [.imported (some importVal), .exported none])
      | (true, exportVal, r) =>
        let n := ({ n with reader := r }).report true
        let (n, events) :=
          ({ n with payload := { n.payload with kwhImport := importVal, kwhExport := exportVal } }).send i.seq
        (n, [.imported (some importVal), .exported (some exportVal)] ++ events)
    else
      let n := n.report true
      let (n, events) := ({ n with payload := { n.payload with kwhImport := importVal } }).send i.seq
      (n, [.imported (some importVal)] ++ events)

def cvNodeLoop (exportFlowName : List UInt8) (pollIntervalMs : UInt32) (n : EndNode ρ) (i : NodeInput ι) :
    EndNode ρ × List NodeEvent :=
  match pollDue reader n i pollIntervalMs with
  | (false, n, probes) => (n, probes)
  | (true, n, probes) =>
    let (n, events) := cvPoll reader exportFlowName n i
    (n, probes ++ events)

end Loops

end IotFirmware
