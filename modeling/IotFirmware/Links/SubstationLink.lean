import IotFirmware.Nodes.Substation

/-! A meter node's link to its substation. `join` and `send` block on the radio,
so they are a program counter that each radio result or timeout moves on. -/
namespace IotFirmware

abbrev joinAttempts : Nat := 3
/-- Tries a reading gets per `send`, with a rejoin between them. -/
abbrev sendAttempts : Nat := 2

/-- What a join is for: `join` itself, or the given attempt of a `send`. -/
inductive LinkJob where
  | join
  | send (p : Payload) (attempt : Nat)
  deriving DecidableEq, Repr

/-- Where the node's one thread is. -/
inductive LinkPoint where
  | idle
  | drainReceived (p : Payload)
  | waitForBeacon (job : LinkJob)
  | addPeer (job : LinkJob) (mac : Mac) (beaconEpoch : UInt32)
  | sendJoin (job : LinkJob) (mac : Mac) (beaconEpoch : UInt32) (attempt : Nat)
  | waitForJoinAck (job : LinkJob) (mac : Mac) (beaconEpoch : UInt32) (attempt : Nat)
  | sendPayload (p : Payload) (attempt : Nat)
  | waitForDeliveryAck (p : Payload) (attempt : Nat)
  deriving DecidableEq, Repr

structure SubstationLink where
  uid : Uid
  joined : Bool
  substationMac : Mac
  epoch : UInt32
  point : LinkPoint
  deriving DecidableEq, Repr

/-- What moves the node on: a call from the node's loop, what `receivePacket`
returns, a wait running out, or the result of `addPeer` or `sendPacket`. -/
inductive LinkInput where
  | callJoin
  | callSend (p : Payload)
  | heard (src : Mac) (data : List UInt8)
  | heardNothing
  | timeout
  | result (ok : Bool)
  deriving DecidableEq, Repr

inductive LinkEffect where
  | called (p : Payload)
  | sent (dst : Mac) (data : List UInt8)
  | returned (job : LinkJob) (ok : Bool)
  deriving DecidableEq, Repr

namespace SubstationLink

def new (uid : Uid) : SubstationLink := ⟨uid, false, Vector.replicate 6 0, 0, .idle⟩

def finish (s : SubstationLink) (job : LinkJob) (ok : Bool) : SubstationLink × List LinkEffect :=
  ({ s with point := .idle }, [.returned job ok])

def afterJoin (s : SubstationLink) : LinkJob → SubstationLink × List LinkEffect
  | .join => s.finish .join true
  | .send p attempt => ({ s with point := .sendPayload p attempt }, [])

/-- The start of `join`, which returns at once while joined. -/
def join (s : SubstationLink) (job : LinkJob) : SubstationLink × List LinkEffect :=
  if s.joined then s.afterJoin job else ({ s with point := .waitForBeacon job }, [])

/-- The Join of the next attempt, or the end of `join` after the last one. -/
def nextJoin (s : SubstationLink) (job : LinkJob) (mac : Mac) (beaconEpoch : UInt32) (attempt : Nat) :
    SubstationLink × List LinkEffect :=
  if attempt + 1 < joinAttempts then ({ s with point := .sendJoin job mac beaconEpoch (attempt + 1) }, [])
  else s.finish job false

def forget (s : SubstationLink) : SubstationLink := { s with joined := false }

/-- The next attempt of `send`, which forgets the substation first. -/
def nextSend (s : SubstationLink) (p : Payload) (attempt : Nat) : SubstationLink × List LinkEffect :=
  if attempt + 1 < sendAttempts then s.forget.join (.send p (attempt + 1))
  else s.forget.finish (.send p attempt) false

/-- Our substation's beacon of another epoch: it rebooted. -/
def rebootSeen (s : SubstationLink) (src : Mac) (data : List UInt8) : Bool :=
  s.joined && match linkFrameParse data with
    | none => false
    | some frame => frame.type = LinkFrameType.beacon.toByte && src = s.substationMac && frame.epoch ≠ s.epoch

def beaconEpoch? (data : List UInt8) : Option UInt32 :=
  match linkFrameParse data with
  | none => none
  | some frame => if frame.type = LinkFrameType.beacon.toByte then some frame.epoch else none

def isJoinAck (s : SubstationLink) (mac : Mac) (expectEpoch : UInt32) (src : Mac) (data : List UInt8) : Bool :=
  match linkFrameParse data with
  | none => false
  | some frame => frame.type = LinkFrameType.joinAck.toByte && src = mac && frame.epoch = expectEpoch &&
      frame.uid = s.uid

def isDeliveryAck (s : SubstationLink) (seq : UInt32) (src : Mac) (data : List UInt8) : Bool :=
  data.length = ackPayloadSize && src = s.substationMac &&
    (AckPayload.ofBytes data).uid = s.uid && (AckPayload.ofBytes data).seq = seq

/-- One step of the node's thread. Inputs that do not fit where it is change nothing. -/
def step (s : SubstationLink) (i : LinkInput) : SubstationLink × List LinkEffect :=
  match s.point, i with
  | .idle, .callJoin => s.join .join
  | .idle, .callSend p => ({ s with point := .drainReceived p }, [.called p])
  | .drainReceived _, .heard src data => (if s.rebootSeen src data then s.forget else s, [])
  | .drainReceived p, .heardNothing => s.join (.send p 0)
  | .waitForBeacon job, .heard src data =>
    match beaconEpoch? data with
    | some beaconEpoch => ({ s with point := .addPeer job src beaconEpoch }, [])
    | none => (s, [])
  | .waitForBeacon job, .timeout => s.finish job false
  | .addPeer job mac beaconEpoch, .result ok =>
    if ok then ({ s with point := .sendJoin job mac beaconEpoch 0 }, []) else s.finish job false
  | .sendJoin job mac beaconEpoch attempt, .result ok =>
    let request := LinkEffect.sent mac (linkFrameMake .join beaconEpoch (some s.uid)).toBytes
    if ok then ({ s with point := .waitForJoinAck job mac beaconEpoch attempt }, [request])
    else
      let (s, effects) := s.nextJoin job mac beaconEpoch attempt
      (s, request :: effects)
  | .waitForJoinAck job mac beaconEpoch _, .heard src data =>
    if s.isJoinAck mac beaconEpoch src data then
      { s with joined := true, substationMac := mac, epoch := beaconEpoch }.afterJoin job
    else (s, [])
  | .waitForJoinAck job mac beaconEpoch attempt, .timeout => s.nextJoin job mac beaconEpoch attempt
  | .sendPayload p attempt, .result ok =>
    let reading := LinkEffect.sent s.substationMac p.toBytes
    if ok then ({ s with point := .waitForDeliveryAck p attempt }, [reading])
    else
      let (s, effects) := s.nextSend p attempt
      (s, reading :: effects)
  | .waitForDeliveryAck p attempt, .heard src data =>
    if s.isDeliveryAck p.seq src data then s.finish (.send p attempt) true else (s, [])
  | .waitForDeliveryAck p attempt, .timeout => s.nextSend p attempt
  | _, _ => (s, [])

end SubstationLink
end IotFirmware
