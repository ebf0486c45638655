import IotFirmware.Foundation.Clock
import IotFirmware.Buffering.ReadingBuffer
import IotFirmware.Links.LoRaLink

/-! Substation node: relays meter readings from ESP-NOW to LoRa. Every function
returns the new state with what it did, in the order it did it. -/
namespace IotFirmware
open Clock

abbrev retryBackoffMs : Nat := 30000
abbrev beaconIntervalMs : Nat := 1000

def espNowBroadcastMac : Mac := Vector.replicate 6 0xFF

structure JoinedNode where
  mac : Mac
  uid : Uid
  lastSeq : UInt32
  hasSeq : Bool
  deriving DecidableEq, Repr

/-- The node's static state. `joined` holds the first `joinedCount` entries. -/
structure Substation where
  buffer : ReadingBuffer
  loraLink : LoRaLink
  joined : List JoinedNode
  epoch : UInt32
  nextBeaconAt : UInt32
  nextSendAt : UInt32
  inFlight : Payload
  ready : Bool
  deriving DecidableEq, Repr

inductive Effect where
  | sent (mac : Mac) (data : List UInt8)
  | pushed (p : Payload) (ok : Bool)
  | radio (e : RadioEvent)
  | polled (status : LoRaSendStatus)
  | popped
  | relaying (p : Payload)
  deriving DecidableEq, Repr

/-- Which setup steps succeed, and the random number the epoch is drawn from. -/
structure SetupResults where
  nvs : Bool
  radio : Bool
  link : Bool
  uplink : Bool
  broadcastPeer : Bool
  random : UInt32
  deriving DecidableEq, Repr

namespace Substation

def reset (link : LoRaLinkConfig) : Substation where
  buffer := .boot
  loraLink := .new link
  joined := []
  epoch := 0
  nextBeaconAt := 0
  nextSendAt := 0
  inFlight := Payload.ofBytes []
  ready := false

/-- A reboot: fresh static state, ready only when every setup step succeeds. -/
def substationSetup (link : LoRaLinkConfig) (r : SetupResults) : Substation :=
  if r.nvs && r.radio && r.link && r.uplink && r.broadcastPeer then
    { reset link with epoch := r.random, ready := true }
  else reset link

def findJoined (s : Substation) (mac : Mac) : Option Nat := s.joined.findIdx? fun node => decide (node.mac = mac)

def joinedAt (s : Substation) (index : Nat) : JoinedNode :=
  s.joined.getD index ⟨Vector.replicate 6 0, Vector.replicate uidLen 0, 0, false⟩

/-- Broadcasts a discovery beacon once its interval has passed since the last.
`now` and `later` are the two `millis()` readings. -/
def beaconIfDue (s : Substation) (now later : UInt32) : Substation × List Effect :=
  if signed (now - s.nextBeaconAt) < 0 then (s, [])
  else ({ s with nextBeaconAt := later + UInt32.ofNat beaconIntervalMs },
    [.sent espNowBroadcastMac (linkFrameMake .beacon s.epoch none).toBytes])

/-- The last part of `handleJoin`: register the peer and answer the node. -/
def answerJoin (s : Substation) (mac : Mac) (uid : Uid) (peerOk : Bool) : Substation × List Effect :=
  if peerOk then (s, [.sent mac (linkFrameMake .joinAck s.epoch (some uid)).toBytes]) else (s, [])

/-- A table entry once its node has joined again. Another device on the same
MAC forgets the last seq, the same node keeps it. -/
def rejoin (node : JoinedNode) (uid : Uid) : JoinedNode :=
  { node with hasSeq := if node.uid = uid then node.hasSeq else false, uid := uid }

/-- Adds a node to the joined table, or refreshes it if it rejoined, then sends
a JoinAck. Joins of another epoch and new nodes past a full table are ignored. -/
def handleJoin (s : Substation) (mac : Mac) (frame : LinkFrame) (peerOk : Bool) : Substation × List Effect :=
  if frame.epoch ≠ s.epoch then (s, [])
  else match s.findJoined mac with
    | none =>
      if s.joined.length = readingBufferMaxNodes then (s, [])
      else answerJoin { s with joined := s.joined ++ [⟨mac, frame.uid, 0, false⟩] } mac frame.uid peerOk
    | some index =>
      answerJoin { s with joined := s.joined.modify index (rejoin · frame.uid) } mac frame.uid peerOk

def sendDeliveryAck (mac : Mac) (p : Payload) : Effect := .sent mac (AckPayload.mk p.uid p.seq).toBytes

def keepSeq (node : JoinedNode) (seq : UInt32) : JoinedNode :=
  { node with lastSeq := seq, hasSeq := true }

/-- A `Payload` from a joined node: buffer and ACK it, or only ACK a resend. -/
def handleReading (s : Substation) (mac : Mac) (index : Nat) (incoming : Payload) : Substation × List Effect :=
  if (s.joinedAt index).hasSeq = true ∧ (s.joinedAt index).lastSeq = incoming.seq then
    (s, [sendDeliveryAck mac incoming])
  else match readingBufferPush s.buffer incoming with
    | (false, buffer) => ({ s with buffer := buffer }, [.pushed incoming false])
    | (true, buffer) =>
      ({ s with buffer := buffer, joined := s.joined.modify index (keepSeq · incoming.seq) },
        [.pushed incoming true, sendDeliveryAck mac incoming])

/-- One pass of `handleIncoming`'s loop, over one frame taken from the queue. -/
def handleFrame (s : Substation) (mac : Mac) (buf : List UInt8) (peerOk : Bool) : Substation × List Effect :=
  match linkFrameParse buf with
  | some frame =>
    if frame.type = LinkFrameType.join.toByte then handleJoin s mac frame peerOk else (s, [])
  | none =>
    if buf.length ≠ payloadSize then (s, [])
    else match s.findJoined mac with
      | none => (s, [])
      | some index => handleReading s mac index (Payload.ofBytes buf)

/-- Handles every frame waiting in the ESP-NOW queue. Each comes with whether
`addPeer` would accept its sender. -/
def handleIncoming (s : Substation) : List (Mac × List UInt8 × Bool) → Substation × List Effect
  | [] => (s, [])
  | (mac, buf, peerOk) :: rest =>
    let (s, effects) := handleFrame s mac buf peerOk
    let (s, more) := handleIncoming s rest
    (s, effects ++ more)

/-- Moves the LoRa relay one step on. `now` is the `millis()` reading of the
branch taken, `beginAt` the one in `beginSend`. -/
def relayStep (s : Substation) (poll : RadioPoll) (now beginAt : UInt32) : Substation × List Effect :=
  let (status, link, events) := s.loraLink.pollSend poll
  let s := { s with loraLink := link }
  let effects := events.map Effect.radio ++ [.polled status]
  match status with
  | .pending => (s, effects)
  | .acked => ({ s with buffer := readingBufferPop s.buffer }, effects ++ [.popped])
  | .failed => ({ s with nextSendAt := now + UInt32.ofNat retryBackoffMs }, effects)
  | .idle =>
    if signed (now - s.nextSendAt) < 0 then (s, effects)
    else match readingBufferPeek s.buffer s.inFlight with
      | (false, out, buffer) => ({ s with inFlight := out, buffer := buffer }, effects)
      | (true, out, buffer) =>
        ({ s with
          inFlight := out
          buffer := buffer
          loraLink := (s.loraLink.beginSend out.toBytes beginAt).2 }, effects ++ [.relaying out])

structure LoopInput where
  beaconNow : UInt32
  beaconLater : UInt32
  frames : List (Mac × List UInt8 × Bool)
  poll : RadioPoll
  relayNow : UInt32
  beginAt : UInt32

def substationLoop (s : Substation) (i : LoopInput) : Substation × List Effect :=
  if s.ready = false then (s, [])
  else
    let (s, beacon) := beaconIfDue s i.beaconNow i.beaconLater
    let (s, incoming) := handleIncoming s i.frames
    let (s, relay) := relayStep s i.poll i.relayNow i.beginAt
    (s, beacon ++ incoming ++ relay)

end Substation
end IotFirmware
