import IotFirmware.Foundation.BoundedQueue
import IotFirmware.Foundation.Runs
import IotFirmware.Interfaces.SharedPayload

/-! The ESP-NOW link of a node, cut at every queue and semaphore operation: the
calls of the application and the radio's callbacks interleave at these cuts. -/
namespace IotFirmware

def espNowRxQueueDepth : Nat := 4
def espNowMaxDataLen : Nat := 250

structure RxFrame where
  mac : Mac
  data : List UInt8
  length_le : data.length ≤ espNowMaxDataLen
  deriving DecidableEq

/-- A queued frame and how many frames arrived before it, which the code does not look at. -/
structure Arrival where
  index : Nat
  frame : RxFrame
  deriving DecidableEq

structure TxFrame where
  dst : Mac
  buf : List UInt8
  deriving DecidableEq

inductive SendPoint where
  | idle
  | clearing (tx : TxFrame)
  | sending (tx : TxFrame)
  | waiting (frame : Nat)
  | checking (frame : Nat)
  deriving DecidableEq

/-- Where an `onReceived` callback is: in front of its first enqueue, behind one
that failed, behind the removal of the oldest frame. -/
inductive ReceivePoint where
  | idle
  | enqueuing (a : Arrival)
  | full (a : Arrival)
  | dropped (a : Arrival)
  deriving DecidableEq

/-- What happened so far. Frames handed to the radio are numbered in order. -/
inductive UplinkEvent where
  | handedOver (frame : Nat) (tx : TxFrame)
  | reported (frame : Nat) (ok : Bool)
  | sendReturned (frame : Option Nat) (ok : Bool)
  | received (a : Arrival)
  | callbackEnded (a : Arrival) (enqueued : Bool)
  | returned (a : Arrival)
  | refused (a : Arrival)
  deriving DecidableEq

/-- An initialised uplink. Behind the queue, the semaphore and the flag stand
the calls under way, the frames the radio has yet to report, and the history. -/
structure EspNowUplink where
  rxQueue : BoundedQueue Arrival espNowRxQueueDepth
  sendDone : Bool
  deliverySuccess : Bool
  sender : SendPoint
  /-- The frame of an `onSent` that has set the flag and not yet given the semaphore. -/
  onSent : Option Nat
  onReceived : ReceivePoint
  onAir : List Nat
  handed : Nat
  arrived : List RxFrame
  log : List UplinkEvent

inductive UplinkAction where
  | callSend (tx : TxFrame)
  | clear
  | handOver (accepted : Bool)
  | take
  | timeOut
  | check
  | sentBegins (ok : Bool)
  | sentGives
  | arrive (mac : Mac) (data : List UInt8)
  | enqueue
  | dropOldest
  | enqueueAgain
  | receivePacket (bufLen : Nat)

def UplinkAction.OfReceive : UplinkAction → Prop
  | .arrive _ _ | .enqueue | .dropOldest | .enqueueAgain | .receivePacket _ => True
  | _ => False

namespace EspNowUplink
variable (u : EspNowUplink)

/-- An uplink behind `init`; nothing has set the flag yet. -/
def start (deliverySuccess : Bool) : EspNowUplink :=
  ⟨.empty, false, deliverySuccess, .idle, none, .idle, [], 0, [], []⟩

def emit (e : UplinkEvent) : EspNowUplink := { u with log := u.log ++ [e] }

def sendReturns (frame : Option Nat) (ok : Bool) : EspNowUplink :=
  ({ u with sender := .idle }).emit (.sendReturned frame ok)

/-- `sendPacket`, up to the clearing of the semaphore. -/
def callSend (tx : TxFrame) : EspNowUplink :=
  if tx.buf.length = 0 ∨ espNowMaxDataLen < tx.buf.length then u.sendReturns none false
  else { u with sender := .clearing tx }

/-- Clears a give left over from an earlier send that timed out. -/
def clear (tx : TxFrame) : EspNowUplink := { u with sendDone := false, sender := .sending tx }

/-- `esp_now_send`. -/
def handOver (tx : TxFrame) (accepted : Bool) : EspNowUplink :=
  if accepted then
    ({ u with sender := .waiting u.handed, onAir := u.onAir ++ [u.handed], handed := u.handed + 1 }).emit
      (.handedOver u.handed tx)
  else u.sendReturns none false

/-- The wait for the semaphore ends with it taken. -/
def take (frame : Nat) : EspNowUplink := { u with sendDone := false, sender := .checking frame }

/-- The wait for the semaphore ends with the timeout. -/
def timeOut (frame : Nat) : EspNowUplink := u.sendReturns (some frame) false

def check (frame : Nat) : EspNowUplink := u.sendReturns (some frame) u.deliverySuccess

/-- `onSent` records the radio's report of the oldest frame on the air. -/
def sentBegins (frame : Nat) (rest : List Nat) (ok : Bool) : EspNowUplink :=
  ({ u with deliverySuccess := ok, onSent := some frame, onAir := rest }).emit (.reported frame ok)

/-- `onSent` gives the semaphore; a binary one stays given. -/
def sentGives : EspNowUplink := { u with sendDone := true, onSent := none }

/-- `onReceived`, up to the first enqueue. -/
def arrive (mac : Mac) (data : List UInt8) : EspNowUplink :=
  let frame : RxFrame := ⟨mac, data.take espNowMaxDataLen, List.length_take_le _ _⟩
  let a : Arrival := ⟨u.arrived.length, frame⟩
  ({ u with onReceived := .enqueuing a, arrived := u.arrived ++ [frame] }).emit (.received a)

def callbackEnds (a : Arrival) (enqueued : Bool) : EspNowUplink :=
  ({ u with onReceived := .idle }).emit (.callbackEnded a enqueued)

def enqueue (a : Arrival) : EspNowUplink :=
  let (sent, rxQueue) := u.rxQueue.send a
  if sent then ({ u with rxQueue := rxQueue }).callbackEnds a true
  else { u with rxQueue := rxQueue, onReceived := .full a }

def dropOldest (a : Arrival) : EspNowUplink := { u with rxQueue := u.rxQueue.receive.2, onReceived := .dropped a }

/-- The second enqueue, whose result nobody checks. -/
def enqueueAgain (a : Arrival) : EspNowUplink :=
  let (sent, rxQueue) := u.rxQueue.send a
  ({ u with rxQueue := rxQueue }).callbackEnds a sent

def receivePacket (bufLen : Nat) : Int × EspNowUplink :=
  match u.rxQueue.receive with
  | (none, _) => (-1, u)
  | (some a, rxQueue) =>
    if bufLen < a.frame.data.length then (-2, ({ u with rxQueue := rxQueue }).emit (.refused a))
    else (a.frame.data.length, ({ u with rxQueue := rxQueue }).emit (.returned a))

end EspNowUplink

/-- One step of the application or of the radio's callbacks. Each side takes its
own steps in order, and callbacks of a kind run one at a time. -/
inductive UplinkStep (u : EspNowUplink) : UplinkAction → EspNowUplink → Prop
  | callSend (tx : TxFrame) : u.sender = .idle → UplinkStep u (.callSend tx) (u.callSend tx)
  | clear {tx : TxFrame} : u.sender = .clearing tx → UplinkStep u .clear (u.clear tx)
  | handOver {tx : TxFrame} (accepted : Bool) : u.sender = .sending tx →
      UplinkStep u (.handOver accepted) (u.handOver tx accepted)
  | take {frame : Nat} : u.sender = .waiting frame → u.sendDone = true → UplinkStep u .take (u.take frame)
  | timeOut {frame : Nat} : u.sender = .waiting frame → u.sendDone = false →
      UplinkStep u .timeOut (u.timeOut frame)
  | check {frame : Nat} : u.sender = .checking frame → UplinkStep u .check (u.check frame)
  | sentBegins {frame : Nat} {rest : List Nat} (ok : Bool) : u.onSent = none → u.onAir = frame :: rest →
      UplinkStep u (.sentBegins ok) (u.sentBegins frame rest ok)
  | sentGives {frame : Nat} : u.onSent = some frame → UplinkStep u .sentGives u.sentGives
  | arrive (mac : Mac) (data : List UInt8) : u.onReceived = .idle →
      UplinkStep u (.arrive mac data) (u.arrive mac data)
  | enqueue {a : Arrival} : u.onReceived = .enqueuing a → UplinkStep u .enqueue (u.enqueue a)
  | dropOldest {a : Arrival} : u.onReceived = .full a → UplinkStep u .dropOldest (u.dropOldest a)
  | enqueueAgain {a : Arrival} : u.onReceived = .dropped a → UplinkStep u .enqueueAgain (u.enqueueAgain a)
  | receivePacket (bufLen : Nat) : UplinkStep u (.receivePacket bufLen) (u.receivePacket bufLen).2

end IotFirmware
