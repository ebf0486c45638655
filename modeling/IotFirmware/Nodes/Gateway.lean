import IotFirmware.Foundation.BoundedQueue
import IotFirmware.Links.LoRaLink

/-! Gateway node: a task receives readings over LoRa and queues them, the loop
publishes them to MQTT. Each task is a program counter over the queue they share,
and one step runs up to its next queue operation, ACK or publish. -/
namespace IotFirmware

/-- A received reading and its signal quality; the SNR as its bit pattern. -/
structure GatewayReading where
  payload : Payload
  rssi : Int
  snr : UInt32
  deriving DecidableEq, Repr

abbrev readingsDepth : Nat := 32

/-- Where `loraRxTask` is: before the space check, before `receivePacket`, or
about to enqueue. -/
inductive LoraRxTask where
  | spaceCheck
  | receive
  | enqueue (r : GatewayReading)
  deriving DecidableEq, Repr

/-- Where `gatewayLoop` is: before the peek, holding a peeked reading, or about
to dequeue. -/
inductive PublishLoop where
  | peek
  | peeked (r : GatewayReading)
  | dequeue (r : GatewayReading)
  deriving DecidableEq, Repr

structure Gateway where
  mqttEnabled : Bool
  readings : BoundedQueue GatewayReading readingsDepth
  rxTask : LoraRxTask
  loop : PublishLoop
  deriving DecidableEq, Repr

inductive GatewayEvent where
  | acked (r : GatewayReading) (ack : AckPayload) (ok : Bool)
  | enqueued (r : GatewayReading) (ok : Bool)
  | published (r : GatewayReading) (ok : Bool)
  | dequeued (r : Option GatewayReading)
  deriving DecidableEq, Repr

inductive GatewayAction where
  | rx (radio : LoRaLink.RadioReceive) (rssi : Int) (snr : UInt32)
  | loop (connected publishOk : Bool)

namespace Gateway

def gatewaySetup (mqttEnabled : Bool) : Gateway := ⟨mqttEnabled, .empty, .spaceCheck, .peek⟩

/-- Receives and ACKs LoRa readings and queues them. Stops receiving while the
queue is full. -/
def loraRxTask (g : Gateway) (radio : LoRaLink.RadioReceive) (rssi : Int) (snr : UInt32) :
    Gateway × List GatewayEvent :=
  match g.rxTask with
  | .spaceCheck => if g.readings.spaces = 0 then (g, []) else ({ g with rxTask := .receive }, [])
  | .receive =>
    match LoRaLink.receivePacket payloadSize radio with
    | (len, some buf, events) =>
      if len ≠ payloadSize then ({ g with rxTask := .spaceCheck }, [])
      else
        let r : GatewayReading := ⟨Payload.ofBytes buf, rssi, snr⟩
        ({ g with rxTask := .enqueue r }, events.filterMap fun
          | .transmitted data ok => some (.acked r (AckPayload.ofBytes data) ok)
          | .ackRead _ => none)
    | (_, none, _) => ({ g with rxTask := .spaceCheck }, [])
  | .enqueue r =>
    let (ok, readings) := g.readings.send r
    ({ g with readings := readings, rxTask := .spaceCheck }, [.enqueued r ok])

/-- Publishes the oldest reading and dequeues it once that succeeded. Without
MQTT it is only dequeued. -/
def gatewayLoop (g : Gateway) (connected publishOk : Bool) : Gateway × List GatewayEvent :=
  match g.loop with
  | .peek =>
    match g.readings.peek with
    | none => (g, [])
    | some r => ({ g with loop := .peeked r }, [])
  | .peeked r =>
    if g.mqttEnabled = false then ({ g with loop := .dequeue r }, [])
    else if connected = false then ({ g with loop := .peek }, [])
    else if publishOk then ({ g with loop := .dequeue r }, [.published r true])
    else ({ g with loop := .peek }, [.published r false])
  | .dequeue _ =>
    let (r, readings) := g.readings.receive
    ({ g with readings := readings, loop := .peek }, [.dequeued r])

def step (g : Gateway) : GatewayAction → Gateway × List GatewayEvent
  | .rx radio rssi snr => g.loraRxTask radio rssi snr
  | .loop connected publishOk => g.gatewayLoop connected publishOk

def next (g : Gateway) (a : GatewayAction) : Gateway := (g.step a).1

end Gateway
end IotFirmware
