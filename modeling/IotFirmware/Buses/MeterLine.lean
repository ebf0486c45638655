import IotFirmware.Protocols.ModbusRtu

/-! The buses a Modbus meter is polled over, with a meter at the far end that
answers every request in order, each answer as late as it likes. -/
namespace IotFirmware

/-- One answer of the meter: the register it was asked for, and the word it sends. -/
structure Reply where
  address : UInt16
  raw : UInt32
  deriving DecidableEq

structure LineByte where
  byte : UInt8
  reply : Reply
  place : Nat

def taggedFrame (frame : List UInt8) (reply : Reply) : List LineByte :=
  frame.zipIdx.map fun b => ⟨b.1, reply, b.2⟩

def requestedRegister (request : List UInt8) : UInt16 :=
  (request.getD 2 0).toUInt16 <<< 8 ||| (request.getD 3 0).toUInt16

def responseTo (request : List UInt8) (raw : UInt32) : List UInt8 :=
  withCrc [request.getD 0 0, request.getD 1 0, 4, (raw >>> 24).toUInt8, (raw >>> 16).toUInt8, (raw >>> 8).toUInt8,
    raw.toUInt8]

/-- What the meter has answered so far: received and not yet read, and still to come. -/
structure MeterLine where
  rx : List LineByte := []
  coming : List LineByte := []
  answered : List Reply := []

inductive Socket where
  | up
  | reconnected
  | down
  deriving DecidableEq

/-- What happens around one operation: how many bytes arrive first, and, for a
request, the socket, whether it is written whole, and the word it is answered with. -/
structure LineEvent where
  arrived : Nat
  socket : Socket := .up
  written : Bool := true
  raw : UInt32 := 0

namespace MeterLine

def arrive (line : MeterLine) (n : Nat) : MeterLine :=
  { line with rx := line.rx ++ line.coming.take n, coming := line.coming.drop n }

def drainRX (line : MeterLine) : MeterLine := { line with rx := [] }

def ask (line : MeterLine) (request : List UInt8) (raw : UInt32) : MeterLine :=
  let reply : Reply := ⟨requestedRegister request, raw⟩
  { line with
    coming := line.coming ++ taggedFrame (responseTo request raw) reply
    answered := line.answered ++ [reply] }

/-- A dropped connection takes with it whatever was still to come over it. -/
def stop (line : MeterLine) : MeterLine := { line with rx := [], coming := [] }

def readByte (event : LineEvent) (line : MeterLine) : Option UInt8 × MeterLine :=
  let line := line.arrive event.arrived
  match line.rx with
  | [] => (none, line)
  | b :: rx => (some b.byte, { line with rx })

end MeterLine

/-- The bytes are handed to the driver; the meter only gets a request written whole. -/
def writeRequest (event : LineEvent) (line : MeterLine) (data : List UInt8) : Bool × MeterLine :=
  if event.written then (true, line.ask data event.raw) else (false, line)

def sp3485 : Module MeterLine LineEvent where
  send event line data := writeRequest event (line.arrive event.arrived).drainRX data
  readByte := MeterLine.readByte

/-- Modbus RTU bytes over a socket, which is reconnected if it dropped. -/
def tcpBus : Module MeterLine LineEvent where
  send event line data :=
    let line := (line.arrive event.arrived).drainRX
    match event.socket with
    | .up => writeRequest event line data
    | .reconnected => writeRequest event line.stop data
    | .down => (false, line.stop)
  readByte := MeterLine.readByte

inductive Transport where
  | sp3485
  | tcpBus
  deriving DecidableEq

def Transport.bus : Transport → Module MeterLine LineEvent
  | .sp3485 => IotFirmware.sp3485
  | .tcpBus => IotFirmware.tcpBus

end IotFirmware
