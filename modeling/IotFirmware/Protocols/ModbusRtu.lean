import IotFirmware.Foundation.BigEndian
import IotFirmware.Foundation.Checked
import IotFirmware.Foundation.SingleFloat
import IotFirmware.Protocols.DlmsApdu

/-! The Modbus RTU reader over any bus: requests, frames ended by silence, and
register pairs decoded as scaled integers or as floats. -/
namespace IotFirmware
open Checked

def requestLen : Nat := 8
def responseLen : Nat := 9
def minFrameLen : Nat := 4
def fcDiagnostics : UInt8 := 0x08
/-- Diagnostics sub-function that asks the meter to echo the request back. -/
def diagReturnQueryData : UInt16 := 0x0000
def probeEcho : UInt16 := 0xA55A
def probeFrameLen : Nat := 8
def exceptionLen : Nat := 5
def modbusTimeout : UInt32 := 500

/-- A bus: what comes of a frame handed to it, and of a byte asked of it. An
event is what happens on it first, apart from the node. -/
structure Module (σ ε : Type) where
  send : ε → σ → List UInt8 → Bool × σ
  readByte : ε → σ → Option UInt8 × σ

inductive RegisterFormat where
  | scaledInt
  | ieee754Float
  | unknown (code : UInt8)
  deriving DecidableEq

structure ModbusRtuConfig where
  registerFormat : RegisterFormat
  slaveAddress : UInt8
  functionCode : UInt8
  voltageAddress : UInt16
  importAddress : UInt16
  exportAddress : UInt16

structure ModbusRtuReader where
  config : ModbusRtuConfig
  t35 : UInt32
  lastRx : UInt32 := 0

structure Tick (ε : Type) where
  millis : UInt32
  event : ε
  micros : UInt32

/-- What happens around one request: at the write, and in the read loop behind it. -/
structure Exchange (ε : Type) where
  send : ε
  startTime : UInt32
  startMicros : UInt32
  ticks : List (Tick ε)

def modbusCrcBit (crc : UInt16) : UInt16 :=
  if crc &&& 1 ≠ 0 then (crc >>> 1) ^^^ 0xA001 else crc >>> 1

def modbusCrcByte (crc : UInt16) (b : UInt8) : UInt16 := modbusCrcBit^[8] (crc ^^^ b.toUInt16)

def modbusCrc (data : List UInt8) : UInt16 := data.foldl modbusCrcByte 0xFFFF

def withCrc (data : List UInt8) : List UInt8 :=
  data ++ [(modbusCrc data &&& 0x00FF).toUInt8, ((modbusCrc data &&& 0xFF00) >>> 8).toUInt8]

/-- The frame so far: the bytes that fit the buffer, how many came, and when the last did. -/
structure Capture where
  buffer : List UInt8
  index : Nat
  lastByte : UInt32

/-- Stores one more byte, past the buffer not at all. -/
def Capture.keep (capture : Capture) (max : Nat) (b : UInt8) : Checked (List UInt8) :=
  if capture.index < max then store max capture.buffer capture.index b else .ok capture.buffer

def decodeRegisters (format : RegisterFormat) (raw : UInt32) : Checked Number :=
  match format with
  | .ieee754Float => .ok (float32Value raw)
  | .scaledInt => .ok (.rational (nearestFloat (nearestFloat raw.toNat / 1000)))
  | .unknown _ => failure

namespace ModbusRtuReader

def buildRequest (config : ModbusRtuConfig) (address : UInt16) : List UInt8 :=
  withCrc [config.slaveAddress, config.functionCode, ((address &&& 0xFF00) >>> 8).toUInt8,
    (address &&& 0x00FF).toUInt8, 0x00, 0x02]

section Reading
variable {σ ε : Type} (bus : Module σ ε)

/-- The read loop: every byte is counted, and silence after a byte ends it. -/
def readFrameLoop (max : Nat) (t35 startTime : UInt32) : List (Tick ε) → Capture → σ → Checked Capture × σ
  | [], capture, s => (.ok capture, s)
  | tick :: ticks, capture, s =>
    if tick.millis - startTime < modbusTimeout then
      match bus.readByte tick.event s with
      | (some b, s) =>
        match capture.keep max b with
        | .ok buffer => readFrameLoop max t35 startTime ticks ⟨buffer, capture.index + 1, tick.micros⟩ s
        | .error e => (.error e, s)
      | (none, s) =>
        if 0 < capture.index ∧ t35 ≤ tick.micros - capture.lastByte then (.ok capture, s)
        else readFrameLoop max t35 startTime ticks capture s
    else (.ok capture, s)

def checkFrame (config : ModbusRtuConfig) (max : Nat) (capture : Capture) : Checked (List UInt8) := do
  require (minFrameLen ≤ capture.index)
  require (capture.index ≤ max)
  require ((← byteAt capture.buffer 0) = config.slaveAddress)
  let low ← byteAt capture.buffer (← sub capture.index 2)
  let high ← byteAt capture.buffer (← sub capture.index 1)
  require (modbusCrc (← slice capture.buffer 0 (← sub capture.index 2)) = low.toUInt16 ||| high.toUInt16 <<< 8)
  slice capture.buffer 0 capture.index

def readFrame (r : ModbusRtuReader) (max : Nat) (exchange : Exchange ε) (s : σ) :
    Checked (List UInt8) × ModbusRtuReader × σ :=
  match readFrameLoop bus max r.t35 exchange.startTime exchange.ticks ⟨[], 0, exchange.startMicros⟩ s with
  | (.ok capture, s) => (checkFrame r.config max capture, { r with lastRx := capture.lastByte }, s)
  | (.error e, s) => (.error e, r, s)

def checkResponse (config : ModbusRtuConfig) (frame : List UInt8) : Checked Unit := do
  require ((← byteAt frame 1) &&& 0x80 = 0)
  require (frame.length = responseLen)
  require ((← byteAt frame 1) = config.functionCode)
  require ((← byteAt frame 2) = 4)

def readResponse (r : ModbusRtuReader) (exchange : Exchange ε) (s : σ) :
    Checked (List UInt8) × ModbusRtuReader × σ :=
  match r.readFrame bus responseLen exchange s with
  | (frame, r, s) => (do
      let frame ← frame
      checkResponse r.config frame
      pure frame, r, s)

def rawValue (response : List UInt8) : Checked UInt32 := do
  let d3 ← byteAt response 3
  let d2 ← byteAt response 4
  let d1 ← byteAt response 5
  let d0 ← byteAt response 6
  pure (d3.toUInt32 <<< 24 ||| d2.toUInt32 <<< 16 ||| d1.toUInt32 <<< 8 ||| d0.toUInt32)

/-- Reads one value from a register pair; the silence waited for before the
request only delays it. On success the number is what is written to the caller. -/
def readRegister (r : ModbusRtuReader) (address : UInt16) (exchange : Exchange ε) (s : σ) :
    Checked Number × ModbusRtuReader × σ :=
  match bus.send exchange.send s (buildRequest r.config address) with
  | (false, s) => (failure, r, s)
  | (true, s) =>
    match r.readResponse bus exchange s with
    | (response, r, s) => (do decodeRegisters r.config.registerFormat (← rawValue (← response)), r, s)

def getImport (r : ModbusRtuReader) := r.readRegister bus r.config.importAddress

def getExport (r : ModbusRtuReader) := r.readRegister bus r.config.exportAddress

def getVoltage (r : ModbusRtuReader) := r.readRegister bus r.config.voltageAddress

def probeRequest (config : ModbusRtuConfig) : List UInt8 :=
  withCrc [config.slaveAddress, fcDiagnostics, (diagReturnQueryData >>> 8).toUInt8,
    (diagReturnQueryData &&& 0xFF).toUInt8, (probeEcho >>> 8).toUInt8, (probeEcho &&& 0xFF).toUInt8]

/-- An echo proves the meter is there, and so does its refusal. -/
def checkProbe (config : ModbusRtuConfig) (response : List UInt8) : Checked Unit := do
  if response.length = exceptionLen ∧ (← byteAt response 1) = fcDiagnostics ||| 0x80 then pure ()
  else require (response.length = probeFrameLen ∧ response = probeRequest config)

def probe (r : ModbusRtuReader) (exchange : Exchange ε) (s : σ) : Checked Unit × ModbusRtuReader × σ :=
  match bus.send exchange.send s (probeRequest r.config) with
  | (false, s) => (failure, r, s)
  | (true, s) =>
    match r.readFrame bus probeFrameLen exchange s with
    | (response, r, s) => (do checkProbe r.config (← response), r, s)

end Reading
end ModbusRtuReader
end IotFirmware
