import IotFirmware.Config.Rs485Loader

/-! Bring up checks of the UART buses: pins probed under both pulls, a checked
start, and one byte through the UART's loopback; and the RS485 transceiver,
which is brought up by them. -/
namespace IotFirmware

inductive PinDrive where
  | drivenHigh
  | drivenLow
  | floating
  | unstable
  deriving DecidableEq, Repr

structure PinLevels where
  up : Bool
  down : Bool

def classifyPin (pin : PinLevels) : PinDrive :=
  if pin.up ∧ pin.down then .drivenHigh
  else if ¬pin.up ∧ ¬pin.down then .drivenLow
  else if pin.up ∧ ¬pin.down then .floating
  else .unstable

inductive UartPort where
  | uart0
  | uart1
  deriving DecidableEq, Repr

def loopbackByte : UInt8 := 0x55
def loopbackMinWaitMs : UInt32 := 50
def loopbackWaitChars : UInt32 := 20

/-- Bits of one character on the wire, as `charTimeUs` counts them. -/
def charBits (format : UInt32) : UInt32 :=
  let bits := (1 : UInt32) + (((format &&& 0b1100) >>> 2) + 5)
  let bits := if format &&& 0b10 ≠ 0 then bits + 1 else bits
  bits + if (format &&& 0b110000) >>> 4 = 0b01 then 1 else 2

/-- One character time in us, rounded up. A division by zero is undefined, and gives nothing here. -/
def charTimeUs (baud : UInt32) (format : SerialConfig) : Option UInt32 :=
  if baud = 0 then none else some ((charBits format * 1000000 + baud - 1) / baud)

def loopbackWaitMs (charUs : UInt32) : UInt32 :=
  let waitMs := (loopbackWaitChars * charUs + 999) / 1000
  if waitMs < loopbackMinWaitMs then loopbackMinWaitMs else waitMs

structure EchoPass where
  available : Bool
  now : UInt32

/-- What the UART does in loopback: the clock at the start and at every pass of
the wait, the bytes it holds behind the wait, and those that land in the time
given to a stray one. -/
structure LoopbackRun where
  start : UInt32
  passes : List EchoPass
  rx : List UInt8
  tail : List UInt8

inductive LoopbackResult where
  | unknownUart
  | noEcho
  | got (b : UInt8)
  | echoed
  deriving DecidableEq, Repr

/-- The wait for the echo: whether it came in time, once the wait is over. -/
def awaitEcho (start waitMs : UInt32) : List EchoPass → Option Bool
  | [] => none
  | pass :: passes =>
    if pass.available then some true
    else if pass.now - start < waitMs then awaitEcho start waitMs passes
    else some false

def uartLoopbackTest (port : Option UartPort) (baud : UInt32) (format : SerialConfig) (run : LoopbackRun) :
    Option LoopbackResult :=
  match port with
  | none => some .unknownUart
  | some _ => do
    let charUs ← charTimeUs baud format
    let _ ← awaitEcho run.start (loopbackWaitMs charUs) run.passes
    match run.rx with
    | [] => some .noEcho
    | first :: rest =>
      if first ≠ loopbackByte then some (.got first)
      else
        match (rest ++ run.tail).head? with
        | some extra => some (.got extra)
        | none => some .echoed

namespace Sp3485

/-- What the board answers while the transceiver is brought up: the RX pin with
DE/RE low and high, whether the pins are GPIOs, whether the UART driver runs,
and the loopback. -/
structure BringUp where
  receiving : PinLevels
  driving : PinLevels
  pinsValid : Bool
  started : Bool
  port : Option UartPort
  loopback : LoopbackRun

/-- RX is driven in receive mode only. -/
def probe (board : BringUp) : Bool :=
  (classifyPin board.receiving = .drivenHigh ∨ classifyPin board.receiving = .drivenLow) ∧
    classifyPin board.driving = .floating

def uartStartChecked (board : BringUp) : Bool := board.pinsValid && board.started

def init (config : Rs485Config) (board : BringUp) : Option Bool :=
  if !probe board then some false
  else if !uartStartChecked board then some false
  else (uartLoopbackTest board.port config.baudRate config.format board.loopback).map (· = .echoed)

end Sp3485

/-- A loopback that sees no byte gives up only on a pass that finds the wait over. -/
theorem awaitEcho_eq_false {start waitMs : UInt32} {passes : List EchoPass}
    (h : awaitEcho start waitMs passes = some false) :
    ∃ pass ∈ passes, pass.available = false ∧ waitMs ≤ pass.now - start := by
  induction passes with
  | nil => cases h
  | cons pass passes ih =>
    rw [awaitEcho] at h
    split at h
    · cases h
    · rename_i hnone
      split at h
      · obtain ⟨later, hmem, hlater⟩ := ih h
        exact ⟨later, List.mem_cons_of_mem _ hmem, hlater⟩
      · exact ⟨pass, List.mem_cons_self, by simpa using hnone, UInt32.not_lt.mp ‹_›⟩

end IotFirmware
