import IotFirmware.Config.Nvs
import IotFirmware.Foundation.CStrings

/-! The serial commands `set`, `clear` and `reboot`: how the console puts a line
together from the bytes each poll finds, and what a line does to the config
namespace. -/
namespace IotFirmware

def nvsMaxKeyLen : Nat := 15

inductive CfgReply where
  | silent
  | restarting
  | cleared
  | usage
  | keyTooLong
  | malformed
  | saved
  | unknownCommand
  deriving DecidableEq, Repr

def CfgReply.text : CfgReply → Option String
  | .silent => none
  | .restarting => none
  | .cleared => some "[CFG] cleared, reboot to apply"
  | .usage => some "[CFG] usage: set <key> <value>"
  | .keyTooLong => some "[CFG] key too long (max 15 chars)"
  | .malformed => some "[CFG] malformed quoted value"
  | .saved => some "[CFG] saved, reboot to apply"
  | .unknownCommand => some "[CFG] unknown command"

/-- A quoted value is stored as a string, anything else as a number. -/
def configValue (rest : List UInt8) : Option NvsValue :=
  if rest.head? = some 0x22 then
    match strrchr 0x22 rest with
    | none => none
    | some 0 => none
    | some quote => some (.str ((rest.take quote).drop 1))
  else some (.uint (strtoul rest))

/-- The namespace behind a write, which NVS may refuse. -/
def Nvs.written (nvs : Nvs) (nvsOk : Bool) (changed : Nvs) : Nvs := if nvsOk then changed else nvs

/-- `set`, with what is behind it. What NVS says to the write is not looked at. -/
def setCommand (nvs : Nvs) (nvsOk : Bool) (arguments : List UInt8) : CfgReply × Nvs :=
  match strtok [0x20] arguments with
  | none => (.usage, nvs)
  | some (key, rest) =>
    match strtok [] rest with
    | none => (.usage, nvs)
    | some (rest, _) =>
      if nvsMaxKeyLen < key.length then (.keyTooLong, nvs)
      else
        match configValue rest with
        | none => (.malformed, nvs)
        | some value => (.saved, nvs.written nvsOk (nvs.put key value))

def processLine (nvs : Nvs) (nvsOk : Bool) (line : List UInt8) : CfgReply × Nvs :=
  match strtok [0x20] (cString line) with
  | none => (.silent, nvs)
  | some (cmd, rest) =>
    if cmd = ascii "reboot" then (.restarting, nvs)
    else if cmd = ascii "clear" then (.cleared, nvs.written nvsOk .blank)
    else if cmd = ascii "set" then setCommand nvs nvsOk rest
    else (.unknownCommand, nvs)

/-- A byte from the serial port, and whether NVS takes the write it may lead to. -/
structure SerialByte where
  byte : UInt8
  nvsOk : Bool
  deriving DecidableEq, Repr

def SerialByte.endsLine (b : SerialByte) : Prop := b.byte = 0x0A ∨ b.byte = 0x0D

instance (b : SerialByte) : Decidable b.endsLine := inferInstanceAs (Decidable (_ ∨ _))

structure HandledLine where
  reply : CfgReply
  before : Nvs
  after : Nvs

/-- The characters of `line[64]`, less the terminator. -/
def lineMax : Nat := 63

/-- The buffer that outlives a poll, the namespace, and the lines run so far. -/
structure Console where
  line : List UInt8
  fits : line.length ≤ lineMax
  nvs : Nvs
  handled : List HandledLine

namespace Console

def boot (nvs : Nvs) : Console where
  line := []
  fits := Nat.zero_le _
  nvs := nvs
  handled := []

/-- Runs the assembled line and empties the buffer, as a restart does too. -/
def submit (console : Console) (nvsOk : Bool) : Console :=
  let (reply, nvs) := processLine console.nvs nvsOk console.line
  { boot nvs with handled := console.handled ++ [⟨reply, console.nvs, nvs⟩] }

/-- One byte. Characters past the buffer are dropped rather than overflowing it. -/
def read (console : Console) (b : SerialByte) : Console :=
  if b.endsLine then
    if 0 < console.line.length then console.submit b.nvsOk else console
  else if hroom : console.line.length < lineMax then
    { console with
      line := console.line ++ [b.byte]
      fits := by simpa using hroom }
  else console

end Console

def nvsConfigPollSerial (console : Console) (available : List SerialByte) : Console :=
  available.foldl Console.read console

/-- One poll after the other from a restart on, each with the bytes it found. -/
def Console.polled (nvs : Nvs) (polls : List (List SerialByte)) : Console :=
  polls.foldl nvsConfigPollSerial (boot nvs)

end IotFirmware
