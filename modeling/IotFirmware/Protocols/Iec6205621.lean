import IotFirmware.Foundation.Strtof
import IotFirmware.Interfaces.Reader
import IotFirmware.Protocols.DlmsCosem

/-! The IEC 62056-21 mode C reader over an IR head: the opening handshake at 300
baud, the data block at the rate the meter offers, and both readings from it. -/
namespace IotFirmware

def idTimeoutMs : UInt32 := 2000
def dataTimeoutMs : UInt32 := 3000
/-- How long to wait for the ETX and BCC behind the data block, in ms. -/
def bccTimeoutMs : UInt32 := 500
def startBaud : UInt32 := 300
def stx : UInt8 := 0x02
def etx : UInt8 := 0x03

def requestMessage : List UInt8 := ascii "/?!\r\n"
def crlf : List UInt8 := [0x0D, 0x0A]
/-- The end of a data block, `!` CR LF. -/
def blockEnd : List UInt8 := [0x21, 0x0D, 0x0A]
def importCode : List UInt8 := ascii "1-0:1.8.0"
def exportCode : List UInt8 := ascii "1-0:2.8.0"

/-- One wait for bytes: the clock its deadline is set from, and the passes of its
loop, up to the one that finds the deadline passed. -/
structure Wait where
  startTime : UInt32
  polls : List Poll

/-- What comes of one session's waits. Bytes drained before the request, and
after a probe, are dropped. -/
structure IrSession where
  identification : Wait
  /-- The wait behind an echo of the request. -/
  behindEcho : Wait
  dataBlock : Wait
  tail : Wait

inductive HeadEvent where
  | sent (data : List UInt8)
  | setBaudRate (baud : UInt32)
  | read (bytes : List UInt8)
  deriving DecidableEq, Repr

structure Iec6205621Reader where
  currentBaud : UInt32 := 0
  cachedExport : UInt32 := 0
  exportValid : Bool := false
  deriving DecidableEq

namespace Iec6205621Reader

def init (r : Iec6205621Reader) : Iec6205621Reader := { r with currentBaud := startBaud }

def readUntilLoop (terminator : List UInt8) (deadline : UInt32) : List Poll → (result : List UInt8) → List UInt8
  | [], result => result
  | poll :: polls, result =>
    if poll.now < deadline then
      match poll.byte with
      | none => readUntilLoop terminator deadline polls result
      | some b =>
        if terminator <:+ result ++ [b] then result ++ [b]
        else readUntilLoop terminator deadline polls (result ++ [b])
    else result

def readUntil (terminator : List UInt8) (timeoutMs : UInt32) (wait : Wait) : List UInt8 :=
  readUntilLoop terminator (wait.startTime + timeoutMs) wait.polls []

def readBytesLoop (count : Nat) (deadline : UInt32) : List Poll → (out : List UInt8) → List UInt8
  | [], out => out
  | poll :: polls, out =>
    if out.length < count ∧ poll.now < deadline then
      readBytesLoop count deadline polls (out ++ poll.byte.toList)
    else out

def readBytes (count : Nat) (timeoutMs : UInt32) (wait : Wait) : List UInt8 :=
  readBytesLoop count (wait.startTime + timeoutMs) wait.polls []

/-- The check on the ETX and BCC that close a framed block, with what it reads of
the head. An unframed block passes with nothing to check. -/
def checkFrame (block : List UInt8) (wait : Wait) : Bool × List HeadEvent :=
  match (cString block).findIdx? (· = stx) with
  | none => (true, [])
  | some start =>
    match readBytes 2 bccTimeoutMs wait with
    | [first, last] =>
      (first = etx ∧ ((block.drop (start + 1)).foldl (· ^^^ ·) 0) ^^^ etx = last, [.read [first, last]])
    | tail => (false, [.read tail])

def baudRateFromId (code : UInt8) : Option UInt32 :=
  if code = 0x30 then some 300
  else if code = 0x31 then some 600
  else if code = 0x32 then some 1200
  else if code = 0x33 then some 2400
  else if code = 0x34 then some 4800
  else if code = 0x35 then some 9600
  else if code = 0x36 then some 19200
  else none

/-- The identification message, read a second time behind an echo of the request. -/
def readIdentification (s : IrSession) : List UInt8 × List HeadEvent :=
  let identification := readUntil crlf idTimeoutMs s.identification
  if identification = requestMessage then
    (readUntil crlf idTimeoutMs s.behindEcho, [.read identification, .read (readUntil crlf idTimeoutMs s.behindEcho)])
  else (identification, [.read identification])

def checkIdentification (identification : List UInt8) : Except Int UInt32 :=
  if identification.length = 0 then .error (-1)
  else if identification.length < 7 ∨ identification.getD 0 0 ≠ 0x2F then .error (-2)
  else match baudRateFromId (identification.getD 4 0) with
    | none => .error (-3)
    | some baud => .ok baud

def requestIdentification (r : Iec6205621Reader) (s : IrSession) :
    Except Int UInt32 × List UInt8 × Iec6205621Reader × List HeadEvent :=
  let retune : List HeadEvent := if r.currentBaud ≠ startBaud then [.setBaudRate startBaud] else []
  let (identification, reads) := readIdentification s
  (checkIdentification identification, identification, { r with currentBaud := startBaud },
    retune ++ [.sent requestMessage] ++ reads)

def ackMessage (baudId : UInt8) : List UInt8 := [0x06, 0x30, baudId, 0x30, 0x0D, 0x0A]

def handshake (r : Iec6205621Reader) (s : IrSession) : Except Int UInt32 × Iec6205621Reader × List HeadEvent :=
  match r.requestIdentification s with
  | (.error code, _, r, events) => (.error code, r, events)
  | (.ok baud, identification, r, events) =>
    (.ok baud, { r with currentBaud := baud },
      events ++ [.sent (ackMessage (identification.getD 4 0)), .setBaudRate baud])

/-- The text behind the first place where the code stands directly before an
opening bracket; `indexOf` is asked again behind every other place. -/
def findValue (code : List UInt8) : List UInt8 → Option (List UInt8)
  | [] => none
  | b :: rest =>
    if code <+: b :: rest ∧ (b :: rest)[code.length]? = some 0x28 then some ((b :: rest).drop (code.length + 1))
    else findValue code rest

def parseObisFloat (block code : List UInt8) : Option UInt32 := do
  let (value, behind) ← strtof (← findValue code (cString block))
  if behind.head? = some 0x2A ∨ behind.head? = some 0x29 then some value else none

def dataBlock (s : IrSession) : List UInt8 := readUntil blockEnd dataTimeoutMs s.dataBlock

def readBlock (s : IrSession) : Option (UInt32 × UInt32) × List HeadEvent :=
  let block := dataBlock s
  if block.length = 0 then (none, [.read block])
  else match checkFrame block s.tail with
    | (false, reads) => (none, .read block :: reads)
    | (true, reads) => (do
        let importKwh ← parseObisFloat block importCode
        let exportKwh ← parseObisFloat block exportCode
        some (importKwh, exportKwh), .read block :: reads)

/-- Runs a full session for the import reading, and caches the export reading. -/
def getImport (s : IrSession) (r : Iec6205621Reader) (val : UInt32) :
    Bool × UInt32 × Iec6205621Reader × List HeadEvent :=
  match ({ r with exportValid := false } : Iec6205621Reader).handshake s with
  | (.error _, r, events) => (false, val, r, events)
  | (.ok _, r, events) =>
    match readBlock s with
    | (none, reads) => (false, val, r, events ++ reads)
    | (some (importKwh, exportKwh), reads) =>
      (true, importKwh, { r with cachedExport := exportKwh, exportValid := true }, events ++ reads)

/-- The export reading cached by the last successful `getImport`. -/
def getExport (r : Iec6205621Reader) (val : UInt32) : Bool × UInt32 :=
  if r.exportValid = false then (false, val) else (true, r.cachedExport)

/-- Checks that a meter identifies itself, without the ACK. -/
def probe (s : IrSession) (r : Iec6205621Reader) : Bool × Iec6205621Reader × List HeadEvent :=
  match r.requestIdentification s with
  | (.error _, _, r, events) => (false, r, events)
  | (.ok _, _, r, events) => (true, r, events)

/-- The getters behind the interface, which has no place for what the head is told. -/
def importGetter : Getter Iec6205621Reader IrSession := fun s r val =>
  ((r.getImport s val).1, (r.getImport s val).2.1, (r.getImport s val).2.2.1)

def exportGetter : Getter Iec6205621Reader IrSession := fun _ r val => ((r.getExport val).1, (r.getExport val).2, r)

/-- The OBIS codes parsed include no voltage. -/
def voltageGetter : Getter Iec6205621Reader IrSession := fun _ r val => (false, val, r)

theorem importGetter_untouched : importGetter.Untouched := by
  intro s r val h
  simp only [importGetter, getImport] at h ⊢
  split
  · rfl
  · split
    · rfl
    · simp_all

theorem exportGetter_untouched : exportGetter.Untouched := by
  intro s r val h
  simp only [exportGetter, getExport] at h ⊢
  split
  · rfl
  · simp_all

theorem voltageGetter_untouched : voltageGetter.Untouched := fun _ _ _ _ => rfl

end Iec6205621Reader

def iecReader : Reader Iec6205621Reader IrSession where
  probe s r := ((r.probe s).1, (r.probe s).2.1)
  getImport := Iec6205621Reader.importGetter
  getExport := Iec6205621Reader.exportGetter
  getVoltage := Iec6205621Reader.voltageGetter
  import_untouched := Iec6205621Reader.importGetter_untouched
  export_untouched := Iec6205621Reader.exportGetter_untouched
  voltage_untouched := Iec6205621Reader.voltageGetter_untouched

end IotFirmware
