import IotFirmware.Protocols.Hdlc
import IotFirmware.Protocols.DlmsApdu

/-! The DLMS/COSEM reader over any bus: frames hunted for in the bytes that
arrive, numbered exchanges, and whole reading sessions. -/
namespace IotFirmware
open Checked

def dlmsTimeout : UInt32 := 1000
def dlmsLlcLen : Nat := 3
/-- LLC header in front of every APDU this client sends. -/
def llcSend : List UInt8 := [0xE6, 0xE6, 0x00]
def llcRecv : List UInt8 := [0xE6, 0xE7, 0x00]
def hdlcPf : UInt8 := 0x10
def hdlcSnrm : UInt8 := 0x93
def hdlcDisc : UInt8 := 0x53
def hdlcUa : UInt8 := 0x73
def hdlcDm : UInt8 := 0x1F

/-- One pass of the read loop: the clock, and the byte waiting on the bus, if any. -/
structure Poll where
  now : UInt32
  byte : Option UInt8

/-- What comes of handing a frame to the bus: whether it is sent, and the passes
of the read loop behind it, up to the one that finds the clock past the timeout. -/
structure Turn where
  sendOk : Bool
  startTime : UInt32
  polls : List Poll

/-- Any bus with any meter on it: what it does may depend on every frame handed to it so far. -/
abbrev Bus := List (List UInt8) → Turn

structure DlmsCosemConfig where
  clientSap : UInt8
  serverLogical : UInt16
  serverPhysical : UInt16
  serverAddrLen : UInt8
  importObis : Vector UInt8 6
  exportObis : Vector UInt8 6
  voltageObis : Vector UInt8 6

/-- A reader past `init`, with the frames it has handed to the bus. -/
structure DlmsCosemReader where
  config : DlmsCosemConfig
  client : HdlcAddress
  server : HdlcAddress
  vs : UInt8 := 0
  vr : UInt8 := 0
  sent : List (List UInt8) := []

def sameAddress (a b : HdlcAddress) : Bool := a.len == b.len && a.bytes == b.bytes

/-- The hunt for a frame: the bytes kept so far, and the length its header gives. -/
inductive Hunt where
  | reading (buf : List UInt8) (total : Nat)
  | complete (frame : List UInt8)

def readFrameByte (buf : List UInt8) (total : Nat) (b : UInt8) : Hunt :=
  if buf.length = 0 then
    if b = hdlcFlag then .reading [b] total else .reading [] total
  else if buf.length = 1 ∧ b = hdlcFlag then .reading buf total
  else if buf.length = 1 ∧ b &&& 0xF0 ≠ hdlcFormatTypeA &&& 0xF0 then .reading [] total
  else
    let buf := buf ++ [b]
    let length := (buf.getD 1 0 &&& 0x07).toNat <<< 8 ||| (buf.getD 2 0).toNat
    if buf.length = 3 ∧ (length < 7 ∨ hdlcFrameMax < length + 2) then .reading [] total
    else
      let total := if buf.length = 3 then length + 2 else total
      if buf.length = total then .complete buf else .reading buf total

/-- The read loop, which ends with the first complete frame or at the timeout. -/
def readFrameLoop (startTime : UInt32) : List Poll → (buf : List UInt8) → (total : Nat) → Checked (List UInt8)
  | [], _, _ => failure
  | poll :: polls, buf, total =>
    if poll.now - startTime < dlmsTimeout then
      match poll.byte with
      | none => readFrameLoop startTime polls buf total
      | some b =>
        match readFrameByte buf total b with
        | .reading buf total => readFrameLoop startTime polls buf total
        | .complete frame => .ok frame
    else failure

def readFrame (turn : Turn) : Checked (List UInt8) := readFrameLoop turn.startTime turn.polls [] 0

namespace DlmsCosemReader

def init (config : DlmsCosemConfig) : Option DlmsCosemReader := do
  let client ← hdlcAddress config.clientSap.toUInt16 0 1
  let server ← hdlcAddress config.serverLogical config.serverPhysical config.serverAddrLen
  some { config, client, server }

section Session
variable (bus : Bus)

def sendFrame (r : DlmsCosemReader) (control : UInt8) (info : List UInt8) : Bool × DlmsCosemReader :=
  match hdlcBuildFrame r.server r.client control info with
  | none => (false, r)
  | some frame => ((bus (r.sent ++ [frame])).sendOk, { r with sent := r.sent ++ [frame] })

/-- Reads one frame and checks it is from the server to this client. -/
def receive (r : DlmsCosemReader) : Checked HdlcFrame := do
  let frame ← hdlcParseFrame (← readFrame (bus r.sent))
  require (sameAddress frame.dest r.client = true)
  require (sameAddress frame.src r.server = true)
  pure frame

/-- Opens the link with SNRM; the counters are reset once the meter answers UA. -/
def connect (r : DlmsCosemReader) : Checked Unit × DlmsCosemReader :=
  match r.sendFrame bus hdlcSnrm [] with
  | (false, r) => (failure, r)
  | (true, r) =>
    match r.receive bus with
    | .error e => (.error e, r)
    | .ok frame =>
      if frame.control = hdlcDm then (failure, r)
      else if frame.control ≠ hdlcUa then (failure, r)
      else (.ok (), { r with vs := 0, vr := 0 })

def disconnect (r : DlmsCosemReader) : Checked Unit × DlmsCosemReader :=
  match r.sendFrame bus hdlcDisc [] with
  | (false, r) => (failure, r)
  | (true, r) =>
    match r.receive bus with
    | .error e => (.error e, r)
    | .ok frame => if frame.control ≠ hdlcUa ∧ frame.control ≠ hdlcDm then (failure, r) else (.ok (), r)

/-- The APDU of a reply that is a final I-frame in sequence, under a response LLC header. -/
def replyApdu (r : DlmsCosemReader) (frame : HdlcFrame) : Checked (List UInt8) := do
  require (frame.control &&& 1 = 0)
  require (frame.control &&& hdlcPf ≠ 0)
  let ns := (frame.control >>> 1) &&& 0x07
  let nr := frame.control >>> 5
  require (ns = r.vr ∧ nr = ((r.vs + 1) &&& 0x07))
  require (dlmsLlcLen ≤ frame.info.length ∧ frame.info.length ≤ hdlcInfoMax)
  require ((← slice frame.info 0 dlmsLlcLen) = llcRecv)
  slice frame.info dlmsLlcLen (← sub frame.info.length dlmsLlcLen)

def exchange (r : DlmsCosemReader) (apdu : List UInt8) : Checked (List UInt8) × DlmsCosemReader :=
  if dlmsApduMax < apdu.length then (failure, r)
  else
    let control := (r.vr <<< 5) ||| hdlcPf ||| (r.vs <<< 1)
    match r.sendFrame bus control (llcSend ++ apdu) with
    | (false, r) => (failure, r)
    | (true, r) =>
      match r.receive bus >>= r.replyApdu with
      | .error e => (.error e, r)
      | .ok resp => (.ok resp, { r with vs := (r.vs + 1) &&& 0x07, vr := (r.vr + 1) &&& 0x07 })

def associate (r : DlmsCosemReader) : Checked Unit × DlmsCosemReader :=
  match r.exchange bus buildAarq with
  | (.error e, r) => (.error e, r)
  | (.ok resp, r) => (checkAare resp, r)

def getAttribute (r : DlmsCosemReader) (obis : Vector UInt8 6) (attr : UInt8) :
    Checked (List UInt8) × DlmsCosemReader :=
  match r.exchange bus (buildGetRequest obis attr) with
  | (.error e, r) => (.error e, r)
  | (.ok resp, r) => (parseGetResponse resp, r)

def readAssociated (r : DlmsCosemReader) (obis : Vector UInt8 6) (unit : UInt8) :
    Checked Number × DlmsCosemReader :=
  match r.associate bus with
  | (.error e, r) => (.error e, r)
  | (.ok (), r) =>
    match r.getAttribute bus obis dlmsAttrScalerUnit with
    | (.error e, r) => (.error e, r)
    | (.ok data, r) =>
      match decodeScalerUnit data unit with
      | .error e => (.error e, r)
      | .ok scaler =>
        match r.getAttribute bus obis dlmsAttrValue with
        | (.error e, r) => (.error e, r)
        | (.ok data, r) => ((decodeNumber data).map fun raw => applyScaler raw scaler, r)

/-- Reads a Register in one whole session; DISC is sent whenever the link came up. -/
def readRegister (r : DlmsCosemReader) (obis : Vector UInt8 6) (unit : UInt8) :
    Checked Number × DlmsCosemReader :=
  match r.connect bus with
  | (.error e, r) => (.error e, r)
  | (.ok (), r) =>
    let (result, r) := r.readAssociated bus obis unit
    (result, (r.disconnect bus).2)

def probe (r : DlmsCosemReader) : Checked Unit × DlmsCosemReader :=
  match r.connect bus with
  | (.error e, r) => (.error e, r)
  | (.ok (), r) =>
    let (result, r) := r.associate bus
    (result, (r.disconnect bus).2)

/-- What a getter returns, and what it stores through the caller's pointer, if anything. -/
structure GetResult where
  status : Checked Unit
  written : Option Number

def getRegister (r : DlmsCosemReader) (obis : Vector UInt8 6) (unit : UInt8) (convert : Number → Number) :
    GetResult × DlmsCosemReader :=
  match r.readRegister bus obis unit with
  | (.error e, r) => (⟨.error e, none⟩, r)
  | (.ok val, r) => (⟨.ok (), some (convert val)⟩, r)

def getImport (r : DlmsCosemReader) : GetResult × DlmsCosemReader :=
  r.getRegister bus r.config.importObis dlmsUnitWh fun wh => wh.map (· / 1000)

def getExport (r : DlmsCosemReader) : GetResult × DlmsCosemReader :=
  r.getRegister bus r.config.exportObis dlmsUnitWh fun wh => wh.map (· / 1000)

def getVoltage (r : DlmsCosemReader) : GetResult × DlmsCosemReader :=
  r.getRegister bus r.config.voltageObis dlmsUnitV fun volts => volts

end Session

end DlmsCosemReader
end IotFirmware
