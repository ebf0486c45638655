import IotFirmware.Config.Nvs
import IotFirmware.Foundation.Calendar
import IotFirmware.Foundation.JsonBuilder
import IotFirmware.Interfaces.SharedPayload

/-! The JSON the gateway publishes on MQTT for each reading, and its ISO 8601
timestamp. -/
namespace IotFirmware
open Calendar NumberText

inductive NodeType where
  | rs485
  | cv
  | ir
  deriving DecidableEq, Repr

def NodeType.ofByte? (code : UInt8) : Option NodeType :=
  if code = 0 then some .rs485 else if code = 1 then some .cv else if code = 2 then some .ir else none

def NodeType.name : NodeType → List UInt8
  | .rs485 => ascii "rs485"
  | .cv => ascii "cv"
  | .ir => ascii "ir"

def nodeTypeName (code : UInt8) : Option (List UInt8) := (NodeType.ofByte? code).map NodeType.name

def uidToHex (uid : Uid) : List UInt8 :=
  uid.toList.flatMap fun b : UInt8 => [digitOf (b >>> 4).toNat, digitOf (b &&& 0x0F).toNat]

/-- A clock earlier than this means NTP has not synced yet. -/
def minValidEpoch : Int := 1700000000

abbrev timestampLen : ℕ := 32

/-- The seconds that the gateway's timezone `AEST-10` is ahead of UTC. -/
def utcOffset : ℕ := 36000

def unixEpoch : ℕ := 86400 * daysBefore 1970

def localTime (now : Int) : Moment := .ofNumber (now + utcOffset + unixEpoch).toNat

/-- A local time as `%Y-%m-%dT%H:%M:%S%z`. -/
def strftime (m : Moment) : List UInt8 :=
  decimalText m.date.year ++ 0x2D :: (padded 10 2 (m.date.month + 1) ++ 0x2D :: (padded 10 2 (m.date.day + 1) ++
    0x54 :: (padded 10 2 m.hour ++ 0x3A :: (padded 10 2 m.minute ++ 0x3A :: (padded 10 2 m.second ++ ascii "+1000")))))

/-- A time as ISO 8601 local time, once NTP has synced and where `outLen` bytes hold it. -/
def formatTimestamp (now : Int) (outLen : ℕ) : Option (List UInt8) :=
  if now < minValidEpoch then none
  else
    let text := strftime (localTime now)
    let len := if text.length < outLen then text.length else 0
    if len < 2 ∨ outLen < len + 2 then none
    -- strftime gives "+1000", ISO 8601 wants "+10:00", so insert the colon
    else some (text.take (len - 2) ++ 0x3A :: text.drop (len - 2))

def payloadMembers (p : Payload) (rssi : Int) (snr : UInt32) (now : Int) : List (List UInt8 × JsonScalar) := [
  (ascii "ts", (formatTimestamp now timestampLen).elim .null .string),
  (ascii "uid", .string (uidToHex p.uid)),
  (ascii "seq", .int p.seq.toNat),
  (ascii "kwh_import", .float p.kwhImport),
  (ascii "kwh_export", .float p.kwhExport),
  (ascii "voltage", .float p.voltage),
  (ascii "community_id", .int p.communityId.toNat),
  (ascii "unit_id", .int p.unitId.toNat),
  (ascii "node_type", (nodeTypeName p.nodeType).elim .null .string),
  (ascii "rssi", .int rssi),
  (ascii "snr", .float snr)]

section Build
variable (lib : JsonBuilder) (heap : lib.Heap)

def payloadDocument (p : Payload) (rssi : Int) (snr : UInt32) (now : Int) : lib.Doc :=
  lib.setAll (payloadMembers p rssi snr now) (lib.document heap)

def buildPayloadJson (p : Payload) (rssi : Int) (snr : UInt32) (now : Int) (outLen : ℕ) : List UInt8 :=
  lib.serializeJson (payloadDocument lib heap p rssi snr now) outLen

end Build

example : formatTimestamp 1791345780 26 = some (ascii "2026-10-07T14:03:00+10:00") := by decide +kernel

example : formatTimestamp 1791345780 25 = none := by decide +kernel

end IotFirmware
