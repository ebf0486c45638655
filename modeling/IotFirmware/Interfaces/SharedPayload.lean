import IotFirmware.Foundation.Bytes

/-! Over the air packet formats shared by every node, plus UID helpers.
Receive paths tell frames apart by size, so the byte layouts are modelled. -/
namespace IotFirmware
open Bytes

abbrev uidLen : Nat := 16
abbrev Uid := Vector UInt8 uidLen
abbrev Mac := Vector UInt8 6

/-- One meter reading. The three floats are kept as their bit patterns: every
link and buffer copies them and none computes with them. -/
structure Payload where
  uid : Uid
  seq : UInt32
  kwhImport : UInt32
  kwhExport : UInt32
  voltage : UInt32
  communityId : UInt8
  unitId : UInt8
  nodeType : UInt8
  deriving DecidableEq, Repr

structure AckPayload where
  uid : Uid
  seq : UInt32
  deriving DecidableEq, Repr

structure LinkFrame where
  magic : Vector UInt8 2
  type : UInt8
  epoch : UInt32
  uid : Uid
  deriving DecidableEq, Repr

abbrev payloadSize : Nat := 35
abbrev ackPayloadSize : Nat := 20
abbrev linkFrameSize : Nat := 23

namespace Payload

def toBytes (p : Payload) : List UInt8 :=
  p.uid.toList ++ le32 p.seq ++ le32 p.kwhImport ++ le32 p.kwhExport ++ le32 p.voltage ++
    [p.communityId, p.unitId, p.nodeType]

def ofBytes (buf : List UInt8) : Payload where
  uid := arrayAt uidLen buf 0
  seq := word32At buf 16
  kwhImport := word32At buf 20
  kwhExport := word32At buf 24
  voltage := word32At buf 28
  communityId := byteAt buf 32
  unitId := byteAt buf 33
  nodeType := byteAt buf 34

@[simp] theorem toBytes_length (p : Payload) : p.toBytes.length = payloadSize := by
  simp [toBytes]

/-- A `Payload` survives the trip through its byte image. -/
@[simp] theorem ofBytes_toBytes (p : Payload) : ofBytes p.toBytes = p := by
  have huid := arrayAt_field [] p.uid (le32 p.seq ++ (le32 p.kwhImport ++ (le32 p.kwhExport ++
    (le32 p.voltage ++ [p.communityId, p.unitId, p.nodeType])))) 0 rfl
  have hseq := word32At_field p.uid.toList p.seq (le32 p.kwhImport ++ (le32 p.kwhExport ++
    (le32 p.voltage ++ [p.communityId, p.unitId, p.nodeType]))) 16 (by simp)
  have himport := word32At_field (p.uid.toList ++ le32 p.seq) p.kwhImport (le32 p.kwhExport ++
    (le32 p.voltage ++ [p.communityId, p.unitId, p.nodeType])) 20 (by simp)
  have hexport := word32At_field (p.uid.toList ++ le32 p.seq ++ le32 p.kwhImport) p.kwhExport
    (le32 p.voltage ++ [p.communityId, p.unitId, p.nodeType]) 24 (by simp)
  have hvoltage := word32At_field (p.uid.toList ++ le32 p.seq ++ le32 p.kwhImport ++ le32 p.kwhExport)
    p.voltage [p.communityId, p.unitId, p.nodeType] 28 (by simp)
  have hcommunity := byteAt_field (p.uid.toList ++ le32 p.seq ++ le32 p.kwhImport ++ le32 p.kwhExport ++
    le32 p.voltage) p.communityId [p.unitId, p.nodeType] 32 (by simp)
  have hunit := byteAt_field (p.uid.toList ++ le32 p.seq ++ le32 p.kwhImport ++ le32 p.kwhExport ++
    le32 p.voltage ++ [p.communityId]) p.unitId [p.nodeType] 33 (by simp)
  have hnode := byteAt_field (p.uid.toList ++ le32 p.seq ++ le32 p.kwhImport ++ le32 p.kwhExport ++
    le32 p.voltage ++ [p.communityId, p.unitId]) p.nodeType [] 34 (by simp)
  simp only [List.append_assoc, List.nil_append, List.cons_append] at *
  simp only [ofBytes, toBytes, List.append_assoc]
  rw [huid, hseq, himport, hexport, hvoltage, hcommunity, hunit, hnode]

/-- The bytes of a `Payload` survive the trip through the struct. -/
theorem toBytes_ofBytes {buf : List UInt8} (h : buf.length = payloadSize) : (ofBytes buf).toBytes = buf := by
  have hlen : buf.length = 35 := h
  have hends : [byteAt buf 32, byteAt buf 33, byteAt buf 34] = buf.drop 32 := by
    rw [drop_eq_byteAt_cons (by omega), drop_eq_byteAt_cons (by omega), drop_eq_byteAt_cons (by omega),
      List.drop_of_length_le (by omega)]
  simp only [toBytes, ofBytes, List.append_assoc]
  rw [hends, le32_word32At (by omega), le32_word32At (by omega), le32_word32At (by omega), le32_word32At (by omega)]
  have huid : (arrayAt uidLen buf 0).toList ++ buf.drop (0 + uidLen) = buf.drop 0 :=
    toList_arrayAt (by rw [hlen]; decide)
  simpa using huid

end Payload

namespace AckPayload

def toBytes (a : AckPayload) : List UInt8 := a.uid.toList ++ le32 a.seq

def ofBytes (buf : List UInt8) : AckPayload where
  uid := arrayAt uidLen buf 0
  seq := word32At buf 16

@[simp] theorem toBytes_length (a : AckPayload) : a.toBytes.length = ackPayloadSize := by
  simp [toBytes]

@[simp] theorem ofBytes_toBytes (a : AckPayload) : ofBytes a.toBytes = a := by
  have huid := arrayAt_field [] a.uid (le32 a.seq) 0 rfl
  have hseq := word32At_field a.uid.toList a.seq [] 16 (by simp)
  simp only [List.append_nil, List.nil_append] at huid hseq
  rw [ofBytes, toBytes, huid, hseq]

end AckPayload

inductive LinkFrameType where
  | beacon
  | join
  | joinAck
  deriving DecidableEq, Repr

def LinkFrameType.toByte : LinkFrameType → UInt8
  | .beacon => 1
  | .join => 2
  | .joinAck => 3

@[simp] theorem LinkFrameType.toByte_inj (a b : LinkFrameType) : a.toByte = b.toByte ↔ a = b := by
  cases a <;> cases b <;> decide

/-- Bytes every `LinkFrame` starts with, "KZ". -/
def linkFrameMagic : Vector UInt8 2 := #v[0x4B, 0x5A]

/-- Builds a `LinkFrame`; a missing UID is all zero. -/
def linkFrameMake (type : LinkFrameType) (epoch : UInt32) (uid : Option Uid) : LinkFrame where
  magic := linkFrameMagic
  type := type.toByte
  epoch := epoch
  uid := uid.getD (Vector.replicate uidLen 0)

@[simp] theorem linkFrameMake_type (type : LinkFrameType) (epoch : UInt32) (uid : Option Uid) :
    (linkFrameMake type epoch uid).type = type.toByte := rfl

@[simp] theorem linkFrameMake_epoch (type : LinkFrameType) (epoch : UInt32) (uid : Option Uid) :
    (linkFrameMake type epoch uid).epoch = epoch := rfl

@[simp] theorem linkFrameMake_uid (type : LinkFrameType) (epoch : UInt32) (uid : Uid) :
    (linkFrameMake type epoch (some uid)).uid = uid := rfl

namespace LinkFrame

def toBytes (f : LinkFrame) : List UInt8 :=
  f.magic.toList ++ f.type :: (le32 f.epoch ++ f.uid.toList)

def ofBytes (buf : List UInt8) : LinkFrame where
  magic := arrayAt 2 buf 0
  type := byteAt buf 2
  epoch := word32At buf 3
  uid := arrayAt uidLen buf 7

@[simp] theorem toBytes_length (f : LinkFrame) : f.toBytes.length = linkFrameSize := by
  simp [toBytes, uidLen]

@[simp] theorem ofBytes_toBytes (f : LinkFrame) : ofBytes f.toBytes = f := by
  have hmagic := arrayAt_field [] f.magic (f.type :: (le32 f.epoch ++ f.uid.toList)) 0 rfl
  have htype := byteAt_field f.magic.toList f.type (le32 f.epoch ++ f.uid.toList) 2 (by simp)
  have hepoch := word32At_field (f.magic.toList ++ [f.type]) f.epoch f.uid.toList 3 (by simp)
  have huid := arrayAt_field (f.magic.toList ++ f.type :: le32 f.epoch) f.uid [] 7 (by simp)
  simp only [List.append_assoc, List.nil_append, List.cons_append, List.append_nil] at *
  rw [ofBytes, toBytes, hmagic, htype, hepoch, huid]

end LinkFrame

/-- Checks received bytes are exactly one `LinkFrame` with the magic and a
known type, and copies them out. -/
def linkFrameParse (buf : List UInt8) : Option LinkFrame :=
  if buf.length ≠ linkFrameSize then none
  else
    let f := LinkFrame.ofBytes buf
    if f.magic ≠ linkFrameMagic then none
    else if f.type < LinkFrameType.beacon.toByte ∨ LinkFrameType.joinAck.toByte < f.type then none
    else some f

/-- Every frame `linkFrameMake` builds is parsed back unchanged. -/
@[simp] theorem linkFrameParse_make (type : LinkFrameType) (epoch : UInt32) (uid : Option Uid) :
    linkFrameParse (linkFrameMake type epoch uid).toBytes = some (linkFrameMake type epoch uid) := by
  have hrange : ¬ (type.toByte < LinkFrameType.beacon.toByte ∨
      LinkFrameType.joinAck.toByte < type.toByte) := by
    cases type <;> decide
  simp [linkFrameParse, linkFrameMake, hrange]

/-- No `Payload` or `AckPayload` image is taken for a `LinkFrame`. -/
@[simp] theorem linkFrameParse_payload (p : Payload) : linkFrameParse p.toBytes = none := by
  simp [linkFrameParse]

@[simp] theorem linkFrameParse_ack (a : AckPayload) : linkFrameParse a.toBytes = none := by
  simp [linkFrameParse]

end IotFirmware
