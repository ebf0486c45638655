import IotFirmware.Foundation.Ring
import IotFirmware.Interfaces.SharedPayload

/-! The substation's store and forward buffer: fixed node slots, one per UID,
each with its own ring of readings. -/
namespace IotFirmware

abbrev readingBufferMaxNodes : Nat := 8
abbrev SlotIndex := Fin readingBufferMaxNodes
abbrev readingsPerNode : Nat := 288

instance readingsPerNode_neZero : NeZero readingsPerNode := ⟨by decide⟩

/-- One buffered reading, without the per node fields `NodeSlot` already holds. -/
structure Reading where
  seq : UInt32
  kwhImport : UInt32
  kwhExport : UInt32
  voltage : UInt32
  deriving DecidableEq, Repr

structure Identity where
  communityId : UInt8
  unitId : UInt8
  nodeType : UInt8
  deriving DecidableEq, Repr

def Payload.reading (p : Payload) : Reading := ⟨p.seq, p.kwhImport, p.kwhExport, p.voltage⟩
def Payload.identity (p : Payload) : Identity := ⟨p.communityId, p.unitId, p.nodeType⟩

structure NodeSlot where
  used : Bool
  uid : Uid
  identity : Identity
  ring : Ring Reading readingsPerNode
  deriving DecidableEq, Repr

/-- `memset(slot, 0, sizeof(NodeSlot))` -/
def NodeSlot.zero : NodeSlot where
  used := false
  uid := Vector.replicate uidLen 0
  identity := ⟨0, 0, 0⟩
  ring := ⟨Vector.replicate readingsPerNode ⟨0, 0, 0, 0⟩, 0, 0⟩

/-- The slot's oldest reading under its latest identity fields. -/
def NodeSlot.payload (slot : NodeSlot) : Payload where
  uid := slot.uid
  seq := slot.ring.oldest.seq
  kwhImport := slot.ring.oldest.kwhImport
  kwhExport := slot.ring.oldest.kwhExport
  voltage := slot.ring.oldest.voltage
  communityId := slot.identity.communityId
  unitId := slot.identity.unitId
  nodeType := slot.identity.nodeType

/-- The slot after a push: the latest identity fields, and the reading behind
the others, over the oldest one of a full ring. -/
def NodeSlot.store (slot : NodeSlot) (p : Payload) : NodeSlot :=
  { slot with identity := p.identity, ring := slot.ring.push p.reading }

@[simp] theorem NodeSlot.store_uid (slot : NodeSlot) (p : Payload) : (slot.store p).uid = slot.uid := rfl

/-- The buffer's static state; `peekedSlot` is -1 as `none`. -/
structure ReadingBuffer where
  slots : Vector NodeSlot readingBufferMaxNodes
  nextSlot : SlotIndex
  peekedSlot : Option (SlotIndex)
  deriving DecidableEq, Repr

namespace ReadingBuffer

def boot : ReadingBuffer := ⟨Vector.replicate readingBufferMaxNodes NodeSlot.zero, 0, none⟩

def slot (b : ReadingBuffer) (i : SlotIndex) : NodeSlot := b.slots[i]

def setSlot (b : ReadingBuffer) (i : SlotIndex) (s : NodeSlot) : ReadingBuffer :=
  { b with slots := b.slots.set i.val s i.isLt }

@[simp] theorem setSlot_peekedSlot (b : ReadingBuffer) (i : SlotIndex) (s : NodeSlot) :
    (b.setSlot i s).peekedSlot = b.peekedSlot := rfl

@[simp] theorem slot_setSlot_self (b : ReadingBuffer) (i : SlotIndex) (s : NodeSlot) :
    (b.setSlot i s).slot i = s := by
  simp [slot, setSlot]

theorem slot_setSlot_ne (b : ReadingBuffer) {i j : SlotIndex} (s : NodeSlot)
    (h : j ≠ i) : (b.setSlot i s).slot j = b.slot j :=
  Vector.getElem_set_ne i.isLt j.isLt fun he => h (Fin.ext he.symm)

@[simp] theorem slot_boot (i : SlotIndex) : boot.slot i = NodeSlot.zero := by
  simp [slot, boot]

end ReadingBuffer

open ReadingBuffer

/-- The search loop of `findOrClaimSlot`: `inl` returns a slot from inside the
loop, `inr` is `freeSlot` once the loop has ended. -/
def findSlotLoop (b : ReadingBuffer) (uid : Uid) :
    List (SlotIndex) → Option (SlotIndex) →
      SlotIndex ⊕ Option (SlotIndex)
  | [], freeSlot => .inr freeSlot
  | i :: rest, freeSlot =>
    if (b.slot i).used = true ∧ (b.slot i).uid = uid then .inl i
    else if (b.slot i).used = false ∧ freeSlot = none then findSlotLoop b uid rest (some i)
    else findSlotLoop b uid rest freeSlot

def findOrClaimSlot (b : ReadingBuffer) (uid : Uid) :
    Option (SlotIndex) × ReadingBuffer :=
  match findSlotLoop b uid (List.finRange readingBufferMaxNodes) none with
  | .inl i => (some i, b)
  | .inr (some i) => (some i, b.setSlot i { NodeSlot.zero with used := true, uid := uid })
  | .inr none => (none, b)

/-- The part of `readingBufferPush` after it has its slot. Overwriting the
peeked reading cancels the pending pop. -/
def fileReading (b : ReadingBuffer) (i : SlotIndex) (p : Payload) : ReadingBuffer :=
  { b.setSlot i ((b.slot i).store p) with
    peekedSlot := if (b.slot i).ring.count = readingsPerNode ∧ b.peekedSlot = some i then none
      else b.peekedSlot }

@[simp] theorem slot_fileReading_self (b : ReadingBuffer) (i : SlotIndex) (p : Payload) :
    (fileReading b i p).slot i = (b.slot i).store p :=
  slot_setSlot_self b i _

theorem slot_fileReading_ne (b : ReadingBuffer) {i j : SlotIndex} (p : Payload) (h : j ≠ i) :
    (fileReading b i p).slot j = b.slot j :=
  slot_setSlot_ne b _ h

theorem peekedSlot_fileReading (b : ReadingBuffer) (i : SlotIndex) (p : Payload) :
    (fileReading b i p).peekedSlot =
      if (b.slot i).ring.count = readingsPerNode ∧ b.peekedSlot = some i then none else b.peekedSlot := rfl

def readingBufferPush (b : ReadingBuffer) (p : Payload) : Bool × ReadingBuffer :=
  match findOrClaimSlot b p.uid with
  | (none, b) => (false, b)
  | (some i, b) => (true, fileReading b i p)

/-- Copies out the oldest reading of the next node in turn, without removing it. -/
def readingBufferPeek (b : ReadingBuffer) (out : Payload) : Bool × Payload × ReadingBuffer :=
  match ((List.finRange readingBufferMaxNodes).map (b.nextSlot + ·)).find?
      fun i => (b.slot i).used && (b.slot i).ring.count != 0 with
  | some i => (true, (b.slot i).payload, { b with peekedSlot := some i })
  | none => (false, out, { b with peekedSlot := none })

/-- Removes the reading returned by the last peek. -/
def readingBufferPop (b : ReadingBuffer) : ReadingBuffer :=
  match b.peekedSlot with
  | none => b
  | some i =>
    let slot := b.slot i
    let slot := if slot.ring.count > 0 then { slot with ring := slot.ring.dropOldest } else slot
    let slot := if slot.ring.count = 0 then { slot with used := false } else slot
    { b.setSlot i slot with nextSlot := i + 1, peekedSlot := none }

def readingBufferCount (b : ReadingBuffer) : Nat :=
  (List.finRange readingBufferMaxNodes).foldl (fun total i => total + (b.slot i).ring.count) 0

def readingBufferClear (_ : ReadingBuffer) : ReadingBuffer :=
  ⟨Vector.replicate readingBufferMaxNodes NodeSlot.zero, 0, none⟩

end IotFirmware
