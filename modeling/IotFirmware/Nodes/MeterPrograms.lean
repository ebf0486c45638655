import IotFirmware.Buffering.ReadingBuffer
import IotFirmware.Nodes.FreshReadings

/-! The three meter nodes as programs of one kind: passes over some input, each
with at most one payload to send, under the node's UID and with the sequence
number drawn in that pass. -/
namespace IotFirmware

def Payload.owner (p : Payload) : Uid × Identity := (p.uid, p.identity)

theorem Payload.ext_owner {p q : Payload} (howner : p.owner = q.owner) (hreading : p.reading = q.reading) : p = q := by
  cases p
  cases q
  simp_all [Payload.owner, Payload.identity, Payload.reading]

def SendsOnce (owner : Uid × Identity) (seq : UInt32) (sent : List Payload) : Prop :=
  sent = [] ∨ ∃ p, sent = [p] ∧ p.owner = owner ∧ p.seq = seq

/-- A meter node's program past its set up, with the invariant its passes keep. -/
structure NodeProgram where
  owner : Uid × Identity
  State : Type
  Input : Type
  start : State
  loop : State → Input → State × List NodeEvent
  /-- An input with the number the pass draws. -/
  withSeq : UInt32 → Input → Input
  /-- A pass in which the meter's getters succeed with this payload's values. -/
  Reads : Move State Input → Payload → Prop
  Inv : List (Move State Input) → State → Prop
  inv_start : Inv [] start
  inv_loop : ∀ (moves : List (Move State Input)) (s : State) (i : Input), Inv moves s →
    Inv (moves ++ [⟨s, i, (loop s i).1⟩]) (loop s i).1
  fresh : ∀ {moves : List (Move State Input)} {s : State}, Inv moves s → FreshSends loop Reads moves
  sends : ∀ {moves : List (Move State Input)} {s : State} (i : Input) (seq : UInt32), Inv moves s →
    SendsOnce owner seq (sentBy (loop s (withSeq seq i)).2)

namespace NodeProgram
variable (P : NodeProgram)

def uid : Uid := P.owner.1

def move (s : P.State) (i : P.Input) (seq : UInt32) : Move P.State P.Input :=
  ⟨s, P.withSeq seq i, (P.loop s (P.withSeq seq i)).1⟩

/-- One of these passes sends this payload, read in it or in an earlier one of them with no send since. -/
def ReadAndSent (passes : List (Move P.State P.Input)) (p : Payload) : Prop :=
  ∃ front x back, passes = front ++ x :: back ∧ p ∈ sentIn P.loop x ∧
    (P.Reads x p ∨ Unsent P.loop P.Reads front p)

end NodeProgram

theorem FreshSends.readAndSent {P : NodeProgram} {passes : List (Move P.State P.Input)} {p : Payload}
    (h : FreshSends P.loop P.Reads passes) (hp : p ∈ passes.flatMap (sentIn P.loop)) : P.ReadAndSent passes p := by
  obtain ⟨x, hx, hsent⟩ := List.mem_flatMap.mp hp
  obtain ⟨front, back, hsplit⟩ := List.append_of_mem hx
  exact ⟨front, x, back, hsplit, hsent, h.fresh _ _ _ _ hsplit hsent⟩

section Loops
variable {ρ ι : Type} {reader : Reader ρ ι} {n n' : EndNode ρ} {events : List NodeEvent}

private theorem rs485Read_owner {i : NodeInput ι} (h : rs485Read reader n i = (n', events)) :
    n'.payload.owner = n.payload.owner := by
  simp only [rs485Read] at h
  split at h
  · obtain ⟨rfl, _⟩ := h
    rfl
  · split at h
    · obtain ⟨rfl, _⟩ := h
      rfl
    · split at h
      · obtain ⟨rfl, _⟩ := h
        rfl
      · obtain ⟨rfl, _⟩ := h
        rfl

private theorem rs485NodeLoop_sends {i : NodeInput ι} (h : rs485NodeLoop reader n i = (n', events)) :
    n'.payload.owner = n.payload.owner ∧ SendsOnce n.payload.owner i.seq (sentBy events) := by
  refine ⟨?_, ?_⟩
  · unfold rs485NodeLoop at h
    rcases hcheck : n.checkReady reader i.gate with ⟨ready, n₁, probes⟩
    have hpayload := (checkReady_spec hcheck).1
    rw [hcheck] at h
    rw [← hpayload]
    cases ready with
    | false =>
      obtain ⟨rfl, -⟩ := h
      rfl
    | true =>
      dsimp only at h
      split at h
      · obtain ⟨rfl, -⟩ := h
        exact rs485Read_owner rfl
      · obtain ⟨rfl, -⟩ := h
        rfl
      · obtain ⟨rfl, -⟩ := h
        split <;> rfl
      · obtain ⟨rfl, -⟩ := h
        rfl
  · cases rs485NodeLoop_outcome h with
    | quiet hnone => exact .inl hnone
    | read hnone => exact .inl hnone
    | sent _ _ hone => exact .inr ⟨_, hone, rfl, rfl⟩

private theorem cvPoll_sends {exportFlowName : List UInt8} {i : NodeInput ι}
    (h : cvPoll reader exportFlowName n i = (n', events)) :
    n'.payload.owner = n.payload.owner ∧ SendsOnce n.payload.owner i.seq (sentBy events) := by
  simp only [cvPoll] at h
  split at h
  · obtain ⟨rfl, rfl⟩ := h
    exact ⟨rfl, .inl rfl⟩
  · split at h
    · split at h
      · obtain ⟨rfl, rfl⟩ := h
        exact ⟨rfl, .inl rfl⟩
      · obtain ⟨rfl, rfl⟩ := h
        exact ⟨rfl, .inr ⟨_, rfl, rfl, rfl⟩⟩
    · obtain ⟨rfl, rfl⟩ := h
      exact ⟨rfl, .inr ⟨_, rfl, rfl, rfl⟩⟩

private theorem irPoll_sends {i : NodeInput ι} (h : irPoll reader n i = (n', events)) :
    n'.payload.owner = n.payload.owner ∧ SendsOnce n.payload.owner i.seq (sentBy events) := by
  simp only [irPoll] at h
  split at h
  · obtain ⟨rfl, rfl⟩ := h
    exact ⟨rfl, .inl rfl⟩
  · split at h
    · obtain ⟨rfl, rfl⟩ := h
      exact ⟨rfl, .inr ⟨_, rfl, rfl, rfl⟩⟩
    · obtain ⟨rfl, rfl⟩ := h
      exact ⟨rfl, .inr ⟨_, rfl, rfl, rfl⟩⟩

/-- What a timed loop sends is what its poll sends, once due. -/
theorem sends_of_due {pollIntervalMs : UInt32} {i : NodeInput ι} {n₁ : EndNode ρ} {due : Bool} {probes : List NodeEvent}
    (hdue : pollDue reader n i pollIntervalMs = (due, n₁, probes))
    (hpoll : n'.payload.owner = n₁.payload.owner ∧ SendsOnce n₁.payload.owner i.seq (sentBy events)) :
    n'.payload.owner = n.payload.owner ∧ SendsOnce n.payload.owner i.seq (sentBy (probes ++ events)) := by
  obtain ⟨hpayload, -, hprobes⟩ := pollDue_spec hdue
  rw [← hpayload, sentBy_append, hprobes]
  exact hpoll

private theorem cvNodeLoop_sends {exportFlowName : List UInt8} {pollIntervalMs : UInt32} {i : NodeInput ι}
    (h : cvNodeLoop reader exportFlowName pollIntervalMs n i = (n', events)) :
    n'.payload.owner = n.payload.owner ∧ SendsOnce n.payload.owner i.seq (sentBy events) := by
  unfold cvNodeLoop at h
  rcases hdue : pollDue reader n i pollIntervalMs with ⟨due, n₁, probes⟩
  rw [hdue] at h
  cases due with
  | false =>
    obtain ⟨rfl, rfl⟩ := h
    obtain ⟨hpayload, -, hprobes⟩ := pollDue_spec hdue
    exact ⟨congrArg Payload.owner hpayload, .inl hprobes⟩
  | true =>
    obtain ⟨rfl, rfl⟩ := h
    exact sends_of_due hdue (cvPoll_sends rfl)

private theorem irNodeLoop_sends {pollIntervalMs : UInt32} {i : NodeInput ι}
    (h : irNodeLoop reader pollIntervalMs n i = (n', events)) :
    n'.payload.owner = n.payload.owner ∧ SendsOnce n.payload.owner i.seq (sentBy events) := by
  unfold irNodeLoop at h
  rcases hdue : pollDue reader n i pollIntervalMs with ⟨due, n₁, probes⟩
  rw [hdue] at h
  cases due with
  | false =>
    obtain ⟨rfl, rfl⟩ := h
    obtain ⟨hpayload, -, hprobes⟩ := pollDue_spec hdue
    exact ⟨congrArg Payload.owner hpayload, .inl hprobes⟩
  | true =>
    obtain ⟨rfl, rfl⟩ := h
    exact sends_of_due hdue (irPoll_sends rfl)

end Loops

section Programs
variable (uid : Uid) (communityId unitId nodeType : UInt8)

def rs485Program {ρ ι : Type} (reader : Reader ρ ι) (r : ρ) : NodeProgram where
  owner := (uid, ⟨communityId, unitId, nodeType⟩)
  State := EndNode ρ
  Input := NodeInput ι
  start := .setup r uid communityId unitId nodeType
  loop := rs485NodeLoop reader
  withSeq seq i := { i with seq }
  Reads := rs485Reads reader
  Inv moves n := Rs485Inv reader moves n ∧ n.payload.owner = (uid, ⟨communityId, unitId, nodeType⟩)
  inv_start := ⟨rs485Inv_nil rfl, rfl⟩
  inv_loop _ _ _ h := ⟨rs485Inv_step _ _ _ h.1, (rs485NodeLoop_sends rfl).1.trans h.2⟩
  fresh h := h.1.1
  sends _ _ h := h.2 ▸ (rs485NodeLoop_sends rfl).2

def cvProgram {ρ ι : Type} (reader : Reader ρ ι) (exportFlowName : List UInt8) (pollIntervalMs : UInt32) (r : ρ) :
    NodeProgram where
  owner := (uid, ⟨communityId, unitId, nodeType⟩)
  State := EndNode ρ
  Input := NodeInput ι
  start := .setup r uid communityId unitId nodeType
  loop := cvNodeLoop reader exportFlowName pollIntervalMs
  withSeq seq i := { i with seq }
  Reads := cvReads reader exportFlowName
  Inv moves n := CvInv reader exportFlowName pollIntervalMs moves n ∧
    n.payload.owner = (uid, ⟨communityId, unitId, nodeType⟩)
  inv_start := ⟨⟨freshSends_nil, fun _ => rfl⟩, rfl⟩
  inv_loop _ _ _ h := ⟨cvInv_step _ _ _ h.1, (cvNodeLoop_sends rfl).1.trans h.2⟩
  fresh h := h.1.1
  sends _ _ h := h.2 ▸ (cvNodeLoop_sends rfl).2

def IrAction.withSeq (seq : UInt32) : IrAction → IrAction
  | .loop i => .loop { i with seq }
  | .probe s => .probe s

private theorem irAct_owner {pollIntervalMs : UInt32} (n : EndNode Iec6205621Reader) (a : IrAction) :
    (irAct pollIntervalMs n a).1.payload.owner = n.payload.owner := by
  cases a with
  | loop i => exact (irNodeLoop_sends rfl).1
  | probe s => rfl

private theorem irAct_sends {pollIntervalMs : UInt32} (n : EndNode Iec6205621Reader) (a : IrAction) (seq : UInt32) :
    SendsOnce n.payload.owner seq (sentBy (irAct pollIntervalMs n (a.withSeq seq)).2) := by
  cases a with
  | loop i => exact (irNodeLoop_sends rfl).2
  | probe s => exact .inl rfl

def irProgram (pollIntervalMs : UInt32) (r : Iec6205621Reader) : NodeProgram where
  owner := (uid, ⟨communityId, unitId, nodeType⟩)
  State := EndNode Iec6205621Reader
  Input := IrAction
  start := .setup r uid communityId unitId nodeType
  loop := irAct pollIntervalMs
  withSeq := IrAction.withSeq
  Reads := irReads
  Inv moves n := FreshSends (irAct pollIntervalMs) irReads moves ∧
    n.payload.owner = (uid, ⟨communityId, unitId, nodeType⟩)
  inv_start := ⟨freshSends_nil, rfl⟩
  inv_loop _ _ a h := ⟨irAct_step _ _ a h.1, (irAct_owner _ a).trans h.2⟩
  fresh h := h.1
  sends a seq h := h.2 ▸ irAct_sends _ a seq

end Programs
end IotFirmware
