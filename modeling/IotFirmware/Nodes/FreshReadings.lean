import IotFirmware.Foundation.Runs
import IotFirmware.Nodes.EndNodes

/-! Every payload a meter node sends is one fresh reading: its values are what
the meter's getters returned in one read pass made since the node last sent. -/
namespace IotFirmware

def sentBy (events : List NodeEvent) : List Payload := events.filterMap NodeEvent.sent?

theorem sentBy_append (events more : List NodeEvent) : sentBy (events ++ more) = sentBy events ++ sentBy more :=
  List.filterMap_append

section History
variable {σ α : Type} (loop : σ → α → σ × List NodeEvent) (Reads : Move σ α → Payload → Prop)

def sentIn (x : Move σ α) : List Payload := sentBy (loop x.before x.label).2

/-- A read pass of this payload with no send in it or since. -/
def Unsent (moves : List (Move σ α)) (p : Payload) : Prop :=
  ∃ a x b, moves = a ++ x :: b ∧ Reads x p ∧ ∀ y ∈ x :: b, sentIn loop y = []

/-- What a history of loop passes shows of the node's sends. -/
structure FreshSends (moves : List (Move σ α)) : Prop where
  single : ∀ x ∈ moves, (sentIn loop x).length ≤ 1
  /-- What is sent was read in that pass, or in an earlier one with no send since. -/
  fresh : ∀ front x back p, moves = front ++ x :: back → p ∈ sentIn loop x → Reads x p ∨ Unsent loop Reads front p
  /-- Two sends are of two read passes: the second was read after the first was sent. -/
  once : ∀ front x mid y back p q, moves = front ++ x :: (mid ++ y :: back) → p ∈ sentIn loop x → q ∈ sentIn loop y →
    Reads y q ∨ ∃ a z b, mid = a ++ z :: b ∧ Reads z q

variable {loop Reads} {moves : List (Move σ α)} {x : Move σ α} {p : Payload}

theorem Unsent.snoc (h : Unsent loop Reads moves p) (hquiet : sentIn loop x = []) :
    Unsent loop Reads (moves ++ [x]) p := by
  obtain ⟨a, y, b, rfl, hreads, hnone⟩ := h
  refine ⟨a, y, b ++ [x], by simp, hreads, ?_⟩
  rw [← List.cons_append, List.forall_mem_append, List.forall_mem_singleton]
  exact ⟨hnone, hquiet⟩

theorem Unsent.of_reads (h : Reads x p) (hquiet : sentIn loop x = []) : Unsent loop Reads (moves ++ [x]) p :=
  ⟨moves, x, [], rfl, h, by simpa using hquiet⟩

/-- A read pass not sent yet comes behind every send. -/
theorem Unsent.behind_send {front back : List (Move σ α)} (h : Unsent loop Reads (front ++ x :: back) p)
    (hsent : sentIn loop x ≠ []) : ∃ a z b, back = a ++ z :: b ∧ Reads z p := by
  obtain ⟨a, y, b, hsplit, hreads, hnone⟩ := h
  rcases split_append hsplit with ⟨rest, hfront⟩ | ⟨skipped, rfl, hback⟩
  · refine absurd (hnone x ?_) hsent
    rw [hfront, List.append_assoc, List.append_cancel_left_eq] at hsplit
    rw [← hsplit]
    simp
  · cases skipped with
    | nil =>
      obtain ⟨rfl, -⟩ := List.cons.inj hback
      exact absurd (hnone x (by simp)) hsent
    | cons z skipped =>
      obtain ⟨rfl, rfl⟩ := List.cons.inj hback
      exact ⟨skipped, y, b, rfl, hreads⟩

private theorem freshSends_of_fresh (hsingle : ∀ x ∈ moves, (sentIn loop x).length ≤ 1)
    (h : ∀ front x back p, moves = front ++ x :: back → p ∈ sentIn loop x →
      Reads x p ∨ Unsent loop Reads front p) : FreshSends loop Reads moves := by
  refine ⟨hsingle, h, fun front x mid y back p q hsplit hp hq => ?_⟩
  refine (h (front ++ x :: mid) y back q (by simpa using hsplit) hq).imp_right fun hunsent => ?_
  exact hunsent.behind_send (List.ne_nil_of_mem hp)

theorem freshSends_nil : FreshSends loop Reads [] := freshSends_of_fresh (by simp) (by simp)

/-- A pass that sends nothing, or one payload that has been read and not sent yet, keeps the sends fresh. -/
theorem FreshSends.snoc (h : FreshSends loop Reads moves)
    (hx : sentIn loop x = [] ∨ ∃ p, sentIn loop x = [p] ∧ (Reads x p ∨ Unsent loop Reads moves p)) :
    FreshSends loop Reads (moves ++ [x]) := by
  refine freshSends_of_fresh ?_ fun front y back q hsplit hq => ?_
  · rw [List.forall_mem_append, List.forall_mem_singleton]
    refine ⟨h.single, ?_⟩
    rcases hx with hnone | ⟨p, hone, -⟩ <;> simp [*]
  · rcases split_snoc hsplit with ⟨rest, hmoves⟩ | ⟨rfl, rfl⟩
    · exact h.fresh _ _ _ _ hmoves hq
    · rcases hx with hnone | ⟨p, hone, hread⟩
      · simp [hnone] at hq
      · obtain rfl : q = p := by simpa [hone] using hq
        exact hread

/-- Sends fresh over each of two histories are fresh over both. -/
theorem FreshSends.append {since : List (Move σ α)} (h : FreshSends loop Reads moves)
    (hsince : FreshSends loop Reads since) : FreshSends loop Reads (moves ++ since) := by
  refine freshSends_of_fresh (List.forall_mem_append.mpr ⟨h.single, hsince.single⟩) fun front x back p hsplit hp => ?_
  rcases split_append hsplit with ⟨rest, hmoves⟩ | ⟨skipped, rfl, hrest⟩
  · exact h.fresh _ _ _ _ hmoves hp
  · refine (hsince.fresh _ _ _ _ hrest hp).imp_right fun ⟨a, y, b, hskipped, hreads, hnone⟩ => ?_
    exact ⟨moves ++ a, y, b, by simp [hskipped], hreads, hnone⟩

end History

abbrev passes {σ α : Type} (loop : σ → α → σ × List NodeEvent) (s : σ) (inputs : List α) : List (Move σ α) :=
  movesOf (fun s i => (loop s i).1) s inputs

/-- The invariant rule for histories: what holds of none and is kept by every
loop pass holds of every run's. -/
theorem passes_invariant {σ α : Type} {loop : σ → α → σ × List NodeEvent} (Inv : List (Move σ α) → σ → Prop) {s : σ}
    (hinit : Inv [] s)
    (hstep : ∀ moves s i, Inv moves s → Inv (moves ++ [⟨s, i, (loop s i).1⟩]) (loop s i).1) (inputs : List α) :
    ∃ t, Inv (passes loop s inputs) t := by
  refine ⟨_, (run_movesOf _ s inputs).invariant Inv hinit ?_⟩
  rintro moves m i t - hm rfl
  exact hstep moves m i hm

section Nodes
variable {ρ ι : Type} {reader : Reader ρ ι} {n n' : EndNode ρ} {events : List NodeEvent}

/-- The reader as the getters of a pass find it, once the gate has been asked. -/
def EndNode.readyReader (n : EndNode ρ) (reader : Reader ρ ι) (i : GateInput ι) : ρ :=
  (n.gate.ready reader i n.reader).2.2.2

/-- The gate may probe, and touches neither the payload nor the node's state. -/
theorem checkReady_spec {i : GateInput ι} {ready : Bool} (h : n.checkReady reader i = (ready, n', events)) :
    n'.payload = n.payload ∧ n'.state = n.state ∧ n'.reader = n.readyReader reader i ∧ sentBy events = [] := by
  unfold EndNode.checkReady at h
  unfold EndNode.readyReader
  generalize n.gate.ready reader i n.reader = called at h ⊢
  obtain ⟨ok, probed, gate, r⟩ := called
  obtain ⟨-, rfl, rfl⟩ := h
  cases probed <;> simp [sentBy, NodeEvent.sent?]

/-- A read pass of the RS485 node: all three getters succeed, one after the
other, with the values of the payload. -/
def rs485Reads (reader : Reader ρ ι) (x : Move (EndNode ρ) (NodeInput ι)) (p : Payload) : Prop :=
  ∃ r₁ r₂,
    reader.getImport x.label.importIo (x.before.readyReader reader x.label.gate) x.before.payload.kwhImport =
      (true, p.kwhImport, r₁) ∧
    reader.getExport x.label.exportIo r₁ x.before.payload.kwhExport = (true, p.kwhExport, r₂) ∧
    reader.getVoltage x.label.voltageIo r₂ x.before.payload.voltage = (true, p.voltage, x.after.reader)

/-- The READ step sends nothing. It fails and leaves the node where it is, or it
has all three values in the payload. -/
theorem rs485Read_spec {i : NodeInput ι} (h : rs485Read reader n i = (n', events)) :
    sentBy events = [] ∧ (n'.state = n.state ∨ ∃ r₁ r₂,
      reader.getImport i.importIo n.reader n.payload.kwhImport = (true, n'.payload.kwhImport, r₁) ∧
      reader.getExport i.exportIo r₁ n.payload.kwhExport = (true, n'.payload.kwhExport, r₂) ∧
      reader.getVoltage i.voltageIo r₂ n.payload.voltage = (true, n'.payload.voltage, n'.reader)) := by
  simp only [rs485Read] at h
  split at h
  · obtain ⟨rfl, rfl⟩ := h
    exact ⟨rfl, .inl rfl⟩
  · rename_i himport
    split at h
    · obtain ⟨rfl, rfl⟩ := h
      exact ⟨rfl, .inl rfl⟩
    · rename_i hexport
      split at h
      · obtain ⟨rfl, rfl⟩ := h
        exact ⟨rfl, .inl rfl⟩
      · rename_i hvoltage
        obtain ⟨rfl, rfl⟩ := h
        exact ⟨rfl, .inr ⟨_, _, himport, hexport, hvoltage⟩⟩

inductive Rs485Outcome (reader : Reader ρ ι) (n : EndNode ρ) (i : NodeInput ι) (n' : EndNode ρ) (sent : List Payload) :
    Prop
  | quiet : sent = [] → (n'.state = .send → n.state = .send ∧ n'.payload = n.payload) → Rs485Outcome reader n i n' sent
  | read : sent = [] → rs485Reads reader ⟨n, i, n'⟩ n'.payload → Rs485Outcome reader n i n' sent
  | sent : n.state = .send → n'.state = .sleep → sent = [{ n.payload with seq := i.seq }] →
      Rs485Outcome reader n i n' sent

theorem rs485NodeLoop_outcome {i : NodeInput ι} (h : rs485NodeLoop reader n i = (n', events)) :
    Rs485Outcome reader n i n' (sentBy events) := by
  unfold rs485NodeLoop at h
  rcases hcheck : n.checkReady reader i.gate with ⟨ready, n₁, probes⟩
  obtain ⟨hpayload, hstate, hreader, hprobes⟩ := checkReady_spec hcheck
  rw [hcheck] at h
  cases ready with
  | false =>
    obtain ⟨rfl, rfl⟩ := h
    exact .quiet hprobes fun hsend => ⟨hstate ▸ hsend, hpayload⟩
  | true =>
    cases hn₁ : n₁.state with
    | read =>
      rcases hread : rs485Read reader n₁ i with ⟨n₂, reads⟩
      obtain ⟨hreads, hdone⟩ := rs485Read_spec hread
      simp only [hn₁, hread] at h
      obtain ⟨rfl, rfl⟩ := h
      have hquiet : sentBy (probes ++ reads) = [] := by rw [sentBy_append, hprobes, hreads]; rfl
      rcases hdone with hsame | ⟨r₁, r₂, himport, hexport, hvoltage⟩
      · exact .quiet hquiet fun hsend => by rw [hsame, hn₁] at hsend; cases hsend
      · rw [hreader, hpayload] at himport
        rw [hpayload] at hexport hvoltage
        exact .read hquiet ⟨r₁, r₂, himport, hexport, hvoltage⟩
    | send =>
      simp only [hn₁, EndNode.send] at h
      obtain ⟨rfl, rfl⟩ := h
      exact .sent (hstate ▸ hn₁) rfl (by rw [sentBy_append, hprobes, hpayload]; rfl)
    | sleep =>
      simp only [hn₁] at h
      obtain ⟨rfl, rfl⟩ := h
      refine .quiet hprobes fun hsend => ?_
      split at hsend
      · cases hsend
      · rw [hn₁] at hsend
        cases hsend
    | request =>
      simp only [hn₁] at h
      obtain ⟨rfl, rfl⟩ := h
      exact .quiet hprobes fun hsend => by rw [hn₁] at hsend; cases hsend

def Rs485Inv (reader : Reader ρ ι) (moves : List (Move (EndNode ρ) (NodeInput ι))) (n : EndNode ρ) : Prop :=
  FreshSends (rs485NodeLoop reader) (rs485Reads reader) moves ∧
    (n.state = .send → Unsent (rs485NodeLoop reader) (rs485Reads reader) moves n.payload)

theorem rs485Inv_nil (hstate : n.state = .read) : Rs485Inv reader [] n :=
  ⟨freshSends_nil, fun hsend => by rw [hstate] at hsend; cases hsend⟩

theorem rs485Inv_step (moves : List (Move (EndNode ρ) (NodeInput ι))) (n : EndNode ρ) (i : NodeInput ι)
    (h : Rs485Inv reader moves n) :
    Rs485Inv reader (moves ++ [⟨n, i, (rs485NodeLoop reader n i).1⟩]) (rs485NodeLoop reader n i).1 := by
  obtain ⟨hfresh, hwaiting⟩ := h
  rcases hloop : rs485NodeLoop reader n i with ⟨n', events⟩
  have hsent : sentIn (rs485NodeLoop reader) ⟨n, i, n'⟩ = sentBy events := by simp [sentIn, hloop]
  cases rs485NodeLoop_outcome hloop with
  | quiet hnone hstill =>
    refine ⟨hfresh.snoc (.inl (hsent.trans hnone)), fun hsend => ?_⟩
    obtain ⟨hbefore, hpayload⟩ := hstill hsend
    exact hpayload ▸ (hwaiting hbefore).snoc (hsent.trans hnone)
  | read hnone hreads =>
    exact ⟨hfresh.snoc (.inl (hsent.trans hnone)), fun _ => .of_reads hreads (hsent.trans hnone)⟩
  | sent hbefore hafter hone =>
    -- the number drawn is no part of what was read
    exact ⟨hfresh.snoc (.inr ⟨_, hsent.trans hone, .inr (hwaiting hbefore)⟩), fun hsend => by
      rw [hafter] at hsend; cases hsend⟩

/-- The gate and the clock say whether to poll, and touch no payload. -/
theorem pollDue_spec {i : NodeInput ι} {pollIntervalMs : UInt32} {due : Bool}
    (h : pollDue reader n i pollIntervalMs = (due, n', events)) :
    n'.payload = n.payload ∧ n'.reader = n.readyReader reader i.gate ∧ sentBy events = [] := by
  unfold pollDue at h
  rcases hcheck : n.checkReady reader i.gate with ⟨ready, n₁, probes⟩
  obtain ⟨hpayload, -, hreader, hprobes⟩ := checkReady_spec hcheck
  rw [hcheck] at h
  cases ready with
  | false =>
    obtain ⟨-, rfl, rfl⟩ := h
    exact ⟨hpayload, hreader, hprobes⟩
  | true =>
    dsimp only at h
    split at h
    · obtain ⟨-, rfl, rfl⟩ := h
      exact ⟨hpayload, hreader, hprobes⟩
    · obtain ⟨-, rfl, rfl⟩ := h
      exact ⟨hpayload, hreader, hprobes⟩

/-- A read pass of the CV node: the import, and the export where there is an
export flow. Without one the export is 0. -/
def cvReads (reader : Reader ρ ι) (exportFlowName : List UInt8) (x : Move (EndNode ρ) (NodeInput ι)) (p : Payload) :
    Prop :=
  ∃ r₁, reader.getImport x.label.importIo (x.before.readyReader reader x.label.gate) 0 = (true, p.kwhImport, r₁) ∧
    if exportFlowName = [] then p.kwhExport = 0 ∧ x.after.reader = r₁
    else reader.getExport x.label.exportIo r₁ x.before.payload.kwhExport = (true, p.kwhExport, x.after.reader)

/-- A CV poll fails, or sends at once what it has read. The payload's export
stays 0 without an export flow. -/
theorem cvPoll_spec {exportFlowName : List UInt8} {i : NodeInput ι}
    (hzero : exportFlowName = [] → n.payload.kwhExport = 0) (h : cvPoll reader exportFlowName n i = (n', events)) :
    (exportFlowName = [] → n'.payload.kwhExport = 0) ∧ (sentBy events = [] ∨ ∃ p r₁, sentBy events = [p] ∧
      reader.getImport i.importIo n.reader 0 = (true, p.kwhImport, r₁) ∧
      if exportFlowName = [] then p.kwhExport = 0 ∧ n'.reader = r₁
      else reader.getExport i.exportIo r₁ n.payload.kwhExport = (true, p.kwhExport, n'.reader)) := by
  simp only [cvPoll] at h
  split at h
  · obtain ⟨rfl, rfl⟩ := h
    exact ⟨hzero, .inl rfl⟩
  · rename_i himport
    split at h
    · rename_i hflow
      split at h
      · obtain ⟨rfl, rfl⟩ := h
        exact ⟨hzero, .inl rfl⟩
      · rename_i hexport
        obtain ⟨rfl, rfl⟩ := h
        refine ⟨fun hnone => absurd hnone hflow, .inr ⟨_, _, rfl, himport, ?_⟩⟩
        rw [if_neg hflow]
        exact hexport
    · rename_i hflow
      obtain ⟨rfl, rfl⟩ := h
      refine ⟨hzero, .inr ⟨_, _, rfl, himport, ?_⟩⟩
      rw [if_pos (not_not.mp hflow)]
      exact ⟨hzero (not_not.mp hflow), rfl⟩

def CvInv (reader : Reader ρ ι) (exportFlowName : List UInt8) (pollIntervalMs : UInt32)
    (moves : List (Move (EndNode ρ) (NodeInput ι))) (n : EndNode ρ) : Prop :=
  FreshSends (cvNodeLoop reader exportFlowName pollIntervalMs) (cvReads reader exportFlowName) moves ∧
    (exportFlowName = [] → n.payload.kwhExport = 0)

theorem cvInv_step {exportFlowName : List UInt8} {pollIntervalMs : UInt32}
    (moves : List (Move (EndNode ρ) (NodeInput ι))) (n : EndNode ρ) (i : NodeInput ι)
    (h : CvInv reader exportFlowName pollIntervalMs moves n) :
    CvInv reader exportFlowName pollIntervalMs
      (moves ++ [⟨n, i, (cvNodeLoop reader exportFlowName pollIntervalMs n i).1⟩])
      (cvNodeLoop reader exportFlowName pollIntervalMs n i).1 := by
  obtain ⟨hfresh, hzero⟩ := h
  rcases hloop : cvNodeLoop reader exportFlowName pollIntervalMs n i with ⟨n', events⟩
  have hsent : sentIn (cvNodeLoop reader exportFlowName pollIntervalMs) ⟨n, i, n'⟩ = sentBy events := by
    simp [sentIn, hloop]
  unfold cvNodeLoop at hloop
  rcases hdue : pollDue reader n i pollIntervalMs with ⟨due, n₁, probes⟩
  obtain ⟨hpayload, hreader, hprobes⟩ := pollDue_spec hdue
  rw [← hpayload] at hzero
  rw [hdue] at hloop
  cases due with
  | false =>
    obtain ⟨rfl, rfl⟩ := hloop
    exact ⟨hfresh.snoc (.inl (hsent.trans hprobes)), hzero⟩
  | true =>
    rcases hpoll : cvPoll reader exportFlowName n₁ i with ⟨n₂, reads⟩
    obtain ⟨hzero', hreads⟩ := cvPoll_spec hzero hpoll
    simp only [hpoll] at hloop
    obtain ⟨rfl, rfl⟩ := hloop
    rw [sentBy_append, hprobes, List.nil_append] at hsent
    rw [hreader, hpayload] at hreads
    refine ⟨hfresh.snoc ?_, hzero'⟩
    rcases hreads with hnone | ⟨p, r₁, hone, himport, hexport⟩
    · exact .inl (hsent.trans hnone)
    · exact .inr ⟨p, hsent.trans hone, .inl ⟨r₁, himport, hexport⟩⟩

end Nodes

/-- What the IR node does next: a loop pass, or a probe of its meter in between. -/
inductive IrAction where
  | loop (i : NodeInput IrSession)
  | probe (s : IrSession)

def irAct (pollIntervalMs : UInt32) (n : EndNode Iec6205621Reader) :
    IrAction → EndNode Iec6205621Reader × List NodeEvent
  | .loop i => irNodeLoop iecReader pollIntervalMs n i
  | .probe s => ({ n with reader := (iecReader.probe s n.reader).2 }, [.probed (iecReader.probe s n.reader).1])

/-- Both values of the payload stand in one data block. -/
def FromBlock (block : List UInt8) (p : Payload) : Prop :=
  Iec6205621Reader.parseObisFloat block importCode = some p.kwhImport ∧
    Iec6205621Reader.parseObisFloat block exportCode = some p.kwhExport

/-- A read pass of the IR node: both getters succeed, on one data block. -/
def irReads (x : Move (EndNode Iec6205621Reader) IrAction) (p : Payload) : Prop :=
  ∃ i r₁, x.label = .loop i ∧
    iecReader.getImport i.importIo (x.before.readyReader iecReader i.gate) 0 = (true, p.kwhImport, r₁) ∧
    iecReader.getExport i.exportIo r₁ 0 = (true, p.kwhExport, x.after.reader) ∧
    FromBlock (Iec6205621Reader.dataBlock i.importIo) p

namespace Iec6205621Reader

private theorem readBlock_spec {s : IrSession} {kwhImport kwhExport : UInt32} {reads : List HeadEvent}
    (h : readBlock s = (some (kwhImport, kwhExport), reads)) :
    parseObisFloat (dataBlock s) importCode = some kwhImport ∧
      parseObisFloat (dataBlock s) exportCode = some kwhExport := by
  simp only [readBlock] at h
  split at h
  · cases h
  · split at h
    · cases h
    · have hboth := congrArg Prod.fst h
      simpa [Option.bind_eq_some_iff] using hboth

/-- A successful import read leaves the export reading of the same block in the cache. -/
theorem importGetter_spec {s : IrSession} {r r' : Iec6205621Reader} {val kwhImport : UInt32}
    (h : importGetter s r val = (true, kwhImport, r')) :
    parseObisFloat (dataBlock s) importCode = some kwhImport ∧ r'.exportValid = true ∧
      parseObisFloat (dataBlock s) exportCode = some r'.cachedExport := by
  simp only [importGetter, getImport] at h
  split at h
  · cases h
  · split at h
    · cases h
    · rename_i hblock
      obtain ⟨-, rfl, rfl⟩ := h
      exact ⟨(readBlock_spec hblock).1, rfl, (readBlock_spec hblock).2⟩

end Iec6205621Reader

section IrNode
open Iec6205621Reader
variable {n n' : EndNode Iec6205621Reader} {events : List NodeEvent}

/-- An IR poll fails, or sends at once what it has read of one data block. -/
theorem irPoll_spec {i : NodeInput IrSession} (h : irPoll iecReader n i = (n', events)) :
    sentBy events = [] ∨ ∃ p r₁, sentBy events = [p] ∧
      iecReader.getImport i.importIo n.reader 0 = (true, p.kwhImport, r₁) ∧
      iecReader.getExport i.exportIo r₁ 0 = (true, p.kwhExport, n'.reader) ∧ FromBlock (dataBlock i.importIo) p := by
  unfold irPoll at h
  rcases himport : iecReader.getImport i.importIo n.reader 0 with ⟨ok, importVal, r⟩
  rw [himport] at h
  cases ok with
  | false =>
    obtain ⟨rfl, rfl⟩ := h
    exact .inl rfl
  | true =>
    obtain ⟨hblock, hvalid, hexport⟩ := importGetter_spec himport
    -- the cache is valid now, so the export read cannot fail
    have hcached : iecReader.getExport i.exportIo r 0 = (true, r.cachedExport, r) := by
      simp [iecReader, exportGetter, getExport, hvalid]
    dsimp only [EndNode.report] at h
    rw [hcached] at h
    obtain ⟨rfl, rfl⟩ := h
    exact .inr ⟨_, r, rfl, rfl, hcached, hblock, hexport⟩

theorem irAct_step {pollIntervalMs : UInt32} (moves : List (Move (EndNode Iec6205621Reader) IrAction))
    (n : EndNode Iec6205621Reader) (a : IrAction) (h : FreshSends (irAct pollIntervalMs) irReads moves) :
    FreshSends (irAct pollIntervalMs) irReads (moves ++ [⟨n, a, (irAct pollIntervalMs n a).1⟩]) := by
  cases a with
  | probe s => exact h.snoc (.inl rfl)
  | loop i =>
    rcases hloop : irNodeLoop iecReader pollIntervalMs n i with ⟨n', events⟩
    have hsent : sentIn (irAct pollIntervalMs) ⟨n, .loop i, n'⟩ = sentBy events := by simp [sentIn, irAct, hloop]
    simp only [irAct, hloop]
    unfold irNodeLoop at hloop
    rcases hdue : pollDue iecReader n i pollIntervalMs with ⟨due, n₁, probes⟩
    obtain ⟨-, hreader, hprobes⟩ := pollDue_spec hdue
    rw [hdue] at hloop
    cases due with
    | false =>
      obtain ⟨rfl, rfl⟩ := hloop
      exact h.snoc (.inl (hsent.trans hprobes))
    | true =>
      rcases hpoll : irPoll iecReader n₁ i with ⟨n₂, reads⟩
      simp only [hpoll] at hloop
      obtain ⟨rfl, rfl⟩ := hloop
      rw [sentBy_append, hprobes, List.nil_append] at hsent
      rcases irPoll_spec hpoll with hnone | ⟨p, r₁, hone, himport, hexport, hblock⟩
      · exact h.snoc (.inl (hsent.trans hnone))
      · rw [hreader] at himport
        exact h.snoc (.inr ⟨p, hsent.trans hone, .inl ⟨i, r₁, rfl, himport, hexport, hblock⟩⟩)

end IrNode

/-- In every run of the three meter nodes, over any meter: each payload sent
holds what the reader's getters returned in one read pass made since the node
last sent. On the IR node both values stand in one data block, and without an
export flow the CV node sends export 0. -/
theorem meterNodes_send_fresh :
    (∀ (ρ ι : Type) (reader : Reader ρ ι) (r : ρ) (uid : Uid) (communityId unitId nodeType : UInt8)
      (inputs : List (NodeInput ι)),
      FreshSends (rs485NodeLoop reader) (rs485Reads reader)
        (passes (rs485NodeLoop reader) (EndNode.setup r uid communityId unitId nodeType) inputs)) ∧
    (∀ (pollIntervalMs : UInt32) (r : Iec6205621Reader) (uid : Uid) (communityId unitId nodeType : UInt8)
      (actions : List IrAction),
      FreshSends (irAct pollIntervalMs) irReads
        (passes (irAct pollIntervalMs) (EndNode.setup r uid communityId unitId nodeType) actions)) ∧
    (∀ (ρ ι : Type) (reader : Reader ρ ι) (exportFlowName : List UInt8) (pollIntervalMs : UInt32) (r : ρ) (uid : Uid)
      (communityId unitId nodeType : UInt8) (inputs : List (NodeInput ι)),
      FreshSends (cvNodeLoop reader exportFlowName pollIntervalMs) (cvReads reader exportFlowName)
        (passes (cvNodeLoop reader exportFlowName pollIntervalMs)
          (EndNode.setup r uid communityId unitId nodeType) inputs)) := by
  refine ⟨?_, ?_, ?_⟩
  · intro ρ ι reader r uid communityId unitId nodeType inputs
    obtain ⟨_, hfresh, -⟩ := passes_invariant (Rs485Inv reader)
      (rs485Inv_nil (n := EndNode.setup r uid communityId unitId nodeType) rfl) rs485Inv_step inputs
    exact hfresh
  · intro pollIntervalMs r uid communityId unitId nodeType actions
    obtain ⟨_, hfresh⟩ := @passes_invariant _ _ (irAct pollIntervalMs)
      (fun moves _ => FreshSends (irAct pollIntervalMs) irReads moves)
      (EndNode.setup r uid communityId unitId nodeType) freshSends_nil irAct_step actions
    exact hfresh
  · intro ρ ι reader exportFlowName pollIntervalMs r uid communityId unitId nodeType inputs
    have hstart : CvInv reader exportFlowName pollIntervalMs [] (EndNode.setup r uid communityId unitId nodeType) :=
      ⟨freshSends_nil, fun _ => rfl⟩
    obtain ⟨_, hfresh, -⟩ := passes_invariant (CvInv reader exportFlowName pollIntervalMs) hstart cvInv_step inputs
    exact hfresh

def countingGetter (step : UInt32) : Getter UInt32 Unit := fun _ r _ => (true, r, r + step)

private theorem countingGetter_untouched (step : UInt32) : (countingGetter step).Untouched := fun _ _ _ h => by cases h

def countingMeter : Reader UInt32 Unit where
  probe _ r := (true, r)
  getImport := countingGetter 1
  getExport := countingGetter 1
  getVoltage := countingGetter 1
  import_untouched := countingGetter_untouched 1
  export_untouched := countingGetter_untouched 1
  voltage_untouched := countingGetter_untouched 1

/-- A run that reads, sends, waits a minute, then reads and sends again. -/
def steadyInputs : List (NodeInput Unit) :=
  [0, 0, 60000, 60000, 60000].map fun now => ⟨⟨now, now, ()⟩, now, now, (), (), (), now⟩

theorem meterNodes_send_fresh_steady :
    FreshSends (rs485NodeLoop countingMeter) (rs485Reads countingMeter) (passes (rs485NodeLoop countingMeter)
      (EndNode.setup 7 (Vector.replicate uidLen 7) 1 2 3) steadyInputs) ∧
    ((passes (rs485NodeLoop countingMeter) (EndNode.setup 7 (Vector.replicate uidLen 7) 1 2 3) steadyInputs).flatMap
      (sentIn (rs485NodeLoop countingMeter))).map (fun p => (p.seq, p.kwhImport, p.kwhExport, p.voltage)) =
        [(0, 7, 8, 9), (60000, 10, 11, 12)] :=
  ⟨meterNodes_send_fresh.1 UInt32 Unit countingMeter 7 (Vector.replicate uidLen 7) 1 2 3 steadyInputs,
    by decide +kernel⟩

end IotFirmware
