import IotFirmware.Nodes.FreshReadings
import IotFirmware.Protocols.IecMeter

/-! An IR node at a mode C meter: its loop, its reader, the head and the meter
together, from its bring up on. -/
namespace IotFirmware

namespace Conversation
variable {meter : IecMeter}

def AnswersAll (meter : IecMeter) : Conversation → List ConversationAction → Prop
  | _, [] => True
  | c, a :: actions => c.Answers meter a ∧ AnswersAll meter (c.next meter a) actions

def nextAll (meter : IecMeter) (c : Conversation) (actions : List ConversationAction) : Conversation :=
  actions.foldl (next meter) c

private theorem answersAll_of_forall {c : Conversation} {actions : List ConversationAction}
    (h : ∀ a ∈ actions, ∀ c : Conversation, c.Answers meter a) : c.AnswersAll meter actions := by
  induction actions generalizing c with
  | nil => trivial
  | cons a actions ih =>
    rw [List.forall_mem_cons] at h
    exact ⟨h.1 c, ih h.2⟩

private theorem answersAll_append {c : Conversation} {first more : List ConversationAction}
    (h : c.AnswersAll meter (first ++ more)) :
    c.AnswersAll meter first ∧ (c.nextAll meter first).AnswersAll meter more := by
  induction first generalizing c with
  | nil => exact ⟨trivial, h⟩
  | cons a first ih =>
    obtain ⟨hfirst, hmore⟩ := ih h.2
    exact ⟨⟨h.1, hfirst⟩, hmore⟩

private theorem nextAll_append (c : Conversation) (first more : List ConversationAction) :
    c.nextAll meter (first ++ more) = (c.nextAll meter first).nextAll meter more := List.foldl_append

end Conversation

structure IrSite where
  node : EndNode Iec6205621Reader
  rate : UInt32

/-- What a loop pass takes from outside, with the block the meter has for it. -/
structure IrPass where
  input : NodeInput IrSession
  block : MeterBlock

namespace IrSite
open Conversation Iec6205621Reader

def start (uid : Uid) (communityId unitId nodeType : UInt8) : IrSite :=
  ⟨.setup (Iec6205621Reader.init {}) uid communityId unitId nodeType, startBaud⟩

def conversation (site : IrSite) : Conversation := ⟨site.node.reader, site.rate⟩

/-- What a pass asks of the meter: a probe where the gate wants one, and the readings once a poll is due. -/
def calls (pollIntervalMs : UInt32) (n : EndNode Iec6205621Reader) (pass : IrPass) : List ConversationAction :=
  (n.checkReady iecReader pass.input.gate).2.2.map (fun _ => .probe pass.input.gate.probe) ++
    if (pollDue iecReader n pass.input pollIntervalMs).1 then [.getImport pass.input.importIo 0 pass.block] else []

def next (meter : IecMeter) (pollIntervalMs : UInt32) (site : IrSite) (pass : IrPass) : IrSite :=
  ⟨(irNodeLoop iecReader pollIntervalMs site.node pass.input).1,
    (site.conversation.nextAll meter (calls pollIntervalMs site.node pass)).rate⟩

/-- A pass in which the meter answers all it hears. -/
inductive Step (meter : IecMeter) (pollIntervalMs : UInt32) (site : IrSite) : IrPass → IrSite → Prop
  | pass {pass : IrPass} : site.conversation.AnswersAll meter (calls pollIntervalMs site.node pass) →
      Step meter pollIntervalMs site pass (site.next meter pollIntervalMs pass)

theorem Step.answered {meter : IecMeter} {pollIntervalMs : UInt32} {site site' : IrSite} {pass : IrPass}
    (h : Step meter pollIntervalMs site pass site') :
    site.conversation.AnswersAll meter (calls pollIntervalMs site.node pass) := by
  cases h with
  | pass ha => exact ha

def reading (p : Payload) (block : MeterBlock) (seq : UInt32) : Payload :=
  { p with kwhImport := block.importValue.bits, kwhExport := block.exportValue.bits, seq }

/-- The reader knows the rate of its head, and the gate is open or wants a probe. -/
structure SiteInv (site : IrSite) : Prop where
  rate_eq : site.node.reader.currentBaud = site.rate
  gate_open : site.node.gate.isReady = true ∨ site.node.gate.probeDue = true

variable {meter : IecMeter} {pollIntervalMs : UInt32} {site site' : IrSite} {pass : IrPass}

/-- A gate that is open or wants a probe is open behind an answered one. -/
theorem checkReady_answered (h : SiteInv site) {i : GateInput IrSession}
    (ha : site.conversation.AnswersAll meter
      ((site.node.checkReady iecReader i).2.2.map fun _ => .probe i.probe)) :
    ∃ n probes, site.node.checkReady iecReader i = (true, n, probes) ∧
      (probes = [] ∨ probes = [.probed true] ∧ (iecReader.probe i.probe site.node.reader).1 = true) ∧
      n.gate.isReady = true ∧ n.payload = site.node.payload ∧ n.lastPoll = site.node.lastPoll ∧
      (site.conversation.nextAll meter (probes.map fun _ => .probe i.probe)).reader = n.reader ∧
      (site.conversation.nextAll meter (probes.map fun _ => .probe i.probe)).rate = n.reader.currentBaud := by
  obtain ⟨hrate, hgate⟩ := h
  by_cases hready : site.node.gate.isReady = true
  · refine ⟨site.node, [], ?_, .inl rfl, hready, rfl, rfl, rfl, hrate.symm⟩
    simp [EndNode.checkReady, MeterGate.ready, hready]
  · have hdue : site.node.gate.probeDue = true := hgate.resolve_left hready
    rcases hprobe : iecReader.probe i.probe site.node.reader with ⟨ok, r⟩
    obtain ⟨hok, hr⟩ := Prod.mk.inj hprobe
    have hcheck : ∃ n, site.node.checkReady iecReader i = (ok, n, [.probed ok]) ∧ (ok = true → n.gate.isReady = true) ∧
        n.payload = site.node.payload ∧ n.lastPoll = site.node.lastPoll ∧ n.reader = r := by
      cases ok <;> simp [EndNode.checkReady, MeterGate.ready, hready, hdue, hprobe]
    obtain ⟨n, hcheck, hopen, hpayload, hlast, rfl⟩ := hcheck
    rw [hcheck] at ha
    obtain ⟨hprobed, -⟩ := ha
    obtain rfl : ok = true := hok.symm.trans (probe_answered hrate hprobed).1
    refine ⟨n, _, hcheck, .inr ⟨rfl, rfl⟩, hopen rfl, hpayload, hlast, hr, ?_⟩
    rw [← hr]
    exact (rate_next hrate hprobed).symm

def pollEvents (p : Payload) (block : MeterBlock) (seq : UInt32) : List NodeEvent :=
  [.imported (some block.importValue.bits), .exported (some block.exportValue.bits), .sent (reading p block seq)]

private theorem irPoll_answered {n : EndNode Iec6205621Reader} {c : Conversation} (hreader : c.reader = n.reader)
    (hrate : c.reader.currentBaud = c.rate) {i : NodeInput IrSession} {block : MeterBlock}
    (ha : c.Answers meter (.getImport i.importIo 0 block)) :
    ∃ n', irPoll iecReader n i = (n', pollEvents n.payload block i.seq) ∧ n'.gate = n.gate.reportRead true ∧
      n'.reader = (c.next meter (.getImport i.importIo 0 block)).reader := by
  obtain ⟨⟨htrue, hbits, hexport⟩, -⟩ := getImport_answered hrate ha
  have himport : iecReader.getImport i.importIo n.reader 0 =
      (true, block.importValue.bits, (c.next meter (.getImport i.importIo 0 block)).reader) := by
    rw [← hreader, ← htrue, ← hbits]
    rfl
  have hcached : iecReader.getExport i.exportIo (c.next meter (.getImport i.importIo 0 block)).reader 0 =
      (true, block.exportValue.bits, (c.next meter (.getImport i.importIo 0 block)).reader) := by
    have hread := hexport 0
    rw [Prod.ext_iff] at hread
    exact Prod.ext hread.1 (Prod.ext hread.2 rfl)
  simp only [irPoll, himport, EndNode.report, hcached]
  exact ⟨_, rfl, rfl, rfl⟩

theorem isReady_reportRead {gate : MeterGate} (h : gate.isReady = true) : (gate.reportRead true).isReady = true := by
  simp [MeterGate.reportRead, h]

/-- A pass in which the meter answers keeps the invariant: an answered probe or none,
and where a poll is due both readings of the block and the payload with them. -/
theorem pass_answered (h : SiteInv site)
    (ha : site.conversation.AnswersAll meter (calls pollIntervalMs site.node pass)) :
    SiteInv (site.next meter pollIntervalMs pass) ∧ ∃ probes,
      (probes = [] ∨
        probes = [.probed true] ∧ (iecReader.probe pass.input.gate.probe site.node.reader).1 = true) ∧
      (irNodeLoop iecReader pollIntervalMs site.node pass.input).2 = probes ++
        if pass.input.now - site.node.lastPoll < pollIntervalMs then []
        else pollEvents site.node.payload pass.block pass.input.seq := by
  obtain ⟨hprobed, hread⟩ := answersAll_append ha
  obtain ⟨n, probes, hcheck, hprobes, hopen, hpayload, hlast, hreader, hrate⟩ := checkReady_answered h hprobed
  rw [hcheck] at hread
  by_cases hdue : pass.input.now - site.node.lastPoll < pollIntervalMs
  · have hpoll : pollDue iecReader site.node pass.input pollIntervalMs = (false, n, probes) := by
      rw [pollDue, hcheck]
      exact if_pos (hlast ▸ hdue)
    have hloop : irNodeLoop iecReader pollIntervalMs site.node pass.input = (n, probes) := by rw [irNodeLoop, hpoll]
    refine ⟨⟨?_, .inl ?_⟩, probes, hprobes, ?_⟩
    · rw [next, hloop, calls, hcheck, hpoll]
      simpa using hrate.symm
    · rw [next, hloop]
      exact hopen
    · rw [hloop, if_pos hdue, List.append_nil]
  · have hpoll : pollDue iecReader site.node pass.input pollIntervalMs =
        (true, { n with lastPoll := pass.input.later }, probes) := by
      rw [pollDue, hcheck]
      exact if_neg (hlast ▸ hdue)
    rw [hpoll] at hread
    obtain ⟨n', hevents, hgate, hreader'⟩ :=
      @irPoll_answered meter { n with lastPoll := pass.input.later } _ hreader (hreader ▸ hrate.symm) _ _ hread.1
    have hloop : irNodeLoop iecReader pollIntervalMs site.node pass.input =
        (n', probes ++ pollEvents n.payload pass.block pass.input.seq) := by
      rw [irNodeLoop, hpoll]
      simp only [hevents]
    refine ⟨⟨?_, .inl ?_⟩, probes, hprobes, ?_⟩
    · rw [next, hloop, calls, hcheck, hpoll, nextAll_append]
      exact hreader' ▸ rate_next (hreader ▸ hrate.symm) hread.1
    · rw [next, hloop]
      exact hgate ▸ isReady_reportRead hopen
    · rw [hloop, if_neg hdue, hpayload]

/-- An IR node at a mode C meter that answers in time never fails a probe or a read from its
bring up on: in exactly the passes in which its interval has passed, also over a wrap of
the clock, it sends one payload, with the import and the export value of the meter's block
for that pass and the next sequence number. -/
theorem irNode_reads {uid : Uid} {communityId unitId nodeType : UInt8} {moves : List (Move IrSite IrPass)}
    (hrun : Run (Step meter pollIntervalMs) (start uid communityId unitId nodeType) moves site)
    {m : Move IrSite IrPass} (hm : m ∈ moves) :
    ∃ probes,
      (probes = [] ∨ probes = [.probed true] ∧
        (iecReader.probe m.label.input.gate.probe m.before.node.reader).1 = true) ∧
      (irNodeLoop iecReader pollIntervalMs m.before.node m.label.input).2 = probes ++
        if m.label.input.now - m.before.node.lastPoll < pollIntervalMs then []
        else [.imported (some m.label.block.importValue.bits), .exported (some m.label.block.exportValue.bits),
          .sent { m.before.node.payload with
            kwhImport := m.label.block.importValue.bits
            kwhExport := m.label.block.exportValue.bits
            seq := m.label.input.seq }] := by
  obtain ⟨front, back, rfl⟩ := List.append_of_mem hm
  obtain ⟨hfront, hstep, -⟩ := hrun.move
  have hinv : SiteInv m.before := hfront.invariant (fun _ => SiteInv) ⟨rfl, .inr rfl⟩ fun _ _ _ _ _ h hs => by
    cases hs with
    | pass ha => exact (pass_answered h ha).1
  have hanswered : m.before.conversation.AnswersAll meter (calls pollIntervalMs m.before.node m.label) :=
    hstep.answered
  exact (pass_answered hinv hanswered).2

def firstPass : IrPass where
  input := {
    gate := ⟨0, 0, promptSession echoedMeter fiveSeven⟩
    now := 60000
    later := 60000
    importIo := promptSession echoedMeter fiveSeven
    exportIo := promptSession echoedMeter fiveSeven
    voltageIo := promptSession echoedMeter fiveSeven
    seq := 1 }
  block := fiveSeven

private theorem firstPass_answered (site : IrSite) :
    site.conversation.AnswersAll echoedMeter (calls 60000 site.node firstPass) := by
  refine answersAll_of_forall fun a ha c => ?_
  rcases List.mem_append.mp ha with ha | ha
  · obtain ⟨e, -, rfl⟩ := List.mem_map.mp ha
    exact fun _ => promptSession_identification echoedMeter fiveSeven
  · split at ha
    · obtain rfl := List.mem_singleton.mp ha
      exact ⟨fun _ => promptSession_identification echoedMeter fiveSeven,
        fun _ => promptSession_block echoedMeter fiveSeven, by decide⟩
    · exact absurd ha List.not_mem_nil

/-- The first payload, of 5 kWh in and 7 kWh out. -/
theorem irNode_reads_firstPass :
    .sent ⟨Vector.replicate uidLen 1, 1, 0x40A00000, 0x40E00000, 0, 1, 2, 2⟩ ∈
      (irNodeLoop iecReader 60000 (start (Vector.replicate uidLen 1) 1 2 2).node firstPass.input).2 := by
  have hbits : fiveSeven.importValue.bits = 0x40A00000 ∧ fiveSeven.exportValue.bits = 0x40E00000 := by decide +kernel
  have hrun := Run.nil.snoc (Step.pass (firstPass_answered (start (Vector.replicate uidLen 1) 1 2 2)))
  obtain ⟨probes, -, hevents⟩ := irNode_reads hrun (List.mem_singleton.mpr rfl)
  rw [if_neg (by decide)] at hevents
  refine hevents ▸ List.mem_append_right probes ?_
  rw [← hbits.1, ← hbits.2]
  simp [firstPass, start, EndNode.setup, bringUpPayload]

end IrSite
end IotFirmware
