import IotFirmware.Foundation.Chronicle
import IotFirmware.Foundation.Runs
import IotFirmware.Protocols.Iec6205621

/-! The rate of the IR link over any run of calls: what the reader takes it to
be, and what it is at every message and every data block. -/
namespace IotFirmware
namespace Iec6205621Reader
open Chronicle

inductive IecCall where
  | probe (s : IrSession)
  | getImport (s : IrSession) (val : UInt32)
  | getExport (val : UInt32)

def call (r : Iec6205621Reader) : IecCall → Iec6205621Reader × List HeadEvent
  | .probe s => (r.probe s).2
  | .getImport s val => (r.getImport s val).2.2
  | .getExport _ => (r, [])

abbrev IecStep (r : Iec6205621Reader) (c : IecCall) (r' : Iec6205621Reader) : Prop := r' = (r.call c).1

def headEvents (m : Move Iec6205621Reader IecCall) : List HeadEvent := (m.before.call m.label).2

def headLog (moves : List (Move Iec6205621Reader IecCall)) : List HeadEvent := moves.flatMap headEvents

def baud? : HeadEvent → Option UInt32
  | .setBaudRate baud => some baud
  | _ => none

/-- The last rate the head was given, or the one it was opened at. -/
def headRate (log : List HeadEvent) : UInt32 := (log.filterMap baud?).getLastD startBaud

def AtStartRate (e : HeadEvent) (before : List HeadEvent) : Prop := ∀ data, e = .sent data → headRate before = startBaud

def IsRead (e : HeadEvent) : Prop := ∃ bytes, e = .read bytes

def IsBaudId (code : UInt8) : Prop := 0x30 ≤ code ∧ code ≤ 0x36

variable {log events : List HeadEvent} {r : Iec6205621Reader} {s : IrSession} {baud : UInt32}

theorem baudRateFromId_eq_some {code : UInt8} (h : baudRateFromId code = some baud) :
    IsBaudId code ∧ baud.toNat = 300 * 2 ^ (code.toNat - 0x30) := by
  unfold baudRateFromId at h
  repeat' split at h
  all_goals cases h
  all_goals
    subst code
    exact ⟨⟨by decide, by decide⟩, rfl⟩

private theorem headRate_append_reads (hreads : ∀ e ∈ events, IsRead e) : headRate (log ++ events) = headRate log := by
  have hnone : events.filterMap baud? = [] := by
    refine List.filterMap_eq_nil_iff.mpr fun e he => ?_
    obtain ⟨bytes, rfl⟩ := hreads e he
    rfl
  rw [headRate, List.filterMap_append, hnone, List.append_nil, headRate]

@[simp] theorem headRate_concat_set : headRate (log ++ [.setBaudRate baud]) = baud := by
  simp [headRate, baud?]

@[simp] theorem headRate_concat_sent (data : List UInt8) : headRate (log ++ [.sent data]) = headRate log := by
  simp [headRate, baud?]

private theorem each_append_reads (h : Each AtStartRate log) (hreads : ∀ e ∈ events, IsRead e) :
    Each AtStartRate (log ++ events) := by
  refine h.append fun before e after hsplit data hsent => ?_
  obtain ⟨bytes, hread⟩ := hreads e (by simp [hsplit])
  exact absurd (hread.symm.trans hsent) (by simp)

theorem isRead_readIdentification (s : IrSession) : ∀ e ∈ (readIdentification s).2, IsRead e := by
  unfold readIdentification
  dsimp only
  split <;> simp [IsRead]

private theorem isRead_checkFrame (block : List UInt8) (wait : Wait) : ∀ e ∈ (checkFrame block wait).2, IsRead e := by
  unfold checkFrame
  split
  · simp
  · split <;> simp [IsRead]

theorem isRead_readBlock (s : IrSession) : ∀ e ∈ (readBlock s).2, IsRead e := by
  unfold readBlock
  dsimp only
  split
  · simp [IsRead]
  · have hframe := isRead_checkFrame (dataBlock s) s.tail
    split
    all_goals
      rename_i hcheck
      rw [hcheck] at hframe
      exact List.forall_mem_cons.mpr ⟨⟨_, rfl⟩, hframe⟩

/-- An accepted identification has a baud ID, and offers its rate. -/
theorem checkIdentification_eq_ok {identification : List UInt8} (h : checkIdentification identification = .ok baud) :
    IsBaudId (identification.getD 4 0) ∧ baud.toNat = 300 * 2 ^ ((identification.getD 4 0).toNat - 0x30) := by
  unfold checkIdentification at h
  split at h
  · exact absurd h (by simp)
  · split at h
    · exact absurd h (by simp)
    · split at h
      · exact absurd h (by simp)
      · rename_i hbaud
        obtain rfl := Except.ok.inj h
        exact baudRateFromId_eq_some hbaud

def opening (r : Iec6205621Reader) (s : IrSession) : List HeadEvent := (r.requestIdentification s).2.2.2

/-- The opening goes out at the starting rate, and leaves the head there. -/
theorem opening_spec (hrate : r.currentBaud = headRate log) (heach : Each AtStartRate log) :
    Each AtStartRate (log ++ r.opening s) ∧ headRate (log ++ r.opening s) = startBaud ∧
      ∀ data, .sent data ∈ r.opening s → data = requestMessage := by
  obtain ⟨retune, hretune, hsent, hstart⟩ : ∃ retune, r.opening s = retune ++ [.sent requestMessage] ++
      (readIdentification s).2 ∧ (∀ e ∈ retune, e = .setBaudRate startBaud) ∧ headRate (log ++ retune) = startBaud := by
    by_cases h : r.currentBaud = startBaud
    · refine ⟨[], ?_, by simp, by rw [List.append_nil, ← hrate, h]⟩
      simp [opening, requestIdentification, h]
    · refine ⟨[.setBaudRate startBaud], ?_, by simp, by simp⟩
      simp [opening, requestIdentification, h]
  have hreads := isRead_readIdentification s
  have hretuned : Each AtStartRate (log ++ retune) := by
    refine heach.append fun before e after hsplit data hdata => ?_
    have hset := hsent e (by simp [hsplit])
    exact absurd (hset.symm.trans hdata) (by simp)
  have hrequest : Each AtStartRate (log ++ retune ++ [.sent requestMessage]) := hretuned.snoc fun _ _ => hstart
  rw [hretune, ← List.append_assoc, ← List.append_assoc]
  refine ⟨each_append_reads hrequest hreads, ?_, fun data hdata => ?_⟩
  · rw [headRate_append_reads hreads, headRate_concat_sent, hstart]
  · rcases List.mem_append.mp hdata with hdata | hdata
    · rcases List.mem_append.mp hdata with hdata | hdata
      · exact absurd (hsent _ hdata) (by simp)
      · simpa using hdata
    · obtain ⟨bytes, hbytes⟩ := hreads _ hdata
      exact absurd hbytes (by simp)

/-- A probe is an opening. -/
theorem probe_spec : (r.probe s).2.2 = r.opening s ∧ (r.probe s).2.1.currentBaud = startBaud := by
  have hstart : (r.requestIdentification s).2.2.1.currentBaud = startBaud := rfl
  unfold probe opening
  split
  all_goals
    rename_i h
    rw [h] at hstart ⊢
    exact ⟨rfl, hstart⟩

/-- An import reading is an opening, and where the identification is accepted
the ACK, the rate it selects and the data block at that rate. -/
theorem getImport_spec (val : UInt32) :
    match checkIdentification (readIdentification s).1 with
    | .error _ => (r.getImport s val).2.2.2 = r.opening s ∧ (r.getImport s val).2.2.1.currentBaud = startBaud
    | .ok baud =>
      (r.getImport s val).2.2.2 = r.opening s ++ [.sent (ackMessage ((readIdentification s).1.getD 4 0))] ++
          [.setBaudRate baud] ++ (readBlock s).2 ∧
        (r.getImport s val).2.2.1.currentBaud = baud := by
  cases h : checkIdentification (readIdentification s).1 with
  | error code => simp [getImport, handshake, opening, requestIdentification, h]
  | ok baud =>
    obtain ⟨readings, reads, hblock⟩ : ∃ readings reads, readBlock s = (readings, reads) := ⟨_, _, rfl⟩
    cases readings <;> simp [getImport, handshake, opening, requestIdentification, h, hblock]

/-- What a call sends besides the request is the ACK of an accepted identification. -/
theorem sent_call {c : IecCall} (hrate : r.currentBaud = headRate log) (heach : Each AtStartRate log)
    {data : List UInt8} (hdata : .sent data ∈ (r.call c).2) :
    data = requestMessage ∨ ∃ s val, c = .getImport s val ∧ IsBaudId ((readIdentification s).1.getD 4 0) ∧
      data = ackMessage ((readIdentification s).1.getD 4 0) := by
  cases c with
  | probe s =>
    rw [call, probe_spec.1] at hdata
    exact .inl ((opening_spec hrate heach).2.2 data hdata)
  | getExport => exact absurd hdata (by simp [call])
  | getImport s val =>
    have hspec := @getImport_spec r s val
    cases h : checkIdentification (readIdentification s).1 with
    | error code =>
      rw [h] at hspec
      rw [call, hspec.1] at hdata
      exact .inl ((opening_spec hrate heach).2.2 data hdata)
    | ok baud =>
      rw [h] at hspec
      rw [call, hspec.1] at hdata
      simp only [List.append_assoc, List.mem_append, List.mem_singleton] at hdata
      rcases hdata with hopen | hack | hset | hread
      · exact .inl ((opening_spec hrate heach).2.2 data hopen)
      · exact .inr ⟨s, val, rfl, (checkIdentification_eq_ok h).1, HeadEvent.sent.inj hack⟩
      · exact absurd hset (by simp)
      · obtain ⟨bytes, hbytes⟩ := isRead_readBlock s _ hread
        exact absurd hbytes (by simp)

/-- Each call keeps the cached rate true and sends at the starting rate. -/
theorem call_spec {c : IecCall} (hrate : r.currentBaud = headRate log) (heach : Each AtStartRate log) :
    (r.call c).1.currentBaud = headRate (log ++ (r.call c).2) ∧ Each AtStartRate (log ++ (r.call c).2) := by
  cases c with
  | probe s =>
    obtain ⟨hopen, hstart, -⟩ := opening_spec (s := s) hrate heach
    obtain ⟨hevents, hbaud⟩ := @probe_spec r s
    rw [call, hevents, hbaud, hstart]
    exact ⟨rfl, hopen⟩
  | getExport => simpa [call] using ⟨hrate, heach⟩
  | getImport s val =>
    obtain ⟨hopen, hstart, -⟩ := opening_spec (s := s) hrate heach
    have hspec := @getImport_spec r s val
    cases h : checkIdentification (readIdentification s).1 with
    | error code =>
      rw [h] at hspec
      rw [call, hspec.1, hspec.2, hstart]
      exact ⟨rfl, hopen⟩
    | ok baud =>
      rw [h] at hspec
      have hreads := isRead_readBlock s
      have hack := hopen.snoc (e := .sent (ackMessage ((readIdentification s).1.getD 4 0))) fun _ _ => hstart
      have hset := hack.snoc (e := .setBaudRate baud) fun _ h => absurd h (by simp)
      rw [call, hspec.1, hspec.2, ← List.append_assoc, ← List.append_assoc, ← List.append_assoc,
        headRate_append_reads hreads, headRate_concat_set]
      exact ⟨rfl, each_append_reads hset hreads⟩

/-- What a run comes to, call by call. -/
theorem headLog_run {r₀ : Iec6205621Reader} {moves : List (Move Iec6205621Reader IecCall)}
    (hrun : Run IecStep r₀.init moves r) :
    r.currentBaud = headRate (headLog moves) ∧ Each AtStartRate (headLog moves) := by
  refine hrun.invariant (fun moves r => r.currentBaud = headRate (headLog moves) ∧ Each AtStartRate (headLog moves))
    ⟨rfl, each_nil⟩ fun moves r c r' _ h hstep => ?_
  subst hstep
  rw [headLog, List.flatMap_append, List.flatMap_singleton]
  exact call_spec h.1 h.2

def read? : HeadEvent → Option (List UInt8)
  | .read bytes => some bytes
  | _ => none

private theorem reads_opening (r : Iec6205621Reader) (s : IrSession) :
    (r.opening s).filterMap read? = (readIdentification s).2.filterMap read? := by
  unfold opening requestIdentification
  split <;> simp [List.filterMap_cons, read?]

/-- Over every run of calls the reader knows the rate its head is at, sends at the starting rate only, acknowledges
nothing but an accepted identification of a reading, and reads the data block at the rate that identification names. -/
theorem iecReader_speed {r₀ : Iec6205621Reader} {moves : List (Move Iec6205621Reader IecCall)}
    (hrun : Run IecStep r₀.init moves r) :
    r.currentBaud = headRate (headLog moves) ∧ Each AtStartRate (headLog moves) ∧
      ∀ front m back, moves = front ++ m :: back →
        (∀ data, .sent data ∈ headEvents m → data = requestMessage ∨ ∃ s val, m.label = .getImport s val ∧
          IsBaudId ((readIdentification s).1.getD 4 0) ∧ data = ackMessage ((readIdentification s).1.getD 4 0)) ∧
        (∀ s val, m.label = .getImport s val → ∃ before block, headEvents m = before ++ block ∧
          before.filterMap read? = (readIdentification s).2.filterMap read? ∧
          (block = [] ∨ block = (readBlock s).2 ∧ (∀ e ∈ block, IsRead e) ∧
            IsBaudId ((readIdentification s).1.getD 4 0) ∧
            (headRate (headLog front ++ before)).toNat =
              300 * 2 ^ (((readIdentification s).1.getD 4 0).toNat - 0x30))) := by
  refine ⟨(headLog_run hrun).1, (headLog_run hrun).2, ?_⟩
  rintro front m back rfl
  obtain ⟨hrate, heach⟩ := headLog_run hrun.move.1
  refine ⟨fun data => sent_call hrate heach, fun s val hlabel => ?_⟩
  have hspec := @getImport_spec m.before s val
  rw [headEvents, hlabel, call]
  cases h : checkIdentification (readIdentification s).1 with
  | error code =>
    rw [h] at hspec
    exact ⟨m.before.opening s, [], by rw [hspec.1, List.append_nil], reads_opening m.before s, .inl rfl⟩
  | ok baud =>
    rw [h] at hspec
    obtain ⟨hid, hbaud⟩ := checkIdentification_eq_ok h
    refine ⟨_, (readBlock s).2, hspec.1, ?_, .inr ⟨rfl, isRead_readBlock s, hid, ?_⟩⟩
    · rw [List.filterMap_append, List.filterMap_append, reads_opening]
      simp [read?]
    · rw [← List.append_assoc, headRate_concat_set, hbaud]

def arriving (bytes : List UInt8) : Wait := ⟨0, bytes.map fun b => ⟨1, some b⟩⟩

/-- A session in which the meter offers 9600 baud and then sends an empty block. -/
def emptySession : IrSession where
  identification := arriving (ascii "/ABC5\r\n")
  behindEcho := arriving []
  dataBlock := arriving blockEnd
  tail := arriving []

theorem iecReader_speed_twice :
    ([IecCall.getImport emptySession 0, .probe emptySession].foldl (fun r c => (r.call c).1)
        (init {})).currentBaud = 300 ∧
      headRate (headLog (movesOf (fun r c => (r.call c).1) (init {}) [IecCall.getImport emptySession 0])) = 9600 := by
  have htwice := iecReader_speed (run_movesOf (fun r c => (r.call c).1) (init {})
    [IecCall.getImport emptySession 0, .probe emptySession])
  have honce := iecReader_speed (run_movesOf (fun r c => (r.call c).1) (init {}) [IecCall.getImport emptySession 0])
  exact ⟨htwice.1.trans (by decide +kernel), honce.1.symm.trans (by decide +kernel)⟩

end Iec6205621Reader
end IotFirmware
