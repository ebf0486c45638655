import IotFirmware.Bringup.MeterGate
import IotFirmware.Foundation.Clock
import IotFirmware.Foundation.Runs
import IotFirmware.Foundation.Streaks

/-! The gate against its history: what its calls so far say about the meter is
what it answers, and when it probes. -/
namespace IotFirmware
namespace MeterGate
open Clock Streaks
variable {ρ ι : Type}

/-- A call to the gate: `ready` with the true times of its two clock readings,
what happens on the bus and the reader it finds, or `reportRead`. -/
inductive GateCall (ρ ι : Type) where
  | ready (now later : ℕ) (io : ι) (r : ρ)
  | report (success : Bool)

section History
variable (reader : Reader ρ ι)

def next (gate : MeterGate) : GateCall ρ ι → MeterGate
  | .ready now later io r => (gate.ready reader ⟨millis now, millis later, io⟩ r).2.2.1
  | .report success => gate.reportRead success

abbrev GateStep (gate : MeterGate) (call : GateCall ρ ι) (gate' : MeterGate) : Prop := gate' = next reader gate call

def returned (m : Move MeterGate (GateCall ρ ι)) : Option Bool :=
  match m.label with
  | .ready now later io r => some (m.before.ready reader ⟨millis now, millis later, io⟩ r).1
  | .report _ => none

def probed (m : Move MeterGate (GateCall ρ ι)) : Option Bool :=
  match m.label with
  | .ready now later io r => (m.before.ready reader ⟨millis now, millis later, io⟩ r).2.1
  | .report _ => none

def readerAfter (m : Move MeterGate (GateCall ρ ι)) (r : ρ) : ρ :=
  match m.label with
  | .ready now later io _ => (m.before.ready reader ⟨millis now, millis later, io⟩ r).2.2.2
  | .report _ => r

def probedAt (m : Move MeterGate (GateCall ρ ι)) : Option ℕ :=
  match m.label with
  | .ready _ later _ _ => (probed reader m).map fun _ => later
  | .report _ => none

def reported (m : Move MeterGate (GateCall ρ ι)) : Option Bool :=
  match m.label with
  | .ready _ _ _ _ => none
  | .report success => some success

/-- The reads reported since the last passing probe. -/
def readsSince (moves : List (Move MeterGate (GateCall ρ ι))) : List Bool :=
  (moves.rtakeWhile (probed reader · ≠ some true)).filterMap reported

/-- Some probe has passed, and since the last one that did there has been no run of `lostAfter` failed reads. -/
def Live (lostAfter : UInt8) (moves : List (Move MeterGate (GateCall ρ ι))) : Prop :=
  (∃ m ∈ moves, probed reader m = some true) ∧ ¬ List.replicate lostAfter.toNat false <:+: readsSince reader moves

/-- The meter was lost, and `ready` has not been called since. -/
def JustLost (lostAfter : UInt8) (moves : List (Move MeterGate (GateCall ρ ι))) : Prop :=
  ∃ front m back, moves = front ++ m :: back ∧ Live reader lostAfter front ∧ ¬ Live reader lostAfter (front ++ [m]) ∧
    ∀ x ∈ back, returned reader x = none

def lastProbe (moves : List (Move MeterGate (GateCall ρ ι))) : Option ℕ := (moves.filterMap (probedAt reader)).getLast?

/-- Every call to `ready` comes after the last probe, and less than a turn of the clock after it. -/
def OnTime (moves : List (Move MeterGate (GateCall ρ ι))) : Prop :=
  ∀ front m back, moves = front ++ m :: back → ∀ now later io r, m.label = .ready now later io r →
    ∀ since ∈ lastProbe reader front, since ≤ now ∧ now < since + 2 ^ 32

structure Tracks (retryMs : UInt32) (lostAfter : UInt8) (moves : List (Move MeterGate (GateCall ρ ι)))
    (gate : MeterGate) : Prop where
  retry : gate.retryMs = retryMs
  lost : gate.lostAfter = lostAfter
  isReady : gate.isReady = true ↔ Live reader lostAfter moves
  failedReads : gate.isReady = true → gate.failedReads.toNat = trailing false (readsSince reader moves)
  notDue : gate.isReady = true → gate.probeDue = false
  probeDue : gate.probeDue = true ↔ (∀ m ∈ moves, returned reader m = none) ∨ JustLost reader lostAfter moves
  lastProbeMs : gate.probeDue = false → ∃ since ∈ lastProbe reader moves, gate.lastProbeMs = millis since

end History

section Calls
variable {reader : Reader ρ ι} {lostAfter : UInt8} {moves : List (Move MeterGate (GateCall ρ ι))}
  {m : Move MeterGate (GateCall ρ ι)}

private theorem readsSince_concat (hpass : probed reader m ≠ some true) :
    readsSince reader (moves ++ [m]) = readsSince reader moves ++ (reported m).toList := by
  rw [readsSince, List.rtakeWhile_concat_pos _ _ _ (by simpa using hpass), List.filterMap_append]
  cases h : reported m <;> simp [readsSince, h]

/-- A passing probe brings the meter back. -/
theorem live_concat_pass (hlost : 1 ≤ lostAfter) (hpass : probed reader m = some true) :
    Live reader lostAfter (moves ++ [m]) ∧ readsSince reader (moves ++ [m]) = [] := by
  have hreads : readsSince reader (moves ++ [m]) = [] := by
    rw [readsSince, List.rtakeWhile_concat_neg _ _ _ (by simpa using hpass), List.filterMap_nil]
  refine ⟨⟨⟨m, by simp, hpass⟩, ?_⟩, hreads⟩
  rw [hreads, List.infix_nil, List.replicate_eq_nil_iff]
  have := UInt8.le_iff_toNat_le.mp hlost
  simp at this
  omega

private theorem live_concat (hpass : probed reader m ≠ some true) :
    Live reader lostAfter (moves ++ [m]) ↔ (∃ x ∈ moves, probed reader x = some true) ∧
      ¬ List.replicate lostAfter.toNat false <:+: readsSince reader moves ++ (reported m).toList := by
  rw [Live, readsSince_concat hpass]
  simp [hpass]

theorem lastProbe_concat : lastProbe reader (moves ++ [m]) = (probedAt reader m).or (lastProbe reader moves) := by
  rw [lastProbe, List.filterMap_append]
  cases h : probedAt reader m <;> simp [lastProbe, h]

/-- A call to `ready` that loses nothing leaves no loss to act on. -/
theorem not_justLost_concat (hready : returned reader m ≠ none)
    (hkeeps : Live reader lostAfter moves → Live reader lostAfter (moves ++ [m])) :
    ¬ JustLost reader lostAfter (moves ++ [m]) := by
  rintro ⟨front, x, back, hsplit, hlive, hlost, hback⟩
  rcases List.eq_nil_or_concat back with rfl | ⟨back, y, rfl⟩
  · obtain ⟨rfl, hm⟩ := List.append_inj' hsplit rfl
    obtain rfl := List.singleton_inj.mp hm
    exact hlost (hkeeps hlive)
  · have hlast : moves ++ [m] = (front ++ x :: back) ++ [y] := by simp [hsplit]
    obtain ⟨-, hm⟩ := List.append_inj' hlast rfl
    obtain rfl := List.singleton_inj.mp hm
    exact hready (hback m (by simp))

private theorem justLost_concat (hreport : returned reader m = none) :
    JustLost reader lostAfter (moves ++ [m]) ↔
      JustLost reader lostAfter moves ∨ (Live reader lostAfter moves ∧ ¬ Live reader lostAfter (moves ++ [m])) := by
  constructor
  · rintro ⟨front, x, back, hsplit, hlive, hlost, hback⟩
    rcases List.eq_nil_or_concat back with rfl | ⟨back, y, rfl⟩
    · obtain ⟨rfl, hm⟩ := List.append_inj' hsplit rfl
      obtain rfl := List.singleton_inj.mp hm
      exact .inr ⟨hlive, hlost⟩
    · have hlast : moves ++ [m] = (front ++ x :: back) ++ [y] := by simp [hsplit]
      obtain ⟨rfl, -⟩ := List.append_inj' hlast rfl
      exact .inl ⟨front, x, back, rfl, hlive, hlost, fun z hz => hback z (by simp [hz])⟩
  · rintro (⟨front, x, back, rfl, hlive, hlost, hback⟩ | ⟨hlive, hlost⟩)
    · refine ⟨front, x, back ++ [m], by simp, hlive, hlost, fun z hz => ?_⟩
      rcases List.mem_append.mp hz with hz | hz
      · exact hback z hz
      · rw [List.mem_singleton.mp hz, hreport]
    · exact ⟨moves, m, [], rfl, hlive, hlost, by simp⟩

private theorem reported_of_returned (hcalled : returned reader m ≠ none) : reported m = none := by
  cases hlabel : m.label with
  | ready => simp [reported, hlabel]
  | report => simp [returned, hlabel] at hcalled

private theorem returned_of_reported {success : Bool} (hreport : reported m = some success) :
    returned reader m = none ∧ probed reader m = none ∧ probedAt reader m = none := by
  cases hlabel : m.label with
  | ready => simp [reported, hlabel] at hreport
  | report => simp [returned, probed, probedAt, hlabel]

variable {retryMs : UInt32}

/-- A call to `ready` without a probe changes nothing. -/
theorem Tracks.unprobed (h : Tracks reader retryMs lostAfter moves m.before) (hcalled : returned reader m ≠ none)
    (hprobed : probed reader m = none) (hat : probedAt reader m = none) (hdue : m.before.probeDue = false) :
    Tracks reader retryMs lostAfter (moves ++ [m]) m.before := by
  have hreported := reported_of_returned hcalled
  have hpass : probed reader m ≠ some true := by simp [hprobed]
  have hlive : Live reader lostAfter (moves ++ [m]) ↔ Live reader lostAfter moves := by
    rw [live_concat hpass, hreported, Option.toList_none, List.append_nil, Live]
  refine ⟨h.retry, h.lost, h.isReady.trans hlive.symm, fun hready => ?_, h.notDue, ?_, fun hdue => ?_⟩
  · rw [readsSince_concat hpass, hreported, Option.toList_none, List.append_nil, h.failedReads hready]
  · rw [hdue]
    simp only [Bool.false_eq_true, false_iff, not_or]
    exact ⟨fun hnone => hcalled (hnone m (by simp)), not_justLost_concat hcalled hlive.mpr⟩
  · rw [lastProbe_concat, hat, Option.none_or]
    exact h.lastProbeMs hdue

/-- A probe that fails is timed. -/
theorem Tracks.probe_failed {later : ℕ} (h : Tracks reader retryMs lostAfter moves m.before)
    (hidle : m.before.isReady = false) (hcalled : returned reader m ≠ none) (hprobed : probed reader m = some false)
    (hat : probedAt reader m = some later) :
    Tracks reader retryMs lostAfter (moves ++ [m])
      { m.before with probeDue := false, lastProbeMs := millis later } := by
  have hreported := reported_of_returned hcalled
  have hpass : probed reader m ≠ some true := by simp [hprobed]
  have hlive : Live reader lostAfter (moves ++ [m]) ↔ Live reader lostAfter moves := by
    rw [live_concat hpass, hreported, Option.toList_none, List.append_nil, Live]
  refine ⟨h.retry, h.lost, h.isReady.trans hlive.symm, fun hready => ?_, fun _ => rfl, ?_, fun _ => ?_⟩
  · exact absurd (hidle.symm.trans hready) (by simp)
  · simp only [Bool.false_eq_true, false_iff, not_or]
    exact ⟨fun hnone => hcalled (hnone m (by simp)), not_justLost_concat hcalled hlive.mpr⟩
  · exact ⟨later, by simp [lastProbe_concat, hat], rfl⟩

/-- A probe that passes starts a new count of reads. -/
theorem Tracks.probe_passed {later : ℕ} (hlost : 1 ≤ lostAfter) (h : Tracks reader retryMs lostAfter moves m.before)
    (hcalled : returned reader m ≠ none) (hprobed : probed reader m = some true)
    (hat : probedAt reader m = some later) :
    Tracks reader retryMs lostAfter (moves ++ [m])
      { m.before with probeDue := false, lastProbeMs := millis later, isReady := true, failedReads := 0 } := by
  obtain ⟨hlive, hreads⟩ := @live_concat_pass _ _ reader _ moves m hlost hprobed
  refine ⟨h.retry, h.lost, ?_, fun _ => ?_, fun _ => rfl, ?_, fun _ => ?_⟩
  · simpa using hlive
  · rw [hreads, trailing_nil]
    rfl
  · simp only [Bool.false_eq_true, false_iff, not_or]
    exact ⟨fun hnone => hcalled (hnone m (by simp)), not_justLost_concat hcalled fun _ => hlive⟩
  · exact ⟨later, by simp [lastProbe_concat, hat], rfl⟩

/-- What a report makes of the history, once it is known whether the meter is still there. -/
theorem Tracks.report {success : Bool} {gate : MeterGate} (h : Tracks reader retryMs lostAfter moves m.before)
    (hreport : reported m = some success) (hretry : gate.retryMs = m.before.retryMs)
    (hlost : gate.lostAfter = m.before.lostAfter)
    (hlast : gate.lastProbeMs = m.before.lastProbeMs)
    (hready : gate.isReady = true ↔ Live reader lostAfter (moves ++ [m]))
    (hfailed : gate.isReady = true →
      gate.failedReads.toNat = trailing false (readsSince reader moves ++ [success]))
    (hdue : gate.probeDue = true ↔
      m.before.probeDue = true ∨ (m.before.isReady = true ∧ gate.isReady = false))
    (hnotDue : gate.isReady = true → gate.probeDue = false) :
    Tracks reader retryMs lostAfter (moves ++ [m]) gate := by
  obtain ⟨hreturned, hprobed, hat⟩ := @returned_of_reported _ _ reader m success hreport
  have hpass : probed reader m ≠ some true := by simp [hprobed]
  refine ⟨hretry.trans h.retry, hlost.trans h.lost, hready, fun hr => ?_, hnotDue, ?_, fun hd => ?_⟩
  · rw [readsSince_concat hpass, hreport]
    exact hfailed hr
  · rw [hdue, justLost_concat hreturned, h.probeDue, h.isReady, ← hready, Bool.not_eq_true]
    have hall : (∀ x ∈ moves ++ [m], returned reader x = none) ↔ ∀ x ∈ moves, returned reader x = none := by
      simp [or_imp, forall_and, hreturned]
    rw [hall, or_assoc]
  · have hbefore : m.before.probeDue = false := by
      by_contra hd'
      exact absurd (hd.symm.trans (hdue.mpr (.inl (by simpa using hd')))) (by simp)
    rw [lastProbe_concat, hat, Option.none_or, hlast]
    exact h.lastProbeMs hbefore

theorem history_of_ready (after : MeterGate) {gate gate' : MeterGate} {now later : ℕ} {io : ι} {r r' : ρ}
    {b : Bool} {p : Option Bool}
    (hcall : gate.ready reader ⟨millis now, millis later, io⟩ r = (b, p, gate', r')) :
    next reader gate (.ready now later io r) = gate' ∧
      returned reader ⟨gate, .ready now later io r, after⟩ = some b ∧
      probed reader ⟨gate, .ready now later io r, after⟩ = p ∧
      probedAt reader ⟨gate, .ready now later io r, after⟩ = p.map fun _ => later := by
  simp [next, returned, probed, probedAt, hcall]

/-- Each call to `ready` keeps the gate's variables in step with its history. -/
theorem Tracks.step_ready {gate : MeterGate} {now later : ℕ} {io : ι} {r : ρ} (hlost : 1 ≤ lostAfter)
    (h : Tracks reader retryMs lostAfter moves gate) :
    Tracks reader retryMs lostAfter
      (moves ++ [⟨gate, .ready now later io r, next reader gate (.ready now later io r)⟩])
      (next reader gate (.ready now later io r)) := by
  by_cases hready : gate.isReady = true
  · have hcall : gate.ready reader ⟨millis now, millis later, io⟩ r = (true, none, gate, r) := if_pos hready
    obtain ⟨hnext, hcalled, hprobed, hat⟩ := history_of_ready gate hcall
    rw [hnext]
    exact h.unprobed (by simp [hcalled]) hprobed hat (h.notDue hready)
  by_cases hwait : gate.probeDue = false ∧ millis now - gate.lastProbeMs < gate.retryMs
  · have hcall : gate.ready reader ⟨millis now, millis later, io⟩ r = (false, none, gate, r) := by
      rw [MeterGate.ready, if_neg hready, if_pos hwait]
    obtain ⟨hnext, hcalled, hprobed, hat⟩ := history_of_ready gate hcall
    rw [hnext]
    exact h.unprobed (by simp [hcalled]) hprobed hat hwait.1
  obtain ⟨passed, r', hprobe⟩ : ∃ passed r', reader.probe io r = (passed, r') := ⟨_, _, rfl⟩
  have hcall : gate.ready reader ⟨millis now, millis later, io⟩ r = _ :=
    (if_neg hready).trans (if_neg hwait)
  dsimp only at hcall
  rw [hprobe] at hcall
  cases passed with
  | false =>
    obtain ⟨hnext, hcalled, hprobed, hat⟩ := history_of_ready (next reader gate (.ready now later io r)) hcall
    rw [hnext] at hcalled hprobed hat ⊢
    exact h.probe_failed (by simpa using hready) (by simp [hcalled]) hprobed hat
  | true =>
    obtain ⟨hnext, hcalled, hprobed, hat⟩ := history_of_ready (next reader gate (.ready now later io r)) hcall
    rw [hnext] at hcalled hprobed hat ⊢
    exact h.probe_passed hlost (by simp [hcalled]) hprobed hat

/-- Each report does too. -/
theorem Tracks.step_report {gate : MeterGate} {success : Bool} (hlost : 1 ≤ lostAfter)
    (h : Tracks reader retryMs lostAfter moves gate) :
    Tracks reader retryMs lostAfter
      (moves ++ [⟨gate, .report success, gate.reportRead success⟩]) (gate.reportRead success) := by
  set m : Move MeterGate (GateCall ρ ι) := ⟨gate, .report success, gate.reportRead success⟩ with hm
  have hreport : reported m = some success := rfl
  have hlive : Live reader lostAfter (moves ++ [m]) ↔ (∃ x ∈ moves, probed reader x = some true) ∧
      ¬ List.replicate lostAfter.toNat false <:+: readsSince reader moves ++ [success] :=
    live_concat (by simp [probed, hm])
  by_cases hready : gate.isReady = true
  · obtain ⟨hpassed, hstreak⟩ := h.isReady.mp hready
    have hcount := h.failedReads hready
    have hshort := trailing_lt hstreak
    have hpos : 0 < lostAfter.toNat := UInt8.le_iff_toNat_le.mp hlost
    cases success with
    | true =>
      have hafter : gate.reportRead true = { gate with failedReads := 0 } := by simp [reportRead, hready]
      rw [replicate_infix_concat_ne hpos (by simp)] at hlive
      rw [hafter]
      refine Tracks.report (m := m) h hreport rfl rfl rfl (iff_of_true hready (hlive.mpr ⟨hpassed, hstreak⟩))
        (fun _ => ?_) ?_ (fun _ => h.notDue hready)
      · rw [trailing_concat_ne (by simp)]
        rfl
      · simp [hm, hready]
    | false =>
      have hnext : (gate.failedReads + 1).toNat = trailing false (readsSince reader moves) + 1 := by
        have := lostAfter.toNat_lt
        rw [UInt8.toNat_add, hcount]
        simp
        omega
      rw [replicate_infix_concat_self] at hlive
      by_cases hmore : gate.failedReads + 1 < lostAfter
      · have hafter : gate.reportRead false = { gate with failedReads := gate.failedReads + 1 } := by
          simp [reportRead, hready, h.lost, hmore]
        have hroom := UInt8.lt_iff_toNat_lt.mp hmore
        rw [hafter]
        refine Tracks.report (m := m) h hreport rfl rfl rfl (iff_of_true hready (hlive.mpr ⟨hpassed, ?_⟩))
          (fun _ => ?_) ?_ (fun _ => h.notDue hready)
        · rintro (hold | hnew)
          · exact hstreak hold
          · omega
        · rw [trailing_concat_self, hnext]
        · simp [hm, hready]
      · have hafter : gate.reportRead false =
            { gate with failedReads := gate.failedReads + 1, isReady := false, probeDue := true } := by
          simp [reportRead, hready, h.lost, hmore]
        have hroom := mt UInt8.lt_iff_toNat_lt.mpr hmore
        rw [hafter]
        refine Tracks.report (m := m) h hreport rfl rfl rfl (iff_of_false (by simp) fun hl => ?_)
          (fun hr => absurd hr (by simp)) ?_ (fun hr => absurd hr (by simp))
        · exact (hlive.mp hl).2 (.inr (by omega))
        · simp [hm, hready]
  · have hidle : gate.isReady = false := by simpa using hready
    have hafter : gate.reportRead success = gate := if_pos hidle
    rw [hafter]
    refine Tracks.report (m := m) h hreport rfl rfl rfl (iff_of_false hready fun hl => ?_)
      (fun hr => absurd hr hready) ?_ (fun hr => absurd hr hready)
    · obtain ⟨hpassed, hstreak⟩ := hlive.mp hl
      exact hready (h.isReady.mpr ⟨hpassed, fun hold => hstreak (List.infix_append_of_infix_left hold)⟩)
    · simp [hm, hidle]

/-- A gate that has not been called yet. -/
theorem tracks_init : Tracks reader retryMs lostAfter [] { retryMs, lostAfter } := by
  refine ⟨rfl, rfl, iff_of_false (by simp) fun hlive => ?_, fun h => absurd h (by simp), fun h => absurd h (by simp),
    iff_of_true rfl (.inl (by simp)), fun h => absurd h (by simp)⟩
  obtain ⟨⟨m, hm, -⟩, -⟩ := hlive
  exact absurd hm (by simp)

/-- The gate's variables always say what its calls so far come to. -/
theorem tracks_run {gate : MeterGate} (hlost : 1 ≤ lostAfter)
    (hrun : Run (GateStep reader) { retryMs, lostAfter } moves gate) : Tracks reader retryMs lostAfter moves gate := by
  refine hrun.invariant (Tracks reader retryMs lostAfter) tracks_init fun moves gate call gate' _ h hstep => ?_
  subst hstep
  cases call with
  | ready => exact h.step_ready hlost
  | report => exact h.step_report hlost

/-- A probe is due when the clock says so, as long as the clock has not gone round since the last one. -/
theorem elapsed_lt_iff {since now : ℕ} (hsince : since ≤ now) (hturn : now < since + 2 ^ 32) (retryMs : UInt32) :
    millis now - millis since < retryMs ↔ now < since + retryMs.toNat := by
  rw [UInt32.lt_iff_toNat_lt, UInt32.toNat_sub]
  simp only [toNat_millis]
  omega

private theorem ready_fst (gate : MeterGate) (i : GateInput ι) (r : ρ) :
    (gate.ready reader i r).1 = (gate.ready reader i r).2.2.1.isReady := by
  by_cases hready : gate.isReady = true
  · simp [MeterGate.ready, hready]
  · have hidle : gate.isReady = false := by simpa using hready
    rw [MeterGate.ready, if_neg hready]
    split
    · exact hidle.symm
    · cases hprobe : reader.probe i.probe r with
      | mk passed r' => cases passed <;> simp [hidle]

private theorem probed_isSome_iff {now later : ℕ} {io : ι} {r : ρ} (hlabel : m.label = .ready now later io r) :
    (probed reader m).isSome ↔ m.before.isReady = false ∧
      (m.before.probeDue = true ∨ m.before.retryMs ≤ millis now - m.before.lastProbeMs) := by
  simp only [probed, hlabel]
  by_cases hready : m.before.isReady = true
  · simp [MeterGate.ready, hready]
  · rw [MeterGate.ready, if_neg hready]
    split
    case isTrue hwait => simp [hwait.1, UInt32.not_le.mpr hwait.2]
    case isFalse hdue =>
      have hprobes : m.before.probeDue = true ∨ m.before.retryMs ≤ millis now - m.before.lastProbeMs := by
        by_contra hnot
        obtain ⟨hnotDue, hshort⟩ := not_or.mp hnot
        exact hdue ⟨by simpa using hnotDue, UInt32.not_le.mp hshort⟩
      cases hprobe : reader.probe io r with
      | mk passed r' => cases passed <;> simp [hready, hprobes]

/-- A probe made is the reader's own, and without one the reader is left as it was. -/
theorem probe_of_ready {now later : ℕ} {io : ι} {r : ρ} (hlabel : m.label = .ready now later io r) :
    (∀ b, probed reader m = some b → reader.probe io r = (b, readerAfter reader m r)) ∧
      (probed reader m = none → readerAfter reader m r = r) := by
  simp only [probed, readerAfter, hlabel]
  by_cases hready : m.before.isReady = true
  · simp [MeterGate.ready, hready]
  · rw [MeterGate.ready, if_neg hready]
    split
    · simp
    · cases hprobe : reader.probe io r with
      | mk passed r' => cases passed <;> simp

/-- Over every run of calls: `ready` answers that the meter is there when its history says so, makes the reader's
probe when the history and the clock ask for it, and a report while the meter is not there leaves every later call
as it was. -/
theorem meterGate_history (hlost : 1 ≤ lostAfter) {gate : MeterGate}
    (hrun : Run (GateStep reader) { retryMs, lostAfter } moves gate) (htime : OnTime reader moves)
    (front back : List (Move MeterGate (GateCall ρ ι))) (hsplit : moves = front ++ m :: back) :
    (∀ now later io r, m.label = .ready now later io r →
      (returned reader m = some true ↔ Live reader lostAfter (front ++ [m])) ∧
      ((probed reader m).isSome ↔ ¬ Live reader lostAfter front ∧
        ((∀ x ∈ front, returned reader x = none) ∨ JustLost reader lostAfter front ∨
          ∃ since ∈ lastProbe reader front, since + retryMs.toNat ≤ now)) ∧
      (∀ b, probed reader m = some b → reader.probe io r = (b, readerAfter reader m r)) ∧
      (probed reader m = none → readerAfter reader m r = r)) ∧
    (∀ success, m.label = .report success → ¬ Live reader lostAfter front →
      Run (GateStep reader) { retryMs, lostAfter } (front ++ back) gate) := by
  rw [hsplit] at hrun
  obtain ⟨hfront, hstep, hback⟩ := hrun.move
  have hbefore := tracks_run hlost hfront
  have hafter : Tracks reader retryMs lostAfter (front ++ [m]) m.after := tracks_run hlost (hfront.snoc hstep)
  refine ⟨fun now later io r hlabel => ⟨?_, ?_, probe_of_ready hlabel⟩, fun success hlabel hgone => ?_⟩
  · rw [← hafter.isReady, hstep, hlabel]
    simp only [returned, hlabel, next, Option.some.injEq]
    rw [ready_fst]
  · rw [probed_isSome_iff hlabel, ← hbefore.isReady, Bool.not_eq_true, ← or_assoc, ← hbefore.probeDue]
    refine and_congr_right fun hidle => ?_
    by_cases hdue : m.before.probeDue = true
    · simp [hdue]
    · obtain ⟨since, hsince, hlast⟩ := hbefore.lastProbeMs (by simpa using hdue)
      obtain ⟨hle, hturn⟩ := htime front m back hsplit now later io r hlabel since hsince
      have hwait := elapsed_lt_iff hle hturn retryMs
      rw [Option.mem_def.mp hsince, hbefore.retry, hlast, ← UInt32.not_lt, hwait]
      simp [hdue]
  · have hidle : m.before.isReady = false := by
      by_contra hready
      exact hgone (hbefore.isReady.mp (by simpa using hready))
    have hsame : m.after = m.before := by
      rw [hstep, hlabel]
      exact if_pos hidle
    rw [hsame] at hback
    exact hfront.append hback

end Calls

def mutedGetter : Getter ℕ Bool := fun _ r val => (false, val, r)

private theorem mutedGetter_untouched : mutedGetter.Untouched := fun _ _ _ _ => rfl

def scriptedMeter : Reader ℕ Bool where
  probe io r := (io, r + 1)
  getImport := mutedGetter
  getExport := mutedGetter
  getVoltage := mutedGetter
  import_untouched := mutedGetter_untouched
  export_untouched := mutedGetter_untouched
  voltage_untouched := mutedGetter_untouched

/-- A failed probe, a call too early for the next, the next as soon as it may be made, and a failed read. -/
def retriedCalls : List (GateCall ℕ Bool) :=
  [.ready 7 9 false 0, .ready 5008 5008 true 1, .ready 5009 5010 true 1, .report false]

def retriedMoves : List (Move MeterGate (GateCall ℕ Bool)) :=
  movesOf (next scriptedMeter) { retryMs := 5000, lostAfter := 2 } retriedCalls

private theorem onTime_retriedMoves : OnTime scriptedMeter retriedMoves := by
  intro front m back hsplit now later io r hlabel since hsince
  rcases front with _ | ⟨x, _ | ⟨y, _ | ⟨z, _ | ⟨u, front⟩⟩⟩⟩
  · exact absurd hsince (by simp [lastProbe])
  · obtain ⟨rfl, rfl, rfl⟩ : _ = x ∧ _ = m ∧ _ = back := by simpa [retriedMoves, retriedCalls, movesOf] using hsplit
    obtain ⟨rfl, -⟩ : 5008 = now ∧ _ := by simpa using hlabel
    obtain rfl : 9 = since := Option.some.inj hsince
    omega
  · obtain ⟨rfl, rfl, rfl, rfl⟩ : _ = x ∧ _ = y ∧ _ = m ∧ _ = back := by
      simpa [retriedMoves, retriedCalls, movesOf] using hsplit
    obtain ⟨rfl, -⟩ : 5009 = now ∧ _ := by simpa using hlabel
    obtain rfl : 9 = since := Option.some.inj hsince
    omega
  · obtain ⟨-, -, -, rfl, -⟩ : _ = x ∧ _ = y ∧ _ = z ∧ _ = m ∧ [] = back := by
      simpa [retriedMoves, retriedCalls, movesOf] using hsplit
    cases hlabel
  · exact absurd (congrArg List.length hsplit) (by simp [retriedMoves, retriedCalls, movesOf])

theorem meterGate_history_retry :
    Live scriptedMeter 2 (retriedMoves.take 3) ∧ ¬ Live scriptedMeter 2 (retriedMoves.take 2) ∧
      scriptedMeter.probe true 1 = (true, 2) := by
  have hrun := run_movesOf (next scriptedMeter) { retryMs := 5000, lostAfter := 2 } retriedCalls
  obtain ⟨hready, -⟩ := meterGate_history (by decide) hrun onTime_retriedMoves (retriedMoves.take 2)
    (retriedMoves.drop 3) rfl
  obtain ⟨hreturned, hprobed, hreader, -⟩ := hready 5009 5010 true 1 rfl
  exact ⟨hreturned.mp rfl, (hprobed.mp rfl).1, hreader true rfl⟩

end MeterGate
end IotFirmware
