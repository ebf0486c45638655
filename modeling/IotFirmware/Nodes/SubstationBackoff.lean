import IotFirmware.Nodes.SubstationRelay

/-! When the relay resumes after a failure. The node runs against a true
millisecond clock that `millis()` wraps; the time of the last failed relay is
kept beside the node's own state. -/
namespace IotFirmware.SubstationBackoff
open Clock Substation ReadingBuffer

/-- The node at a true time, with the true time its last relay failed at. -/
structure TimedSubstation where
  node : Substation
  clock : Nat
  lastFailed : Option Nat

def powerOn (link : LoRaLinkConfig) (r : SetupResults) : TimedSubstation :=
  ⟨substationSetup link r, 0, none⟩

/-- One action of the loop at true times that never go back. The link's own
clock readings, inside `poll`, are left arbitrary. -/
inductive TimedStep (s : TimedSubstation) : Action → TimedSubstation → Prop
  | beacon {now later : Nat} : s.clock ≤ now → now ≤ later →
      TimedStep s (.beacon (millis now) (millis later))
        ⟨(s.node.beaconIfDue (millis now) (millis later)).1, later, s.lastFailed⟩
  | frame {mac : Mac} {buf : List UInt8} {peerOk : Bool} :
      TimedStep s (.frame mac buf peerOk) ⟨(s.node.handleFrame mac buf peerOk).1, s.clock, s.lastFailed⟩
  | relay {poll : RadioPoll} {now beginAt : Nat} : s.clock ≤ now → now ≤ beginAt →
      TimedStep s (.relay poll (millis now) (millis beginAt))
        ⟨(s.node.relayStep poll (millis now) (millis beginAt)).1, beginAt,
          if (s.node.loraLink.pollSend poll).1 = .failed then some now else s.lastFailed⟩

/-- A timed run is a run of the node. -/
theorem run_node {s t : TimedSubstation} {moves : List (Move TimedSubstation Action)}
    (hrun : Run TimedStep s moves t) : ∃ moves', Run ActionStep s.node moves' t.node := by
  have hstep : ∀ (u : TimedSubstation) v a u', u.node = v → TimedStep u a u' →
      ∃ v', ActionStep v (id a) v' ∧ u'.node = v' := by
    rintro u v a u' rfl hs
    cases hs <;> exact ⟨_, rfl, rfl⟩
  obtain ⟨moves', _, hrun', _, rfl⟩ := hrun.simulate (fun u v => u.node = v) id hstep rfl
  exact ⟨moves', hrun'⟩

/-- `nextSendAt` is 30 s past the last failure, and the boot time before any. -/
structure BackoffInv (s : TimedSubstation) : Prop where
  failed_le : ∀ f, s.lastFailed = some f → f ≤ s.clock
  nextSendAt_eq : s.node.nextSendAt =
    match s.lastFailed with
    | none => millis 0 + UInt32.ofNat 0
    | some f => millis f + UInt32.ofNat retryBackoffMs

private theorem handleFrame_nextSendAt (s : Substation) (mac : Mac) (buf : List UInt8) (peerOk : Bool) :
    (s.handleFrame mac buf peerOk).1.nextSendAt = s.nextSendAt := by
  have h := s.handleFrame_outcome mac buf peerOk
  generalize s.handleFrame mac buf peerOk = r at h
  cases h <;> simp

/-- Only a failed poll moves `nextSendAt`. -/
theorem relayStep_nextSendAt (s : Substation) (poll : RadioPoll) (now beginAt : UInt32) :
    (s.relayStep poll now beginAt).1.nextSendAt =
      if (s.loraLink.pollSend poll).1 = .failed then now + UInt32.ofNat retryBackoffMs else s.nextSendAt := by
  have h := s.relayStep_outcome poll now beginAt
  generalize s.relayStep poll now beginAt = r at h
  have hidle (h : s.loraLink.phase = .idle) : (s.loraLink.pollSend poll).1 = .idle := by
    simp [LoRaLink.pollSend, h]
  cases h with
  | pending hpoll => simp [hpoll]
  | acked hpoll => simp [hpoll]
  | failed hpoll => simp [hpoll]
  | heldOff h => simp [hidle h]
  | nothingToRelay h => simp [hidle h]
  | relaying h => simp [hidle h]

private theorem backoffInv_step {s t : TimedSubstation} {a : Action} (hinv : BackoffInv s) (hs : TimedStep s a t) :
    BackoffInv t := by
  cases hs with
  | beacon hnow hlater =>
    refine ⟨fun f hf => (hinv.failed_le f hf).trans (hnow.trans hlater), ?_⟩
    simp only
    rw [beaconIfDue_frame]
    exact hinv.nextSendAt_eq
  | frame => exact ⟨hinv.failed_le, (handleFrame_nextSendAt ..).trans hinv.nextSendAt_eq⟩
  | relay hnow hbegin =>
    refine ⟨?_, ?_⟩
    · intro f hf
      simp only at hf
      split at hf
      · exact Option.some.inj hf ▸ hbegin
      · exact (hinv.failed_le f hf).trans (hnow.trans hbegin)
    · simp only [relayStep_nextSendAt]
      split
      · rfl
      · exact hinv.nextSendAt_eq

private theorem backoffInv_run {link : LoRaLinkConfig} {r : SetupResults} {s : TimedSubstation}
    {moves : List (Move TimedSubstation Action)} (hrun : Run TimedStep (powerOn link r) moves s) :
    BackoffInv s := by
  have hboot : (substationSetup link r).nextSendAt = 0 := by
    unfold substationSetup
    split <;> rfl
  exact hrun.invariant (fun _ => BackoffInv) ⟨fun f hf => (by cases hf), hboot⟩
    fun _ _ _ _ _ hm hs => backoffInv_step hm hs

def StartsRelay (s : Substation) (poll : RadioPoll) (now beginAt : UInt32) : Prop :=
  ∃ p, .relaying p ∈ (s.relayStep poll now beginAt).2 ∧ p.reading ∈ s.buffer.readings p.uid ∧
    (s.relayStep poll now beginAt).1.loraLink.phase = .transmit

/-- With no send in flight and readings held, the signed test on `nextSendAt`
alone decides whether a relay starts, and nothing starts without it. -/
theorem relayStep_starts {s : Substation} (hv : Valid s.buffer) (hidle : s.loraLink.phase = .idle)
    {u : Uid} (hheld : s.buffer.readings u ≠ []) (poll : RadioPoll) (now beginAt : UInt32) :
    (¬ signed (now - s.nextSendAt) < 0 → StartsRelay s poll now beginAt) ∧
      (signed (now - s.nextSendAt) < 0 → ∀ p, .relaying p ∉ (s.relayStep poll now beginAt).2) := by
  have h := s.relayStep_outcome poll now beginAt
  have hpolled : s.loraLink.pollSend poll = (.idle, s.loraLink, []) := by
    simp [LoRaLink.pollSend, hidle]
  unfold StartsRelay
  generalize s.relayStep poll now beginAt = r at h
  cases h with
  | pending hpoll => cases hpolled.symm.trans hpoll
  | acked hpoll => cases hpolled.symm.trans hpoll
  | failed hpoll => cases hpolled.symm.trans hpoll
  | heldOff _ hnow => exact ⟨fun h => absurd hnow h, fun _ => by simp⟩
  | nothingToRelay _ hnow hpeek =>
    rcases readingBufferPeek_cases hv s.inFlight with ⟨i, _, he⟩ | ⟨hfree, _⟩
    · cases he.symm.trans hpeek
    · have hnone : s.buffer.held u = none := held_eq_none fun i hi => by simp [hfree i] at hi
      exact absurd (readings_of_not_held hnone) hheld
  | @relaying out buffer _ hnow hpeek =>
    refine ⟨fun _ => ⟨out, by simp, ?_, rfl⟩, fun h => absurd h hnow⟩
    obtain ⟨hv', hreadings, hpeeked, _⟩ := readings_peek hv hpeek
    obtain ⟨i, l, hheld⟩ := held_of_peeked hv' (hpeeked rfl)
    rw [← hreadings, readings_of_held hheld]
    exact List.mem_cons_self

/-- What the backoff promises of the next relay step at true time `t`: it
starts a relay when no failure is less than 30 s old, and none otherwise. -/
def Resumes (s : TimedSubstation) (t : Nat) : Prop :=
  ∀ poll beginAt,
    ((∀ f, s.lastFailed = some f → f + retryBackoffMs ≤ t) →
      StartsRelay s.node poll (millis t) beginAt) ∧
    (∀ f, s.lastFailed = some f → t < f + retryBackoffMs →
      ∀ p, .relaying p ∉ (s.node.relayStep poll (millis t) beginAt).2)

/-- The time since the backoff ended, or since boot before any failure, is in
the first half of a turn of the clock. -/
def FirstHalfTurn (s : TimedSubstation) (t : Nat) : Prop :=
  match s.lastFailed with
  | none => t % 2 ^ 32 < 2 ^ 31
  | some f => t < f + retryBackoffMs ∨ (t - (f + retryBackoffMs)) % 2 ^ 32 < 2 ^ 31

/-- In every reachable state with no send in flight and a reading held, the
relay resumes as promised exactly in the first half of a turn of the clock. -/
theorem relayStep_resumes_iff {link : LoRaLinkConfig} {r : SetupResults} {s : TimedSubstation}
    {moves : List (Move TimedSubstation Action)} (hrun : Run TimedStep (powerOn link r) moves s)
    (hidle : s.node.loraLink.phase = .idle) {u : Uid} (hheld : s.node.buffer.readings u ≠ [])
    {t : Nat} (ht : s.clock ≤ t) : Resumes s t ↔ FirstHalfTurn s t := by
  have hinv := backoffInv_run hrun
  obtain ⟨moves', hrun'⟩ := run_node hrun
  have hstarts := relayStep_starts (relayInv_run hrun').valid hidle hheld
  have hnext := hinv.nextSendAt_eq
  have hnone (poll : RadioPoll) (beginAt : UInt32) (hpending : signed (millis t - s.node.nextSendAt) < 0) :
      ¬ StartsRelay s.node poll (millis t) beginAt :=
    fun ⟨p, hp, _⟩ => (hstarts poll _ beginAt).2 hpending p hp
  unfold Resumes FirstHalfTurn
  cases hf : s.lastFailed with
  | none =>
    simp only [hf] at hnext ⊢
    have hclock := deadline_pending_after_iff (show 0 + 0 ≤ t by omega)
    rw [← hnext] at hclock
    constructor
    · intro h
      by_contra hlate
      exact hnone ⟨false, 0, [], 0, 0⟩ 0 (hclock.mpr (by omega)) ((h _ _).1 (by simp))
    · intro h poll beginAt
      exact ⟨fun _ => (hstarts poll _ beginAt).1 (by rw [hclock]; omega), by simp⟩
  | some f =>
    simp only [hf] at hnext ⊢
    have hle := hinv.failed_le f hf
    constructor
    · intro h
      by_contra hlate
      push Not at hlate
      have hclock := deadline_pending_after_iff hlate.1
      rw [← hnext] at hclock
      exact hnone ⟨false, 0, [], 0, 0⟩ 0 (hclock.mpr hlate.2) ((h _ _).1 (by simpa using hlate.1))
    · intro h poll beginAt
      refine ⟨fun hdue => (hstarts poll _ beginAt).1 ?_, fun g hg hsoon => (hstarts poll _ beginAt).2 ?_⟩
      · have hdue := hdue f rfl
        rw [hnext, deadline_pending_after_iff hdue]
        omega
      · obtain rfl := Option.some.inj hg
        rw [hnext]
        exact deadline_pending_before (hle.trans ht) hsoon (by decide)

/-- At any time since power on a node may join and send its first reading. -/
theorem reachable_first_reading (t : Nat) : ∃ link r moves s, Run TimedStep (powerOn link r) moves s ∧
    s.node.loraLink.phase = .idle ∧ (∃ u, s.node.buffer.readings u ≠ []) ∧ s.clock = t ∧ s.lastFailed = none := by
  let link : LoRaLinkConfig := ⟨3, 1000⟩
  let r : SetupResults := ⟨true, true, true, true, true, 7⟩
  let mac : Mac := Vector.replicate 6 2
  let p : Payload := ⟨Vector.replicate uidLen 1, 1, 0, 0, 0, 1, 1, 1⟩
  let join := (linkFrameMake .join 7 (some p.uid)).toBytes
  let node₁ := ((powerOn link r).node.handleFrame mac join true).1
  let node₂ := (node₁.beaconIfDue (millis t) (millis t)).1
  have hjoin : TimedStep (powerOn link r) (.frame mac join true) ⟨node₁, 0, none⟩ := .frame
  have hwait : TimedStep ⟨node₁, 0, none⟩ (.beacon (millis t) (millis t)) ⟨node₂, t, none⟩ :=
    .beacon (Nat.zero_le t) le_rfl
  have hsend : TimedStep ⟨node₂, t, none⟩ (.frame mac p.toBytes true)
      ⟨(node₂.handleFrame mac p.toBytes true).1, t, none⟩ := .frame
  have hnode₁ : node₁ = { substationSetup link r with joined := [⟨mac, p.uid, 0, false⟩] } :=
    congrArg Prod.fst (handleFrame_first_join (s := substationSetup link r) rfl mac p.uid)
  have hnode₂ : node₂ = { node₁ with nextBeaconAt := node₂.nextBeaconAt } := node₁.beaconIfDue_frame _ _
  obtain ⟨hidle, hboot⟩ := substationSetup_idle link r
  have hbuffer : node₂.buffer = .boot := by
    rw [hnode₂, hnode₁]
    exact hboot
  have hjoined : node₂.joined = [⟨mac, p.uid, 0, false⟩] := by rw [hnode₂, hnode₁]
  have hv : Valid node₂.buffer := hbuffer ▸ valid_boot
  have hheld := (handleFrame_first_reading hv (by simp [hbuffer, NodeSlot.zero]) hjoined true).2.1
  refine ⟨link, r, _, _, ((Run.nil.snoc hjoin).snoc hwait).snoc hsend, ?_,
    ⟨p.uid, List.ne_nil_of_mem hheld⟩, rfl, rfl⟩
  rw [(handleFrame_buffer hv mac p.toBytes true).1, hnode₂, hnode₁]
  exact hidle

/-- The first reading of a node, heard 2^31 ms after power on with no relay ever
failed, is not relayed. -/
theorem relayStep_late_first_reading : ¬ ∀ link r s moves, Run TimedStep (powerOn link r) moves s →
    s.node.loraLink.phase = .idle → ∀ u, s.node.buffer.readings u ≠ [] →
    ∀ t, s.clock ≤ t → Resumes s t := by
  intro hclaim
  obtain ⟨link, r, moves, s, hrun, hidle, ⟨u, hheld⟩, hclock, hfailed⟩ := reachable_first_reading (2 ^ 31)
  have hstarts := (hclaim link r s moves hrun hidle u hheld _ hclock.le ⟨false, 0, [], 0, 0⟩ 0).1
    (by simp [hfailed])
  obtain ⟨p, hp, _⟩ := hstarts
  have hnext := (backoffInv_run hrun).nextSendAt_eq
  simp only [hfailed] at hnext
  obtain ⟨moves', hrun'⟩ := run_node hrun
  refine (relayStep_starts (relayInv_run hrun').valid hidle hheld _ _ _).2 ?_ p hp
  rw [hnext, deadline_pending_after_iff (by omega)]
  decide

/-- A reading heard in the first second after power on is relayed at once. -/
theorem relayStep_resumes_early : ∃ s : TimedSubstation, s.clock = 1000 ∧ Resumes s 1000 := by
  obtain ⟨link, r, moves, s, hrun, hidle, ⟨u, hheld⟩, hclock, hfailed⟩ := reachable_first_reading 1000
  refine ⟨s, hclock, (relayStep_resumes_iff hrun hidle hheld hclock.le).mpr ?_⟩
  simp [FirstHalfTurn, hfailed]

end IotFirmware.SubstationBackoff
