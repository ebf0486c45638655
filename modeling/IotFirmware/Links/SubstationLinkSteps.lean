import IotFirmware.Links.SubstationLink

/-! What one step of a meter node's thread can do, said once. -/
namespace IotFirmware

def LinkJob.reading : LinkJob → Option Payload
  | .join => none
  | .send p _ => some p

namespace LinkPoint

def reading : LinkPoint → Option Payload
  | .idle => none
  | .drainReceived p => some p
  | .waitForBeacon job => job.reading
  | .addPeer job _ _ => job.reading
  | .sendJoin job _ _ _ => job.reading
  | .waitForJoinAck job _ _ _ => job.reading
  | .sendPayload p _ => some p
  | .waitForDeliveryAck p _ => some p

def needsJoined : LinkPoint → Bool
  | .sendPayload _ _ => true
  | .waitForDeliveryAck _ _ => true
  | _ => false

end LinkPoint

namespace SubstationLink

/-- The thread goes on from `s`: only the point moves, to the same reading or
none, and at most a call returns, with success only from `join`. -/
structure Continues (s : SubstationLink) (r : SubstationLink × List LinkEffect) : Prop where
  state : r.1 = { s with point := r.1.point }
  reading : r.1.point.reading = none ∨ r.1.point.reading = s.point.reading
  joined : r.1.point.needsJoined = true → s.joined = true
  effects : ∀ e ∈ r.2, ∃ job ok, e = .returned job ok ∧ (ok = true → job = .join)

private theorem continues_to {s : SubstationLink} {point : LinkPoint} (hreading : point.reading = s.point.reading)
    (hjoined : point.needsJoined = true → s.joined = true) : Continues s ({ s with point := point }, []) :=
  ⟨rfl, .inr hreading, hjoined, by simp⟩

private theorem continues_finish (s : SubstationLink) {job : LinkJob} {ok : Bool} (h : ok = true → job = .join) :
    Continues s (s.finish job ok) :=
  ⟨rfl, .inl rfl, by simp [finish, LinkPoint.needsJoined], fun e he => ⟨job, ok, List.mem_singleton.mp he, h⟩⟩

private theorem continues_afterJoin {s : SubstationLink} {job : LinkJob} (hjoined : s.joined = true)
    (hjob : job.reading = s.point.reading) : Continues s (s.afterJoin job) := by
  cases job with
  | join => exact continues_finish s fun _ => rfl
  | send p attempt => exact continues_to hjob fun _ => hjoined

private theorem continues_join {s : SubstationLink} {job : LinkJob} (hjob : job.reading = s.point.reading) :
    Continues s (s.join job) := by
  unfold join
  split
  · exact continues_afterJoin ‹_› hjob
  · exact continues_to hjob (by simp [LinkPoint.needsJoined])

private theorem continues_nextJoin {s : SubstationLink} {job : LinkJob} (hjob : job.reading = s.point.reading)
    (mac : Mac) (beaconEpoch : UInt32) (attempt : Nat) :
    Continues s (s.nextJoin job mac beaconEpoch attempt) := by
  unfold nextJoin
  split
  · exact continues_to hjob (by simp [LinkPoint.needsJoined])
  · exact continues_finish s (by simp)

private theorem continues_nextSend {s : SubstationLink} {p : Payload} (hp : s.point.reading = some p) (attempt : Nat) :
    Continues s.forget (s.nextSend p attempt) := by
  unfold nextSend
  split
  · exact continues_join hp.symm
  · exact continues_finish s.forget (by simp)

/-- Everything one step of the node's thread can do. -/
inductive StepOutcome (s : SubstationLink) : LinkInput → SubstationLink × List LinkEffect → Prop
  | stayed {i : LinkInput} : StepOutcome s i (s, [])
  | called {p : Payload} : s.point = .idle →
      StepOutcome s (.callSend p) ({ s with point := .drainReceived p }, [.called p])
  | forgot {src : Mac} {data : List UInt8} {p : Payload} : s.point = .drainReceived p →
      StepOutcome s (.heard src data) (s.forget, [])
  | went {i : LinkInput} {r : SubstationLink × List LinkEffect} : Continues s r → StepOutcome s i r
  | gaveUp {i : LinkInput} {r : SubstationLink × List LinkEffect} : Continues s.forget r → StepOutcome s i r
  | requested {ok : Bool} {mac : Mac} {beaconEpoch : UInt32} {r : SubstationLink × List LinkEffect} :
      Continues s r → StepOutcome s (.result ok)
        (r.1, .sent mac (linkFrameMake .join beaconEpoch (some s.uid)).toBytes :: r.2)
  | sentReading {ok : Bool} {p : Payload} {attempt : Nat} {r : SubstationLink × List LinkEffect} :
      s.point = .sendPayload p attempt → Continues s r ∨ Continues s.forget r →
      StepOutcome s (.result ok) (r.1, .sent s.substationMac p.toBytes :: r.2)
  | joinAcked {mac : Mac} {beaconEpoch : UInt32} {src : Mac} {data : List UInt8}
      {r : SubstationLink × List LinkEffect} : s.isJoinAck mac beaconEpoch src data = true →
      Continues { s with joined := true, substationMac := mac, epoch := beaconEpoch } r →
      StepOutcome s (.heard src data) r
  | delivered {src : Mac} {data : List UInt8} {p : Payload} {attempt : Nat} :
      s.point = .waitForDeliveryAck p attempt → s.isDeliveryAck p.seq src data = true →
      StepOutcome s (.heard src data) ({ s with point := .idle }, [.returned (.send p attempt) true])

theorem step_outcome {s : SubstationLink} (hs : s.point.needsJoined = true → s.joined = true) (i : LinkInput) :
    StepOutcome s i (s.step i) := by
  unfold step
  split
  · exact .went (continues_join (by simp [LinkJob.reading, LinkPoint.reading, *]))
  · exact .called ‹_›
  · split
    · exact .forgot ‹_›
    · exact .stayed
  · exact .went (continues_join (by simp [LinkJob.reading, LinkPoint.reading, *]))
  · split
    · exact .went (continues_to (by simp [LinkPoint.reading, *]) (by simp [LinkPoint.needsJoined]))
    · exact .stayed
  · exact .went (continues_finish s (by simp))
  · split
    · exact .went (continues_to (by simp [LinkPoint.reading, *]) (by simp [LinkPoint.needsJoined]))
    · exact .went (continues_finish s (by simp))
  · simp only
    split
    · exact .requested (continues_to (by simp [LinkPoint.reading, *]) (by simp [LinkPoint.needsJoined]))
    · exact .requested (continues_nextJoin (by simp [LinkPoint.reading, *]) _ _ _)
  · split
    · exact .joinAcked ‹_› (continues_afterJoin rfl (by simp [LinkPoint.reading, *]))
    · exact .stayed
  · exact .went (continues_nextJoin (by simp [LinkPoint.reading, *]) _ _ _)
  · rename_i p attempt ok hpoint
    simp only
    split
    · refine .sentReading hpoint (.inl (continues_to (by simp [LinkPoint.reading, hpoint]) fun _ => ?_))
      exact hs (by simp [hpoint, LinkPoint.needsJoined])
    · exact .sentReading hpoint (.inr (continues_nextSend (by simp [LinkPoint.reading, hpoint]) attempt))
  · split
    · exact .delivered ‹_› ‹_›
    · exact .stayed
  · exact .gaveUp (continues_nextSend (by simp [LinkPoint.reading, *]) _)
  · exact .stayed

namespace Continues
variable {s : SubstationLink} {r : SubstationLink × List LinkEffect}

theorem uid_eq (h : Continues s r) : r.1.uid = s.uid := by rw [h.state]

private theorem joined_eq (h : Continues s r) : r.1.joined = s.joined ∧ r.1.substationMac = s.substationMac ∧
    r.1.epoch = s.epoch := by
  rw [h.state]
  exact ⟨rfl, rfl, rfl⟩

private theorem reading_eq (h : Continues s r) {p : Payload} (hp : r.1.point.reading = some p) :
    s.point.reading = some p := by
  rcases h.reading with hnone | hsame
  · cases hnone.symm.trans hp
  · exact hsame.symm.trans hp

private theorem notMem (h : Continues s r) {e : LinkEffect}
    (he : ∀ job ok, e = .returned job ok → ok = true ∧ job ≠ .join) : e ∉ r.2 := by
  intro hmem
  obtain ⟨job, ok, rfl, hjob⟩ := h.effects e hmem
  obtain ⟨hok, hne⟩ := he job ok rfl
  exact hne (hjob hok)

end Continues

namespace StepOutcome
variable {s : SubstationLink} {i : LinkInput} {r : SubstationLink × List LinkEffect}

theorem uid_eq (h : StepOutcome s i r) : r.1.uid = s.uid := by
  cases h with
  | went h => exact h.uid_eq
  | gaveUp h => exact h.uid_eq
  | requested h => exact h.uid_eq
  | sentReading _ h => exact h.elim (·.uid_eq) (·.uid_eq)
  | joinAcked _ h => exact h.uid_eq
  | _ => rfl

theorem needsJoined (h : StepOutcome s i r) (hs : s.point.needsJoined = true → s.joined = true)
    (hr : r.1.point.needsJoined = true) : r.1.joined = true := by
  have hcontinues {s' r' : _} (h : Continues s' r') (hr' : r'.1.point.needsJoined = true) : r'.1.joined = true := by
    rw [h.joined_eq.1]
    exact h.joined hr'
  cases h with
  | stayed => exact hs hr
  | called => simp [LinkPoint.needsJoined] at hr
  | forgot hpoint => simp [forget, hpoint, LinkPoint.needsJoined] at hr
  | went h => exact hcontinues h hr
  | gaveUp h => exact hcontinues h hr
  | requested h =>
    have hr' := hcontinues h hr
    exact hr'
  | sentReading _ h =>
    rcases h with h | h
    all_goals
      have hr' := hcontinues h hr
      exact hr'
  | joinAcked _ h => exact hcontinues h hr
  | delivered => simp [LinkPoint.needsJoined] at hr

/-- The reading of a `send` in progress is the one it was called with. -/
theorem reading (h : StepOutcome s i r) {p : Payload} (hp : r.1.point.reading = some p) :
    s.point.reading = some p ∨ .called p ∈ r.2 := by
  cases h with
  | stayed => exact .inl hp
  | called =>
    obtain rfl := Option.some.inj hp
    exact .inr (by simp)
  | forgot => exact .inl hp
  | went h => exact .inl (h.reading_eq hp)
  | gaveUp h => exact .inl (h.reading_eq hp)
  | requested h => exact .inl (h.reading_eq hp)
  | sentReading _ h => exact .inl (h.elim (·.reading_eq hp) (·.reading_eq hp))
  | joinAcked _ h => exact .inl (h.reading_eq hp)
  | delivered => simp [LinkPoint.reading] at hp

/-- A `send` is called only while the thread is idle. -/
theorem called_input (h : StepOutcome s i r) {p : Payload} (hp : .called p ∈ r.2) :
    i = .callSend p ∧ s.point = .idle := by
  have hcontinues {s' r' : _} (h : Continues s' r') : .called p ∉ r'.2 := h.notMem (by simp)
  cases h with
  | called hidle =>
    obtain rfl : p = _ := by simpa using hp
    exact ⟨rfl, hidle⟩
  | went h => exact absurd hp (hcontinues h)
  | gaveUp h => exact absurd hp (hcontinues h)
  | requested h => exact absurd ((List.mem_cons.mp hp).resolve_left (by simp)) (hcontinues h)
  | sentReading _ h =>
    exact absurd ((List.mem_cons.mp hp).resolve_left (by simp)) (h.elim hcontinues hcontinues)
  | joinAcked _ h => exact absurd hp (hcontinues h)
  | _ => simp at hp

/-- A node sends Joins with its UID, and the reading it was called with. -/
theorem sent (h : StepOutcome s i r) {dst : Mac} {data : List UInt8} (hsent : .sent dst data ∈ r.2) :
    (∃ epoch, data = (linkFrameMake .join epoch (some s.uid)).toBytes) ∨
      ∃ p, s.point.reading = some p ∧ data = p.toBytes := by
  have hcontinues {s' r' : _} (h : Continues s' r') : .sent dst data ∉ r'.2 := h.notMem (by simp)
  cases h with
  | went h => exact absurd hsent (hcontinues h)
  | gaveUp h => exact absurd hsent (hcontinues h)
  | requested h =>
    obtain ⟨rfl, rfl⟩ : dst = _ ∧ data = _ := by simpa [hcontinues h] using hsent
    exact .inl ⟨_, rfl⟩
  | sentReading hpoint h =>
    have hnone := h.elim hcontinues hcontinues
    obtain ⟨rfl, rfl⟩ : dst = _ ∧ data = _ := by simpa [hnone] using hsent
    exact .inr ⟨_, by simp [hpoint, LinkPoint.reading], rfl⟩
  | joinAcked _ h => exact absurd hsent (hcontinues h)
  | _ => simp at hsent

/-- A node is joined because it was, or because it just heard its JoinAck. -/
theorem joined (h : StepOutcome s i r) (hjoined : r.1.joined = true) :
    (s.joined = true ∧ r.1.substationMac = s.substationMac ∧ r.1.epoch = s.epoch) ∨
      ∃ src data, i = .heard src data ∧ s.isJoinAck r.1.substationMac r.1.epoch src data = true := by
  have hcontinues {s' r' : _} (h : Continues s' r') (hr' : r'.1.joined = true) :
      s'.joined = true ∧ r'.1.substationMac = s'.substationMac ∧ r'.1.epoch = s'.epoch := by
    obtain ⟨hj, hmac, hepoch⟩ := h.joined_eq
    exact ⟨hj ▸ hr', hmac, hepoch⟩
  have hforgot {r' : _} (h : Continues s.forget r') (hr' : r'.1.joined = true) : False := by
    simpa [forget] using (hcontinues h hr').1
  cases h with
  | stayed => exact .inl ⟨hjoined, rfl, rfl⟩
  | called => exact .inl ⟨hjoined, rfl, rfl⟩
  | forgot => simp [forget] at hjoined
  | went h => exact .inl (hcontinues h hjoined)
  | gaveUp h => exact (hforgot h hjoined).elim
  | requested h =>
    have hsame := hcontinues h hjoined
    exact .inl hsame
  | sentReading _ h =>
    rcases h with h | h
    · have hsame := hcontinues h hjoined
      exact .inl hsame
    · exact (hforgot h hjoined).elim
  | joinAcked hack h =>
    obtain ⟨_, hmac, hepoch⟩ := hcontinues h hjoined
    exact .inr ⟨_, _, rfl, by rw [hmac, hepoch]; exact hack⟩
  | delivered => exact .inl ⟨hjoined, rfl, rfl⟩

/-- A `send` succeeds only on hearing its delivery ACK. -/
theorem returned (h : StepOutcome s i r) {p : Payload} {attempt : Nat}
    (hret : .returned (.send p attempt) true ∈ r.2) :
    s.point = .waitForDeliveryAck p attempt ∧
      ∃ src data, i = .heard src data ∧ s.isDeliveryAck p.seq src data = true := by
  have hcontinues {s' r' : _} (h : Continues s' r') : .returned (.send p attempt) true ∉ r'.2 :=
    h.notMem (by simp)
  cases h with
  | went h => exact absurd hret (hcontinues h)
  | gaveUp h => exact absurd hret (hcontinues h)
  | requested h => exact absurd ((List.mem_cons.mp hret).resolve_left (by simp)) (hcontinues h)
  | sentReading _ h =>
    exact absurd ((List.mem_cons.mp hret).resolve_left (by simp)) (h.elim hcontinues hcontinues)
  | joinAcked _ h => exact absurd hret (hcontinues h)
  | delivered hpoint hack =>
    obtain ⟨rfl, rfl⟩ : p = _ ∧ attempt = _ := by simpa using hret
    exact ⟨hpoint, _, _, rfl, hack⟩
  | _ => simp at hret

end StepOutcome
end SubstationLink
end IotFirmware
