import IotFirmware.Foundation.Runs
import IotFirmware.Links.SubstationLinkSteps

/-! Every `join` and every `send` returns. A rank on where the thread is bounds
the waits still to come over both loops, and no frame heard can raise it. -/
namespace IotFirmware

/-- Waits still to come once a join for this job has succeeded. -/
def LinkJob.rank : LinkJob → Nat
  | .join => 0
  | .send _ attempt => 2 + (sendAttempts - 1 - attempt) * 10

/-- Waits still to come, at most, before the call in progress returns. -/
def LinkPoint.rank : LinkPoint → Nat
  | .idle => 0
  | .drainReceived p => 9 + (LinkJob.send p 0).rank
  | .waitForBeacon job => 8 + job.rank
  | .addPeer job _ _ => 7 + job.rank
  | .sendJoin job _ _ attempt => 2 * (joinAttempts - 1 - attempt) + 2 + job.rank
  | .waitForJoinAck job _ _ attempt => 2 * (joinAttempts - 1 - attempt) + 1 + job.rank
  | .sendPayload p attempt => (LinkJob.send p attempt).rank
  | .waitForDeliveryAck p attempt => (LinkJob.send p attempt).rank - 1

abbrev callWaits : Nat := 21

private theorem LinkJob.rank_le (job : LinkJob) : job.rank ≤ 12 := by
  cases job with
  | join => simp [LinkJob.rank]
  | send p attempt =>
    simp only [LinkJob.rank, sendAttempts]
    omega

private theorem LinkPoint.rank_le (point : LinkPoint) : point.rank ≤ callWaits := by
  have hwaits : callWaits = 21 := rfl
  cases point with
  | idle => exact Nat.zero_le _
  | drainReceived p =>
    have h := (LinkJob.send p 0).rank_le
    simp only [LinkPoint.rank]
    omega
  | waitForBeacon job =>
    have h := job.rank_le
    simp only [LinkPoint.rank]
    omega
  | addPeer job =>
    have h := job.rank_le
    simp only [LinkPoint.rank]
    omega
  | sendJoin job =>
    have h := job.rank_le
    simp only [LinkPoint.rank, joinAttempts]
    omega
  | waitForJoinAck job =>
    have h := job.rank_le
    simp only [LinkPoint.rank, joinAttempts]
    omega
  | sendPayload p attempt =>
    have h := (LinkJob.send p attempt).rank_le
    simp only [LinkPoint.rank]
    omega
  | waitForDeliveryAck p attempt =>
    have h := (LinkJob.send p attempt).rank_le
    simp only [LinkPoint.rank]
    omega

theorem LinkPoint.rank_pos {point : LinkPoint} (h : point ≠ .idle) : 0 < point.rank := by
  cases point with
  | idle => exact absurd rfl h
  | waitForDeliveryAck p attempt =>
    simp only [LinkPoint.rank, LinkJob.rank]
    omega
  | _ => simp [LinkPoint.rank, LinkJob.rank]

namespace SubstationLink

/-- The input ends the wait the thread is in: a frame that matches, nothing left
to drain, a timeout, or the result of a radio call. -/
def endsWait (s : SubstationLink) (i : LinkInput) : Bool :=
  match s.point, i with
  | .drainReceived _, .heardNothing => true
  | .waitForBeacon _, .heard _ data => (beaconEpoch? data).isSome
  | .waitForBeacon _, .timeout => true
  | .addPeer _ _ _, .result _ => true
  | .sendJoin _ _ _ _, .result _ => true
  | .waitForJoinAck _ mac beaconEpoch _, .heard src data => s.isJoinAck mac beaconEpoch src data
  | .waitForJoinAck _ _ _ _, .timeout => true
  | .sendPayload _ _, .result _ => true
  | .waitForDeliveryAck p _, .heard src data => s.isDeliveryAck p.seq src data
  | .waitForDeliveryAck _ _, .timeout => true
  | _, _ => false

def Returns (r : SubstationLink × List LinkEffect) : Prop := ∃ job ok, .returned job ok ∈ r.2

/-- The call returned and left the thread idle, or fewer than `n` waits are left in it. -/
def Nearer (n : Nat) (r : SubstationLink × List LinkEffect) : Prop :=
  (Returns r ∧ r.1.point = .idle) ∨ r.1.point ≠ .idle ∧ r.1.point.rank < n

private theorem nearer_finish (s : SubstationLink) (job : LinkJob) (ok : Bool) (n : Nat) : Nearer n (s.finish job ok) :=
  .inl ⟨⟨job, ok, by simp [finish]⟩, rfl⟩

private theorem nearer_afterJoin (s : SubstationLink) (job : LinkJob) {n : Nat} (h : job.rank < n) :
    Nearer n (s.afterJoin job) := by
  cases job with
  | join => exact nearer_finish s _ _ n
  | send p attempt => exact .inr ⟨by simp [afterJoin], h⟩

theorem nearer_join (s : SubstationLink) (job : LinkJob) {n : Nat} (h : 8 + job.rank < n) : Nearer n (s.join job) := by
  unfold join
  split
  · exact nearer_afterJoin s job (by omega)
  · exact .inr ⟨by simp, h⟩

private theorem nearer_nextJoin (s : SubstationLink) (job : LinkJob) (mac : Mac) (epoch : UInt32) (attempt : Nat) :
    Nearer (2 * (joinAttempts - 1 - attempt) + 1 + job.rank) (s.nextJoin job mac epoch attempt) := by
  unfold nextJoin
  split
  · refine .inr ⟨by simp, ?_⟩
    simp only [LinkPoint.rank, joinAttempts] at *
    omega
  · exact nearer_finish s _ _ _

private theorem nearer_nextSend (s : SubstationLink) (p : Payload) (attempt : Nat) :
    Nearer ((LinkJob.send p attempt).rank - 1) (s.nextSend p attempt) := by
  unfold nextSend
  split
  · refine nearer_join _ _ ?_
    simp only [LinkJob.rank, sendAttempts] at *
    omega
  · exact nearer_finish _ _ _ _

theorem Nearer.mono {n n' : Nat} {r : SubstationLink × List LinkEffect} (h : Nearer n r) (hn : n ≤ n') :
    Nearer n' r := by
  rcases h with hret | ⟨hcall, hrank⟩
  · exact .inl hret
  · exact .inr ⟨hcall, hrank.trans_le hn⟩

theorem Nearer.cons {n : Nat} {r : SubstationLink × List LinkEffect} (h : Nearer n r) (e : LinkEffect) :
    Nearer n (r.1, e :: r.2) := by
  rcases h with ⟨⟨job, ok, hret⟩, hidle⟩ | hrank
  · exact .inl ⟨⟨job, ok, List.mem_cons_of_mem _ hret⟩, hidle⟩
  · exact .inr hrank

private theorem nearer_point {s : SubstationLink} {point : LinkPoint} {done : List LinkEffect} {n : Nat}
    (hcall : point ≠ .idle) (hrank : point.rank < n) : Nearer n ({ s with point := point }, done) :=
  .inr ⟨hcall, hrank⟩

/-- An input of a call in progress brings its return nearer, or does not end the
wait the thread is in and leaves it there. -/
theorem step_nearer {s : SubstationLink} (hcall : s.point ≠ .idle) (i : LinkInput) :
    Nearer s.point.rank (s.step i) ∨ (s.endsWait i = false ∧ (s.step i).1.point = s.point) := by
  unfold step
  split
  · exact absurd ‹_› hcall
  · exact absurd ‹_› hcall
  · refine .inr ⟨by simp [endsWait, *], ?_⟩
    split <;> simp [forget, *]
  · rename_i hpoint
    exact .inl (nearer_join s _ (by simp [hpoint, LinkPoint.rank, LinkJob.rank]))
  · rename_i hpoint
    split
    · exact .inl (nearer_point (by simp) (by simp [hpoint, LinkPoint.rank]))
    · exact .inr ⟨by simp [endsWait, *], rfl⟩
  · exact .inl (nearer_finish s _ _ _)
  · rename_i hpoint
    split
    · exact .inl (nearer_point (by simp) (by simp [hpoint, LinkPoint.rank]))
    · exact .inl (nearer_finish s _ _ _)
  · rename_i hpoint
    simp only
    split
    · exact .inl (nearer_point (by simp) (by simp [hpoint, LinkPoint.rank]))
    · exact .inl (((nearer_nextJoin s _ _ _ _).mono (by simp [hpoint, LinkPoint.rank])).cons _)
  · rename_i hpoint
    split
    · exact .inl (nearer_afterJoin _ _ (by simp [hpoint, LinkPoint.rank]))
    · exact .inr ⟨by simp [endsWait, *], rfl⟩
  · rename_i hpoint
    exact .inl ((nearer_nextJoin s _ _ _ _).mono (by simp [hpoint, LinkPoint.rank]))
  · rename_i hpoint
    simp only
    split
    · exact .inl (nearer_point (by simp) (by simp [hpoint, LinkPoint.rank, LinkJob.rank]))
    · exact .inl (((nearer_nextSend s _ _).mono (by simp [hpoint, LinkPoint.rank])).cons _)
  · rename_i hpoint
    split
    · exact .inl (nearer_finish s _ _ _)
    · exact .inr ⟨by simp [endsWait, *], rfl⟩
  · rename_i hpoint
    exact .inl ((nearer_nextSend s _ _).mono (by simp [hpoint, LinkPoint.rank]))
  · refine .inr ⟨?_, rfl⟩
    unfold endsWait
    split <;> grind

def Answered (x : Move SubstationLink LinkInput) : Bool := x.before.endsWait x.label

def next (s : SubstationLink) (i : LinkInput) : SubstationLink := (s.step i).1

/-- A call that has not returned over some inputs has taken fewer waits than its rank. -/
theorem answered_lt_rank {s : SubstationLink} (hcall : s.point ≠ .idle) (inputs : List LinkInput)
    (hnone : ∀ x ∈ movesOf next s inputs, ¬ Returns (x.before.step x.label)) :
    (movesOf next s inputs).countP Answered < s.point.rank := by
  induction inputs generalizing s with
  | nil => exact LinkPoint.rank_pos hcall
  | cons i rest ih =>
    rw [movesOf] at hnone ⊢
    obtain ⟨hhead, htail⟩ := List.forall_mem_cons.mp hnone
    rw [List.countP_cons]
    rcases step_nearer hcall i with (⟨hret, _⟩ | ⟨hcall', hlower⟩) | ⟨hwaits, hsame⟩
    · exact absurd hret hhead
    · have hrest : (movesOf next (next s i) rest).countP Answered < (s.step i).1.point.rank := ih hcall' htail
      split <;> omega
    · have hrest : (movesOf next (next s i) rest).countP Answered < (s.step i).1.point.rank :=
        ih (by rw [next, hsame]; exact hcall) htail
      rw [hsame] at hrest
      simpa [Answered, hwaits] using hrest

/-- Every `join` and `send` returns: in any state, whatever frames are heard in
between and whatever the radio answers, a call in progress has returned by the
time 21 waits have ended. -/
theorem link_call_returns (s : SubstationLink) (hcall : s.point ≠ .idle) (inputs : List LinkInput)
    (hanswered : callWaits ≤ (movesOf next s inputs).countP Answered) :
    ∃ x ∈ movesOf next s inputs, Returns (x.before.step x.label) := by
  by_contra hnone
  push Not at hnone
  have hlt := answered_lt_rank hcall inputs hnone
  have hrank := s.point.rank_le
  omega

/-- One attempt of a `send` that takes as many waits as it can: the third Join is
answered, and the delivery ACK never comes. -/
def longAttempt (mac : Mac) (uid : Uid) : List LinkInput :=
  [.heard mac (linkFrameMake .beacon 7 none).toBytes, .result true, .result true, .timeout, .result true, .timeout,
    .result true, .heard mac (linkFrameMake .joinAck 7 (some uid)).toBytes, .result true, .timeout]

/-- A `send` of two such attempts takes 21 waits, and returns. -/
theorem link_call_returns_longest :
    let inputs := .heardNothing :: longAttempt (Vector.replicate 6 3) (Vector.replicate uidLen 1) ++
      longAttempt (Vector.replicate 6 3) (Vector.replicate uidLen 1)
    inputs.length = callWaits ∧
      ∃ x ∈ movesOf next { new (Vector.replicate uidLen 1) with point := .drainReceived (Payload.ofBytes []) } inputs,
        Returns (x.before.step x.label) :=
  ⟨rfl, link_call_returns _ (by simp) _ (by decide +kernel)⟩

end SubstationLink
end IotFirmware
