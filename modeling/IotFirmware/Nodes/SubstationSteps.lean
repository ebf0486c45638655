import IotFirmware.Buffering.ReadingBufferInvariant
import IotFirmware.Foundation.Runs
import IotFirmware.Nodes.Substation

/-! The substation as a transition system. Its atomic actions are a beacon
check, one frame off the queue and one relay step; a loop pass is a run of
them. What each action can do is said once, as an outcome relation. -/
namespace IotFirmware.Substation
open Clock

inductive FrameOutcome (s : Substation) (mac : Mac) (buf : List UInt8) (peerOk : Bool) :
    Substation × List Effect → Prop
  | ignored : FrameOutcome s mac buf peerOk (s, [])
  | joined {frame : LinkFrame} :
      linkFrameParse buf = some frame → frame.type = LinkFrameType.join.toByte → frame.epoch = s.epoch →
      s.findJoined mac = none → s.joined.length ≠ readingBufferMaxNodes →
      FrameOutcome s mac buf peerOk
        (answerJoin { s with joined := s.joined ++ [⟨mac, frame.uid, 0, false⟩] } mac frame.uid peerOk)
  | rejoined {frame : LinkFrame} {index : Nat} :
      linkFrameParse buf = some frame → frame.type = LinkFrameType.join.toByte → frame.epoch = s.epoch →
      s.findJoined mac = some index →
      FrameOutcome s mac buf peerOk
        (answerJoin { s with joined := s.joined.modify index (rejoin · frame.uid) } mac frame.uid peerOk)
  | resent {index : Nat} :
      buf.length = payloadSize → s.findJoined mac = some index →
      (s.joinedAt index).hasSeq = true → (s.joinedAt index).lastSeq = (Payload.ofBytes buf).seq →
      FrameOutcome s mac buf peerOk (s, [sendDeliveryAck mac (Payload.ofBytes buf)])
  | refused {index : Nat} {buffer : ReadingBuffer} :
      buf.length = payloadSize → s.findJoined mac = some index →
      readingBufferPush s.buffer (Payload.ofBytes buf) = (false, buffer) →
      FrameOutcome s mac buf peerOk ({ s with buffer := buffer }, [.pushed (Payload.ofBytes buf) false])
  | accepted {index : Nat} {buffer : ReadingBuffer} :
      buf.length = payloadSize → s.findJoined mac = some index →
      ((s.joinedAt index).hasSeq = true → (s.joinedAt index).lastSeq ≠ (Payload.ofBytes buf).seq) →
      readingBufferPush s.buffer (Payload.ofBytes buf) = (true, buffer) →
      FrameOutcome s mac buf peerOk
        ({ s with
          buffer := buffer
          joined := s.joined.modify index (keepSeq · (Payload.ofBytes buf).seq) },
        [.pushed (Payload.ofBytes buf) true, sendDeliveryAck mac (Payload.ofBytes buf)])

theorem handleFrame_outcome (s : Substation) (mac : Mac) (buf : List UInt8) (peerOk : Bool) :
    FrameOutcome s mac buf peerOk (s.handleFrame mac buf peerOk) := by
  unfold handleFrame
  cases hparse : linkFrameParse buf with
  | some frame =>
    simp only
    split
    · rename_i htype
      unfold handleJoin
      split
      · exact .ignored
      · rename_i hepoch
        cases hfind : s.findJoined mac with
        | none =>
          simp only
          split
          · exact .ignored
          · exact .joined hparse htype (not_not.mp hepoch) hfind ‹_›
        | some index => exact .rejoined hparse htype (not_not.mp hepoch) hfind
    · exact .ignored
  | none =>
    simp only
    split
    · exact .ignored
    · rename_i hlen
      cases hfind : s.findJoined mac with
      | none => exact .ignored
      | some index =>
        simp only [handleReading]
        split
        · rename_i hdup
          exact .resent (not_not.mp hlen) hfind hdup.1 hdup.2
        · rename_i hdup
          cases hpush : readingBufferPush s.buffer (Payload.ofBytes buf) with
          | mk ok buffer =>
            cases ok with
            | false => exact .refused (not_not.mp hlen) hfind hpush
            | true => exact .accepted (not_not.mp hlen) hfind (fun h he => hdup ⟨h, he⟩) hpush

inductive RelayOutcome (s : Substation) (poll : RadioPoll) (now beginAt : UInt32) :
    Substation × List Effect → Prop
  | pending {link : LoRaLink} {events : List RadioEvent} :
      s.loraLink.pollSend poll = (.pending, link, events) →
      RelayOutcome s poll now beginAt
        ({ s with loraLink := link }, events.map .radio ++ [.polled .pending])
  | acked {link : LoRaLink} {events : List RadioEvent} :
      s.loraLink.pollSend poll = (.acked, link, events) →
      RelayOutcome s poll now beginAt
        ({ s with loraLink := link, buffer := readingBufferPop s.buffer },
          events.map .radio ++ [.polled .acked] ++ [.popped])
  | failed {link : LoRaLink} {events : List RadioEvent} :
      s.loraLink.pollSend poll = (.failed, link, events) →
      RelayOutcome s poll now beginAt
        ({ s with loraLink := link, nextSendAt := now + UInt32.ofNat retryBackoffMs },
          events.map .radio ++ [.polled .failed])
  | heldOff : s.loraLink.phase = .idle → signed (now - s.nextSendAt) < 0 →
      RelayOutcome s poll now beginAt (s, [.polled .idle])
  | nothingToRelay {out : Payload} {buffer : ReadingBuffer} :
      s.loraLink.phase = .idle → ¬ signed (now - s.nextSendAt) < 0 →
      readingBufferPeek s.buffer s.inFlight = (false, out, buffer) →
      RelayOutcome s poll now beginAt ({ s with inFlight := out, buffer := buffer }, [.polled .idle])
  | relaying {out : Payload} {buffer : ReadingBuffer} :
      s.loraLink.phase = .idle → ¬ signed (now - s.nextSendAt) < 0 →
      readingBufferPeek s.buffer s.inFlight = (true, out, buffer) →
      RelayOutcome s poll now beginAt
        ({ s with
          inFlight := out
          buffer := buffer
          loraLink := ({ s.loraLink with pending := out, attempt := 0 }).enterPhase .transmit beginAt },
        [.polled .idle, .relaying out])

theorem relayStep_outcome (s : Substation) (poll : RadioPoll) (now beginAt : UInt32) :
    RelayOutcome s poll now beginAt (s.relayStep poll now beginAt) := by
  unfold relayStep
  have hout := s.loraLink.pollSend_outcome poll
  generalize hpoll : s.loraLink.pollSend poll = r at hout
  obtain ⟨status, link, events⟩ := r
  cases status with
  | pending => exact .pending hpoll
  | acked => exact .acked hpoll
  | failed => exact .failed hpoll
  | idle =>
    cases hout with
    | idle hphase =>
      simp only
      split
      · exact .heldOff hphase ‹_›
      · rename_i hdue
        cases hpeek : readingBufferPeek s.buffer s.inFlight with
        | mk ok rest =>
          obtain ⟨out, buffer⟩ := rest
          cases ok with
          | false => exact .nothingToRelay hphase hdue hpeek
          | true =>
            have h : RelayOutcome s poll now beginAt _ := .relaying hphase hdue hpeek
            simpa [LoRaLink.beginSend_idle hphase] using h

inductive Action where
  | beacon (now later : UInt32)
  | frame (mac : Mac) (buf : List UInt8) (peerOk : Bool)
  | relay (poll : RadioPoll) (now beginAt : UInt32)

def act (s : Substation) : Action → Substation × List Effect
  | .beacon now later => s.beaconIfDue now later
  | .frame mac buf peerOk => s.handleFrame mac buf peerOk
  | .relay poll now beginAt => s.relayStep poll now beginAt

def ActionStep (s : Substation) (a : Action) (s' : Substation) : Prop := s' = (s.act a).1

/-- The actions of one loop pass, in the order the source makes them. -/
def LoopInput.actions (i : LoopInput) : List Action :=
  .beacon i.beaconNow i.beaconLater :: i.frames.map (fun f => .frame f.1 f.2.1 f.2.2) ++
    [.relay i.poll i.relayNow i.beginAt]

def loops (s : Substation) (inputs : List LoopInput) : Substation :=
  inputs.foldl (fun s i => (s.substationLoop i).1) s

@[simp] theorem answerJoin_fst (s : Substation) (mac : Mac) (uid : Uid) (peerOk : Bool) :
    (answerJoin s mac uid peerOk).1 = s := by
  unfold answerJoin
  split <;> rfl

theorem pushed_not_mem_answerJoin (s : Substation) (mac : Mac) (uid : Uid) (peerOk : Bool) (p : Payload) (ok : Bool) :
    .pushed p ok ∉ (answerJoin s mac uid peerOk).2 := by
  unfold answerJoin
  split <;> simp

theorem beaconIfDue_frame (s : Substation) (now later : UInt32) :
    (s.beaconIfDue now later).1 = { s with nextBeaconAt := (s.beaconIfDue now later).1.nextBeaconAt } := by
  unfold beaconIfDue
  split <;> rfl

/-- No action changes whether setup succeeded, or the epoch. -/
theorem act_fixed (s : Substation) (a : Action) :
    (s.act a).1.ready = s.ready ∧ (s.act a).1.epoch = s.epoch := by
  cases a with
  | beacon now later =>
    simp only [act]
    rw [beaconIfDue_frame]
    exact ⟨rfl, rfl⟩
  | frame mac buf peerOk =>
    have h := s.handleFrame_outcome mac buf peerOk
    simp only [act]
    generalize s.handleFrame mac buf peerOk = r at h
    cases h <;> simp
  | relay poll now beginAt =>
    have h := s.relayStep_outcome poll now beginAt
    simp only [act]
    generalize s.relayStep poll now beginAt = r at h
    cases h <;> exact ⟨rfl, rfl⟩

/-- Only a frame logs a push, and it is what `readingBufferPush` made of that buffer. -/
theorem pushed_of_act {s : Substation} {a : Action} {p : Payload} {ok : Bool} (h : .pushed p ok ∈ (s.act a).2) :
    readingBufferPush s.buffer p = (ok, (s.act a).1.buffer) := by
  cases a with
  | beacon now later =>
    simp only [act, beaconIfDue] at h
    split at h <;> simp at h
  | frame mac buf peerOk =>
    have hout := s.handleFrame_outcome mac buf peerOk
    simp only [act] at h ⊢
    generalize s.handleFrame mac buf peerOk = r at h hout
    cases hout with
    | ignored => simp at h
    | joined => exact absurd h (pushed_not_mem_answerJoin _ _ _ _ _ _)
    | rejoined => exact absurd h (pushed_not_mem_answerJoin _ _ _ _ _ _)
    | resent => simp [sendDeliveryAck] at h
    | refused _ _ hpush =>
      obtain ⟨rfl, rfl⟩ : p = Payload.ofBytes buf ∧ ok = false := by simpa using h
      exact hpush
    | accepted _ _ _ hpush =>
      obtain ⟨rfl, rfl⟩ : p = Payload.ofBytes buf ∧ ok = true := by simpa [sendDeliveryAck] using h
      exact hpush
  | relay poll now beginAt =>
    have hout := s.relayStep_outcome poll now beginAt
    simp only [act] at h
    generalize s.relayStep poll now beginAt = r at h hout
    cases hout <;> simp at h

private theorem run_incoming (s : Substation) (frames : List (Mac × List UInt8 × Bool)) :
    ∃ moves, Run ActionStep s moves (s.handleIncoming frames).1 ∧
      moves.map (·.label) = frames.map fun f => Action.frame f.1 f.2.1 f.2.2 := by
  induction frames generalizing s with
  | nil => exact ⟨[], .nil, rfl⟩
  | cons f rest ih =>
    obtain ⟨mac, buf, peerOk⟩ := f
    obtain ⟨moves, hrun, hlabels⟩ := ih (s.handleFrame mac buf peerOk).1
    have hstep : ActionStep s (.frame mac buf peerOk) (s.handleFrame mac buf peerOk).1 := rfl
    exact ⟨_, Run.cons hstep hrun, by simp [hlabels]⟩

/-- A loop pass of a set up substation is a run of its atomic actions. -/
theorem run_substationLoop (s : Substation) (i : LoopInput) (hready : s.ready = true) :
    ∃ moves, Run ActionStep s moves (s.substationLoop i).1 ∧ moves.map (·.label) = i.actions := by
  let s₁ := (s.beaconIfDue i.beaconNow i.beaconLater).1
  obtain ⟨moves, hrun, hlabels⟩ := run_incoming s₁ i.frames
  have hbeacon : ActionStep s (.beacon i.beaconNow i.beaconLater) s₁ := rfl
  have hrelay : ActionStep (s₁.handleIncoming i.frames).1 (.relay i.poll i.relayNow i.beginAt)
      ((s₁.handleIncoming i.frames).1.relayStep i.poll i.relayNow i.beginAt).1 := rfl
  have hend : ((s₁.handleIncoming i.frames).1.relayStep i.poll i.relayNow i.beginAt).1 =
      (s.substationLoop i).1 := by
    simp [substationLoop, hready, s₁]
  refine ⟨_, hend ▸ (Run.cons hbeacon hrun).snoc hrelay, ?_⟩
  · simp [LoopInput.actions, hlabels]

/-- Any number of loop passes is a run of atomic actions, and no actions at all
on a substation whose setup failed. -/
theorem run_loops (s : Substation) (inputs : List LoopInput) :
    ∃ moves, Run ActionStep s moves (s.loops inputs) ∧
      moves.map (·.label) = if s.ready then inputs.flatMap LoopInput.actions else [] := by
  induction inputs generalizing s with
  | nil => exact ⟨[], .nil, by simp⟩
  | cons i rest ih =>
    cases hready : s.ready with
    | false =>
      obtain ⟨moves, hrun, hlabels⟩ := ih s
      refine ⟨moves, ?_, by simpa [hready] using hlabels⟩
      simpa [loops, substationLoop, hready] using hrun
    | true =>
      obtain ⟨first, hfirst, hlabels₁⟩ := s.run_substationLoop i hready
      obtain ⟨moves, hrun, hlabels⟩ := ih (s.substationLoop i).1
      have hready' : (s.substationLoop i).1.ready = true := by
        refine hfirst.invariant (fun _ t => t.ready = true) hready fun _ m a t _ hm hs => ?_
        rw [hs, (act_fixed m a).1, hm]
      exact ⟨first ++ moves, hfirst.append hrun, by simp [hlabels₁, hlabels, hready']⟩

/-- A Join of the current epoch fills an empty table and is answered. -/
theorem handleFrame_first_join {s : Substation} (hjoined : s.joined = []) (mac : Mac) (uid : Uid) :
    s.handleFrame mac (linkFrameMake .join s.epoch (some uid)).toBytes true =
      ({ s with joined := [⟨mac, uid, 0, false⟩] },
        [.sent mac (linkFrameMake .joinAck s.epoch (some uid)).toBytes]) := by
  simp [handleFrame, handleJoin, findJoined, hjoined, answerJoin]

/-- The first reading of the only node that has joined is buffered and ACKed. -/
theorem handleFrame_first_reading {s : Substation} (hv : s.buffer.Valid)
    (hempty : ∀ i, (s.buffer.slot i).used = false) {mac : Mac} {p : Payload}
    (hjoined : s.joined = [⟨mac, p.uid, 0, false⟩]) (peerOk : Bool) :
    (s.handleFrame mac p.toBytes peerOk).2 = [.pushed p true, sendDeliveryAck mac p] ∧
      p.reading ∈ (s.handleFrame mac p.toBytes peerOk).1.buffer.readings p.uid ∧
      (s.handleFrame mac p.toBytes peerOk).1.joined = [⟨mac, p.uid, p.seq, true⟩] := by
  have hfind : s.findJoined mac = some 0 := by
    simp [findJoined, hjoined, List.findIdx?_cons]
  have hfresh : (s.joinedAt 0).hasSeq = false := by
    simp [joinedAt, hjoined]
  cases hpush : readingBufferPush s.buffer p with
  | mk ok buffer =>
    cases ok with
    | true =>
      have hadded := (readings_push hv hpush).2.2.2 rfl
      simp [handleFrame, handleReading, hfind, hfresh, hpush, hadded, hjoined, keepSeq]
    | false =>
      rcases readingBufferPush_cases hv p with ⟨_, _, _, _, he, _⟩ | ⟨_, _, _, he, _⟩ | ⟨_, hall, _⟩
      · cases he.symm.trans hpush
      · cases he.symm.trans hpush
      · exact absurd (hall 0) (by simp [hempty])

/-- The only node that has joined joins again under its UID: the table stays and the Join is answered. -/
theorem handleFrame_join_again {s : Substation} {mac : Mac} {uid : Uid} {seq : UInt32}
    (hjoined : s.joined = [⟨mac, uid, seq, true⟩]) :
    s.handleFrame mac (linkFrameMake .join s.epoch (some uid)).toBytes true =
      (s, [.sent mac (linkFrameMake .joinAck s.epoch (some uid)).toBytes]) := by
  have hsame : ({ s with joined := [⟨mac, uid, seq, true⟩] } : Substation) = s := by rw [← hjoined]
  simp [handleFrame, handleJoin, findJoined, hjoined, answerJoin, rejoin, hsame]

/-- A reading that is the last one accepted of its node is only ACKed. -/
theorem handleFrame_reading_again {s : Substation} {mac : Mac} {uid : Uid} {p : Payload}
    (hjoined : s.joined = [⟨mac, uid, p.seq, true⟩]) (peerOk : Bool) :
    s.handleFrame mac p.toBytes peerOk = (s, [sendDeliveryAck mac p]) := by
  simp [handleFrame, handleReading, findJoined, joinedAt, hjoined]

end IotFirmware.Substation
