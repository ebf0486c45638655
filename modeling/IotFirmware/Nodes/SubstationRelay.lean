import IotFirmware.Buffering.ReadingBufferInvariant
import IotFirmware.Nodes.SubstationSteps

/-! Store and forward safety of the substation: what a reading in flight has to
do with the pending peek, and how a reading can leave the buffer. -/
namespace IotFirmware.Substation
open ReadingBuffer

def effects (x : Move Substation Action) : List Effect := (x.before.act x.label).2

/-- While a send is in flight its pending payload is `inFlight`, and a pending
pop can only be for that reading; while its ACK is awaited it has been sent. -/
structure RelayInv (moves : List (Move Substation Action)) (s : Substation) : Prop where
  valid : Valid s.buffer
  pending_eq : s.loraLink.phase ≠ .idle → s.loraLink.pending = s.inFlight
  peeked_eq : s.loraLink.phase ≠ .idle → ∀ u r, s.buffer.peeked = some (u, r) →
    u = s.inFlight.uid ∧ r = s.inFlight.reading
  sent : s.loraLink.phase = .awaitAck →
    ∃ z ∈ moves, .radio (.transmitted s.inFlight.toBytes true) ∈ effects z

/-- Everything one action can do to the buffered readings. -/
inductive ReadingsChange (s : Substation) (done : List Effect) (t : Substation) : Prop
  | kept : (∀ p, .pushed p true ∉ done) → t.buffer.readings = s.buffer.readings → ReadingsChange s done t
  | pushed {p : Payload} : (∀ q, .pushed q true ∈ done ↔ q = p) → .popped ∉ done →
      t.buffer.readings = Function.update s.buffer.readings p.uid
        ((if (s.buffer.readings p.uid).length = readingsPerNode then (s.buffer.readings p.uid).tail
          else s.buffer.readings p.uid) ++ [p.reading]) → ReadingsChange s done t
  | popped : (∀ p, .pushed p true ∉ done) → s.loraLink.phase = .awaitAck →
      .radio (.ackRead ⟨s.inFlight.uid, s.inFlight.seq⟩) ∈ done → .polled .acked ∈ done →
      s.buffer.readings s.inFlight.uid = s.inFlight.reading :: t.buffer.readings s.inFlight.uid →
      (∀ u ≠ s.inFlight.uid, t.buffer.readings u = s.buffer.readings u) → ReadingsChange s done t

theorem answerJoin_effects (s : Substation) (mac : Mac) (uid : Uid) (peerOk : Bool) (e : Effect)
    (h : e ∈ (answerJoin s mac uid peerOk).2) : ∃ data, e = .sent mac data := by
  unfold answerJoin at h
  split at h
  · exact ⟨_, List.mem_singleton.mp h⟩
  · cases h

/-- A frame touches neither the link nor the reading in flight, and the buffer
only by an accepted push. -/
theorem handleFrame_buffer {s : Substation} (hv : Valid s.buffer) (mac : Mac) (buf : List UInt8) (peerOk : Bool) :
    let r := s.handleFrame mac buf peerOk
    r.1.loraLink = s.loraLink ∧ r.1.inFlight = s.inFlight ∧ .popped ∉ r.2 ∧
      (((∀ p, .pushed p true ∉ r.2) ∧ r.1.buffer = s.buffer) ∨
        ∃ p, (∀ q, .pushed q true ∈ r.2 ↔ q = p) ∧ readingBufferPush s.buffer p = (true, r.1.buffer)) := by
  have h := s.handleFrame_outcome mac buf peerOk
  generalize s.handleFrame mac buf peerOk = r at h
  have hjoin (t : Substation) (uid : Uid) (e : Effect) (he : ∀ data, e ≠ .sent mac data) :
      e ∉ (answerJoin t mac uid peerOk).2 := by
    intro hmem
    obtain ⟨data, rfl⟩ := answerJoin_effects t mac uid peerOk e hmem
    exact he data rfl
  cases h with
  | ignored => exact ⟨rfl, rfl, by simp, .inl ⟨by simp, rfl⟩⟩
  | joined hparse htype hepoch hfind hroom =>
    refine ⟨by simp, by simp, hjoin _ _ _ (by simp), .inl ⟨fun p => hjoin _ _ _ (by simp), by simp⟩⟩
  | rejoined hparse htype hepoch hfind =>
    refine ⟨by simp, by simp, hjoin _ _ _ (by simp), .inl ⟨fun p => hjoin _ _ _ (by simp), by simp⟩⟩
  | resent => exact ⟨rfl, rfl, by simp [sendDeliveryAck], .inl ⟨by simp [sendDeliveryAck], rfl⟩⟩
  | refused _ _ hpush => exact ⟨rfl, rfl, by simp, .inl ⟨by simp, (readings_push hv hpush).2.2.1 rfl⟩⟩
  | accepted _ _ _ hpush =>
    exact ⟨rfl, rfl, by simp [sendDeliveryAck], .inr ⟨_, by simp [sendDeliveryAck], hpush⟩⟩

/-- Every action changes the readings in one of the three ways. -/
theorem act_readings {moves : List (Move Substation Action)} {s : Substation} (hinv : RelayInv moves s)
    (a : Action) : ReadingsChange s (s.act a).2 (s.act a).1 := by
  cases a with
  | beacon now later =>
    refine .kept (fun p => ?_) ?_
    · simp only [act, beaconIfDue]
      split <;> simp
    · simp only [act]
      rw [beaconIfDue_frame]
  | frame mac buf peerOk =>
    obtain ⟨_, _, hnopop, ⟨hnone, hbuffer⟩ | ⟨p, hp, hpush⟩⟩ :=
      handleFrame_buffer hinv.valid mac buf peerOk
    · exact .kept hnone (congrArg readings hbuffer)
    · exact .pushed hp hnopop ((readings_push hinv.valid hpush).2.2.2 rfl)
  | relay poll now beginAt =>
    have h := s.relayStep_outcome poll now beginAt
    simp only [act]
    generalize s.relayStep poll now beginAt = r at h
    cases h with
    | pending => exact .kept (by simp) rfl
    | failed => exact .kept (by simp) rfl
    | heldOff => exact .kept (by simp) rfl
    | nothingToRelay _ _ hpeek => exact .kept (by simp) (readings_peek hinv.valid hpeek).2.1
    | relaying _ _ hpeek => exact .kept (by simp) (readings_peek hinv.valid hpeek).2.1
    | @acked link events hpoll =>
      have hout := s.loraLink.pollSend_outcome poll
      rw [hpoll] at hout
      cases hout with
      | acked hphase hack =>
        have hbusy : s.loraLink.phase ≠ .idle := by simp [hphase]
        rcases (readings_pop hinv.valid).2 with ⟨_, hkept⟩ | ⟨u, q, hpeek, hhead, hother⟩
        · exact .kept (by simp) hkept
        · obtain ⟨rfl, rfl⟩ := hinv.peeked_eq hbusy u q hpeek
          exact .popped (by simp) hphase (by simp [hinv.pending_eq hbusy]) (by simp) hhead hother

/-- A move that keeps the link, the reading in flight and the set of possible
pops keeps the invariant. -/
theorem RelayInv.frame {moves : List (Move Substation Action)} {s t : Substation} (hinv : RelayInv moves s)
    (hv : Valid t.buffer) (hlink : t.loraLink = s.loraLink) (hflight : t.inFlight = s.inFlight)
    (hpeeked : ∀ u r, t.buffer.peeked = some (u, r) → s.buffer.peeked = some (u, r)) (x : Move Substation Action) :
    RelayInv (moves ++ [x]) t where
  valid := hv
  pending_eq h := by
    rw [hlink] at h ⊢
    rw [hflight, hinv.pending_eq h]
  peeked_eq h u r hp := by
    rw [hflight]
    exact hinv.peeked_eq (hlink ▸ h) u r (hpeeked u r hp)
  sent h := by
    obtain ⟨z, hz, hsent⟩ := hinv.sent (hlink ▸ h)
    exact ⟨z, List.mem_append_left _ hz, hflight ▸ hsent⟩

/-- A relay step that goes on waiting keeps the invariant. -/
theorem RelayInv.pending {moves : List (Move Substation Action)} {s : Substation} (hinv : RelayInv moves s)
    {poll : RadioPoll} {link : LoRaLink} {events : List RadioEvent}
    (hpoll : s.loraLink.pollSend poll = (.pending, link, events)) (x : Move Substation Action)
    (hx : ∀ e ∈ events, .radio e ∈ effects x) : RelayInv (moves ++ [x]) { s with loraLink := link } := by
  have hout := s.loraLink.pollSend_outcome poll
  rw [hpoll] at hout
  have hkeep (hbusy : s.loraLink.phase ≠ .idle) (hpending : link.pending = s.loraLink.pending)
      (hsent : link.phase = .awaitAck → s.loraLink.phase = .awaitAck ∨
        .transmitted s.loraLink.pending.toBytes true ∈ events) :
      RelayInv (moves ++ [x]) { s with loraLink := link } := by
    refine ⟨hinv.valid, fun _ => hpending.trans (hinv.pending_eq hbusy), fun _ => hinv.peeked_eq hbusy, ?_⟩
    intro hawait
    rcases hsent hawait with h | h
    · obtain ⟨z, hz, hsent⟩ := hinv.sent h
      exact ⟨z, List.mem_append_left _ hz, hsent⟩
    · rw [hinv.pending_eq hbusy] at h
      exact ⟨x, by simp, hx _ h⟩
  cases hout with
  | transmitted hphase => exact hkeep (by simp [hphase]) rfl fun _ => .inr (by simp)
  | sendFailed hphase => exact hkeep (by simp [hphase]) rfl (by simp [LoRaLink.enterPhase])
  | ackTimeout hphase => exact hkeep (by simp [hphase]) rfl (by simp [LoRaLink.enterPhase])
  | listening hphase => exact hkeep (by simp [hphase]) rfl .inl
  | backingOff hphase => exact hkeep (by simp [hphase]) rfl .inl
  | retrying hphase => exact hkeep (by simp [hphase]) rfl (by simp [LoRaLink.enterPhase])

/-- With no send in flight the invariant only asks for a valid buffer. -/
theorem RelayInv.of_idle {moves : List (Move Substation Action)} {s : Substation} (hv : Valid s.buffer)
    (hidle : s.loraLink.phase = .idle) : RelayInv moves s :=
  ⟨hv, fun h => absurd hidle h, fun h => absurd hidle h, fun h => by simp [hidle] at h⟩

theorem relayInv_step {moves : List (Move Substation Action)} {s : Substation} (hinv : RelayInv moves s)
    (a : Action) : RelayInv (moves ++ [⟨s, a, (s.act a).1⟩]) (s.act a).1 := by
  cases a with
  | beacon now later =>
    simp only [act]
    rw [beaconIfDue_frame]
    refine hinv.frame ?_ ?_ ?_ ?_ _
    · exact hinv.valid
    · rfl
    · rfl
    · exact fun _ _ => id
  | frame mac buf peerOk =>
    obtain ⟨hlink, hflight, _, ⟨_, hbuffer⟩ | ⟨p, _, hpush⟩⟩ := handleFrame_buffer hinv.valid mac buf peerOk
    · exact hinv.frame (hbuffer ▸ hinv.valid) hlink hflight (fun u r h => by rwa [← hbuffer]) _
    · obtain ⟨hv, hpeeked, _⟩ := readings_push hinv.valid hpush
      exact hinv.frame hv hlink hflight hpeeked _
  | relay poll now beginAt =>
    have h := s.relayStep_outcome poll now beginAt
    have heffects : effects ⟨s, .relay poll now beginAt, (s.act (.relay poll now beginAt)).1⟩ =
        (s.relayStep poll now beginAt).2 := rfl
    simp only [act] at heffects ⊢
    generalize hr : s.relayStep poll now beginAt = r at h heffects
    cases h with
    | pending hpoll =>
      refine hinv.pending hpoll _ fun e he => ?_
      rw [heffects]
      simp [he]
    | acked hpoll =>
      have hout := s.loraLink.pollSend_outcome poll
      rw [hpoll] at hout
      cases hout
      exact .of_idle (readings_pop hinv.valid).1 rfl
    | failed hpoll =>
      have hout := s.loraLink.pollSend_outcome poll
      rw [hpoll] at hout
      cases hout
      exact .of_idle hinv.valid rfl
    | heldOff hidle => exact .of_idle hinv.valid hidle
    | nothingToRelay hidle _ hpeek => exact .of_idle (readings_peek hinv.valid hpeek).1 hidle
    | @relaying out buffer hidle _ hpeek =>
      obtain ⟨hv, _, hpeeked, _⟩ := readings_peek hinv.valid hpeek
      refine ⟨hv, fun _ => rfl, ?_, fun h => by simp [LoRaLink.enterPhase] at h⟩
      intro _ u q hq
      obtain ⟨rfl, rfl⟩ := Prod.mk.inj (Option.some.inj ((hpeeked rfl).symm.trans hq))
      exact ⟨rfl, rfl⟩

theorem substationSetup_idle (link : LoRaLinkConfig) (r : SetupResults) :
    (substationSetup link r).loraLink.phase = .idle ∧ (substationSetup link r).buffer = .boot := by
  unfold substationSetup
  split <;> exact ⟨rfl, rfl⟩

/-- The invariant holds along every run from boot. -/
theorem relayInv_run {link : LoRaLinkConfig} {r : SetupResults} {moves : List (Move Substation Action)}
    {s : Substation} (hrun : Run ActionStep (substationSetup link r) moves s) : RelayInv moves s := by
  obtain ⟨hidle, hboot⟩ := substationSetup_idle link r
  refine hrun.invariant RelayInv (.of_idle (hboot ▸ valid_boot) hidle) fun moves m a t _ hm hs => ?_
  rw [show t = (m.act a).1 from hs]
  exact relayInv_step hm a

/-- Reading `q` of `u` left by an ACK: it was in flight and the oldest of its
UID, `pollSend` read an `AckPayload` with exactly its UID and seq and returned Acked. -/
def LeftAcked (x : Move Substation Action) (u : Uid) (q : Reading) : Prop :=
  x.before.loraLink.phase = .awaitAck ∧ x.before.inFlight.uid = u ∧ x.before.inFlight.reading = q ∧
    .radio (.ackRead ⟨u, q.seq⟩) ∈ effects x ∧ .polled .acked ∈ effects x ∧
    x.before.buffer.readings u = q :: x.after.buffer.readings u

/-- Reading `q` of `u` left by an overwrite: it was the oldest of a full ring
and a push for the same UID was accepted. -/
def LeftOverwritten (x : Move Substation Action) (u : Uid) (q : Reading) : Prop :=
  ∃ p l, .pushed p true ∈ effects x ∧ p.uid = u ∧ (q :: l).length = readingsPerNode ∧
    x.before.buffer.readings u = q :: l ∧ x.after.buffer.readings u = l ++ [p.reading]

structure StoreAndForward (moves : List (Move Substation Action)) (s : Substation) : Prop where
  /-- A reading is gone after a move only if the move ACKed or overwrote it. -/
  leaves : ∀ x ∈ moves, ∀ u, ∀ q ∈ x.before.buffer.readings u, q ∉ x.after.buffer.readings u →
    LeftAcked x u q ∨ LeftOverwritten x u q
  /-- An accepted reading is held at the end unless a later move ACKed or overwrote it. -/
  held : ∀ front x back, moves = front ++ x :: back → ∀ p, .pushed p true ∈ effects x →
    p.reading ∈ s.buffer.readings p.uid ∨
      ∃ y ∈ back, LeftAcked y p.uid p.reading ∨ LeftOverwritten y p.uid p.reading
  /-- A pop removes nothing, or the reading in flight, which had been sent. -/
  pop_sent : ∀ front x back, moves = front ++ x :: back → .popped ∈ effects x →
    x.after.buffer.readings = x.before.buffer.readings ∨
      (LeftAcked x x.before.inFlight.uid x.before.inFlight.reading ∧
        (∀ u ≠ x.before.inFlight.uid, x.after.buffer.readings u = x.before.buffer.readings u) ∧
        ∃ z ∈ front, .radio (.transmitted x.before.inFlight.toBytes true) ∈ effects z)
  /-- After every move a send in flight carries `inFlight`. -/
  pending_eq : ∀ x ∈ moves, x.after.loraLink.phase ≠ .idle → x.after.loraLink.pending = x.after.inFlight

/-- A reading gone after an action was ACKed or overwritten by it. -/
theorem readingsChange_leaves {x : Move Substation Action} (h : ReadingsChange x.before (effects x) x.after)
    {u : Uid} {q : Reading} (hq : q ∈ x.before.buffer.readings u) (hgone : q ∉ x.after.buffer.readings u) :
    LeftAcked x u q ∨ LeftOverwritten x u q := by
  cases h with
  | kept _ hsame => exact absurd (hsame ▸ hq) hgone
  | @pushed p hp _ hafter =>
    by_cases hu : u = p.uid
    · subst hu
      rw [hafter, Function.update_self] at hgone
      split at hgone
      · rename_i hfull
        -- only the oldest of a full ring is missing afterwards
        cases hl : x.before.buffer.readings p.uid with
        | nil => simp [hl] at hq
        | cons r l =>
          simp only [hl, List.tail_cons, List.mem_append, not_or] at hgone hfull
          rw [hl] at hq
          obtain rfl := (List.mem_cons.mp hq).resolve_right hgone.1
          refine .inr ⟨p, l, (hp p).mpr rfl, rfl, hfull, hl, ?_⟩
          rw [hafter, Function.update_self, hl, if_pos hfull]
          rfl
      · exact absurd (List.mem_append_left _ hq) hgone
    · rw [hafter, Function.update_of_ne hu] at hgone
      exact absurd hq hgone
  | popped _ hphase hack hpolled hhead hother =>
    by_cases hu : u = x.before.inFlight.uid
    · subst hu
      rw [hhead] at hq
      obtain rfl := (List.mem_cons.mp hq).resolve_right hgone
      exact .inl ⟨hphase, rfl, rfl, hack, hpolled, hhead⟩
    · rw [hother u hu] at hgone
      exact absurd hq hgone

/-- An accepted reading is held right after its push. -/
theorem readingsChange_accepted {x : Move Substation Action}
    (h : ReadingsChange x.before (effects x) x.after) {p : Payload} (hp : .pushed p true ∈ effects x) :
    p.reading ∈ x.after.buffer.readings p.uid := by
  cases h with
  | kept hnone => exact absurd hp (hnone p)
  | pushed hq _ hafter =>
    obtain rfl := (hq p).mp hp
    rw [hafter, Function.update_self]
    simp
  | popped hnone => exact absurd hp (hnone p)

/-- A pop that removes anything removes the reading in flight, sent before. -/
theorem readingsChange_pop {front : List (Move Substation Action)} {x : Move Substation Action}
    (hinv : RelayInv front x.before) (h : ReadingsChange x.before (effects x) x.after)
    (hpop : .popped ∈ effects x) :
    x.after.buffer.readings = x.before.buffer.readings ∨
      (LeftAcked x x.before.inFlight.uid x.before.inFlight.reading ∧
        (∀ u ≠ x.before.inFlight.uid, x.after.buffer.readings u = x.before.buffer.readings u) ∧
        ∃ z ∈ front, .radio (.transmitted x.before.inFlight.toBytes true) ∈ effects z) := by
  cases h with
  | kept _ hsame => exact .inl hsame
  | pushed _ hnopop => exact absurd hpop hnopop
  | popped _ hphase hack hpolled hhead hother =>
    exact .inr ⟨⟨hphase, rfl, rfl, hack, hpolled, hhead⟩, hother, hinv.sent hphase⟩

/-- From boot, through any loop passes over any frames, radio results and clock
values, a reading leaves the buffer only ACKed while in flight or overwritten. -/
theorem substationLoop_storeAndForward (link : LoRaLinkConfig) (r : SetupResults) (inputs : List LoopInput) :
    ∃ moves, Run ActionStep (substationSetup link r) moves ((substationSetup link r).loops inputs) ∧
      moves.map (·.label) = (if (substationSetup link r).ready then inputs.flatMap LoopInput.actions else []) ∧
      StoreAndForward moves ((substationSetup link r).loops inputs) := by
  obtain ⟨moves, hrun, hlabels⟩ := run_loops (substationSetup link r) inputs
  have hinv : ∀ front x back, moves = front ++ x :: back → RelayInv front x.before := by
    rintro front x back rfl
    exact relayInv_run hrun.move.1
  have hstep : ∀ front x back, moves = front ++ x :: back → x.after = (x.before.act x.label).1 := by
    rintro front x back rfl
    exact hrun.move.2.1
  have hchange : ∀ front x back, moves = front ++ x :: back →
      ReadingsChange x.before (effects x) x.after := by
    intro front x back he
    rw [hstep front x back he]
    exact act_readings (hinv front x back he) x.label
  have hleaves : ∀ x ∈ moves, ∀ u, ∀ q ∈ x.before.buffer.readings u, q ∉ x.after.buffer.readings u →
      LeftAcked x u q ∨ LeftOverwritten x u q := by
    intro x hx u q hq hgone
    obtain ⟨front, back, he⟩ := List.append_of_mem hx
    exact readingsChange_leaves (hchange front x back he) hq hgone
  refine ⟨moves, hrun, hlabels, hleaves, ?_, ?_, ?_⟩
  · rintro front x back he p hp
    have hheld : p.reading ∈ x.after.buffer.readings p.uid :=
      readingsChange_accepted (hchange front x back he) hp
    have hback : Run ActionStep x.after back _ := (he ▸ hrun).move.2.2
    rcases hback.persists_or_ends (p.reading ∈ ·.buffer.readings p.uid) hheld with h | ⟨y, hy, hin, hout⟩
    · exact .inl h
    · exact .inr ⟨y, hy, hleaves y (he ▸ by simp [hy]) p.uid p.reading hin hout⟩
  · intro front x back he hpop
    exact readingsChange_pop (hinv front x back he) (hchange front x back he) hpop
  · intro x hx
    obtain ⟨front, back, rfl⟩ := List.append_of_mem hx
    have hto : Run ActionStep (substationSetup link r) (front ++ [x]) x.after :=
      .snoc hrun.move.1 hrun.move.2.1
    exact (relayInv_run hto).pending_eq

end IotFirmware.Substation
