import IotFirmware.Nodes.SubstationRelay

/-! What a substation holds and transmits is made of the readings it accepted:
nothing is invented, and no reading moves to another UID. -/
namespace IotFirmware

def Effect.accepted? : Effect → Option Payload
  | .pushed p true => some p
  | _ => none

/-- The bytes an effect of a substation puts on LoRa. A transmission reported
as failed may still have gone out. -/
def Effect.transmitted? : Effect → Option (List UInt8)
  | .radio (.transmitted data _) => some data
  | _ => none

namespace LoRaLink

/-- A poll leaves the payload of the send as it is, and never starts a send. -/
theorem pollSend_pending (link : LoRaLink) (poll : RadioPoll) :
    (link.pollSend poll).2.1.pending = link.pending ∧
      ((link.pollSend poll).2.1.phase ≠ .idle → link.phase ≠ .idle) := by
  have h := link.pollSend_outcome poll
  generalize link.pollSend poll = r at h
  cases h <;> simp_all [enterPhase]

/-- A poll transmits the payload of the send, in the phase for that and in no other. -/
theorem pollSend_transmitted (link : LoRaLink) (poll : RadioPoll) :
    ((link.pollSend poll).2.2.map Effect.radio).filterMap Effect.transmitted? =
      if link.phase = .transmit then [link.pending.toBytes] else [] := by
  have hack : (((readAck poll).map RadioEvent.ackRead).toList.map Effect.radio).filterMap Effect.transmitted? = [] := by
    cases readAck poll <;> rfl
  have h := link.pollSend_outcome poll
  generalize link.pollSend poll = r at h
  cases h <;> simp_all [Effect.transmitted?]

end LoRaLink

namespace Substation
open ReadingBuffer

/-- A payload made of accepted ones of its UID: the reading of one under the
identity fields of one. -/
def Vouched (accepted : List Payload) (q : Payload) : Prop :=
  (∃ p ∈ accepted, p.uid = q.uid ∧ p.reading = q.reading) ∧
    ∃ p ∈ accepted, p.uid = q.uid ∧ p.identity = q.identity

def HoldingVouched (accepted : List Payload) (u : Uid) (holding : Identity × List Reading) : Prop :=
  (∀ q ∈ holding.2, ∃ p ∈ accepted, p.uid = u ∧ p.reading = q) ∧
    ∃ p ∈ accepted, p.uid = u ∧ p.identity = holding.1

theorem Vouched.append {accepted : List Payload} {q : Payload} (h : Vouched accepted q) (more : List Payload) :
    Vouched (accepted ++ more) q := by
  obtain ⟨⟨p, hp, hreading⟩, p', hp', hidentity⟩ := h
  exact ⟨⟨p, List.mem_append_left _ hp, hreading⟩, p', List.mem_append_left _ hp', hidentity⟩

theorem HoldingVouched.append {accepted : List Payload} {u : Uid} {holding : Identity × List Reading}
    (h : HoldingVouched accepted u holding) (more : List Payload) : HoldingVouched (accepted ++ more) u holding := by
  obtain ⟨hreadings, p', hp', hidentity⟩ := h
  refine ⟨fun q hq => ?_, p', List.mem_append_left _ hp', hidentity⟩
  obtain ⟨p, hp, he⟩ := hreadings q hq
  exact ⟨p, List.mem_append_left _ hp, he⟩

/-- All the buffer holds and the payload of a send in flight come from readings
accepted. -/
structure HeldInv (accepted : List Payload) (s : Substation) : Prop where
  valid : Valid s.buffer
  held : ∀ u holding, s.buffer.held u = some holding → HoldingVouched accepted u holding
  flight : s.loraLink.phase ≠ .idle → Vouched accepted s.loraLink.pending

theorem heldInv_boot {s : Substation} (hbuffer : s.buffer = .boot) (hidle : s.loraLink.phase = .idle)
    (accepted : List Payload) : HeldInv accepted s where
  valid := hbuffer ▸ valid_boot
  held u holding h := by
    rw [hbuffer, held_eq_none fun i hi => by simp [NodeSlot.zero] at hi] at h
    cases h
  flight h := absurd hidle h

/-- More accepted readings, with the buffer and the link as they were. -/
theorem HeldInv.frame {accepted : List Payload} {s t : Substation} (h : HeldInv accepted s)
    (hbuffer : t.buffer = s.buffer) (hlink : t.loraLink = s.loraLink) (more : List Payload) :
    HeldInv (accepted ++ more) t where
  valid := hbuffer ▸ h.valid
  held u holding hu := (h.held u holding (hbuffer ▸ hu)).append more
  flight hbusy := by
    rw [hlink] at hbusy ⊢
    exact (h.flight hbusy).append more

/-- An accepted push brings in its own reading and identity fields. -/
theorem HeldInv.push {accepted : List Payload} {s t : Substation} (h : HeldInv accepted s) {p : Payload}
    (hpush : readingBufferPush s.buffer p = (true, t.buffer)) (hlink : t.loraLink = s.loraLink) :
    HeldInv (accepted ++ [p]) t := by
  have hflight : t.loraLink.phase ≠ .idle → Vouched (accepted ++ [p]) t.loraLink.pending := by
    intro hbusy
    rw [hlink] at hbusy ⊢
    exact (h.flight hbusy).append [p]
  have hlast : p ∈ accepted ++ [p] := by simp
  have hupdated {l : List Reading} (hl : ∀ q ∈ l, ∃ p' ∈ accepted, p'.uid = p.uid ∧ p'.reading = q)
      (hheld : t.buffer.held = Function.update s.buffer.held p.uid (some (p.identity, l ++ [p.reading])))
      (u : Uid) (holding : Identity × List Reading) (hu : t.buffer.held u = some holding) :
      HoldingVouched (accepted ++ [p]) u holding := by
    rw [hheld] at hu
    by_cases hup : u = p.uid
    · subst hup
      obtain rfl : (p.identity, l ++ [p.reading]) = holding := by simpa using hu
      refine ⟨fun q hq => ?_, p, hlast, rfl, rfl⟩
      rcases List.mem_append.mp hq with hold | hnew
      · obtain ⟨p', hp', he⟩ := hl q hold
        exact ⟨p', List.mem_append_left _ hp', he⟩
      · exact ⟨p, hlast, rfl, (List.mem_singleton.mp hnew).symm⟩
    · rw [Function.update_of_ne hup] at hu
      exact (h.held u holding hu).append [p]
  rcases readingBufferPush_cases h.valid p with ⟨i, l, b, hi, he, hv, hheld, _⟩ | ⟨b, _, _, he, hv, hheld, _⟩ |
    ⟨_, _, he⟩
  · obtain rfl := (Prod.mk.inj (he.symm.trans hpush)).2
    refine ⟨hv, hupdated (fun q hq => ?_) hheld, hflight⟩
    have hq' : q ∈ l := by
      split at hq
      · exact List.mem_of_mem_tail hq
      · exact hq
    exact (h.held _ _ hi).1 q hq'
  · obtain rfl := (Prod.mk.inj (he.symm.trans hpush)).2
    exact ⟨hv, hupdated (l := []) (by simp) hheld, hflight⟩
  · cases (Prod.mk.inj (he.symm.trans hpush)).1

/-- A pop takes readings away, and brings nothing in. -/
theorem HeldInv.pop {accepted : List Payload} {s : Substation} (h : HeldInv accepted s) {link : LoRaLink}
    (hidle : link.phase = .idle) :
    HeldInv accepted { s with loraLink := link, buffer := readingBufferPop s.buffer } := by
  refine ⟨(readings_pop h.valid).1, fun u holding hu => ?_, fun hbusy => absurd hidle hbusy⟩
  rcases readingBufferPop_cases h.valid with ⟨_, he⟩ | ⟨v, q, i, l, _, hv, _, hheld, _⟩
  · simp only [he] at hu
    exact h.held u holding hu
  · simp only [hheld] at hu
    by_cases huv : u = v
    · subst huv
      rw [Function.update_self] at hu
      split at hu
      · cases hu
      · obtain rfl := Option.some.inj hu
        exact ⟨fun q' hq' => (h.held u _ hv).1 q' (List.mem_cons_of_mem _ hq'), (h.held u _ hv).2⟩
    · rw [Function.update_of_ne huv] at hu
      exact h.held u holding hu

/-- A peek serves a vouched payload. -/
theorem HeldInv.peek {accepted : List Payload} {s : Substation} (h : HeldInv accepted s) {out : Payload}
    {b : ReadingBuffer} (hpeek : readingBufferPeek s.buffer s.inFlight = (true, out, b)) : Vouched accepted out := by
  rcases readingBufferPeek_cases h.valid s.inFlight with ⟨i, hi, he⟩ | ⟨_, he⟩
  · obtain rfl := (Prod.mk.inj (Prod.mk.inj (he.symm.trans hpeek)).2).1
    obtain ⟨hreadings, hidentity⟩ := h.held _ _ (held_of_used h.valid hi)
    refine ⟨hreadings _ ?_, hidentity⟩
    rw [contents_eq_cons h.valid hi]
    exact List.mem_cons_self
  · cases (Prod.mk.inj (he.symm.trans hpeek)).1

theorem HeldInv.peeked {accepted : List Payload} {s t : Substation} (h : HeldInv accepted s) {ok : Bool}
    {out : Payload} (hpeek : readingBufferPeek s.buffer s.inFlight = (ok, out, t.buffer))
    (hflight : t.loraLink.phase ≠ .idle → Vouched accepted t.loraLink.pending) : HeldInv accepted t := by
  obtain ⟨hv, hheld⟩ := readingBufferPeek_valid h.valid s.inFlight
  rw [hpeek] at hv hheld
  exact ⟨hv, fun u holding hu => h.held u holding (congrFun hheld u ▸ hu), hflight⟩

/-- A relay step accepts nothing. -/
theorem relayStep_accepted (s : Substation) (poll : RadioPoll) (now beginAt : UInt32) :
    (s.relayStep poll now beginAt).2.filterMap Effect.accepted? = [] := by
  have h := s.relayStep_outcome poll now beginAt
  generalize s.relayStep poll now beginAt = r at h
  rw [List.filterMap_eq_nil_iff]
  cases h <;> simp +contextual [or_imp, Effect.accepted?]

/-- Every action keeps the invariant, with what it accepts added. -/
theorem heldInv_act {accepted : List Payload} {s : Substation} (h : HeldInv accepted s) (a : Action) :
    HeldInv (accepted ++ (s.act a).2.filterMap Effect.accepted?) (s.act a).1 := by
  cases a with
  | beacon now later =>
    refine h.frame ?_ ?_ _
    all_goals
      simp only [act]
      rw [beaconIfDue_frame]
  | frame mac buf peerOk =>
    have hout := s.handleFrame_outcome mac buf peerOk
    simp only [act]
    generalize s.handleFrame mac buf peerOk = r at hout
    cases hout with
    | ignored => exact h.frame rfl rfl _
    | joined => exact h.frame (by simp) (by simp) _
    | rejoined => exact h.frame (by simp) (by simp) _
    | resent => exact h.frame rfl rfl _
    | refused _ _ hpush => exact h.frame (t := { s with buffer := _ }) ((readings_push h.valid hpush).2.2.1 rfl) rfl _
    | accepted _ _ _ hpush => exact h.push (t := { s with buffer := _, joined := _ }) hpush rfl
  | relay poll now beginAt =>
    have hnone := s.relayStep_accepted poll now beginAt
    have hout := s.relayStep_outcome poll now beginAt
    simp only [act, hnone, List.append_nil]
    generalize s.relayStep poll now beginAt = r at hout
    have hpending {status : LoRaSendStatus} {link : LoRaLink} {events : List RadioEvent}
        (hpoll : s.loraLink.pollSend poll = (status, link, events)) (hbusy : link.phase ≠ .idle) :
        Vouched accepted link.pending := by
      obtain ⟨hsame, hphase⟩ := s.loraLink.pollSend_pending poll
      rw [hpoll] at hsame hphase
      exact hsame ▸ h.flight (hphase hbusy)
    cases hout with
    | pending hpoll => exact ⟨h.valid, h.held, hpending hpoll⟩
    | acked hpoll =>
      have hlink := s.loraLink.pollSend_outcome poll
      rw [hpoll] at hlink
      cases hlink
      exact h.pop rfl
    | failed hpoll => exact ⟨h.valid, h.held, hpending hpoll⟩
    | heldOff => exact h
    | nothingToRelay hidle _ hpeek => exact h.peeked hpeek fun hbusy => absurd hidle hbusy
    | relaying _ _ hpeek => exact h.peeked hpeek fun _ => h.peek hpeek

/-- A relay step transmits the payload of the send, in the phase for that and in no other. -/
theorem relayStep_transmitted (s : Substation) (poll : RadioPoll) (now beginAt : UInt32) :
    (s.relayStep poll now beginAt).2.filterMap Effect.transmitted? =
      if s.loraLink.phase = .transmit then [s.loraLink.pending.toBytes] else [] := by
  have hevents := s.loraLink.pollSend_transmitted poll
  have h := s.relayStep_outcome poll now beginAt
  generalize s.relayStep poll now beginAt = r at h
  cases h with
  | pending hpoll => simpa [hpoll, Effect.transmitted?, List.filterMap_cons] using hevents
  | acked hpoll => simpa [hpoll, Effect.transmitted?, List.filterMap_cons] using hevents
  | failed hpoll => simpa [hpoll, Effect.transmitted?, List.filterMap_cons] using hevents
  | heldOff hidle => simp [hidle, Effect.transmitted?]
  | nothingToRelay hidle => simp [hidle, Effect.transmitted?]
  | relaying hidle => simp [hidle, Effect.transmitted?]

/-- Only a relay step transmits over LoRa. -/
theorem act_transmitted (s : Substation) {b : Action} (hb : ∀ poll now beginAt, b ≠ .relay poll now beginAt) :
    (s.act b).2.filterMap Effect.transmitted? = [] := by
  rw [List.filterMap_eq_nil_iff]
  intro e he
  cases b with
  | beacon now later =>
    simp only [act, beaconIfDue] at he
    split at he
    · cases he
    · obtain rfl := List.mem_singleton.mp he
      rfl
  | relay poll now beginAt => exact absurd rfl (hb poll now beginAt)
  | frame mac buf peerOk =>
    have h := s.handleFrame_outcome mac buf peerOk
    simp only [act] at he
    generalize s.handleFrame mac buf peerOk = r at h he
    have hjoin {t : Substation} {uid : Uid} (he : e ∈ (answerJoin t mac uid peerOk).2) :
        e.transmitted? = none := by
      obtain ⟨data, rfl⟩ := answerJoin_effects _ _ _ _ _ he
      rfl
    cases h with
    | ignored => cases he
    | joined => exact hjoin he
    | rejoined => exact hjoin he
    | resent => rw [List.mem_singleton.mp he]; rfl
    | refused => rw [List.mem_singleton.mp he]; rfl
    | accepted => rcases List.mem_pair.mp he with rfl | rfl <;> rfl

end Substation
end IotFirmware
