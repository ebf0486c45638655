import IotFirmware.Foundation.InOrder
import IotFirmware.Nodes.SubstationHoldings

/-! A substation transmits the readings of each node in the order it accepted
them, each any number of times: a retry may repeat a reading, an overwritten one
may be skipped, and none comes after a later one. -/
namespace IotFirmware

def readingsOf (u : Uid) (l : List Payload) : List Reading := (l.filter (decide <| ·.uid = u)).map Payload.reading

@[simp] theorem readingsOf_append (u : Uid) (l l' : List Payload) :
    readingsOf u (l ++ l') = readingsOf u l ++ readingsOf u l' := by
  simp [readingsOf]

@[simp] theorem readingsOf_nil (u : Uid) : readingsOf u [] = [] := rfl

private theorem readingsOf_self (p : Payload) : readingsOf p.uid [p] = [p.reading] := by simp [readingsOf]

theorem readingsOf_other {u : Uid} {p : Payload} (h : p.uid ≠ u) : readingsOf u [p] = [] := by simp [readingsOf, h]

namespace Substation
open ReadingBuffer

/-- Of the readings accepted for `u` the first `gone` have left the buffer, which
holds the others, and none beyond position `last` has been sent. -/
structure OrderedAt (u : Uid) (accepted sent : List Payload) (s : Substation) (gone last : Nat) : Prop where
  valid : Valid s.buffer
  gone_le : gone ≤ (readingsOf u accepted).length
  held : s.buffer.readings u = (readingsOf u accepted).drop gone
  last_le : last ≤ gone
  sent_order : InOrderUpTo last (readingsOf u sent) (readingsOf u accepted)
  flight : s.loraLink.phase ≠ .idle → s.loraLink.pending.uid = u →
    (readingsOf u accepted)[last]? = some s.loraLink.pending.reading

def Ordered (u : Uid) (accepted sent : List Payload) (s : Substation) : Prop :=
  ∃ gone last, OrderedAt u accepted sent s gone last

theorem ordered_start {s : Substation} (hbuffer : s.buffer = .boot) (hidle : s.loraLink.phase = .idle) (u : Uid) :
    Ordered u [] [] s := by
  refine ⟨0, 0, hbuffer ▸ valid_boot, le_rfl, ?_, le_rfl, .nil _ _, fun hbusy => absurd hidle hbusy⟩
  rw [hbuffer]
  exact readings_of_not_held (held_eq_none fun i hi => by simp [NodeSlot.zero] at hi)

section Steps
variable {u : Uid} {accepted sent : List Payload} {s t : Substation}

/-- A reboot loses what is buffered and in flight. -/
theorem Ordered.reboot (h : Ordered u accepted sent s) (hbuffer : t.buffer = .boot) (hidle : t.loraLink.phase = .idle) :
    Ordered u accepted sent t := by
  obtain ⟨gone, last, h⟩ := h
  refine ⟨_, last, hbuffer ▸ valid_boot, le_rfl, ?_, h.last_le.trans h.gone_le, h.sent_order,
    fun hbusy => absurd hidle hbusy⟩
  rw [hbuffer, List.drop_length]
  exact readings_of_not_held (held_eq_none fun i hi => by simp [NodeSlot.zero] at hi)

theorem Ordered.frame (h : Ordered u accepted sent s) (hbuffer : t.buffer = s.buffer)
    (hlink : t.loraLink = s.loraLink) : Ordered u accepted sent t := by
  obtain ⟨gone, last, h⟩ := h
  exact ⟨gone, last, hbuffer ▸ h.valid, h.gone_le, hbuffer ▸ h.held, h.last_le, h.sent_order, hlink ▸ h.flight⟩

/-- An accepted reading goes behind the others, the oldest of a full ring being
overwritten. -/
theorem Ordered.push (h : Ordered u accepted sent s) {p : Payload}
    (hpush : readingBufferPush s.buffer p = (true, t.buffer)) (hlink : t.loraLink = s.loraLink) :
    Ordered u (accepted ++ [p]) sent t := by
  obtain ⟨gone, last, h⟩ := h
  obtain ⟨hvalid, _, _, hreadings⟩ := readings_push h.valid hpush
  have hflight : t.loraLink.phase ≠ .idle → t.loraLink.pending.uid = u →
      (readingsOf u (accepted ++ [p]))[last]? = some t.loraLink.pending.reading := by
    rw [hlink]
    intro hbusy huid
    have hlast := h.flight hbusy huid
    rw [readingsOf_append, List.getElem?_append_left (List.getElem?_eq_some_iff.mp hlast).1, hlast]
  have hsent : InOrderUpTo last (readingsOf u sent) (readingsOf u (accepted ++ [p])) := by
    rw [readingsOf_append]
    exact h.sent_order.append _
  by_cases hu : p.uid = u
  · subst hu
    have hafter := congrFun (hreadings rfl) p.uid
    rw [Function.update_self, h.held] at hafter
    have hall : readingsOf p.uid (accepted ++ [p]) = readingsOf p.uid accepted ++ [p.reading] := by
      rw [readingsOf_append, readingsOf_self]
    split at hafter
    · rename_i hfull
      have hpos : 0 < readingsPerNode := by decide
      rw [List.length_drop] at hfull
      rw [List.tail_drop, ← List.drop_append_of_le_length (by omega), ← hall] at hafter
      refine ⟨gone + 1, last, hvalid, ?_, hafter, h.last_le.trans (Nat.le_succ _), hsent, hflight⟩
      rw [hall, List.length_append]
      omega
    · rw [← List.drop_append_of_le_length h.gone_le, ← hall] at hafter
      refine ⟨gone, last, hvalid, ?_, hafter, h.last_le, hsent, hflight⟩
      rw [hall, List.length_append]
      exact h.gone_le.trans (Nat.le_add_right _ _)
  · have hall : readingsOf u (accepted ++ [p]) = readingsOf u accepted := by
      rw [readingsOf_append, readingsOf_other hu, List.append_nil]
    have hsame : t.buffer.readings u = s.buffer.readings u := by
      rw [hreadings rfl, Function.update_of_ne (Ne.symm hu)]
    rw [hall] at hsent hflight
    exact ⟨gone, last, hvalid, hall ▸ h.gone_le, by rw [hsame, hall, h.held], h.last_le, hall ▸ hsent, hall ▸ hflight⟩

/-- A pop with nothing in flight moves the oldest reading of its node out. -/
theorem Ordered.pop (h : Ordered u accepted sent s) {link : LoRaLink} (hidle : link.phase = .idle) :
    Ordered u accepted sent { s with loraLink := link, buffer := readingBufferPop s.buffer } := by
  obtain ⟨gone, last, h⟩ := h
  obtain ⟨hvalid, ⟨_, hsame⟩ | ⟨w, q, _, hhead, hother⟩⟩ := readings_pop h.valid
  · exact ⟨gone, last, hvalid, h.gone_le, (congrFun hsame u).trans h.held, h.last_le, h.sent_order,
      fun hbusy => absurd hidle hbusy⟩
  · by_cases hu : u = w
    · subst hu
      have hdrop := h.held.symm.trans hhead
      have hlt : gone < (readingsOf u accepted).length := by
        refine Nat.lt_of_not_le fun hle => ?_
        rw [List.drop_eq_nil_of_le hle] at hdrop
        cases hdrop
      refine ⟨gone + 1, last, hvalid, hlt, ?_, h.last_le.trans (Nat.le_succ _), h.sent_order,
        fun hbusy => absurd hidle hbusy⟩
      rw [← List.tail_drop, hdrop]
      rfl
    · exact ⟨gone, last, hvalid, h.gone_le, (hother u hu).trans h.held, h.last_le, h.sent_order,
        fun hbusy => absurd hidle hbusy⟩

/-- A send starts with the oldest reading of its node. -/
theorem Ordered.begin (h : Ordered u accepted sent s) {ok : Bool} {out : Payload}
    (hpeek : readingBufferPeek s.buffer s.inFlight = (ok, out, t.buffer))
    (hlink : t.loraLink.phase ≠ .idle → ok = true ∧ t.loraLink.pending = out) : Ordered u accepted sent t := by
  obtain ⟨gone, last, h⟩ := h
  obtain ⟨hvalid, hreadings, hpeeked, _⟩ := readings_peek h.valid hpeek
  have hheld : t.buffer.readings u = (readingsOf u accepted).drop gone := (congrFun hreadings u).trans h.held
  refine ⟨gone, gone, hvalid, h.gone_le, hheld, le_rfl, h.sent_order.mono h.last_le, fun hbusy huid => ?_⟩
  obtain ⟨hok, hpending⟩ := hlink hbusy
  rw [hpending] at huid ⊢
  subst huid
  obtain ⟨_, ⟨hnone, _⟩ | ⟨w, q, hwq, hhead, _⟩⟩ := readings_pop hvalid
  · cases (hpeeked hok).symm.trans hnone
  · obtain ⟨rfl, rfl⟩ := Prod.mk.inj (Option.some.inj (hwq.symm.trans (hpeeked hok)))
    rw [← List.head?_drop, ← hheld, hhead]
    rfl

/-- A poll keeps or ends the send. -/
theorem Ordered.poll (h : Ordered u accepted sent s) {poll : RadioPoll} (hbuffer : t.buffer = s.buffer)
    (hlink : t.loraLink = (s.loraLink.pollSend poll).2.1) : Ordered u accepted sent t := by
  obtain ⟨gone, last, h⟩ := h
  obtain ⟨hsame, hphase⟩ := s.loraLink.pollSend_pending poll
  refine ⟨gone, last, hbuffer ▸ h.valid, h.gone_le, hbuffer ▸ h.held, h.last_le, h.sent_order, ?_⟩
  rw [hlink, hsame]
  exact fun hbusy => h.flight (hphase hbusy)

/-- What is transmitted is the reading in flight, once more. -/
theorem Ordered.transmit (h : Ordered u accepted sent s) (hbusy : s.loraLink.phase ≠ .idle) :
    Ordered u accepted (sent ++ [s.loraLink.pending]) s := by
  obtain ⟨gone, last, h⟩ := h
  refine ⟨gone, last, h.valid, h.gone_le, h.held, h.last_le, ?_, h.flight⟩
  rw [readingsOf_append]
  by_cases hu : s.loraLink.pending.uid = u
  · have hlast := h.flight hbusy hu
    subst hu
    rw [readingsOf_self]
    exact h.sent_order.snoc hlast
  · rw [readingsOf_other hu, List.append_nil]
    exact h.sent_order

/-- Every action keeps the order, with what it accepts and transmits added. -/
theorem ordered_act (h : Ordered u accepted sent s) (a : Action) :
    Ordered u (accepted ++ (s.act a).2.filterMap Effect.accepted?)
      (sent ++ ((s.act a).2.filterMap Effect.transmitted?).map Payload.ofBytes) (s.act a).1 := by
  cases a with
  | beacon now later =>
    have hnone : (s.act (.beacon now later)).2.filterMap Effect.accepted? = [] := by
      simp only [act, beaconIfDue]
      split <;> rfl
    rw [act_transmitted _ (by simp), hnone, List.map_nil, List.append_nil, List.append_nil]
    refine h.frame ?_ ?_
    all_goals
      simp only [act]
      rw [beaconIfDue_frame]
  | frame mac buf peerOk =>
    rw [act_transmitted _ (by simp), List.map_nil, List.append_nil]
    have hout := s.handleFrame_outcome mac buf peerOk
    simp only [act]
    generalize s.handleFrame mac buf peerOk = r at hout
    have hjoin (t : Substation) (uid : Uid) : (answerJoin t mac uid peerOk).2.filterMap Effect.accepted? = [] := by
      unfold answerJoin
      split <;> rfl
    cases hout with
    | ignored => simpa using h
    | joined =>
      rw [hjoin, List.append_nil]
      exact h.frame (by simp) (by simp)
    | rejoined =>
      rw [hjoin, List.append_nil]
      exact h.frame (by simp) (by simp)
    | resent => simpa [sendDeliveryAck, Effect.accepted?, List.filterMap_cons] using h
    | refused _ _ hpush =>
      obtain ⟨gone, last, hat⟩ := h
      have hsame := (readings_push hat.valid hpush).2.2.1 rfl
      have hframe : Ordered u accepted sent { s with buffer := _ } := Ordered.frame ⟨gone, last, hat⟩ hsame rfl
      simpa [Effect.accepted?, List.filterMap_cons] using hframe
    | accepted _ _ _ hpush =>
      simp only [sendDeliveryAck, Effect.accepted?, List.filterMap_cons, List.filterMap_nil]
      exact h.push hpush rfl
  | relay poll now beginAt =>
    have hsent : Ordered u accepted (sent ++ ((s.relayStep poll now beginAt).2.filterMap Effect.transmitted?).map
        Payload.ofBytes) s := by
      rw [relayStep_transmitted]
      split
      · rename_i hphase
        simpa using h.transmit (by simp [hphase])
      · simpa using h
    simp only [act, relayStep_accepted, List.append_nil]
    have hout := s.relayStep_outcome poll now beginAt
    generalize s.relayStep poll now beginAt = r at hout hsent
    cases hout with
    | pending hpoll => exact hsent.poll rfl (by rw [hpoll])
    | acked hpoll =>
      have hlink := s.loraLink.pollSend_outcome poll
      rw [hpoll] at hlink
      cases hlink
      exact hsent.pop rfl
    | failed hpoll => exact hsent.poll rfl (by rw [hpoll])
    | heldOff => exact hsent
    | nothingToRelay hidle _ hpeek => exact hsent.begin hpeek fun hbusy => absurd hidle hbusy
    | relaying _ _ hpeek => exact hsent.begin hpeek fun _ => ⟨rfl, rfl⟩

end Steps
end Substation
end IotFirmware
