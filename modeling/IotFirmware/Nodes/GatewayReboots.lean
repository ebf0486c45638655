import IotFirmware.Nodes.GatewayDelivery

/-! A gateway across its reboots. The queue is lost with each one, so a reading
ACKed is published, held, or was held when a reboot took it. -/
namespace IotFirmware.Gateway

def held (g : Gateway) : List GatewayReading := g.readings.items ++ g.aboutToEnqueue

/-- A gateway that did `done` over all its boots, lost `lost` to reboots and is now `g`. -/
def Sessions (done : List GatewayEvent) (lost : List GatewayReading) (g : Gateway) : Prop :=
  ∃ earlier moves, done = earlier ++ events moves ∧ DeliveryInv moves g ∧
    (earlier.filterMap publishedReading).Sublist (earlier.filterMap ackedReading) ∧
    ∀ r ∈ earlier.filterMap ackedReading, r ∈ earlier.filterMap publishedReading ∨ r ∈ lost

theorem sessions_start : Sessions [] [] (gatewaySetup true) :=
  ⟨[], [], rfl, deliveryInv_start, by simp, by simp⟩

/-- What was published since the last boot is the first of what was ACKed. -/
theorem DeliveryInv.published_prefix {moves : List (Move Gateway GatewayAction)} {g : Gateway}
    (hinv : DeliveryInv moves g) :
    (events moves).filterMap publishedReading <+: (events moves).filterMap ackedReading := by
  rw [hinv.published_eq, hinv.acked_eq, List.append_assoc]
  refine (List.prefix_append_right_inj _).mpr ?_
  unfold aboutToDequeue
  split
  · rename_i r hloop
    rw [BoundedQueue.items_of_peek (hinv.head r (.inr hloop))]
    exact ⟨_, rfl⟩
  · exact List.nil_prefix

/-- What was ACKed since the last boot was published or is held. -/
theorem DeliveryInv.acked_cases {moves : List (Move Gateway GatewayAction)} {g : Gateway} (hinv : DeliveryInv moves g)
    {r : GatewayReading} (hr : r ∈ (events moves).filterMap ackedReading) :
    r ∈ (events moves).filterMap publishedReading ∨ r ∈ g.held := by
  rw [hinv.acked_eq, List.append_assoc] at hr
  rcases List.mem_append.mp hr with hdequeued | hheld
  · rw [hinv.published_eq]
    exact .inl (List.mem_append_left _ hdequeued)
  · exact .inr hheld

section Steps
variable {done : List GatewayEvent} {lost : List GatewayReading} {g : Gateway}

theorem Sessions.step (h : Sessions done lost g) (a : GatewayAction) :
    Sessions (done ++ (g.step a).2) lost (g.next a) := by
  obtain ⟨earlier, moves, rfl, hinv, horder, hlost⟩ := h
  exact ⟨earlier, _, by simp [events], deliveryInv_step hinv a, horder, hlost⟩

/-- A reboot loses what is held. -/
theorem Sessions.reboot (h : Sessions done lost g) : Sessions done (lost ++ g.held) (gatewaySetup true) := by
  obtain ⟨earlier, moves, rfl, hinv, horder, hlost⟩ := h
  refine ⟨earlier ++ events moves, [], by simp [events], deliveryInv_start, ?_, fun r hr => ?_⟩
  · simp only [List.filterMap_append]
    exact horder.append hinv.published_prefix.sublist
  · rw [List.filterMap_append] at hr ⊢
    rcases List.mem_append.mp hr with hearlier | hsince
    · rcases hlost r hearlier with hpublished | hgone
      · exact .inl (List.mem_append_left _ hpublished)
      · exact .inr (List.mem_append_left _ hgone)
    · rcases hinv.acked_cases hsince with hpublished | hheld
      · exact .inl (List.mem_append_right _ hpublished)
      · exact .inr (List.mem_append_right _ hheld)

/-- Over all boots, what was published was ACKed before, in the same order. -/
theorem Sessions.published_sublist (h : Sessions done lost g) :
    (done.filterMap publishedReading).Sublist (done.filterMap ackedReading) := by
  obtain ⟨earlier, moves, rfl, hinv, horder, _⟩ := h
  simp only [List.filterMap_append]
  exact horder.append hinv.published_prefix.sublist

/-- Over all boots, what was ACKed was published, is held, or was lost. -/
theorem Sessions.acked_cases (h : Sessions done lost g) {r : GatewayReading} (hr : r ∈ done.filterMap ackedReading) :
    r ∈ done.filterMap publishedReading ∨ r ∈ g.held ∨ r ∈ lost := by
  obtain ⟨earlier, moves, rfl, hinv, _, hlost⟩ := h
  rw [List.filterMap_append] at hr ⊢
  rcases List.mem_append.mp hr with hearlier | hsince
  · rcases hlost r hearlier with hpublished | hgone
    · exact .inl (List.mem_append_left _ hpublished)
    · exact .inr (.inr hgone)
  · rcases hinv.acked_cases hsince with hpublished | hheld
    · exact .inl (List.mem_append_right _ hpublished)
    · exact .inr (.inl hheld)

end Steps

theorem mem_acked {done : List GatewayEvent} {r : GatewayReading} :
    r ∈ done.filterMap ackedReading ↔ ∃ ack ok, .acked r ack ok ∈ done := by
  rw [List.mem_filterMap]
  constructor
  · rintro ⟨e, he, hr⟩
    cases e with
    | acked q ack ok =>
      obtain rfl : q = r := Option.some.inj hr
      exact ⟨ack, ok, he⟩
    | _ => cases hr
  · rintro ⟨ack, ok, h⟩
    exact ⟨_, h, rfl⟩

theorem mem_published {done : List GatewayEvent} {r : GatewayReading} :
    r ∈ done.filterMap publishedReading ↔ .published r true ∈ done := by
  rw [List.mem_filterMap]
  constructor
  · rintro ⟨e, he, hr⟩
    cases e with
    | published q ok =>
      cases ok with
      | true =>
        obtain rfl : q = r := Option.some.inj hr
        exact he
      | false => cases hr
    | _ => cases hr
  · exact fun h => ⟨_, h, rfl⟩

end IotFirmware.Gateway
