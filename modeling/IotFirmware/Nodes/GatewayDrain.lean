import IotFirmware.Nodes.GatewayReboots

/-! A gateway can always publish all it holds: from every reachable state there
is a run of its two tasks after which it is as it was after set up. -/
namespace IotFirmware.Gateway

/-- A task step in which the radio hears nothing and a publish succeeds. -/
def Quiet (a : GatewayAction) : Prop := a = .rx ⟨0, [], true⟩ 0 0 ∨ a = .loop true true

def unpublished (g : Gateway) : List GatewayReading := g.held.drop g.aboutToDequeue.length

/-- Steps left of the receiving task, a reading it is about to enqueue counted as queued. -/
def LoraRxTask.rank : LoraRxTask → Nat
  | .spaceCheck => 0
  | .receive => 1
  | .enqueue _ => 4

/-- Steps the loop has taken on the reading at the head. -/
def PublishLoop.progress : PublishLoop → Nat
  | .peek => 0
  | .peeked _ => 1
  | .dequeue _ => 2

def rank (g : Gateway) : Nat :=
  3 * g.readings.items.length + LoraRxTask.rank g.rxTask - PublishLoop.progress g.loop

/-- With nothing queued and both tasks at their start the gateway is as after set up. -/
theorem eq_gatewaySetup {g : Gateway} (henabled : g.mqttEnabled = true) (hitems : g.readings.items = [])
    (hrx : g.rxTask = .spaceCheck) (hloop : g.loop = .peek) : g = gatewaySetup true := by
  obtain ⟨_, ⟨items, hle⟩, _, _⟩ := g
  obtain rfl : items = [] := hitems
  simp_all [gatewaySetup, BoundedQueue.empty]

/-- Short of that, some quiet step lowers the rank and ACKs nothing. -/
theorem quiet_step {moves : List (Move Gateway GatewayAction)} {g : Gateway} (hinv : DeliveryInv moves g)
    (hbusy : g ≠ gatewaySetup true) :
    ∃ a, Quiet a ∧ (g.next a).rank < g.rank ∧ (g.step a).2.filterMap ackedReading = [] := by
  have hhead (r : GatewayReading) (h : g.loop = .peeked r ∨ g.loop = .dequeue r) : 0 < g.readings.items.length := by
    rw [BoundedQueue.items_of_peek (hinv.head r h)]
    simp
  have hprogress : PublishLoop.progress g.loop ≤ 2 ∧
      (PublishLoop.progress g.loop ≠ 0 → 0 < g.readings.items.length) := by
    cases hloop : g.loop with
    | peek => simp [PublishLoop.progress]
    | peeked r => exact ⟨by simp [PublishLoop.progress], fun _ => hhead r (.inl hloop)⟩
    | dequeue r => exact ⟨by simp [PublishLoop.progress], fun _ => hhead r (.inr hloop)⟩
  cases hrx : g.rxTask with
  | receive =>
    refine ⟨_, .inl rfl, ?_, by simp [step, loraRxTask, hrx, LoRaLink.receivePacket]⟩
    simp only [next, step, loraRxTask, hrx, LoRaLink.receivePacket, rank, LoraRxTask.rank]
    simp
    omega
  | enqueue r =>
    have hsend := (BoundedQueue.send_of_spaces (hinv.space (by simp [hrx])) r).2
    refine ⟨_, .inl rfl, ?_, by simp [step, loraRxTask, hrx, ackedReading]⟩
    simp only [next, step, loraRxTask, hrx, rank, LoraRxTask.rank, hsend, List.length_append, List.length_singleton]
    omega
  | spaceCheck =>
    refine ⟨_, .inr rfl, ?_⟩
    cases hloop : g.loop with
    | peek =>
      cases hpeek : g.readings.peek with
      | none =>
        exact absurd (eq_gatewaySetup hinv.enabled (List.head?_eq_none_iff.mp hpeek) hrx hloop) hbusy
      | some r =>
        have hpos : 0 < g.readings.items.length := by
          rw [BoundedQueue.items_of_peek hpeek]
          simp
        refine ⟨?_, by simp [step, gatewayLoop, hloop, hpeek]⟩
        simp only [next, step, gatewayLoop, hloop, hpeek, rank, PublishLoop.progress]
        omega
    | peeked r =>
      have hpos := hhead r (.inl hloop)
      refine ⟨?_, by simp [step, gatewayLoop, hloop, hinv.enabled, ackedReading]⟩
      simp [next, step, gatewayLoop, hloop, hinv.enabled, rank, PublishLoop.progress]
      omega
    | dequeue r =>
      have hpos := hhead r (.inr hloop)
      refine ⟨?_, by simp [step, gatewayLoop, hloop, ackedReading]⟩
      simp only [next, step, gatewayLoop, hloop, rank, PublishLoop.progress, BoundedQueue.items_receive,
        List.length_tail]
      omega

def QuietStep (g : Gateway) (a : GatewayAction) (g' : Gateway) : Prop := Quiet a ∧ g' = g.next a

/-- A quiet run leads back to the state after set up, and it publishes just what
was not yet published. -/
theorem run_quiet {moves : List (Move Gateway GatewayAction)} {g : Gateway} (hinv : DeliveryInv moves g) :
    ∃ more, Run QuietStep g more (gatewaySetup true) ∧
      (events more).filterMap publishedReading = g.unpublished := by
  let Inv (more : List (Move Gateway GatewayAction)) (t : Gateway) : Prop :=
    DeliveryInv (moves ++ more) t ∧ (events more).filterMap ackedReading = []
  have hstart : Inv [] g := ⟨by simpa using hinv, rfl⟩
  have hreach : ∃ more t, Run QuietStep g more t ∧ Inv more t ∧ t = gatewaySetup true := by
    refine exists_run_of_rank Inv rank (· = gatewaySetup true) hstart fun more t ⟨ht, hsilent⟩ hbusy => ?_
    obtain ⟨a, hquiet, hlower, hnone⟩ := quiet_step ht hbusy
    refine ⟨a, t.next a, ⟨hquiet, rfl⟩, ⟨?_, ?_⟩, hlower⟩
    · simpa [List.append_assoc] using deliveryInv_step ht a
    · rw [events, List.flatMap_append, List.filterMap_append]
      simpa [events] using And.intro hsilent hnone
  obtain ⟨more, _, hrun, ⟨hend, hsilent⟩, rfl⟩ := hreach
  refine ⟨more, hrun, ?_⟩
  -- at the end all that was ever ACKed has been dequeued, and so has all that was published
  have hacked := hend.acked_eq
  have hpublished := hend.published_eq
  rw [events, List.flatMap_append, List.filterMap_append, ← events, ← events] at hacked hpublished
  rw [hsilent, hinv.acked_eq, List.append_nil, show (gatewaySetup true).readings.items = [] from rfl,
    show (gatewaySetup true).aboutToEnqueue = [] from rfl, List.append_nil, List.append_nil] at hacked
  rw [hinv.published_eq, show (gatewaySetup true).aboutToDequeue = [] from rfl, List.append_nil] at hpublished
  have heq := hpublished.trans hacked.symm
  rw [List.append_assoc, List.append_assoc] at heq
  rw [unpublished, held, ← List.append_cancel_left heq, List.drop_left]

end IotFirmware.Gateway
