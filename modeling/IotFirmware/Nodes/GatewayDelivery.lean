import IotFirmware.Foundation.Runs
import IotFirmware.Nodes.Gateway

/-! No reading the gateway ACKed is lost: what was ACKed is what was dequeued
after its own publish, then what is queued, then what is about to be. -/
namespace IotFirmware.Gateway

def events (moves : List (Move Gateway GatewayAction)) : List GatewayEvent :=
  moves.flatMap fun x => (x.before.step x.label).2

def ackedReading : GatewayEvent → Option GatewayReading
  | .acked r _ _ => some r
  | _ => none

def dequeuedReading : GatewayEvent → Option GatewayReading
  | .dequeued r => r
  | _ => none

def publishAttempt : GatewayEvent → Option (GatewayReading × Bool)
  | .published r ok => some (r, ok)
  | _ => none

def publishedReading : GatewayEvent → Option GatewayReading
  | .published r true => some r
  | _ => none

def aboutToEnqueue (g : Gateway) : List GatewayReading :=
  match g.rxTask with
  | .enqueue r => [r]
  | _ => []

def aboutToDequeue (g : Gateway) : List GatewayReading :=
  match g.loop with
  | .dequeue r => [r]
  | _ => []

inductive StepOutcome (g : Gateway) : Gateway × List GatewayEvent → Prop
  | waiting : StepOutcome g (g, [])
  | spaceSeen : 0 < g.readings.spaces → g.rxTask = .spaceCheck → StepOutcome g ({ g with rxTask := .receive }, [])
  | nothingHeard : g.rxTask = .receive → StepOutcome g ({ g with rxTask := .spaceCheck }, [])
  | acked {r : GatewayReading} {ok : Bool} : g.rxTask = .receive →
      StepOutcome g ({ g with rxTask := .enqueue r }, [.acked r ⟨r.payload.uid, r.payload.seq⟩ ok])
  | enqueued {r : GatewayReading} : g.rxTask = .enqueue r →
      StepOutcome g ({ g with readings := (g.readings.send r).2, rxTask := .spaceCheck },
        [.enqueued r (g.readings.send r).1])
  | peeked {r : GatewayReading} : g.loop = .peek → g.readings.peek = some r →
      StepOutcome g ({ g with loop := .peeked r }, [])
  | disconnected {r : GatewayReading} : g.loop = .peeked r → StepOutcome g ({ g with loop := .peek }, [])
  | published {r : GatewayReading} : g.loop = .peeked r →
      StepOutcome g ({ g with loop := .dequeue r }, [.published r true])
  | publishFailed {r : GatewayReading} : g.loop = .peeked r →
      StepOutcome g ({ g with loop := .peek }, [.published r false])
  | dequeued {r : GatewayReading} : g.loop = .dequeue r →
      StepOutcome g ({ g with readings := g.readings.receive.2, loop := .peek }, [.dequeued g.readings.peek])

theorem step_outcome {g : Gateway} (henabled : g.mqttEnabled = true) (a : GatewayAction) :
    StepOutcome g (g.step a) := by
  cases a with
  | rx radio rssi snr =>
    simp only [step, loraRxTask]
    cases hrx : g.rxTask with
    | spaceCheck =>
      simp only
      split
      · exact .waiting
      · exact .spaceSeen (Nat.pos_of_ne_zero ‹_›) hrx
    | receive =>
      simp only
      rcases LoRaLink.receivePacket_cases payloadSize radio with ⟨buf, he⟩ | ⟨len, he⟩
      · rw [he]
        simpa using StepOutcome.acked (r := ⟨Payload.ofBytes buf, rssi, snr⟩) hrx
      · rw [he]
        exact .nothingHeard hrx
    | enqueue r => exact .enqueued hrx
  | loop connected publishOk =>
    simp only [step, gatewayLoop]
    cases hloop : g.loop with
    | peek =>
      cases hpeek : g.readings.peek with
      | none => exact .waiting
      | some r => exact .peeked hloop hpeek
    | peeked r =>
      have hmqtt : ¬ g.mqttEnabled = false := by simp [henabled]
      simp only [if_neg hmqtt]
      split
      · exact .disconnected hloop
      · split
        · exact .published hloop
        · exact .publishFailed hloop
    | dequeue r => exact .dequeued hloop

/-- What holds at every point of every run with MQTT enabled: a free place seen
is still free, a reading in the loop's hands is the head of the queue, and the
queue accounts for every reading ACKed and published so far. -/
structure DeliveryInv (moves : List (Move Gateway GatewayAction)) (g : Gateway) : Prop where
  enabled : g.mqttEnabled = true
  space : g.rxTask ≠ .spaceCheck → 0 < g.readings.spaces
  head : ∀ r, g.loop = .peeked r ∨ g.loop = .dequeue r → g.readings.peek = some r
  acked_eq : (events moves).filterMap ackedReading =
    (events moves).filterMap dequeuedReading ++ g.readings.items ++ g.aboutToEnqueue
  published_eq : (events moves).filterMap publishedReading =
    (events moves).filterMap dequeuedReading ++ g.aboutToDequeue
  last_publish : ∀ r, g.loop = .dequeue r → ((events moves).filterMap publishAttempt).getLast? = some (r, true)
  sends : ∀ r, .enqueued r false ∉ events moves

theorem deliveryInv_start : DeliveryInv [] (gatewaySetup true) where
  enabled := rfl
  space h := absurd rfl h
  head r h := by simp [gatewaySetup] at h
  acked_eq := rfl
  published_eq := rfl
  last_publish r h := by simp [gatewaySetup] at h
  sends r h := by simp [events] at h

theorem deliveryInv_step {moves : List (Move Gateway GatewayAction)} {g : Gateway} (hinv : DeliveryInv moves g)
    (a : GatewayAction) : DeliveryInv (moves ++ [⟨g, a, g.next a⟩]) (g.next a) := by
  have hevents : events (moves ++ [⟨g, a, g.next a⟩]) = events moves ++ (g.step a).2 := by simp [events]
  have h := step_outcome hinv.enabled a
  simp only [next] at hevents ⊢
  generalize g.step a = r at h hevents
  obtain ⟨henabled, hspace, hhead, hacked, hpublished, hlast, hsends⟩ := hinv
  cases h with
  | waiting =>
    simp only [List.append_nil] at hevents
    exact ⟨henabled, hspace, hhead, hevents ▸ hacked, hevents ▸ hpublished, hevents ▸ hlast, hevents ▸ hsends⟩
  | spaceSeen hfree hrx =>
    simp only [List.append_nil] at hevents
    refine ⟨henabled, fun _ => hfree, hhead, ?_, hevents ▸ hpublished, hevents ▸ hlast, hevents ▸ hsends⟩
    simpa [hevents, aboutToEnqueue, hrx] using hacked
  | nothingHeard hrx =>
    simp only [List.append_nil] at hevents
    refine ⟨henabled, fun h => absurd rfl h, hhead, ?_, hevents ▸ hpublished, hevents ▸ hlast, hevents ▸ hsends⟩
    simpa [hevents, aboutToEnqueue, hrx] using hacked
  | @acked r ok hrx =>
    refine ⟨henabled, fun _ => hspace (by simp [hrx]), hhead, ?_, ?_, ?_, ?_⟩
    · simp [hevents, hacked, aboutToEnqueue, hrx, ackedReading, dequeuedReading, List.filterMap_cons]
    · simpa [hevents, aboutToDequeue, publishedReading, dequeuedReading, List.filterMap_cons] using hpublished
    · simpa [hevents, publishAttempt, List.filterMap_cons] using hlast
    · simpa [hevents] using hsends
  | @enqueued r hrx =>
    obtain ⟨hok, hitems⟩ := BoundedQueue.send_of_spaces (hspace (by simp [hrx])) r
    refine ⟨henabled, fun h => absurd rfl h, fun q hq => BoundedQueue.peek_send (hhead q hq) r, ?_, ?_, ?_, ?_⟩
    · simp [hevents, hacked, hitems, aboutToEnqueue, hrx, ackedReading, dequeuedReading, List.filterMap_cons]
    · simpa [hevents, aboutToDequeue, publishedReading, dequeuedReading, List.filterMap_cons] using hpublished
    · simpa [hevents, publishAttempt, List.filterMap_cons] using hlast
    · simpa [hevents, hok] using hsends
  | @peeked r hloop hpeek =>
    simp only [List.append_nil] at hevents
    refine ⟨henabled, hspace, ?_, hevents ▸ hacked, ?_, fun q hq => by simp at hq, hevents ▸ hsends⟩
    · intro q hq
      obtain rfl : r = q := by simpa using hq
      exact hpeek
    · simpa [hevents, aboutToDequeue, hloop] using hpublished
  | disconnected hloop =>
    simp only [List.append_nil] at hevents
    refine ⟨henabled, hspace, fun q hq => by simp at hq, hevents ▸ hacked, ?_, fun q hq => by simp at hq,
      hevents ▸ hsends⟩
    simpa [hevents, aboutToDequeue, hloop] using hpublished
  | @published r hloop =>
    refine ⟨henabled, hspace, ?_, ?_, ?_, ?_, ?_⟩
    · intro q hq
      obtain rfl : r = q := by simpa using hq
      exact hhead r (.inl hloop)
    · simpa [hevents, aboutToEnqueue, ackedReading, dequeuedReading, List.filterMap_cons] using hacked
    · simp [hevents, hpublished, aboutToDequeue, hloop, publishedReading, dequeuedReading, List.filterMap_cons]
    · intro q hq
      obtain rfl : r = q := by simpa using hq
      simp [hevents, publishAttempt]
    · simpa [hevents] using hsends
  | publishFailed hloop =>
    refine ⟨henabled, hspace, fun q hq => by simp at hq, ?_, ?_, fun q hq => by simp at hq, ?_⟩
    · simpa [hevents, aboutToEnqueue, ackedReading, dequeuedReading, List.filterMap_cons] using hacked
    · simpa [hevents, aboutToDequeue, hloop, publishedReading, dequeuedReading, List.filterMap_cons] using hpublished
    · simpa [hevents] using hsends
  | @dequeued r hloop =>
    have hpeek := hhead r (.inr hloop)
    refine ⟨henabled, fun h => (hspace h).trans_le g.readings.spaces_receive, fun q hq => by simp at hq, ?_, ?_,
      fun q hq => by simp at hq, ?_⟩
    · rw [BoundedQueue.items_of_peek hpeek] at hacked
      simpa [hevents, hpeek, aboutToEnqueue, ackedReading, dequeuedReading, List.filterMap_cons] using hacked
    · simpa [hevents, hpeek, aboutToDequeue, hloop, publishedReading, dequeuedReading, List.filterMap_cons]
        using hpublished
    · simpa [hevents] using hsends

/-- Along every run from start up with MQTT enabled the invariant holds. -/
theorem deliveryInv_run {moves : List (Move Gateway GatewayAction)} {g : Gateway}
    (hrun : Run (fun g a g' => g' = g.next a) (gatewaySetup true) moves g) : DeliveryInv moves g := by
  refine hrun.invariant DeliveryInv deliveryInv_start fun moves m a t _ hm hs => ?_
  rw [hs]
  exact deliveryInv_step hm a

/-- Delivery of a run that ends in `g`. -/
structure Delivery (moves : List (Move Gateway GatewayAction)) (g : Gateway) : Prop where
  /-- A send to the queue never fails. -/
  sends : ∀ r, .enqueued r false ∉ events moves
  /-- What was ACKed was dequeued, is queued, or is about to be, in arrival order. -/
  acked_eq : (events moves).filterMap ackedReading =
    (events moves).filterMap dequeuedReading ++ g.readings.items ++ g.aboutToEnqueue
  /-- What was published was dequeued, or is the head about to be. -/
  published_eq : (events moves).filterMap publishedReading =
    (events moves).filterMap dequeuedReading ++ g.aboutToDequeue
  published_head : ∀ r ∈ g.aboutToDequeue, g.readings.peek = some r
  /-- A dequeue removes what the publish attempt just before it carried, with success. -/
  dequeues : ∀ front x back, moves = front ++ x :: back → ∀ o, .dequeued o ∈ (x.before.step x.label).2 →
    ∃ r, o = some r ∧ x.before.readings.items = r :: x.after.readings.items ∧
      ((events front).filterMap publishAttempt).getLast? = some (r, true)
  /-- A reading whose publish failed stays at the head until a publish succeeds. -/
  failed_stays : ∀ front x back, moves = front ++ x :: back → ∀ r,
    .published r false ∈ (x.before.step x.label).2 → (∀ q, .published q true ∉ events back) →
      x.before.readings.peek = some r ∧ g.readings.peek = some r

/-- With the loop not about to dequeue, a step without a successful publish
keeps the head. -/
theorem head_step {g : Gateway} (henabled : g.mqttEnabled = true) {a : GatewayAction} {r : GatewayReading}
    (hhead : g.readings.peek = some r) (hloop : g.aboutToDequeue = [])
    (hnone : ∀ q, .published q true ∉ (g.step a).2) :
    (g.next a).mqttEnabled = true ∧ (g.next a).readings.peek = some r ∧ (g.next a).aboutToDequeue = [] := by
  have h := step_outcome henabled a
  simp only [next]
  generalize g.step a = out at h hnone
  cases h with
  | waiting => exact ⟨henabled, hhead, hloop⟩
  | spaceSeen => exact ⟨henabled, hhead, hloop⟩
  | nothingHeard => exact ⟨henabled, hhead, hloop⟩
  | acked => exact ⟨henabled, hhead, hloop⟩
  | enqueued => exact ⟨henabled, BoundedQueue.peek_send hhead _, hloop⟩
  | peeked => exact ⟨henabled, hhead, rfl⟩
  | disconnected => exact ⟨henabled, hhead, rfl⟩
  | published => exact absurd (List.mem_singleton.mpr rfl) (hnone _)
  | publishFailed => exact ⟨henabled, hhead, rfl⟩
  | dequeued h => simp [aboutToDequeue, h] at hloop

private theorem head_run {g g' : Gateway} {moves : List (Move Gateway GatewayAction)}
    (hrun : Run (fun g a g' => g' = g.next a) g moves g') (henabled : g.mqttEnabled = true) {r : GatewayReading}
    (hhead : g.readings.peek = some r) (hloop : g.aboutToDequeue = [])
    (hnone : ∀ q, .published q true ∉ events moves) : g'.readings.peek = some r := by
  have hinv := hrun.invariant (fun moves g => (∀ q, .published q true ∉ events moves) →
    g.mqttEnabled = true ∧ g.readings.peek = some r ∧ g.aboutToDequeue = []) (fun _ => ⟨henabled, hhead, hloop⟩) ?_
  · exact (hinv hnone).2.1
  · intro moves m a t _ ih hs hnone
    have hsplit : events (moves ++ [⟨m, a, t⟩]) = events moves ++ (m.step a).2 := by simp [events]
    simp only [hsplit, List.mem_append, not_or] at hnone
    obtain ⟨hm, hpeek, hidle⟩ := ih fun q => (hnone q).1
    rw [hs]
    exact head_step hm hpeek hidle fun q => (hnone q).2

/-- Whatever the two tasks' steps, radio results and publish results, and in
whatever order, every reading ACKed with MQTT enabled is accounted for. -/
theorem gateway_delivery (actions : List GatewayAction) :
    Delivery (movesOf next (gatewaySetup true) actions) (actions.foldl next (gatewaySetup true)) := by
  have hrun := run_movesOf next (gatewaySetup true) actions
  generalize movesOf next (gatewaySetup true) actions = moves at hrun ⊢
  generalize actions.foldl next (gatewaySetup true) = g at hrun ⊢
  have hinv := deliveryInv_run hrun
  refine ⟨hinv.sends, hinv.acked_eq, hinv.published_eq, ?_, ?_, ?_⟩
  · intro r hr
    cases hloop : g.loop <;> simp [aboutToDequeue, hloop] at hr
    exact hinv.head r (.inr (hr ▸ hloop))
  · rintro front x back rfl o ho
    obtain ⟨hfront, hs, _⟩ := hrun.move
    have hbefore := deliveryInv_run hfront
    have h := step_outcome hbefore.enabled x.label
    rw [hs, next]
    generalize x.before.step x.label = out at h ho
    cases h with
    | @dequeued r hloop =>
      have hpeek := hbefore.head r (.inr hloop)
      refine ⟨r, ?_, BoundedQueue.items_of_peek hpeek, hbefore.last_publish r hloop⟩
      simpa [hpeek] using ho
    | _ => simp at ho
  · rintro front x back rfl r hr hnone
    obtain ⟨hfront, hs, hback⟩ := hrun.move
    have hbefore := deliveryInv_run hfront
    have h := step_outcome hbefore.enabled x.label
    rw [hs, next] at hback
    generalize x.before.step x.label = out at h hr hback
    cases h with
    | @publishFailed q hloop =>
      obtain rfl : r = q := by simpa using hr
      have hhead := hbefore.head r (.inl hloop)
      exact ⟨hhead, head_run hback hbefore.enabled hhead rfl hnone⟩
    | _ => simp at hr

/-- Between a successful publish and its dequeue a reading is both published and
queued, so the published and the queued readings are then more than the ACKed ones. -/
theorem gateway_published_still_queued : ¬ ∀ actions : List GatewayAction,
    let moves := movesOf next (gatewaySetup true) actions
    let g := actions.foldl next (gatewaySetup true)
    (events moves).filterMap ackedReading =
      (events moves).filterMap publishedReading ++ g.readings.items ++ g.aboutToEnqueue := by
  intro hclaim
  let hear : GatewayAction := .rx ⟨35, List.replicate 35 0, true⟩ 0 0
  have hlengths := congrArg List.length (hclaim [hear, hear, hear, .loop true true, .loop true true])
  revert hlengths
  decide

end IotFirmware.Gateway
