import IotFirmware.Links.EspNowUplink

/-! What becomes of received frames. The queue always holds the end of what was
enqueued; a frame is lost early when its removal makes room that was there already. -/
namespace IotFirmware

namespace UplinkEvent

def received? : UplinkEvent → Option Arrival
  | .received a => some a
  | _ => none

def ended? : UplinkEvent → Option Arrival
  | .callbackEnded a _ => some a
  | _ => none

def returned? : UplinkEvent → Option Arrival
  | .returned a => some a
  | _ => none

end UplinkEvent

def ReceivePoint.underWay : ReceivePoint → List Arrival
  | .idle => []
  | .enqueuing a | .full a | .dropped a => [a]

namespace EspNowUplink

def received (u : EspNowUplink) : List Arrival := u.log.filterMap UplinkEvent.received?

def finished (u : EspNowUplink) : List Arrival := u.log.filterMap UplinkEvent.ended?

def returned (u : EspNowUplink) : List Arrival := u.log.filterMap UplinkEvent.returned?

/-- In arrival order and without duplicates. -/
def ReturnedInOrder (u : EspNowUplink) : Prop :=
  (returned u).Sublist (received u) ∧ (returned u).Pairwise fun a b => a.index < b.index

def AllEnqueued (u : EspNowUplink) : Prop := ∀ a enqueued, .callbackEnded a enqueued ∈ u.log → enqueued = true

/-- A frame whose callback has finished is queued, was returned, or is older than four others. -/
def Retained (u : EspNowUplink) : Prop :=
  ∀ a ∈ finished u, a ∈ u.rxQueue.items ∨ a ∈ returned u ∨ a.index + 4 < u.arrived.length

/-- A step that loses no frame early: the oldest frame makes room in a queue
still full, or there is none; and `receivePacket` has a buffer for the frame it
takes, or takes the oldest of five. -/
def Keeps (m : Move EspNowUplink UplinkAction) : Prop :=
  match m.label with
  | .dropOldest => m.before.rxQueue.items.length = espNowRxQueueDepth ∨ m.before.rxQueue.items = []
  | .receivePacket bufLen => ∀ a, m.before.rxQueue.peek = some a → a.frame.data.length ≤ bufLen ∨
      (m.before.rxQueue.items.length = espNowRxQueueDepth ∧ m.before.onReceived ≠ .idle)
  | _ => True

structure RxInv (u : EspNowUplink) : Prop where
  indexed : received u = u.arrived.mapIdx Arrival.mk
  received_eq : received u = finished u ++ u.onReceived.underWay
  queued : u.rxQueue.items <:+ finished u
  taken : (returned u ++ u.rxQueue.items).Sublist (finished u)
  room : ∀ a, u.onReceived = .dropped a → 0 < u.rxQueue.spaces
  all_enqueued : AllEnqueued u

section Emit
variable (u : EspNowUplink) (e : UplinkEvent)

@[simp] theorem received_emit : received (u.emit e) = received u ++ e.received?.toList := by
  cases h : e.received? <;> simp [received, emit, h]

@[simp] theorem finished_emit : finished (u.emit e) = finished u ++ e.ended?.toList := by
  cases h : e.ended? <;> simp [finished, emit, h]

@[simp] theorem returned_emit : returned (u.emit e) = returned u ++ e.returned?.toList := by
  cases h : e.returned? <;> simp [returned, emit, h]

end Emit

section Invariant
variable {u v : EspNowUplink} {a : Arrival} {tail : List Arrival}

/-- The frames that arrived behind the oldest one queued are the others queued and the one under way. -/
theorem RxInv.arrived_length (h : RxInv u) (hitems : u.rxQueue.items = a :: tail) :
    u.arrived.length = a.index + 1 + tail.length + u.onReceived.underWay.length := by
  obtain ⟨front, hfront⟩ := h.queued
  have hreceived : received u = front ++ a :: (tail ++ u.onReceived.underWay) := by
    rw [h.received_eq, ← hfront, hitems]
    simp
  have hlength : (received u).length = u.arrived.length := by rw [h.indexed, List.length_mapIdx]
  have hindex : front.length = a.index := by
    have hat : (received u)[front.length]? = some a := by simp [hreceived]
    rw [h.indexed, List.getElem?_mapIdx, Option.map_eq_some_iff] at hat
    obtain ⟨frame, -, rfl⟩ := hat
    rfl
  rw [← hlength, hreceived, ← hindex]
  simp
  omega

private theorem RxInv.received_ordered (h : RxInv u) : (received u).Pairwise fun a b => a.index < b.index := by
  rw [h.indexed, List.pairwise_iff_getElem]
  intro i j hi hj hij
  simpa using hij

private theorem RxInv.returned_sublist (h : RxInv u) : (returned u).Sublist (received u) := by
  rw [h.received_eq]
  exact ((List.sublist_append_left _ _).trans h.taken).trans (List.sublist_append_left _ _)

/-- Frames returned and frames queued are different ones. -/
theorem RxInv.taken_ordered (h : RxInv u) : (returned u ++ u.rxQueue.items).Pairwise fun a b => a.index < b.index := by
  have hfinished : (finished u).Sublist (received u) := by
    rw [h.received_eq]
    exact List.sublist_append_left _ _
  exact h.received_ordered.sublist (h.taken.trans hfinished)

structure SameReceive (u v : EspNowUplink) : Prop where
  rxQueue : v.rxQueue = u.rxQueue
  onReceived : v.onReceived = u.onReceived
  arrived : v.arrived = u.arrived
  received : received v = received u
  finished : finished v = finished u
  returned : returned v = returned u
  ended : ∀ a enqueued, .callbackEnded a enqueued ∈ v.log → .callbackEnded a enqueued ∈ u.log

/-- An event that is none of the receiving side's changes nothing of it. -/
theorem sameReceive_of_emit {e : UplinkEvent} (hqueue : v.rxQueue = u.rxQueue) (hpoint : v.onReceived = u.onReceived)
    (harrived : v.arrived = u.arrived) (hlog : v.log = (u.emit e).log) (hreceived : e.received? = none)
    (hended : e.ended? = none) (hreturned : e.returned? = none) : SameReceive u v := by
  refine ⟨hqueue, hpoint, harrived, ?_, ?_, ?_, ?_⟩
  · rw [received, hlog, ← received, received_emit, hreceived]
    exact List.append_nil _
  · rw [finished, hlog, ← finished, finished_emit, hended]
    exact List.append_nil _
  · rw [returned, hlog, ← returned, returned_emit, hreturned]
    exact List.append_nil _
  · intro a enqueued hmem
    rw [hlog, emit, List.mem_append, List.mem_singleton] at hmem
    rcases hmem with hbefore | rfl
    · exact hbefore
    · cases hended

private theorem sameReceive_of_same_log (hqueue : v.rxQueue = u.rxQueue) (hpoint : v.onReceived = u.onReceived)
    (harrived : v.arrived = u.arrived) (hlog : v.log = u.log) : SameReceive u v := by
  refine ⟨hqueue, hpoint, harrived, ?_, ?_, ?_, by simp [hlog]⟩
  · rw [received, hlog, received]
  · rw [finished, hlog, finished]
  · rw [returned, hlog, returned]

theorem sameReceive_of_send {a : UplinkAction} (h : UplinkStep u a v) (ha : ¬ a.OfReceive) : SameReceive u v := by
  cases h with
  | callSend =>
    unfold callSend
    split
    · exact sameReceive_of_emit rfl rfl rfl rfl rfl rfl rfl
    · exact sameReceive_of_same_log rfl rfl rfl rfl
  | clear => exact sameReceive_of_same_log rfl rfl rfl rfl
  | @handOver tx accepted =>
    cases accepted with
    | false => exact sameReceive_of_emit rfl rfl rfl rfl rfl rfl rfl
    | true => exact sameReceive_of_emit rfl rfl rfl rfl rfl rfl rfl
  | take => exact sameReceive_of_same_log rfl rfl rfl rfl
  | timeOut => exact sameReceive_of_emit rfl rfl rfl rfl rfl rfl rfl
  | check => exact sameReceive_of_emit rfl rfl rfl rfl rfl rfl rfl
  | sentBegins => exact sameReceive_of_emit rfl rfl rfl rfl rfl rfl rfl
  | sentGives => exact sameReceive_of_same_log rfl rfl rfl rfl
  | _ => exact absurd trivial ha

private theorem SameReceive.rxInv (h : SameReceive u v) (hinv : RxInv u) : RxInv v where
  indexed := by rw [h.received, h.arrived, hinv.indexed]
  received_eq := by rw [h.received, h.finished, h.onReceived, hinv.received_eq]
  queued := by rw [h.rxQueue, h.finished]; exact hinv.queued
  taken := by rw [h.rxQueue, h.finished, h.returned]; exact hinv.taken
  room := by rw [h.rxQueue, h.onReceived]; exact hinv.room
  all_enqueued a enqueued hended := hinv.all_enqueued a enqueued (h.ended a enqueued hended)

private theorem SameReceive.retained (h : SameReceive u v) : Retained v ↔ Retained u := by
  simp only [Retained, h.rxQueue, h.finished, h.returned, h.arrived]

/-- A callback ends with its frame at the end of the queue. -/
theorem RxInv.stored (hinv : RxInv u) (hpoint : u.onReceived.underWay = [a])
    {rxQueue : BoundedQueue Arrival espNowRxQueueDepth} (hqueue : rxQueue.items = u.rxQueue.items ++ [a]) :
    RxInv (({ u with rxQueue := rxQueue }).callbackEnds a true) ∧
      finished (({ u with rxQueue := rxQueue }).callbackEnds a true) = finished u ++ [a] := by
  set v := ({ u with rxQueue := rxQueue }).callbackEnds a true
  have hreceived : received v = received u := (received_emit _ _).trans (List.append_nil _)
  have hfinished : finished v = finished u ++ [a] := finished_emit _ _
  have hreturned : returned v = returned u := (returned_emit _ _).trans (List.append_nil _)
  refine ⟨⟨?_, ?_, ?_, ?_, ?_, ?_⟩, hfinished⟩
  · rw [hreceived]
    exact hinv.indexed
  · rw [hreceived, hfinished, hinv.received_eq, hpoint]
    exact (List.append_nil _).symm
  · obtain ⟨front, hfront⟩ := hinv.queued
    refine ⟨front, ?_⟩
    rw [hfinished, ← hfront, List.append_assoc]
    exact congrArg (front ++ ·) hqueue
  · rw [hreturned, hfinished]
    change (returned u ++ rxQueue.items).Sublist _
    rw [hqueue, ← List.append_assoc]
    exact hinv.taken.append (List.Sublist.refl _)
  · intro b hdropped
    cases hdropped
  · intro b enqueued hended
    simp only [v, callbackEnds, emit, List.mem_append, List.mem_singleton, UplinkEvent.callbackEnded.injEq] at hended
    rcases hended with hbefore | ⟨-, rfl⟩
    · exact hinv.all_enqueued b enqueued hbefore
    · rfl

structure TakesOldest (u v : EspNowUplink) : Prop where
  rxQueue : v.rxQueue = u.rxQueue.receive.2
  underWay : v.onReceived.underWay = u.onReceived.underWay
  arrived : v.arrived = u.arrived
  received_eq : received v = received u
  finished_eq : finished v = finished u
  taken : (returned v ++ v.rxQueue.items).Sublist (returned u ++ u.rxQueue.items)
  ended : ∀ a enqueued, .callbackEnded a enqueued ∈ v.log → .callbackEnded a enqueued ∈ u.log

private theorem TakesOldest.rxInv (h : TakesOldest u v) (hinv : RxInv u)
    (hroom : ∀ a, v.onReceived = .dropped a → 0 < v.rxQueue.spaces) : RxInv v where
  indexed := by rw [h.received_eq, h.arrived, hinv.indexed]
  received_eq := by rw [h.received_eq, h.finished_eq, h.underWay, hinv.received_eq]
  queued := by
    rw [h.finished_eq, h.rxQueue]
    exact (List.tail_suffix _).trans hinv.queued
  taken := by
    rw [h.finished_eq]
    exact h.taken.trans hinv.taken
  room := hroom
  all_enqueued a enqueued hended := hinv.all_enqueued a enqueued (h.ended a enqueued hended)

private theorem takesOldest_dropOldest (hpoint : u.onReceived = .full a) : TakesOldest u (u.dropOldest a) where
  rxQueue := rfl
  underWay := by rw [hpoint]; rfl
  arrived := rfl
  received_eq := rfl
  finished_eq := rfl
  taken := List.Sublist.append (List.Sublist.refl _) (List.tail_sublist _)
  ended _ _ := id

/-- What `receivePacket` comes to: nothing waits, or the oldest frame is returned or refused. -/
inductive ReceiveOutcome (u : EspNowUplink) (bufLen : Nat) : Int × EspNowUplink → Prop
  | empty : u.rxQueue.items = [] → ReceiveOutcome u bufLen (-1, u)
  | refused {b : Arrival} {rest : List Arrival} : u.rxQueue.items = b :: rest → bufLen < b.frame.data.length →
      ReceiveOutcome u bufLen (-2, ({ u with rxQueue := u.rxQueue.receive.2 }).emit (.refused b))
  | returned {b : Arrival} {rest : List Arrival} : u.rxQueue.items = b :: rest → b.frame.data.length ≤ bufLen →
      ReceiveOutcome u bufLen
        (b.frame.data.length, ({ u with rxQueue := u.rxQueue.receive.2 }).emit (.returned b))

theorem receivePacket_outcome (u : EspNowUplink) (bufLen : Nat) : ReceiveOutcome u bufLen (u.receivePacket bufLen) := by
  have hqueue : u.rxQueue.receive = (u.rxQueue.items.head?, u.rxQueue.receive.2) := rfl
  unfold receivePacket
  rw [hqueue]
  cases hitems : u.rxQueue.items with
  | nil => exact .empty hitems
  | cons a tail =>
    simp only [List.head?_cons]
    split
    · exact .refused hitems ‹_›
    · exact .returned hitems (Nat.le_of_not_lt ‹_›)

private theorem takesOldest_refused (u : EspNowUplink) (a : Arrival) :
    TakesOldest u (({ u with rxQueue := u.rxQueue.receive.2 }).emit (.refused a)) where
  rxQueue := rfl
  underWay := rfl
  arrived := rfl
  received_eq := (received_emit _ _).trans (List.append_nil _)
  finished_eq := (finished_emit _ _).trans (List.append_nil _)
  taken := by
    rw [returned_emit]
    exact List.Sublist.append ((List.append_nil _).symm ▸ List.Sublist.refl _) (List.tail_sublist _)
  ended := by simp [emit]

private theorem takesOldest_returned (hitems : u.rxQueue.items = a :: tail) :
    TakesOldest u (({ u with rxQueue := u.rxQueue.receive.2 }).emit (.returned a)) where
  rxQueue := rfl
  underWay := rfl
  arrived := rfl
  received_eq := (received_emit _ _).trans (List.append_nil _)
  finished_eq := (finished_emit _ _).trans (List.append_nil _)
  taken := by
    rw [returned_emit]
    simp only [emit, BoundedQueue.items_receive, hitems, List.tail_cons, UplinkEvent.returned?, Option.toList_some,
      List.append_assoc, List.singleton_append]
    exact List.Sublist.refl _
  ended := by simp [emit]

/-- The first enqueue ends the callback, or finds the queue full. -/
theorem enqueue_cases (u : EspNowUplink) (a : Arrival) :
    (∃ rxQueue : BoundedQueue Arrival espNowRxQueueDepth, rxQueue.items = u.rxQueue.items ++ [a] ∧
      u.enqueue a = ({ u with rxQueue := rxQueue }).callbackEnds a true) ∨
    u.enqueue a = { u with onReceived := .full a } := by
  by_cases hroom : 0 < u.rxQueue.spaces
  · obtain ⟨hsent, hitems⟩ := BoundedQueue.send_of_spaces hroom a
    refine .inl ⟨_, hitems, ?_⟩
    simp [enqueue, hsent]
  · have hfull : ¬ u.rxQueue.items.length < espNowRxQueueDepth := by
      intro h
      exact hroom (Nat.sub_pos_of_lt h)
    exact .inr (by simp [enqueue, BoundedQueue.send, hfull])

private theorem arrive_spec (u : EspNowUplink) (mac : Mac) (data : List UInt8) : ∃ frame,
    (u.arrive mac data).arrived = u.arrived ++ [frame] ∧
      (u.arrive mac data).onReceived.underWay = [⟨u.arrived.length, frame⟩] ∧
      received (u.arrive mac data) = received u ++ [⟨u.arrived.length, frame⟩] ∧
      finished (u.arrive mac data) = finished u ∧ returned (u.arrive mac data) = returned u :=
  ⟨_, rfl, rfl, received_emit _ _, (finished_emit _ _).trans (List.append_nil _),
    (returned_emit _ _).trans (List.append_nil _)⟩

private theorem rxInv_step {action : UplinkAction} (h : UplinkStep u action v) (hinv : RxInv u) : RxInv v := by
  by_cases hside : action.OfReceive
  · cases h with
    | arrive mac data hidle =>
      obtain ⟨frame, harrived, hunder, hreceived, hfinished, hreturned⟩ := u.arrive_spec mac data
      refine ⟨?_, ?_, ?_, ?_, ?_, ?_⟩
      · rw [hreceived, harrived, hinv.indexed, List.mapIdx_concat]
      · rw [hreceived, hfinished, hunder, hinv.received_eq, hidle]
        exact congrArg (· ++ _) (List.append_nil _)
      · rw [hfinished]
        exact hinv.queued
      · rw [hfinished, hreturned]
        exact hinv.taken
      · intro b hdropped
        cases hdropped
      · intro b enqueued hended
        exact hinv.all_enqueued b enqueued (by simpa [arrive, emit] using hended)
    | @enqueue a hpoint =>
      rcases u.enqueue_cases a with ⟨rxQueue, hitems, he⟩ | he
      · rw [he]
        exact (hinv.stored (by rw [hpoint]; rfl) hitems).1
      · rw [he]
        refine ⟨hinv.indexed, ?_, hinv.queued, hinv.taken, ?_, hinv.all_enqueued⟩
        · exact hinv.received_eq.trans (by rw [hpoint]; rfl)
        · intro b hdropped
          cases hdropped
    | @dropOldest a hpoint =>
      exact (takesOldest_dropOldest hpoint).rxInv hinv fun _ _ => u.rxQueue.spaces_receive_pos (by decide)
    | @enqueueAgain a hpoint =>
      obtain ⟨hsent, hitems⟩ := BoundedQueue.send_of_spaces (hinv.room a hpoint) a
      simp only [enqueueAgain, hsent]
      exact (hinv.stored (by rw [hpoint]; rfl) hitems).1
    | receivePacket bufLen =>
      have hout := u.receivePacket_outcome bufLen
      generalize u.receivePacket bufLen = r at hout
      cases hout with
      | empty => exact hinv
      | refused =>
        exact (takesOldest_refused u _).rxInv hinv fun a ha =>
          (hinv.room a ha).trans_le (u.rxQueue.spaces_receive)
      | returned hitems =>
        exact (takesOldest_returned hitems).rxInv hinv fun a ha =>
          (hinv.room a ha).trans_le (u.rxQueue.spaces_receive)
    | _ => exact hside.elim
  · exact (sameReceive_of_send h hside).rxInv hinv

/-- A frame that leaves the queue unreturned is lost early unless four frames came behind it. -/
theorem TakesOldest.retained_iff (h : TakesOldest u v) (hinv : RxInv u) (hitems : u.rxQueue.items = a :: tail)
    (hreturned : returned v = returned u) (hretained : Retained u) :
    Retained v ↔ 4 ≤ tail.length + u.onReceived.underWay.length := by
  have hqueue : v.rxQueue.items = tail := by rw [h.rxQueue, BoundedQueue.items_receive, hitems]; rfl
  have hlength := hinv.arrived_length hitems
  have hordered := hinv.taken_ordered
  rw [hitems, List.pairwise_append] at hordered
  obtain ⟨-, htail, hbefore⟩ := hordered
  unfold Retained
  rw [h.finished_eq, hqueue, hreturned, h.arrived]
  constructor
  · intro hretained'
    have hfinished : a ∈ finished u := hinv.queued.mem (by simp [hitems])
    rcases hretained' a hfinished with hqueued | hreturned | holder
    · exact absurd ((List.pairwise_cons.mp htail).1 a hqueued) (lt_irrefl _)
    · exact absurd (hbefore a hreturned a List.mem_cons_self) (lt_irrefl _)
    · omega
  · intro hmany b hb
    rcases hretained b hb with hqueued | hreturned | holder
    · rw [hitems] at hqueued
      rcases List.mem_cons.mp hqueued with rfl | hqueued
      · exact .inr (.inr (by omega))
      · exact .inl hqueued
    · exact .inr (.inl hreturned)
    · exact .inr (.inr holder)

/-- A callback that ends keeps every frame. -/
theorem RxInv.retained_stored (hinv : RxInv u) (hpoint : u.onReceived.underWay = [a])
    {rxQueue : BoundedQueue Arrival espNowRxQueueDepth} (hqueue : rxQueue.items = u.rxQueue.items ++ [a])
    (hretained : Retained u) : Retained (({ u with rxQueue := rxQueue }).callbackEnds a true) := by
  have hreturned : returned (({ u with rxQueue := rxQueue }).callbackEnds a true) = returned u :=
    (returned_emit _ _).trans (List.append_nil _)
  unfold Retained
  rw [(hinv.stored hpoint hqueue).2, hreturned]
  simp only [callbackEnds, emit, hqueue]
  intro b hb
  rcases List.mem_append.mp hb with hb | hb
  · rcases hretained b hb with hqueued | hreturned | holder
    · exact .inl (List.mem_append_left _ hqueued)
    · exact .inr (.inl hreturned)
    · exact .inr (.inr holder)
  · exact .inl (List.mem_append_right _ hb)

theorem underWay_length (point : ReceivePoint) :
    point.underWay.length ≤ 1 ∧ (point.underWay.length = 1 ↔ point ≠ .idle) := by
  cases point <;> simp [ReceivePoint.underWay]

/-- From a state that has kept every frame, exactly the steps that keep do so again. -/
theorem retained_step_iff {action : UplinkAction} (h : UplinkStep u action v) (hinv : RxInv u)
    (hretained : Retained u) :
    Retained v ↔ Keeps ⟨u, action, v⟩ := by
  by_cases hside : action.OfReceive
  · cases h with
    | arrive mac data hidle =>
      refine iff_of_true ?_ trivial
      obtain ⟨frame, harrived, -, -, hfinished, hreturned⟩ := u.arrive_spec mac data
      unfold Retained
      rw [hfinished, hreturned, harrived, List.length_append]
      intro b hb
      rcases hretained b hb with hqueued | hreturned | holder
      · exact .inl hqueued
      · exact .inr (.inl hreturned)
      · exact .inr (.inr (Nat.lt_add_right _ holder))
    | @enqueue a hpoint =>
      refine iff_of_true ?_ trivial
      rcases u.enqueue_cases a with ⟨rxQueue, hitems, he⟩ | he
      · rw [he]
        exact hinv.retained_stored (by rw [hpoint]; rfl) hitems hretained
      · rw [he]
        exact hretained
    | @dropOldest a hpoint =>
      have htakes := takesOldest_dropOldest hpoint
      have hle := u.rxQueue.length_le
      unfold Keeps
      dsimp only
      cases hitems : u.rxQueue.items with
      | nil =>
        refine iff_of_true ?_ (.inr rfl)
        have hsame : (u.dropOldest a).rxQueue.items = u.rxQueue.items := by simp [dropOldest, hitems]
        unfold Retained
        rw [hsame]
        exact hretained
      | cons b tail =>
        rw [htakes.retained_iff hinv hitems rfl hretained, hpoint]
        rw [hitems, List.length_cons] at hle
        simp only [ReceivePoint.underWay, List.length_nil, List.length_cons, espNowRxQueueDepth, reduceCtorEq,
          or_false] at hle ⊢
        omega
    | @enqueueAgain a hpoint =>
      obtain ⟨hsent, hitems⟩ := BoundedQueue.send_of_spaces (hinv.room a hpoint) a
      refine iff_of_true ?_ trivial
      simp only [enqueueAgain, hsent]
      exact hinv.retained_stored (by rw [hpoint]; rfl) hitems hretained
    | receivePacket bufLen =>
      have hout := u.receivePacket_outcome bufLen
      unfold Keeps
      dsimp only
      generalize u.receivePacket bufLen = r at hout
      cases hout with
      | empty hitems => exact iff_of_true hretained (by simp [BoundedQueue.peek, hitems])
      | @refused b tail hitems hlong =>
        have hreturned : returned (({ u with rxQueue := u.rxQueue.receive.2 }).emit (.refused b)) = returned u :=
          (returned_emit _ _).trans (List.append_nil _)
        obtain ⟨hone, hbusy⟩ := underWay_length u.onReceived
        have hle := u.rxQueue.length_le
        rw [(takesOldest_refused u b).retained_iff hinv hitems hreturned hretained]
        rw [hitems, List.length_cons] at hle
        simp only [BoundedQueue.peek, hitems, List.head?_cons, Option.some.injEq, forall_eq', hlong.not_ge, false_or,
          List.length_cons, espNowRxQueueDepth, ← hbusy] at hle ⊢
        omega
      | @returned b tail hitems hfits =>
        refine iff_of_true ?_ (by simp [BoundedQueue.peek, hitems, hfits])
        have hreturned : returned (({ u with rxQueue := u.rxQueue.receive.2 }).emit (.returned b)) =
            returned u ++ [b] := returned_emit _ _
        unfold Retained
        rw [hreturned, (takesOldest_returned hitems).finished_eq]
        intro c hc
        rcases hretained c hc with hqueued | hreturned | holder
        · rw [hitems] at hqueued
          rcases List.mem_cons.mp hqueued with rfl | hqueued
          · exact .inr (.inl (by simp))
          · exact .inl (by simpa [emit, hitems] using hqueued)
        · exact .inr (.inl (List.mem_append_left _ hreturned))
        · exact .inr (.inr holder)
    | _ => exact hside.elim
  · have hkeeps : Keeps ⟨u, action, v⟩ := by
      cases h with
      | arrive | enqueue | dropOldest | enqueueAgain | receivePacket => exact absurd trivial hside
      | _ => trivial
    exact iff_of_true ((sameReceive_of_send h hside).retained.mpr hretained) hkeeps

end Invariant

section Runs
variable {deliverySuccess : Bool} {moves : List (Move EspNowUplink UplinkAction)} {u : EspNowUplink}

private theorem rxInv_start (deliverySuccess : Bool) : RxInv (start deliverySuccess) where
  indexed := rfl
  received_eq := rfl
  queued := List.suffix_rfl
  taken := List.Sublist.refl _
  room _ h := by cases h
  all_enqueued := by simp [AllEnqueued, start]

private theorem rxInv_run (hrun : Run UplinkStep (start deliverySuccess) moves u) : RxInv u :=
  hrun.invariant (fun _ => RxInv) (rxInv_start deliverySuccess) fun _ _ _ _ _ h hstep => rxInv_step hstep h

private theorem retained_run (hrun : Run UplinkStep (start deliverySuccess) moves u) :
    ((∀ m ∈ moves, Retained m.after) ↔ ∀ m ∈ moves, Keeps m) ∧ ((∀ m ∈ moves, Keeps m) → Retained u) := by
  refine hrun.invariant (fun moves u => ((∀ m ∈ moves, Retained m.after) ↔ ∀ m ∈ moves, Keeps m) ∧
    ((∀ m ∈ moves, Keeps m) → Retained u)) ⟨by simp, fun _ => by simp [Retained, finished, start]⟩ ?_
  intro moves u action v hrun ⟨hiff, hretained⟩ hstep
  have hlast (hkept : ∀ m ∈ moves, Keeps m) := retained_step_iff hstep (rxInv_run hrun) (hretained hkept)
  simp only [List.forall_mem_append, List.forall_mem_singleton]
  rw [hiff]
  exact ⟨and_congr_right hlast, fun h => (hlast h.1).mpr h.2⟩

end Runs

/-- Over any interleaving: frames are returned in arrival order and none twice,
and every callback ends with its frame enqueued. Every finished frame is queued,
returned or older than four others in all states of a run exactly when each step
keeps it so. -/
theorem espNow_receive_queue (deliverySuccess : Bool) (moves : List (Move EspNowUplink UplinkAction)) (u : EspNowUplink)
    (hrun : Run UplinkStep (start deliverySuccess) moves u) :
    ReturnedInOrder u ∧ AllEnqueued u ∧ ((∀ m ∈ moves, Retained m.after) ↔ ∀ m ∈ moves, Keeps m) := by
  have hinv := rxInv_run hrun
  exact ⟨⟨hinv.returned_sublist, hinv.received_ordered.sublist hinv.returned_sublist⟩, hinv.all_enqueued,
    (retained_run hrun).1⟩

def sampleFrame : RxFrame := ⟨Vector.replicate 6 3, [0x4B, 0x5A], by decide⟩

def heard : Nat → EspNowUplink
  | 0 => start false
  | n + 1 => ((heard n).arrive sampleFrame.mac sampleFrame.data).enqueue ⟨n, sampleFrame⟩

private theorem heard_idle : ∀ n < 5, (heard n).onReceived = .idle ∧ (heard n).arrived.length = n := by
  decide

private theorem run_heard {n : Nat} (hn : n ≤ 5) : ∃ moves, Run UplinkStep (start false) moves (heard n) ∧
    ∀ m ∈ moves, Keeps m := by
  induction n with
  | zero => exact ⟨[], .nil, by simp⟩
  | succ n ih =>
    obtain ⟨moves, hrun, hkept⟩ := ih (Nat.le_of_succ_le hn)
    obtain ⟨hidle, hcount⟩ := heard_idle n hn
    have harrived : ((heard n).arrive sampleFrame.mac sampleFrame.data).onReceived = .enqueuing ⟨n, sampleFrame⟩ := by
      conv_rhs => rw [← hcount]
      rfl
    refine ⟨_, .snoc (.snoc hrun (.arrive sampleFrame.mac sampleFrame.data hidle))
      (.enqueue harrived), ?_⟩
    simp only [List.forall_mem_append, List.forall_mem_singleton, Keeps, and_true]
    exact hkept

/-- The fifth frame finds the queue full, and the oldest one makes room. -/
theorem espNow_receive_queue_overflow : ∃ moves u, Run UplinkStep (start false) moves u ∧
    (∀ m ∈ moves, Retained m.after) ∧ u.rxQueue.items.map (·.index) = [1, 2, 3, 4] := by
  obtain ⟨moves, hrun, hkept⟩ := run_heard (n := 5) le_rfl
  have hfull : (heard 5).onReceived = .full ⟨4, sampleFrame⟩ := by decide
  have hrun' := Run.snoc (Run.snoc hrun (.dropOldest hfull)) (.enqueueAgain rfl)
  refine ⟨_, _, hrun', (espNow_receive_queue false _ _ hrun').2.2.mpr ?_, by decide⟩
  simp only [List.forall_mem_append, List.forall_mem_singleton]
  exact ⟨⟨hkept, .inl (by decide)⟩, trivial⟩

/-- The same, with the oldest frame taken by `receivePacket` just before: there
is room, and still the next frame is dropped. -/
theorem espNow_receive_queue_race : ∃ moves u, Run UplinkStep (start false) moves u ∧
    finished u = [⟨0, sampleFrame⟩, ⟨1, sampleFrame⟩, ⟨2, sampleFrame⟩, ⟨3, sampleFrame⟩] ∧
    returned u = [⟨0, sampleFrame⟩] ∧ u.rxQueue.items = [⟨2, sampleFrame⟩, ⟨3, sampleFrame⟩] ∧
    u.arrived.length = 5 ∧ ¬ ∀ m ∈ moves, Retained m.after := by
  obtain ⟨moves, hrun, -⟩ := run_heard (n := 5) le_rfl
  have hfull : ((heard 5).receivePacket espNowMaxDataLen).2.onReceived = .full ⟨4, sampleFrame⟩ := by decide
  have hrun' := Run.snoc (Run.snoc hrun (.receivePacket espNowMaxDataLen)) (.dropOldest hfull)
  refine ⟨_, _, hrun', by decide, by decide, by decide, by decide, ?_⟩
  intro hretained
  have hlost := hretained _ (List.mem_append_right _ List.mem_cons_self) ⟨1, sampleFrame⟩ (by decide)
  exact absurd hlost (by decide)

end EspNowUplink
end IotFirmware
