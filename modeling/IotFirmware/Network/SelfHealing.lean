import IotFirmware.Links.SubstationLinkRank
import IotFirmware.Network.FirstDelivery
import IotFirmware.Network.DeliverySoundness
import IotFirmware.Network.StationBuffers

/-! The ESP-NOW hop always recovers: from any reachable state, wherever a node's
thread stands and whatever it believes to be joined to, there is a run in which
it rejoins a substation that is up and delivers a reading. -/
namespace IotFirmware

namespace Substation

private theorem findJoined_ne_none {s : Substation} {m : Mac} : s.findJoined m ≠ none ↔ m ∈ s.joined.map (·.mac) := by
  simp [findJoined]

/-- The station has a row for the node, or room for one. -/
def HasRoomFor (s : Substation) (m : Mac) : Prop :=
  s.findJoined m ≠ none ∨ s.joined.length ≠ readingBufferMaxNodes

def lastSeq? (s : Substation) (m : Mac) : Option UInt32 :=
  (s.entry m).bind fun node => if node.hasSeq then some node.lastSeq else none

/-- A due beacon goes out. -/
theorem beacon_due (s : Substation) : ∃ t, s.act (.beacon s.nextBeaconAt 0) =
    (t, [.sent espNowBroadcastMac (linkFrameMake .beacon s.epoch none).toBytes]) ∧
      t.ready = s.ready ∧ t.loraLink = s.loraLink ∧ t.joined = s.joined ∧ t.epoch = s.epoch := by
  have hdue : ¬ Clock.signed (s.nextBeaconAt - s.nextBeaconAt) < 0 := by
    rw [UInt32.sub_self]
    decide
  simp only [act, beaconIfDue, if_neg hdue]
  exact ⟨_, rfl, rfl, rfl, rfl, rfl⟩

/-- With room for a node its Join is answered, and a rejoin forgets nothing. -/
theorem join_answered (s : Substation) {m : Mac} {uid : Uid} (hroom : s.HasRoomFor m)
    (huid : ∀ node, s.entry m = some node → node.uid = uid) :
    ∃ t, s.act (.frame m (linkFrameMake .join s.epoch (some uid)).toBytes true) =
        (t, [.sent m (linkFrameMake .joinAck s.epoch (some uid)).toBytes]) ∧
      t.findJoined m ≠ none ∧ t.lastSeq? m = s.lastSeq? m ∧ t.ready = s.ready ∧ t.loraLink = s.loraLink := by
  have hparse : s.handleFrame m (linkFrameMake .join s.epoch (some uid)).toBytes true =
      s.handleJoin m (linkFrameMake .join s.epoch (some uid)) true := by
    simp [handleFrame]
  simp only [act, hparse, handleJoin, linkFrameMake_epoch, ne_eq, not_true_eq_false, if_false, linkFrameMake_uid]
  cases hfind : s.findJoined m with
  | none =>
    have hlength := hroom.resolve_left (by simp [hfind])
    have hnone := entry_of_findJoined_none hfind
    simp only [if_neg hlength, answerJoin, if_true]
    refine ⟨_, rfl, findJoined_ne_none.mpr (by simp), ?_, rfl, rfl⟩
    let row : JoinedNode := ⟨m, uid, 0, false⟩
    have hentry : KeyedList.lookup JoinedNode.mac (s.joined ++ [row]) =
        Function.update (KeyedList.lookup JoinedNode.mac s.joined) m (some row) :=
      KeyedList.lookup_append (a := row) hnone
    simp [lastSeq?, entry, hentry, row, show KeyedList.lookup JoinedNode.mac s.joined m = none from hnone]
  | some index =>
    have hrow := huid _ (entry_of_findJoined hfind)
    simp only [answerJoin, if_true, modify_rejoin_self hrow]
    exact ⟨s, rfl, by simp [hfind], rfl, rfl, rfl⟩

/-- A new reading of a node in the table is buffered and ACKed. -/
theorem reading_answered {s : Substation} (hv : s.buffer.Valid) {m : Mac} {p : Payload} (hfind : s.findJoined m ≠ none)
    (hnew : s.lastSeq? m ≠ some p.seq) (hroom : ∀ b, readingBufferPush s.buffer p ≠ (false, b)) :
    ∃ t, s.act (.frame m p.toBytes true) = (t, [.pushed p true, sendDeliveryAck m p]) ∧
      p.reading ∈ t.buffer.readings p.uid ∧ t.ready = s.ready ∧ t.loraLink = s.loraLink := by
  cases hindex : s.findJoined m with
  | none => exact absurd hindex hfind
  | some index =>
    have hparse : s.handleFrame m p.toBytes true = s.handleReading m index p := by
      simp [handleFrame, hindex]
    have hnot : ¬ ((s.joinedAt index).hasSeq = true ∧ (s.joinedAt index).lastSeq = p.seq) := by
      rintro ⟨hseq, hlast⟩
      exact hnew (by simp [lastSeq?, entry_of_findJoined hindex, hseq, hlast])
    simp only [act, hparse, handleReading, if_neg hnot]
    cases hpush : readingBufferPush s.buffer p with
    | mk ok b =>
      cases ok with
      | false => exact absurd hpush (hroom b)
      | true =>
        refine ⟨_, rfl, ?_, rfl, rfl⟩
        rw [(readings_push hv hpush).2.2.2 rfl]
        simp

end Substation

/-- Some answer of the radio, or a timeout, ends any wait. -/
theorem SubstationLink.exists_answer (s : SubstationLink) (hcall : s.point ≠ .idle) : ∃ i, s.endsWait i = true ∧
    (i = .heardNothing ∨ i = .timeout ∨ i = .result false) := by
  cases hpoint : s.point with
  | idle => exact absurd hpoint hcall
  | drainReceived => exact ⟨.heardNothing, by simp [endsWait, hpoint], .inl rfl⟩
  | waitForBeacon => exact ⟨.timeout, by simp [endsWait, hpoint], .inr (.inl rfl)⟩
  | addPeer => exact ⟨.result false, by simp [endsWait, hpoint], .inr (.inr rfl)⟩
  | sendJoin => exact ⟨.result false, by simp [endsWait, hpoint], .inr (.inr rfl)⟩
  | waitForJoinAck => exact ⟨.timeout, by simp [endsWait, hpoint], .inr (.inl rfl)⟩
  | sendPayload => exact ⟨.result false, by simp [endsWait, hpoint], .inr (.inr rfl)⟩
  | waitForDeliveryAck => exact ⟨.timeout, by simp [endsWait, hpoint], .inr (.inl rfl)⟩

/-- A step towards the return of a call of `m`: no relay, no reboot, no other call. -/
def NetAction.Serves (m : Mac) : NetAction → Prop
  | .node _ .callJoin => False
  | .node _ (.callSend _) => False
  | .node k _ => k = m
  | .nodeHears k _ => k = m
  | .nodeReboots _ => False
  | .station _ (.beacon _ _) => True
  | .station _ _ => False
  | .stationHears _ _ _ => True
  | .stationBoots _ _ _ => False

theorem NetAction.Serves.noRelay {m : Mac} {a : NetAction} (h : a.Serves m) : a.NoRelay := by
  rintro S poll now beginAt rfl
  exact h

theorem NetAction.Serves.steady {m : Mac} {a : NetAction} (h : a.Serves m) : a.Steady := by
  cases a with
  | nodeReboots => exact h
  | stationBoots => exact h
  | _ => trivial

def NetAction.Delivers (m : Mac) (p : Payload) (a : NetAction) : Prop := a = .node m (.callSend p) ∨ a.Serves m

theorem NetAction.Delivers.noRelay {m : Mac} {p : Payload} {a : NetAction} (h : a.Delivers m p) : a.NoRelay := by
  rcases h with rfl | h
  · simp [NetAction.NoRelay]
  · exact h.noRelay

theorem NetAction.Delivers.steady {m : Mac} {p : Payload} {a : NetAction} (h : a.Delivers m p) : a.Steady := by
  rcases h with rfl | h
  · trivial
  · exact h.steady

namespace Network
open Substation

def ServeStep (uidOf : Mac → Uid) (m : Mac) (n : Network) (a : NetAction) (n' : Network) : Prop :=
  NetStep uidOf n a n' ∧ a.Serves m

def DeliverStep (uidOf : Mac → Uid) (m : Mac) (p : Payload) (n : Network) (a : NetAction) (n' : Network) : Prop :=
  NetStep uidOf n a n' ∧ a.Delivers m p

section Node
variable (uidOf : Mac → Uid) {n : Network} {m : Mac}

/-- A call in progress can be made to return: every wait of its thread times out
or fails. -/
theorem run_to_idle (hm : m ≠ espNowBroadcastMac) : ∃ moves n',
    Run (ServeStep uidOf m) n moves n' ∧ n'.stations = n.stations ∧ (n'.nodes m).point = .idle := by
  refine exists_run_of_rank (fun _ (n' : Network) => n'.stations = n.stations)
    (fun n' : Network => (n'.nodes m).point.rank) (fun n' : Network => (n'.nodes m).point = .idle) rfl
    fun _ n' hstations hbusy => ?_
  obtain ⟨i, hanswer, hi⟩ := (n'.nodes m).exists_answer hbusy
  have hs : ServeStep uidOf m n' (.node m i) (n'.nodeStep m i) := by
    rcases hi with rfl | rfl | rfl <;> exact ⟨.node hm trivial, rfl⟩
  refine ⟨_, _, hs, hstations, ?_⟩
  simp only [nodeStep, Function.update_self]
  rcases SubstationLink.step_nearer hbusy i with (⟨_, hreturned⟩ | ⟨_, hlower⟩) | ⟨hwaits, _⟩
  · rw [hreturned]
    exact LinkPoint.rank_pos hbusy
  · exact hlower
  · simp [hanswer] at hwaits

/-- A `send` can be brought to wait for a beacon, whether the node believed to be
joined or not. -/
theorem run_to_waitForBeacon (hm : m ≠ espNowBroadcastMac) (hidle : (n.nodes m).point = .idle) {p : Payload}
    (hp : p.uid = uidOf m) : ∃ moves n' attempt, Run (DeliverStep uidOf m p) n moves n' ∧
      (n'.nodes m).point = .waitForBeacon (.send p attempt) ∧ n'.stations = n.stations := by
  let n₁ := n.nodeStep m (.callSend p)
  let n₂ := n₁.nodeStep m .heardNothing
  have hnode₁ : n₁.nodes m = { n.nodes m with point := .drainReceived p } := by
    simp [n₁, nodeStep, SubstationLink.step, hidle]
  have hnode₂ : n₂.nodes m = ((n₁.nodes m).join (.send p 0)).1 := by
    simp [n₂, nodeStep, SubstationLink.step, hnode₁]
  have t₁ : DeliverStep uidOf m p n (.node m (.callSend p)) n₁ := ⟨.node hm hp, .inl rfl⟩
  have t₂ : DeliverStep uidOf m p n₁ (.node m .heardNothing) n₂ := ⟨.node hm trivial, .inr rfl⟩
  cases hjoined : (n.nodes m).joined with
  | false =>
    refine ⟨_, n₂, 0, (Run.nil.snoc t₁).snoc t₂, ?_, rfl⟩
    rw [hnode₂, hnode₁]
    simp [SubstationLink.join, hjoined]
  | true =>
    -- the stale join is only forgotten once sending fails
    let n₃ := n₂.nodeStep m (.result false)
    have hnode₂' : (n₂.nodes m).point = .sendPayload p 0 := by
      rw [hnode₂, hnode₁]
      simp [SubstationLink.join, hjoined, SubstationLink.afterJoin]
    have t₃ : DeliverStep uidOf m p n₂ (.node m (.result false)) n₃ := ⟨.node hm trivial, .inr rfl⟩
    refine ⟨_, n₃, 1, ((Run.nil.snoc t₁).snoc t₂).snoc t₃, ?_, rfl⟩
    simp [n₃, nodeStep, SubstationLink.step, hnode₂', SubstationLink.nextSend, SubstationLink.forget,
      SubstationLink.join]

/-- The packet logged last can be heard. -/
theorem View.heard {S mac : Mac} {s : SubstationLink} {t : Substation} {log : List NetEvent} {pkt : Packet}
    (v : View n m S s t (log ++ [.sent pkt])) (hdst : pkt.dst = mac ∨ pkt.dst = espNowBroadcastMac) :
    n.Heard mac log.length pkt :=
  v.heardAt pkt (by simp) hdst

/-- Between the two states a `send` of node `m` has returned with success: the
node is joined to station `S`, which has accepted the reading and buffers it. -/
structure DeliveredTo (n n' : Network) (m S : Mac) (p : Payload) (attempt : Nat) : Prop where
  returned : .returned m (.send p attempt) true ∈ n'.log.drop n.log.length
  accepted : .accepted S p ∈ n'.log.drop n.log.length
  joined : (n'.nodes m).joined = true ∧ (n'.nodes m).substationMac = S
  held : p.reading ∈ (n'.stations S).buffer.readings p.uid

theorem DeliveredTo.of_prefix {n₁ n₂ n' : Network} {S : Mac} {p : Payload} {attempt : Nat}
    (h : DeliveredTo n₂ n' m S p attempt) (hlog : n₁.log <+: n₂.log) : DeliveredTo n₁ n' m S p attempt := by
  have hdrop : n'.log.drop n₂.log.length ⊆ n'.log.drop n₁.log.length :=
    (List.drop_sublist_drop_left _ hlog.length_le).subset
  exact ⟨hdrop h.returned, hdrop h.accepted, h.joined, h.held⟩

/-- A `send` that waits for a beacon can join a substation that is up and deliver
a new reading to it. -/
theorem run_delivers {moves : List (Move Network NetAction)} (hrun : Run (NetStep uidOf) (start uidOf) moves n)
    (hm : m ≠ espNowBroadcastMac) {p : Payload} (hp : p.uid = uidOf m) {attempt : Nat}
    (hpoint : (n.nodes m).point = .waitForBeacon (.send p attempt)) {S : Mac}
    (hready : (n.stations S).ready = true) (hroom : (n.stations S).HasRoomFor m)
    (hnew : (n.stations S).lastSeq? m ≠ some p.seq) :
    ∃ more n', Run (ServeStep uidOf m) n more n' ∧ DeliveredTo n n' m S p attempt ∧
      (n'.stations S).ready = true ∧ (n'.stations S).loraLink = (n.stations S).loraLink := by
  let s₀ := n.nodes m
  let t₀ := n.stations S
  let epoch := t₀.epoch
  have huid : s₀.uid = uidOf m := (netInv_run hrun).node_uid m
  obtain ⟨t₁, hbeacon, hready₁, hlink₁, hjoined₁, hepoch₁⟩ := t₀.beacon_due
  have hroom₁ : t₁.HasRoomFor m := by
    simpa [HasRoomFor, findJoined, hjoined₁, t₀] using hroom
  let s₁ : SubstationLink := { s₀ with point := .addPeer (.send p attempt) S epoch }
  let s₂ : SubstationLink := { s₀ with point := .sendJoin (.send p attempt) S epoch 0 }
  let s₃ : SubstationLink := { s₀ with point := .waitForJoinAck (.send p attempt) S epoch 0 }
  let s₄ : SubstationLink := ⟨uidOf m, true, S, epoch, .sendPayload p attempt⟩
  let s₅ : SubstationLink := { s₄ with point := .waitForDeliveryAck p attempt }
  let log₁ := n.log ++ [.sent (beaconPacket S epoch)]
  let log₂ := log₁ ++ [.sent (joinPacket uidOf m S epoch)]
  let log₃ := log₂ ++ [.sent (joinAckPacket uidOf S m epoch)]
  let log₄ := log₃ ++ [.sent (readingPacket m S p)]
  let log₅ := log₄ ++ [.accepted S p, .sent (ackPacket S m p)]
  let n₁ := n.stationStep S (.beacon t₀.nextBeaconAt 0)
  let n₂ := n₁.nodeStep m (.heard S (beaconPacket S epoch).data)
  let n₃ := n₂.nodeStep m (.result true)
  let n₄ := n₃.nodeStep m (.result true)
  let n₅ := n₄.stationStep S (.frame m (joinPacket uidOf m S epoch).data true)
  let n₆ := n₅.nodeStep m (.heard S (joinAckPacket uidOf S m epoch).data)
  let n₇ := n₆.nodeStep m (.result true)
  let n₈ := n₇.stationStep S (.frame m (readingPacket m S p).data true)
  let n₉ := n₈.nodeStep m (.heard S (ackPacket S m p).data)
  have hpeer : s₁.step (.result true) = (s₂, []) := rfl
  have hjoin : s₂.step (.result true) = (s₃, [.sent S (joinPacket uidOf m S epoch).data]) := by
    simp [SubstationLink.step, s₂, s₃, joinPacket, huid]
  have hsend : s₄.step (.result true) = (s₅, [.sent S (readingPacket m S p).data]) := rfl
  obtain ⟨t₂, hjoinAck, hfind₂, hlast₂, hready₂, hlink₂⟩ := t₁.join_answered hroom₁ fun node hnode =>
    (tableInv_run hrun S).entry_uid m node (by simpa [entry, hjoined₁, t₀] using hnode)
  rw [hepoch₁] at hjoinAck
  have hlast₁ : t₁.lastSeq? m = t₀.lastSeq? m := by simp [lastSeq?, entry, hjoined₁]
  have v₀ : View n m S s₀ t₀ n.log := ⟨rfl, rfl, rfl⟩
  have v₁ : View n₁ m S s₀ t₁ log₁ := v₀.stationStep hbeacon
  have v₂ : View n₂ m S s₁ t₁ log₁ := by simpa using v₁.nodeStep (step_heard_beacon hpoint)
  have v₃ : View n₃ m S s₂ t₁ log₁ := by simpa using v₂.nodeStep hpeer
  have v₄ : View n₄ m S s₃ t₁ log₂ := v₃.nodeStep hjoin
  have v₅ : View n₅ m S s₃ t₂ log₃ := v₄.stationStep hjoinAck
  have v₆ : View n₆ m S s₄ t₂ log₃ := by simpa using v₅.nodeStep (step_heard_joinAck huid rfl)
  have v₇ : View n₇ m S s₅ t₂ log₄ := v₆.nodeStep hsend
  have hready₁' : t₁.ready = true := hready₁.trans hready
  have hready₂' : t₂.ready = true := hready₂.trans hready₁'
  have e₁ : ServeStep uidOf m n (.station S (.beacon t₀.nextBeaconAt 0)) n₁ := ⟨.station hready trivial, trivial⟩
  have e₂ : ServeStep uidOf m n₁ (.nodeHears m n.log.length) n₂ := ⟨.nodeHears hm (v₁.heard (.inr rfl)), rfl⟩
  have e₃ : ServeStep uidOf m n₂ (.node m (.result true)) n₃ := ⟨.node hm trivial, rfl⟩
  have e₄ : ServeStep uidOf m n₃ (.node m (.result true)) n₄ := ⟨.node hm trivial, rfl⟩
  have e₅ : ServeStep uidOf m n₄ (.stationHears S log₁.length true) n₅ :=
    ⟨.stationHears (v₄.ready hready₁') (v₄.heard (.inl rfl)), trivial⟩
  have e₆ : ServeStep uidOf m n₅ (.nodeHears m log₂.length) n₆ := ⟨.nodeHears hm (v₅.heard (.inl rfl)), rfl⟩
  have e₇ : ServeStep uidOf m n₆ (.node m (.result true)) n₇ := ⟨.node hm trivial, rfl⟩
  have hmore := ((((((Run.nil.snoc e₁).snoc e₂).snoc e₃).snoc e₄).snoc e₅).snoc e₆).snoc e₇
  have hrun₇ := hrun.append (hmore.mono fun _ _ _ h => h.1)
  obtain ⟨_, hrelay⟩ := relayInv_net hrun₇ S
  obtain ⟨t₃, hreading, hheld, hready₃, hlink₃⟩ := reading_answered (m := m) (p := p)
    (v₇.station ▸ hrelay.valid) hfind₂ (by rw [hlast₂, hlast₁]; exact hnew)
    (v₇.station ▸ never_refused hrun₇ hp (v₇.station.symm ▸ hfind₂))
  have v₈ : View n₈ m S s₅ t₃ log₅ := v₇.stationStep hreading
  have v₉ : View n₉ m S { s₅ with point := .idle } t₃ (log₅ ++ [.returned m (.send p attempt) true]) :=
    v₈.nodeStep (step_heard_ack hp.symm rfl rfl)
  have hack : n₈.Heard m (log₄.length + 1) (ackPacket S m p) := by
    refine v₈.heardAt _ ?_ (.inl rfl)
    rw [List.getElem?_append_right (Nat.le_add_right _ 1), Nat.add_sub_cancel_left]
    rfl
  have e₈ : ServeStep uidOf m n₇ (.stationHears S log₃.length true) n₈ :=
    ⟨.stationHears (v₇.ready hready₂') (v₇.heard (.inl rfl)), trivial⟩
  have e₉ : ServeStep uidOf m n₈ (.nodeHears m (log₄.length + 1)) n₉ := ⟨.nodeHears hm hack, rfl⟩
  have hlog : n₉.log.drop n.log.length = [.sent (beaconPacket S epoch), .sent (joinPacket uidOf m S epoch),
      .sent (joinAckPacket uidOf S m epoch), .sent (readingPacket m S p), .accepted S p, .sent (ackPacket S m p),
      .returned m (.send p attempt) true] := by
    rw [v₉.log]
    simp [log₅, log₄, log₃, log₂, log₁]
  refine ⟨_, n₉, (hmore.snoc e₈).snoc e₉, ⟨by simp [hlog], by simp [hlog], ?_, ?_⟩,
    v₉.ready (hready₃.trans hready₂'), ?_⟩
  · rw [v₉.node]
    exact ⟨rfl, rfl⟩
  · rw [v₉.station]
    exact hheld
  · rw [v₉.station, hlink₃, hlink₂, hlink₁]

/-- A station remembers no seq that its node has not used. -/
theorem lastSeq?_ne {moves : List (Move Network NetAction)} (hrun : Run (NetStep uidOf) (start uidOf) moves n)
    {S : Mac} {seq : UInt32} (hfresh : ∀ q, .called m q ∈ n.log → q.seq ≠ seq) :
    (n.stations S).lastSeq? m ≠ some seq := by
  intro hlast
  obtain ⟨node, hnode, hseq⟩ := Option.bind_eq_some_iff.mp hlast
  split at hseq
  · obtain ⟨q, _, hcalled, hq⟩ := (ackInv_run hrun).last_seq S m node hnode ‹_›
    exact hfresh q hcalled (hq.trans (Option.some.inj hseq))
  · cases hseq

/-- From every reachable state, wherever a node's thread is and whatever the node
believes to be joined to, there is a run without reboots or other calls in which
it sends a new reading with success through any station that is up and has a row
or room for it. -/
theorem can_deliver {moves : List (Move Network NetAction)} (hrun : Run (NetStep uidOf) (start uidOf) moves n)
    (hm : m ≠ espNowBroadcastMac) {p : Payload} (hp : p.uid = uidOf m)
    (hfresh : ∀ q, .called m q ∈ n.log → q.seq ≠ p.seq) {S : Mac} (hready : (n.stations S).ready = true)
    (hroom : (n.stations S).HasRoomFor m) :
    ∃ more n' attempt, Run (DeliverStep uidOf m p) n more n' ∧ DeliveredTo n n' m S p attempt ∧
      (n'.stations S).ready = true ∧ (n'.stations S).loraLink = (n.stations S).loraLink := by
  obtain ⟨first, n₁, hfirst, hstations₁, hidle⟩ := run_to_idle uidOf (n := n) hm
  obtain ⟨second, n₂, attempt, hsecond, hpoint, hstations₂⟩ := run_to_waitForBeacon uidOf hm hidle hp
  have hstations : n₂.stations = n.stations := hstations₂.trans hstations₁
  have hto : Run (DeliverStep uidOf m p) n (first ++ second) n₂ :=
    (hfirst.mono fun _ _ _ h => ⟨h.1, .inr h.2⟩).append hsecond
  have hto' : Run (NetStep uidOf) n (first ++ second) n₂ := hto.mono fun _ _ _ h => h.1
  obtain ⟨third, n', hthird, hdelivered, hready', hlink⟩ := run_delivers uidOf (hrun.append hto') hm hp
    hpoint (S := S) (hstations ▸ hready) (hstations ▸ hroom) (hstations ▸ lastSeq?_ne uidOf hrun hfresh)
  exact ⟨_, n', attempt, hto.append (hthird.mono fun _ _ _ h => ⟨h.1, .inr h.2⟩),
    hdelivered.of_prefix (log_of_run hto'), hready', hstations ▸ hlink⟩

/-- The only call in such a run is that of the `send`. -/
theorem called_of_deliver {steps moves : List (Move Network NetAction)} {n' : Network} {p : Payload}
    (hrun : Run (NetStep uidOf) (start uidOf) steps n) (hmore : Run (DeliverStep uidOf m p) n moves n') {k : Mac}
    {q : Payload} (hcalled : .called k q ∈ n'.log) : .called k q ∈ n.log ∨ k = m ∧ q = p := by
  let Inv (moves : List (Move Network NetAction)) (t : Network) : Prop :=
    Run (NetStep uidOf) (start uidOf) (steps ++ moves) t ∧ (.called k q ∈ t.log → .called k q ∈ n.log ∨ k = m ∧ q = p)
  have hstart : Inv [] n := ⟨by simpa using hrun, .inl⟩
  refine (hmore.invariant Inv hstart fun moves t a t' _ ih hs => ?_).2 hcalled
  obtain ⟨hto, hold⟩ := ih
  obtain ⟨hstep, hdelivers⟩ := hs
  refine ⟨by simpa using hto.snoc hstep, fun h => ?_⟩
  have hnet := netInv_run hto
  have hstation {T : Mac} {b : Substation.Action} (h : .called k q ∈ (t.stationStep T b).log) :
      .called k q ∈ t.log := by
    refine (List.mem_append.mp h).resolve_right fun hnew => ?_
    obtain ⟨e, _, he⟩ := List.mem_filterMap.mp hnew
    exact absurd he event?_called
  cases hstep with
  | node =>
    refine (List.mem_append.mp h).elim hold fun hnew => ?_
    obtain ⟨rfl, rfl, _⟩ := hnet.logs_called hnew
    obtain ⟨hk, hi⟩ := NetAction.node.inj (hdelivers.resolve_right id)
    exact .inr ⟨hk, LinkInput.callSend.inj hi⟩
  | nodeHears =>
    refine (List.mem_append.mp h).elim hold fun hnew => ?_
    obtain ⟨_, hi, _⟩ := hnet.logs_called hnew
    cases hi
  | nodeReboots => exact (hdelivers.resolve_left nofun).elim
  | station => exact hold (hstation h)
  | stationHears => exact hold (hstation h)
  | stationBoots => exact (hdelivers.resolve_left nofun).elim

end Node
end Network
end IotFirmware
