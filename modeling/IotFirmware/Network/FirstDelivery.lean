import IotFirmware.Network.JoinedTable

/-! The protocol at work: any node can join any substation that has booted and
deliver a reading to it, with no frame lost, or with the delivery ACK lost and
the reading sent again. -/
namespace IotFirmware.Network
open Substation

structure View (n : Network) (m S : Mac) (s : SubstationLink) (t : Substation) (log : List NetEvent) : Prop where
  node : n.nodes m = s
  station : n.stations S = t
  log : n.log = log

section Steps
variable {uidOf : Mac → Uid} {n : Network} {m S : Mac} {s : SubstationLink} {t : Substation} {log : List NetEvent}

theorem View.nodeStep (h : View n m S s t log) {i : LinkInput} {s' : SubstationLink} {done : List LinkEffect}
    (hstep : s.step i = (s', done)) : View (n.nodeStep m i) m S s' t (log ++ done.map (LinkEffect.event m)) := by
  obtain ⟨rfl, rfl, rfl⟩ := h
  constructor <;> simp [Network.nodeStep, hstep]

theorem View.stationStep (h : View n m S s t log) {a : Substation.Action} {t' : Substation} {done : List Effect}
    (hact : t.act a = (t', done)) :
    View (n.stationStep S a) m S s t' (log ++ done.filterMap (Effect.event? S)) := by
  obtain ⟨rfl, rfl, rfl⟩ := h
  constructor <;> simp [Network.stationStep, hact]

theorem View.ready (h : View n m S s t log) (ht : t.ready = true) : (n.stations S).ready = true := h.station ▸ ht

/-- A logged packet can be heard by whom it is for. -/
theorem View.heardAt (h : View n m S s t log) {mac : Mac} {index : Nat} (pkt : Packet)
    (hsent : log[index]? = some (.sent pkt)) (hdst : pkt.dst = mac ∨ pkt.dst = espNowBroadcastMac) :
    n.Heard mac index pkt := ⟨h.log ▸ hsent, hdst⟩

variable {p : Payload} {attempt : Nat} {epoch : UInt32}

theorem step_heard_beacon {job : LinkJob} (hpoint : s.point = .waitForBeacon job) :
    s.step (.heard S (beaconPacket S epoch).data) = ({ s with point := .addPeer job S epoch }, []) := by
  simp [SubstationLink.step, hpoint, SubstationLink.beaconEpoch?, beaconPacket]

theorem step_heard_joinAck {joinAttempt : Nat} (huid : s.uid = uidOf m)
    (hpoint : s.point = .waitForJoinAck (.send p attempt) S epoch joinAttempt) :
    s.step (.heard S (joinAckPacket uidOf S m epoch).data) =
      (⟨uidOf m, true, S, epoch, .sendPayload p attempt⟩, []) := by
  simp [SubstationLink.step, hpoint, SubstationLink.isJoinAck, SubstationLink.afterJoin, joinAckPacket, huid]

theorem step_heard_ack (huid : s.uid = p.uid) (hmac : s.substationMac = S)
    (hpoint : s.point = .waitForDeliveryAck p attempt) :
    s.step (.heard S (ackPacket S m p).data) = ({ s with point := .idle }, [.returned (.send p attempt) true]) := by
  simp [SubstationLink.step, hpoint, SubstationLink.isDeliveryAck, SubstationLink.finish, ackPacket, huid, hmac]

end Steps

/-- The steps up to a substation's first delivery ACK: boot, beacon, a call to
`send`, the join and the reading. -/
def firstAcceptance (m S : Mac) (link : LoRaLinkConfig) (r : SetupResults) (p : Payload) : List NetAction :=
  [.stationBoots S link r, .station S (.beacon 0 0), .node m (.callSend p), .node m .heardNothing, .nodeHears m 1,
    .node m (.result true), .node m (.result true), .stationHears S 3 true, .nodeHears m 4, .node m (.result true),
    .stationHears S 5 true]

/-- The steps of a first delivery without loss: the ACK is heard. -/
def firstDelivery (m S : Mac) (link : LoRaLinkConfig) (r : SetupResults) (p : Payload) : List NetAction :=
  firstAcceptance m S link r p ++ [.nodeHears m 7]

/-- The steps of a first delivery whose first ACK is lost: the node forgets the
substation, hears its beacon once more, joins again and sends the reading again. -/
def resentDelivery (m S : Mac) (link : LoRaLinkConfig) (r : SetupResults) (p : Payload) : List NetAction :=
  firstAcceptance m S link r p ++
    [.node m .timeout, .nodeHears m 1, .node m (.result true), .node m (.result true), .stationHears S 8 true,
      .nodeHears m 9, .node m (.result true), .stationHears S 10 true, .nodeHears m 11]

def firstAcceptanceLog (uidOf : Mac → Uid) (m S : Mac) (epoch : UInt32) (p : Payload) : List NetEvent :=
  [.booted S (some epoch), .sent (beaconPacket S epoch), .called m p, .sent (joinPacket uidOf m S epoch),
    .sent (joinAckPacket uidOf S m epoch), .sent (readingPacket m S p), .accepted S p, .sent (ackPacket S m p)]

def firstDeliveryLog (uidOf : Mac → Uid) (m S : Mac) (epoch : UInt32) (p : Payload) : List NetEvent :=
  firstAcceptanceLog uidOf m S epoch p ++ [.returned m (.send p 0) true]

/-- What a resent delivery logs: the reading and its ACK are sent twice, and accepted once. -/
def resentDeliveryLog (uidOf : Mac → Uid) (m S : Mac) (epoch : UInt32) (p : Payload) : List NetEvent :=
  firstAcceptanceLog uidOf m S epoch p ++
    [.sent (joinPacket uidOf m S epoch), .sent (joinAckPacket uidOf S m epoch), .sent (readingPacket m S p),
      .sent (ackPacket S m p), .returned m (.send p 1) true]

/-- What a station does in a first delivery: its beacon, the JoinAck, and the reading buffered and ACKed. -/
theorem station_firstDelivery (uidOf : Mac → Uid) (m : Mac) (link : LoRaLinkConfig) (epoch : UInt32) {p : Payload}
    (hp : p.uid = uidOf m) : ∃ t₁ t₂ t₃ : Substation,
      (substationSetup link ⟨true, true, true, true, true, epoch⟩).act (.beacon 0 0) =
        (t₁, [.sent espNowBroadcastMac (linkFrameMake .beacon epoch none).toBytes]) ∧
      t₁.act (.frame m (linkFrameMake .join epoch (some (uidOf m))).toBytes true) =
        (t₂, [.sent m (linkFrameMake .joinAck epoch (some (uidOf m))).toBytes]) ∧
      t₂.act (.frame m p.toBytes true) = (t₃, [.pushed p true, sendDeliveryAck m p]) ∧
      (t₁.ready = true ∧ t₁.epoch = epoch) ∧ (t₂.ready = true ∧ t₂.epoch = epoch) ∧
      (t₃.ready = true ∧ t₃.epoch = epoch) ∧ t₃.joined = [⟨m, uidOf m, p.seq, true⟩] := by
  let t₀ := substationSetup link ⟨true, true, true, true, true, epoch⟩
  let t₁ := (t₀.beaconIfDue 0 0).1
  have ht₁ : t₁ = { t₀ with nextBeaconAt := t₁.nextBeaconAt } := t₀.beaconIfDue_frame 0 0
  have hempty : t₁.joined = [] := by rw [ht₁]; rfl
  have hboot : t₁.buffer = .boot := by rw [ht₁]; rfl
  have hfixed₁ : t₁.ready = true ∧ t₁.epoch = epoch := by rw [ht₁]; exact ⟨rfl, rfl⟩
  have hbeacon : t₀.act (.beacon 0 0) =
      (t₁, [.sent espNowBroadcastMac (linkFrameMake .beacon epoch none).toBytes]) := by
    have hdue : ¬ Clock.signed (0 - t₀.nextBeaconAt) < 0 := by
      change ¬ Clock.signed (0 - 0) < 0
      decide
    simp only [act, t₁, beaconIfDue, if_neg hdue]
    rfl
  let t₂ := { t₁ with joined := [⟨m, uidOf m, 0, false⟩] }
  have hjoin (e : UInt32) (he : t₁.epoch = e) :
      t₁.act (.frame m (linkFrameMake .join e (some (uidOf m))).toBytes true) =
        (t₂, [.sent m (linkFrameMake .joinAck e (some (uidOf m))).toBytes]) := by
    subst he
    exact handleFrame_first_join hempty m (uidOf m)
  have hreading := (handleFrame_first_reading (s := t₂) (hboot ▸ ReadingBuffer.valid_boot)
    (by simp [t₂, hboot, NodeSlot.zero]) (show t₂.joined = [⟨m, p.uid, 0, false⟩] by rw [hp]) true)
  refine ⟨t₁, t₂, _, hbeacon, hjoin epoch hfixed₁.2, Prod.ext rfl hreading.1, hfixed₁, hfixed₁, ?_,
    hp ▸ hreading.2.2⟩
  have h := t₂.act_fixed (.frame m p.toBytes true)
  exact ⟨h.1.trans hfixed₁.1, h.2.trans hfixed₁.2⟩

def waitingForAck (uid : Uid) (S : Mac) (epoch : UInt32) (p : Payload) : SubstationLink :=
  ⟨uid, true, S, epoch, .waitForDeliveryAck p 0⟩

/-- The steps up to the first delivery ACK are a run, after which the node waits
for that ACK and the substation has the reading as the node's last one. -/
theorem run_firstAcceptance (uidOf : Mac → Uid) {m : Mac} (hm : m ≠ espNowBroadcastMac) (S : Mac)
    (link : LoRaLinkConfig) (epoch : UInt32) {p : Payload} (hp : p.uid = uidOf m) :
    ∃ moves n t, Run (NetStep uidOf) (start uidOf) moves n ∧
      moves.map (·.label) = firstAcceptance m S link ⟨true, true, true, true, true, epoch⟩ p ∧
      View n m S (waitingForAck (uidOf m) S epoch p) t (firstAcceptanceLog uidOf m S epoch p) ∧
      t.ready = true ∧ t.epoch = epoch ∧ t.joined = [⟨m, uidOf m, p.seq, true⟩] := by
  let r : SetupResults := ⟨true, true, true, true, true, epoch⟩
  let s₀ := SubstationLink.new (uidOf m)
  let unjoined (point : LinkPoint) : SubstationLink := { s₀ with point := point }
  let joined (point : LinkPoint) : SubstationLink := ⟨uidOf m, true, S, epoch, point⟩
  let t₀ := substationSetup link r
  obtain ⟨t₁, t₂, t₃, hbeacon, hjoin, hreading, ⟨hready₁, -⟩, ⟨hready₂, -⟩, hready₃, hjoined⟩ :=
    station_firstDelivery uidOf m link epoch hp
  let log := firstAcceptanceLog uidOf m S epoch p
  let n₁ := (start uidOf).stationBoot S link r
  let n₂ := n₁.stationStep S (.beacon 0 0)
  let n₃ := n₂.nodeStep m (.callSend p)
  let n₄ := n₃.nodeStep m .heardNothing
  let n₅ := n₄.nodeStep m (.heard S (beaconPacket S epoch).data)
  let n₆ := n₅.nodeStep m (.result true)
  let n₇ := n₆.nodeStep m (.result true)
  let n₈ := n₇.stationStep S (.frame m (joinPacket uidOf m S epoch).data true)
  let n₉ := n₈.nodeStep m (.heard S (joinAckPacket uidOf S m epoch).data)
  let n₁₀ := n₉.nodeStep m (.result true)
  let n₁₁ := n₁₀.stationStep S (.frame m (readingPacket m S p).data true)
  have v₁ : View n₁ m S s₀ t₀ (log.take 1) := by
    constructor <;> simp [n₁, stationBoot, start, s₀, t₀, substationSetup, r, log, firstAcceptanceLog]
  have v₂ : View n₂ m S s₀ t₁ (log.take 2) := v₁.stationStep hbeacon
  have v₃ : View n₃ m S (unjoined (.drainReceived p)) t₁ (log.take 3) := v₂.nodeStep rfl
  have v₄ : View n₄ m S (unjoined (.waitForBeacon (.send p 0))) t₁ (log.take 3) := v₃.nodeStep rfl
  have v₅ : View n₅ m S (unjoined (.addPeer (.send p 0) S epoch)) t₁ (log.take 3) :=
    v₄.nodeStep (step_heard_beacon rfl)
  have v₆ : View n₆ m S (unjoined (.sendJoin (.send p 0) S epoch 0)) t₁ (log.take 3) := v₅.nodeStep rfl
  have v₇ : View n₇ m S (unjoined (.waitForJoinAck (.send p 0) S epoch 0)) t₁ (log.take 4) := v₆.nodeStep rfl
  have v₈ : View n₈ m S (unjoined (.waitForJoinAck (.send p 0) S epoch 0)) t₂ (log.take 5) := v₇.stationStep hjoin
  have v₉ : View n₉ m S (joined (.sendPayload p 0)) t₂ (log.take 5) :=
    v₈.nodeStep (step_heard_joinAck rfl rfl)
  have v₁₀ : View n₁₀ m S (joined (.waitForDeliveryAck p 0)) t₂ (log.take 6) := v₉.nodeStep rfl
  have v₁₁ : View n₁₁ m S (joined (.waitForDeliveryAck p 0)) t₃ log := v₁₀.stationStep hreading
  have s₁ : NetStep uidOf (start uidOf) (.stationBoots S link r) n₁ := .stationBoots
  have s₂ : NetStep uidOf n₁ (.station S (.beacon 0 0)) n₂ := .station (v₁.ready rfl) trivial
  have s₃ : NetStep uidOf n₂ (.node m (.callSend p)) n₃ := .node hm hp
  have s₄ : NetStep uidOf n₃ (.node m .heardNothing) n₄ := .node hm trivial
  have s₅ : NetStep uidOf n₄ (.nodeHears m 1) n₅ := .nodeHears hm (v₄.heardAt (beaconPacket S epoch) rfl (.inr rfl))
  have s₆ : NetStep uidOf n₅ (.node m (.result true)) n₆ := .node hm trivial
  have s₇ : NetStep uidOf n₆ (.node m (.result true)) n₇ := .node hm trivial
  have s₈ : NetStep uidOf n₇ (.stationHears S 3 true) n₈ :=
    .stationHears (v₇.ready hready₁) (v₇.heardAt (joinPacket uidOf m S epoch) rfl (.inl rfl))
  have s₉ : NetStep uidOf n₈ (.nodeHears m 4) n₉ :=
    .nodeHears hm (v₈.heardAt (joinAckPacket uidOf S m epoch) rfl (.inl rfl))
  have s₁₀ : NetStep uidOf n₉ (.node m (.result true)) n₁₀ := .node hm trivial
  have s₁₁ : NetStep uidOf n₁₀ (.stationHears S 5 true) n₁₁ :=
    .stationHears (v₁₀.ready hready₂) (v₁₀.heardAt (readingPacket m S p) rfl (.inl rfl))
  have hrun := ((((((((((Run.nil.snoc s₁).snoc s₂).snoc s₃).snoc s₄).snoc s₅).snoc s₆).snoc s₇).snoc s₈).snoc
    s₉).snoc s₁₀).snoc s₁₁
  exact ⟨_, _, t₃, hrun, rfl, v₁₁, hready₃.1, hready₃.2, hjoined⟩

/-- A first delivery is a run, at whose end the node is joined in the
substation's epoch and whose last move is the successful return of `send`. -/
theorem run_firstDelivery (uidOf : Mac → Uid) {m : Mac} (hm : m ≠ espNowBroadcastMac) (S : Mac)
    (link : LoRaLinkConfig) (epoch : UInt32) {p : Payload} (hp : p.uid = uidOf m) :
    ∃ moves x n, Run (NetStep uidOf) (start uidOf) (moves ++ [x]) n ∧
      (moves ++ [x]).map (·.label) = firstDelivery m S link ⟨true, true, true, true, true, epoch⟩ p ∧
      n.log = firstDeliveryLog uidOf m S epoch p ∧ logged x = [.returned m (.send p 0) true] ∧
      (n.nodes m).joined = true ∧ (n.nodes m).substationMac = S ∧ (n.nodes m).epoch = epoch ∧
      (n.stations S).ready = true ∧ (n.stations S).epoch = epoch := by
  obtain ⟨moves, n, t, hrun, hlabels, v, hready, hepoch, -⟩ := run_firstAcceptance uidOf hm S link epoch hp
  let n' := n.nodeStep m (.heard S (ackPacket S m p).data)
  have v' : View n' m S ⟨uidOf m, true, S, epoch, .idle⟩ t (firstDeliveryLog uidOf m S epoch p) :=
    v.nodeStep (step_heard_ack hp.symm rfl rfl)
  have hlog : n.log[7]? = some (.sent (ackPacket S m p)) := by
    rw [v.log]
    rfl
  have hs : NetStep uidOf n (.nodeHears m 7) n' := .nodeHears hm ⟨hlog, .inl rfl⟩
  refine ⟨moves, _, n', hrun.snoc hs, by simp [hlabels, firstDelivery], v'.log, ?_, ?_, ?_, ?_, ?_, ?_⟩
  · simp only [logged, v.log, v'.log, firstDeliveryLog, List.drop_left]
  · rw [v'.node]
  · rw [v'.node]
  · rw [v'.node]
  · rw [v'.station, hready]
  · rw [v'.station, hepoch]

/-- So is a delivery whose first ACK is lost; its last move is the successful return of the second attempt. -/
theorem run_resentDelivery (uidOf : Mac → Uid) {m : Mac} (hm : m ≠ espNowBroadcastMac) (S : Mac)
    (link : LoRaLinkConfig) (epoch : UInt32) {p : Payload} (hp : p.uid = uidOf m) :
    ∃ moves n, Run (NetStep uidOf) (start uidOf) moves n ∧
      moves.map (·.label) = resentDelivery m S link ⟨true, true, true, true, true, epoch⟩ p ∧
      n.log = resentDeliveryLog uidOf m S epoch p := by
  obtain ⟨moves, n, t, hrun, hlabels, v, hready, rfl, hjoined⟩ := run_firstAcceptance uidOf hm S link epoch hp
  let forgotten (point : LinkPoint) : SubstationLink := ⟨uidOf m, false, S, t.epoch, point⟩
  let joined (point : LinkPoint) : SubstationLink := ⟨uidOf m, true, S, t.epoch, point⟩
  let log := resentDeliveryLog uidOf m S t.epoch p
  let n₁ := n.nodeStep m .timeout
  let n₂ := n₁.nodeStep m (.heard S (beaconPacket S t.epoch).data)
  let n₃ := n₂.nodeStep m (.result true)
  let n₄ := n₃.nodeStep m (.result true)
  let n₅ := n₄.stationStep S (.frame m (joinPacket uidOf m S t.epoch).data true)
  let n₆ := n₅.nodeStep m (.heard S (joinAckPacket uidOf S m t.epoch).data)
  let n₇ := n₆.nodeStep m (.result true)
  let n₈ := n₇.stationStep S (.frame m (readingPacket m S p).data true)
  let n₉ := n₈.nodeStep m (.heard S (ackPacket S m p).data)
  have v₁ : View n₁ m S (forgotten (.waitForBeacon (.send p 1))) t (log.take 8) := v.nodeStep rfl
  have v₂ : View n₂ m S (forgotten (.addPeer (.send p 1) S t.epoch)) t (log.take 8) :=
    v₁.nodeStep (step_heard_beacon rfl)
  have v₃ : View n₃ m S (forgotten (.sendJoin (.send p 1) S t.epoch 0)) t (log.take 8) := v₂.nodeStep rfl
  have v₄ : View n₄ m S (forgotten (.waitForJoinAck (.send p 1) S t.epoch 0)) t (log.take 9) := v₃.nodeStep rfl
  have v₅ : View n₅ m S (forgotten (.waitForJoinAck (.send p 1) S t.epoch 0)) t (log.take 10) :=
    v₄.stationStep (a := .frame m _ true) (handleFrame_join_again hjoined)
  have v₆ : View n₆ m S (joined (.sendPayload p 1)) t (log.take 10) := v₅.nodeStep (step_heard_joinAck rfl rfl)
  have v₇ : View n₇ m S (joined (.waitForDeliveryAck p 1)) t (log.take 11) := v₆.nodeStep rfl
  have v₈ : View n₈ m S (joined (.waitForDeliveryAck p 1)) t (log.take 12) :=
    v₇.stationStep (a := .frame m _ true) (handleFrame_reading_again hjoined true)
  have v₉ : View n₉ m S (joined .idle) t log := v₈.nodeStep (step_heard_ack hp.symm rfl rfl)
  have s₁ : NetStep uidOf n (.node m .timeout) n₁ := .node hm trivial
  have s₂ : NetStep uidOf n₁ (.nodeHears m 1) n₂ :=
    .nodeHears hm (v₁.heardAt (beaconPacket S t.epoch) rfl (.inr rfl))
  have s₃ : NetStep uidOf n₂ (.node m (.result true)) n₃ := .node hm trivial
  have s₄ : NetStep uidOf n₃ (.node m (.result true)) n₄ := .node hm trivial
  have s₅ : NetStep uidOf n₄ (.stationHears S 8 true) n₅ :=
    .stationHears (v₄.ready hready) (v₄.heardAt (joinPacket uidOf m S t.epoch) rfl (.inl rfl))
  have s₆ : NetStep uidOf n₅ (.nodeHears m 9) n₆ :=
    .nodeHears hm (v₅.heardAt (joinAckPacket uidOf S m t.epoch) rfl (.inl rfl))
  have s₇ : NetStep uidOf n₆ (.node m (.result true)) n₇ := .node hm trivial
  have s₈ : NetStep uidOf n₇ (.stationHears S 10 true) n₈ :=
    .stationHears (v₇.ready hready) (v₇.heardAt (readingPacket m S p) rfl (.inl rfl))
  have s₉ : NetStep uidOf n₈ (.nodeHears m 11) n₉ := .nodeHears hm (v₈.heardAt (ackPacket S m p) rfl (.inl rfl))
  have hmore := (((((((((hrun.snoc s₁).snoc s₂).snoc s₃).snoc s₄).snoc s₅).snoc s₆).snoc s₇).snoc s₈).snoc s₉)
  exact ⟨_, _, hmore, by simp [hlabels, resentDelivery], v₉.log⟩

end IotFirmware.Network
