import IotFirmware.Foundation.Chronicle
import IotFirmware.Network.FirstDelivery
import IotFirmware.Network.StationBuffers

/-! Delivery soundness: a `send` that succeeds heard an ACK that its substation
sent only after it had pushed exactly that reading into its buffer. -/
namespace IotFirmware.Network
open Substation

/-- Station `S` has accepted a reading of node `m` with this seq, one the node
was called with. -/
def Accepted (log : List NetEvent) (S m : Mac) (seq : UInt32) : Prop :=
  ∃ p, .accepted S p ∈ log ∧ .called m p ∈ log ∧ p.seq = seq

theorem Accepted.append {log : List NetEvent} {S m : Mac} {seq : UInt32} (h : Accepted log S m seq)
    (done : List NetEvent) : Accepted (log ++ done) S m seq := by
  obtain ⟨p, hacc, hcalled, hseq⟩ := h
  exact ⟨p, List.mem_append_left _ hacc, List.mem_append_left _ hcalled, hseq⟩

/-- An entry that is a delivery ACK has its reading accepted before it. -/
def AckJustified (e : NetEvent) (before : List NetEvent) : Prop :=
  ∀ S m p, e = .sent (ackPacket S m p) → Accepted before S m p.seq

/-- Every delivery ACK, and every last seq a table remembers, is of an accepted
reading, and every reading on the air was given to its sender. -/
structure AckInv (n : Network) : Prop where
  acks : Chronicle.Each AckJustified n.log
  last_seq : ∀ S m node, (n.stations S).entry m = some node → node.hasSeq = true →
    Accepted n.log S m node.lastSeq
  reading_called : ∀ m S p, .sent (readingPacket m S p) ∈ n.log → .called m p ∈ n.log

private theorem ackInv_start (uidOf : Mac → Uid) : AckInv (start uidOf) := by
  refine ⟨Chronicle.each_nil, ?_, ?_⟩ <;> simp [start, reset, entry, KeyedList.lookup]

private theorem readingPacket_length {S m : Mac} {p : Payload} : (readingPacket S m p).data.length = payloadSize := by
  simp [readingPacket]

theorem readingPacket_inj {m S m' S' : Mac} {p p' : Payload} (h : readingPacket m S p = readingPacket m' S' p') :
    m = m' ∧ S = S' ∧ p = p' := by
  refine ⟨congrArg Packet.src h, congrArg Packet.dst h, ?_⟩
  have hdata := congrArg (fun pkt => Payload.ofBytes pkt.data) h
  simpa [readingPacket] using hdata

private theorem ackPacket_inj {S m S' m' : Mac} {p p' : Payload} (h : ackPacket S m p = ackPacket S' m' p') :
    S = S' ∧ m = m' ∧ p.uid = p'.uid ∧ p.seq = p'.seq := by
  have hdata := congrArg (fun pkt => AckPayload.ofBytes pkt.data) h
  simp only [ackPacket, AckPayload.ofBytes_toBytes, AckPayload.mk.injEq] at hdata
  exact ⟨congrArg Packet.src h, congrArg Packet.dst h, hdata.1, hdata.2⟩

/-- What a node logs: never an ACK, and only readings it was called with. -/
theorem AckInv.nodeStep {uidOf : Mac → Uid} {n : Network} (hinv : AckInv n) (hnet : NetInv uidOf n)
    {m : Mac} {i : LinkInput} : AckInv (n.nodeStep m i) := by
  refine ⟨hinv.acks.append fun before e after he S k p hack => ?_, fun S k node hnode hseq =>
    (hinv.last_seq S k node hnode hseq).append _, fun k S p hmem => ?_⟩
  · have hmem : e ∈ ((n.nodes m).step i).2.map (LinkEffect.event m) := by
      rw [he]
      simp
    subst hack
    rcases hnet.logs_sent hmem with ⟨_, _, hpkt⟩ | ⟨_, q, hpkt, _⟩
    all_goals
      have hlen := congrArg (·.data.length) hpkt
      simp [ackPacket, joinPacket, readingPacket] at hlen
  · rcases List.mem_append.mp hmem with hold | hnew
    · exact List.mem_append_left _ (hinv.reading_called k S p hold)
    · rcases hnet.logs_sent hnew with ⟨_, _, hpkt⟩ | ⟨_, q, hpkt, hq⟩
      · have hlen := congrArg (·.data.length) hpkt
        simp [joinPacket, readingPacket] at hlen
      · obtain ⟨rfl, _, rfl⟩ := readingPacket_inj hpkt
        exact List.mem_append_left _ (hnet.node_reading k p hq)

private theorem ackJustified_of_ne {e : NetEvent} {log : List NetEvent} (h : ∀ S m p, e ≠ .sent (ackPacket S m p)) :
    AckJustified e log :=
  fun S m p he => absurd he (h S m p)

theorem beacon_ne_ack {S T m : Mac} {epoch : UInt32} {p : Payload} : beaconPacket S epoch ≠ ackPacket T m p := by
  intro h
  have hlen := congrArg (·.data.length) h
  simp [ackPacket, beaconPacket] at hlen

private theorem joinAck_ne_ack {uidOf : Mac → Uid} {S k T m : Mac} {epoch : UInt32} {p : Payload} :
    joinAckPacket uidOf S k epoch ≠ ackPacket T m p := by
  intro h
  have hlen := congrArg (·.data.length) h
  simp [ackPacket, joinAckPacket] at hlen

/-- A station sends no reading. -/
theorem StationChange.no_reading {uidOf : Mac → Uid} {S : Mac} {s t : Substation} {a : Substation.Action}
    {done : List NetEvent} (h : StationChange uidOf S s a t done) (m T : Mac) (p : Payload) :
    .sent (readingPacket m T p) ∉ done := by
  have hsize {pkt : Packet} (hlen : pkt.data.length ≠ payloadSize) : readingPacket m T p ≠ pkt := by
    rintro rfl
    exact hlen readingPacket_length
  cases h with
  | quiet => simp
  | beacon => simp [hsize, beaconPacket]
  | joined => simp
  | joinAcked => simp [hsize, joinAckPacket]
  | resent => simp [hsize, ackPacket]
  | accepted => simp [hsize, ackPacket]

/-- A station ACKs what it has just accepted, or accepted as its last reading of
the node. -/
theorem StationChange.acks {uidOf : Mac → Uid} {S : Mac} {s t : Substation} {a : Substation.Action}
    {log done : List NetEvent} (h : StationChange uidOf S s a t done) (heach : Chronicle.Each AckJustified log)
    (hrows : ∀ m node, s.entry m = some node → node.hasSeq = true → Accepted log S m node.lastSeq)
    (hcalled : ∀ m p peerOk, a = .frame m (Payload.toBytes p) peerOk → .called m p ∈ log) :
    Chronicle.Each AckJustified (log ++ done) ∧
      ∀ m node, t.entry m = some node → node.hasSeq = true → Accepted (log ++ done) S m node.lastSeq := by
  have hkept (ht : t.entry = s.entry) (m : Mac) (node : JoinedNode) (hnode : t.entry m = some node)
      (hseq : node.hasSeq = true) : Accepted (log ++ done) S m node.lastSeq :=
    (hrows m node (ht ▸ hnode) hseq).append _
  have hupdated {m : Mac} {row : JoinedNode} (ht : t.entry = Function.update s.entry m (some row))
      (hrow : row.hasSeq = true → Accepted (log ++ done) S m row.lastSeq) (k : Mac) (node : JoinedNode)
      (hnode : t.entry k = some node) (hseq : node.hasSeq = true) : Accepted (log ++ done) S k node.lastSeq := by
    rw [ht] at hnode
    by_cases hkm : k = m
    · subst hkm
      obtain rfl : row = node := by simpa using hnode
      exact hrow hseq
    · rw [Function.update_of_ne hkm] at hnode
      exact (hrows k node hnode hseq).append _
  have hjoined {m : Mac} (hseq : ((s.entry m).getD ⟨m, uidOf m, 0, false⟩).hasSeq = true) :
      Accepted (log ++ done) S m ((s.entry m).getD ⟨m, uidOf m, 0, false⟩).lastSeq := by
    cases hrow : s.entry m with
    | none => simp [hrow] at hseq
    | some node =>
      simp only [hrow, Option.getD_some] at hseq ⊢
      exact (hrows m node hrow hseq).append _
  cases h with
  | quiet ht => exact ⟨by simpa using heach, hkept ht⟩
  | beacon ht => exact ⟨heach.snoc (ackJustified_of_ne (by simp [beacon_ne_ack])), hkept ht⟩
  | joined ht => exact ⟨by simpa using heach, hupdated ht hjoined⟩
  | joinAcked ht => exact ⟨heach.snoc (ackJustified_of_ne (by simp [joinAck_ne_ack])), hupdated ht hjoined⟩
  | @resent m p peerOk _ node hnode hseq hlast huid ht =>
    refine ⟨heach.snoc fun T k q he => ?_, hkept ht⟩
    obtain ⟨rfl, rfl, _, hq⟩ := ackPacket_inj (NetEvent.sent.inj he)
    rw [← hq, ← hlast]
    exact hrows m node hnode hseq
  | @accepted m p peerOk _ node hnode hnew huid ht =>
    have haccepted (rest : List NetEvent) : Accepted (log ++ .accepted S p :: rest) S m p.seq :=
      ⟨p, by simp, List.mem_append_left _ (hcalled m p peerOk rfl), rfl⟩
    refine ⟨?_, hupdated ht fun _ => haccepted _⟩
    rw [show log ++ [.accepted S p, .sent (ackPacket S m p)] = log ++ [.accepted S p] ++ [.sent (ackPacket S m p)]
      by simp]
    refine (heach.snoc (ackJustified_of_ne (by simp))).snoc fun T k q he => ?_
    obtain ⟨rfl, rfl, _, hq⟩ := ackPacket_inj (NetEvent.sent.inj he)
    rw [← hq]
    exact haccepted []

theorem AckInv.stationStep {uidOf : Mac → Uid} {n : Network} (hinv : AckInv n) {S : Mac}
    (htable : TableInv uidOf (n.stations S)) {a : Substation.Action} (ha : FromAir uidOf a)
    (hheard : ∀ src data peerOk, a = .frame src data peerOk → ∃ dst, .sent ⟨src, dst, data⟩ ∈ n.log) :
    AckInv (n.stationStep S a) := by
  have hcalled (m : Mac) (p : Payload) (peerOk : Bool) (he : a = .frame m p.toBytes peerOk) :
      .called m p ∈ n.log := by
    obtain ⟨dst, hmem⟩ := hheard _ _ _ he
    exact hinv.reading_called m dst p hmem
  have hchange := (station_change htable ha S).2
  obtain ⟨heach, hrows⟩ := hchange.acks hinv.acks (hinv.last_seq S) hcalled
  refine ⟨heach, ?_, ?_⟩
  · intro T m node hnode hseq
    by_cases hTS : T = S
    · subst hTS
      exact hrows m node (by simpa [Network.stationStep] using hnode) hseq
    · simp only [Network.stationStep, Function.update_of_ne hTS] at hnode
      exact (hinv.last_seq T m node hnode hseq).append _
  · intro m T p hmem
    have hold := (List.mem_append.mp hmem).resolve_right (hchange.no_reading m T p)
    exact List.mem_append_left _ (hinv.reading_called m T p hold)

theorem AckInv.stationBoot {n : Network} (hinv : AckInv n) (S : Mac) (link : LoRaLinkConfig) (r : SetupResults) :
    AckInv (n.stationBoot S link r) := by
  refine ⟨hinv.acks.snoc (ackJustified_of_ne (by simp)), ?_, ?_⟩
  · intro T m node hnode hseq
    by_cases hTS : T = S
    · subst hTS
      simp [Network.stationBoot, entry, substationSetup_joined, reset, KeyedList.lookup] at hnode
    · simp only [Network.stationBoot, Function.update_of_ne hTS] at hnode
      exact (hinv.last_seq T m node hnode hseq).append _
  · intro m T p hmem
    exact List.mem_append_left _ (hinv.reading_called m T p (by simpa [Network.stationBoot] using hmem))

theorem ackInv_step {uidOf : Mac → Uid} {n n' : Network} {a : NetAction} (hinv : AckInv n) (hnet : NetInv uidOf n)
    (htable : ∀ S, TableInv uidOf (n.stations S)) (hs : NetStep uidOf n a n') : AckInv n' := by
  cases hs with
  | node => exact hinv.nodeStep hnet
  | nodeHears => exact hinv.nodeStep hnet
  | nodeReboots => exact ⟨hinv.acks, hinv.last_seq, hinv.reading_called⟩
  | @station S a _ ha =>
    refine hinv.stationStep (htable S) ha.fromAir fun src data peerOk he => ?_
    subst he
    exact ha.elim
  | @stationHears S _ pkt peerOk _ hheard =>
    have hair : FromAir uidOf (.frame pkt.src pkt.data peerOk) := ⟨_, hnet.fromAir hheard⟩
    refine hinv.stationStep (htable S) hair fun src data ok he => ⟨pkt.dst, ?_⟩
    obtain ⟨rfl, rfl, _⟩ := Substation.Action.frame.inj he
    exact List.mem_of_getElem? hheard.1
  | stationBoots => exact hinv.stationBoot _ _ _

/-- Distinct readings of one node carry distinct seq. -/
def DistinctSeqs (log : List NetEvent) : Prop :=
  ∀ m p q, .called m p ∈ log → .called m q ∈ log → p.seq = q.seq → p = q

theorem ackInv_run {uidOf : Mac → Uid} {moves : List (Move Network NetAction)} {n : Network}
    (hrun : Run (NetStep uidOf) (start uidOf) moves n) : AckInv n :=
  hrun.invariant (fun _ => AckInv) (ackInv_start uidOf)
    fun _ _ _ _ hrun hm hs => ackInv_step hm (netInv_run hrun) (tableInv_run hrun) hs

/-- Only a node that just heard its delivery ACK logs a successful `send`. -/
theorem returned_of_step {uidOf : Mac → Uid} {n n' : Network} {a : NetAction} (hnet : NetInv uidOf n)
    (hs : NetStep uidOf n a n') {m : Mac} {p : Payload} {attempt : Nat}
    (hret : .returned m (.send p attempt) true ∈ n'.log.drop n.log.length) :
    ∃ index pkt, a = .nodeHears m index ∧ n.Heard m index pkt ∧ m ≠ espNowBroadcastMac ∧
      (n.nodes m).point = .waitForDeliveryAck p attempt ∧
      (n.nodes m).isDeliveryAck p.seq pkt.src pkt.data = true := by
  have hnode {k : Mac} {i : LinkInput}
      (hret : .returned m (.send p attempt) true ∈ (n.nodeStep k i).log.drop n.log.length) :
      k = m ∧ (n.nodes m).point = .waitForDeliveryAck p attempt ∧
        ∃ src data, i = .heard src data ∧ (n.nodes m).isDeliveryAck p.seq src data = true := by
    rw [nodeStep, List.drop_left, List.mem_map] at hret
    obtain ⟨e, he, heq⟩ := hret
    cases e <;> simp only [LinkEffect.event, reduceCtorEq, NetEvent.returned.injEq] at heq
    obtain ⟨rfl, rfl, rfl⟩ := heq
    exact ⟨rfl, (SubstationLink.step_outcome (hnet.node_joined k) i).returned he⟩
  have hstation {S : Mac} {a : Substation.Action} :
      .returned m (.send p attempt) true ∉ (n.stationStep S a).log.drop n.log.length := by
    rw [stationStep, List.drop_left, List.mem_filterMap]
    rintro ⟨e, _, he⟩
    cases e with
    | pushed _ ok => cases ok <;> simp [Effect.event?] at he
    | _ => simp [Effect.event?] at he
  cases hs with
  | node _ hi =>
    obtain ⟨_, _, src, data, rfl, _⟩ := hnode hret
    exact hi.elim
  | @nodeHears k index pkt hm hheard =>
    obtain ⟨rfl, hpoint, src, data, he, hack⟩ := hnode hret
    obtain ⟨rfl, rfl⟩ := LinkInput.heard.inj he
    exact ⟨index, pkt, rfl, hheard, hm, hpoint, hack⟩
  | nodeReboots => simp at hret
  | station => exact absurd hret hstation
  | stationHears => exact absurd hret hstation
  | stationBoots => simp [stationBoot] at hret

/-- Every entry of the log at the end of a run was logged by one of its moves, from a log that ends before it. -/
theorem exists_logged {uidOf : Mac → Uid} {moves : List (Move Network NetAction)} {n : Network}
    (hrun : Run (NetStep uidOf) (start uidOf) moves n) {j : Nat} {e : NetEvent} (he : n.log[j]? = some e) :
    ∃ front y back, moves = front ++ y :: back ∧ e ∈ logged y ∧ y.before.log.length ≤ j := by
  have hend : ¬ n.log.length ≤ j := not_le.mpr (List.getElem?_eq_some_iff.mp he).1
  rcases hrun.persists_or_ends (fun t => t.log.length ≤ j) (by simp [start]) with h | ⟨y, hy, hbefore, hafter⟩
  · exact absurd h hend
  obtain ⟨front, back, rfl⟩ := List.append_of_mem hy
  obtain ⟨more, hmore⟩ := log_of_run hrun.move.2.2
  refine ⟨front, y, back, rfl, ?_, hbefore⟩
  rw [← hmore, List.getElem?_append_left (not_le.mp hafter)] at he
  rw [logged, List.mem_iff_getElem?]
  refine ⟨j - y.before.log.length, ?_⟩
  rw [List.getElem?_drop, Nat.add_sub_cancel' hbefore, he]

/-- Everything an acceptance in the log tells of its step: the reading went into
the station's buffer and is there after it. -/
theorem pushed_of_logged {uidOf : Mac → Uid} {n n' : Network} {a : NetAction} (hs : NetStep uidOf n a n') {S : Mac}
    (hvalid : (n.stations S).buffer.Valid) {p : Payload} (hacc : .accepted S p ∈ n'.log.drop n.log.length) :
    readingBufferPush (n.stations S).buffer p = (true, (n'.stations S).buffer) ∧
      p.reading ∈ (n'.stations S).buffer.readings p.uid := by
  have hnode (m : Mac) (i : LinkInput) : .accepted S p ∉ (n.nodeStep m i).log.drop n.log.length := by
    rw [nodeStep, List.drop_left, List.mem_map]
    rintro ⟨e, _, he⟩
    cases e <;> simp [LinkEffect.event] at he
  have hstation {T : Mac} {b : Substation.Action} (hacc : .accepted S p ∈ (n.stationStep T b).log.drop n.log.length) :
      readingBufferPush (n.stations S).buffer p = (true, ((n.stationStep T b).stations S).buffer) := by
    rw [stationStep, List.drop_left, List.mem_filterMap] at hacc
    obtain ⟨e, hmem, he⟩ := hacc
    obtain ⟨rfl, rfl⟩ : T = S ∧ e = .pushed p true := by
      cases e with
      | pushed q ok => cases ok <;> simp_all [Effect.event?]
      | _ => simp [Effect.event?] at he
    simpa [stationStep] using pushed_of_act hmem
  have hpush : readingBufferPush (n.stations S).buffer p = (true, (n'.stations S).buffer) := by
    cases hs with
    | node => exact absurd hacc (hnode _ _)
    | nodeHears => exact absurd hacc (hnode _ _)
    | nodeReboots => simp at hacc
    | station => exact hstation hacc
    | stationHears => exact hstation hacc
    | stationBoots => simp [stationBoot] at hacc
  refine ⟨hpush, ?_⟩
  have hreadings := (readings_push hvalid hpush).2.2.2 rfl
  simp [hreadings]

/-- What a successful `send` has behind it: the node is joined and hears, in
move `x`, an ACK that its substation sent no earlier than in the move in which
it pushed exactly that reading into its buffer. -/
structure AcceptedBehind (front : List (Move Network NetAction)) (x : Move Network NetAction) (m S : Mac)
    (p : Payload) : Prop where
  joined : (x.before.nodes m).joined = true ∧ (x.before.nodes m).substationMac = S
  heard : ∃ before after, x.label = .nodeHears m before.length ∧
    x.before.log = before ++ .sent (ackPacket S m p) :: after ∧ .accepted S p ∈ before ∧
    ∃ y ∈ front, .accepted S p ∈ logged y ∧ y.before.log.length < before.length ∧
      readingBufferPush (y.before.stations S).buffer p = (true, (y.after.stations S).buffer) ∧
      p.reading ∈ (y.after.stations S).buffer.readings p.uid

/-- Whenever a `send` succeeds, the node was joined and had heard an ACK that
its substation sent after pushing exactly that reading into its buffer. -/
theorem send_success_accepted {uidOf : Mac → Uid} {front back : List (Move Network NetAction)} {n : Network}
    {x : Move Network NetAction} (hrun : Run (NetStep uidOf) (start uidOf) (front ++ x :: back) n)
    (hdistinct : DistinctSeqs n.log) {m : Mac} {p : Payload} {attempt : Nat}
    (hret : .returned m (.send p attempt) true ∈ logged x) :
    AcceptedBehind front x m (x.before.nodes m).substationMac p := by
  obtain ⟨hfront, hs, hback⟩ := hrun.move
  have hnet := netInv_run hfront
  have hlater : x.before.log ⊆ n.log :=
    ((log_of_run (Run.nil.snoc hs)).trans (log_of_run hback)).subset
  obtain ⟨index, pkt, hlabel, ⟨hlog, hdst⟩, hm, hpoint, hack⟩ := returned_of_step hnet hs hret
  simp only [SubstationLink.isDeliveryAck, Bool.and_eq_true, decide_eq_true_eq] at hack
  obtain ⟨⟨⟨hlen, hsrc⟩, huid⟩, hseq⟩ := hack
  have hcalled : .called m p ∈ x.before.log := hnet.node_reading m p (by simp [hpoint, LinkPoint.reading])
  -- the ACK heard is one for this node, of its UID and this seq
  obtain ⟨hnotAll, q, _, hpkt⟩ := (hnet.on_air pkt (List.mem_of_getElem? hlog)).of_ack hlen
  have hq : q.uid = p.uid ∧ q.seq = p.seq := by
    rw [hpkt] at huid hseq
    simp only [ackPacket, AckPayload.ofBytes_toBytes] at huid hseq
    exact ⟨huid.trans ((hnet.node_uid m).trans (hnet.called_uid m p hcalled).symm), hseq⟩
  have hexact : pkt = ackPacket (x.before.nodes m).substationMac m p := by
    rw [hpkt, hsrc, hdst.resolve_right hnotAll, ackPacket, ackPacket, hq.1, hq.2]
  obtain ⟨before, after, hsplit, hindex⟩ := Chronicle.split_at hlog
  obtain ⟨p', haccepted, hcalled', hseq'⟩ :=
    (ackInv_run hfront).acks before _ after hsplit _ m p (congrArg NetEvent.sent hexact)
  have hearlier : .called m p' ∈ x.before.log := by
    rw [hsplit]
    exact List.mem_append_left _ hcalled'
  obtain rfl := hdistinct m p' p (hlater hearlier) (hlater hcalled) hseq'
  -- the move that logged the acceptance, and its push
  obtain ⟨j, hj, hentry⟩ := List.getElem_of_mem haccepted
  have hlogged : x.before.log[j]? = some (.accepted (x.before.nodes m).substationMac p') := by
    rw [hsplit, List.getElem?_append_left hj, List.getElem?_eq_getElem hj, hentry]
  obtain ⟨first, y, rest, rfl, hy, hbefore⟩ := exists_logged hfront hlogged
  obtain ⟨hto, hstep, -⟩ := hfront.move
  obtain ⟨_, hrelay⟩ := relayInv_net hto (x.before.nodes m).substationMac
  have hjoined := hnet.node_joined m (by simp [hpoint, LinkPoint.needsJoined])
  exact ⟨⟨hjoined, rfl⟩, before, after, hindex ▸ hlabel, hexact ▸ hsplit, haccepted, y, by simp, hy, by omega,
    pushed_of_logged hstep hrelay.valid hy⟩

/-- The last move of a first delivery is such a success. -/
theorem send_success_firstDelivery : ∃ (front : List (Move Network NetAction)) (x : Move Network NetAction)
    (m S : Mac) (p : Payload), AcceptedBehind front x m S p := by
  let p : Payload := ⟨Vector.replicate uidLen 1, 1, 0, 0, 0, 1, 1, 1⟩
  obtain ⟨moves, x, n, hrun, _, hlog, hret, _⟩ :=
    run_firstDelivery (fun _ => p.uid) (m := Vector.replicate 6 2) (by decide) (Vector.replicate 6 3) ⟨3, 1000⟩ 7
      (p := p) rfl
  have hdistinct : DistinctSeqs n.log := by
    rw [hlog]
    intro m q q' hq hq' _
    simp [firstDeliveryLog, firstAcceptanceLog] at hq hq'
    rw [hq.2, hq'.2]
  have hmem : .returned (Vector.replicate 6 2) (.send p 0) true ∈ logged x := by rw [hret]; simp
  exact ⟨moves, x, Vector.replicate 6 2, _, p, send_success_accepted hrun hdistinct hmem⟩

end IotFirmware.Network
