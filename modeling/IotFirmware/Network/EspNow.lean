import IotFirmware.Links.SubstationLinkSteps
import IotFirmware.Nodes.SubstationSteps

/-! Meter nodes and substations on one ESP-NOW channel. The log keeps all that
happened in order; a packet once sent may be heard by its destination at any
later time, any number of times or never. -/
namespace IotFirmware

structure Packet where
  src : Mac
  dst : Mac
  data : List UInt8
  deriving DecidableEq, Repr

inductive NetEvent where
  | sent (pkt : Packet)
  | called (node : Mac) (p : Payload)
  | returned (node : Mac) (job : LinkJob) (ok : Bool)
  | accepted (station : Mac) (p : Payload)
  | booted (station : Mac) (epoch : Option UInt32)
  deriving DecidableEq, Repr

def LinkEffect.event (m : Mac) : LinkEffect → NetEvent
  | .called p => .called m p
  | .sent dst data => .sent ⟨m, dst, data⟩
  | .returned job ok => .returned m job ok

def Effect.event? (S : Mac) : Effect → Option NetEvent
  | .sent dst data => some (.sent ⟨S, dst, data⟩)
  | .pushed p true => some (.accepted S p)
  | _ => none

/-- A meter node's link and a substation at every MAC, and the log. -/
structure Network where
  nodes : Mac → SubstationLink
  stations : Mac → Substation
  log : List NetEvent

inductive NetAction where
  | node (m : Mac) (i : LinkInput)
  | nodeHears (m : Mac) (index : Nat)
  | nodeReboots (m : Mac)
  | station (S : Mac) (a : Substation.Action)
  | stationHears (S : Mac) (index : Nat) (peerOk : Bool)
  | stationBoots (S : Mac) (link : LoRaLinkConfig) (r : SetupResults)

namespace Network

def nodeStep (n : Network) (m : Mac) (i : LinkInput) : Network :=
  { n with
    nodes := Function.update n.nodes m ((n.nodes m).step i).1
    log := n.log ++ ((n.nodes m).step i).2.map (LinkEffect.event m) }

def stationStep (n : Network) (S : Mac) (a : Substation.Action) : Network :=
  { n with
    stations := Function.update n.stations S ((n.stations S).act a).1
    log := n.log ++ ((n.stations S).act a).2.filterMap (Effect.event? S) }

def stationBoot (n : Network) (S : Mac) (link : LoRaLinkConfig) (r : SetupResults) : Network :=
  let s := Substation.substationSetup link r
  { n with
    stations := Function.update n.stations S s
    log := n.log ++ [.booted S (if s.ready then some s.epoch else none)] }

def start (uidOf : Mac → Uid) : Network := ⟨fun m => .new (uidOf m), fun _ => .reset ⟨0, 0⟩, []⟩

/-- An input that is not a frame, with every reading carrying its sender's UID. -/
def OwnInput (uidOf : Mac → Uid) (m : Mac) : LinkInput → Prop
  | .heard _ _ => False
  | .callSend p => p.uid = uidOf m
  | _ => True

def OwnAction : Substation.Action → Prop
  | .frame _ _ _ => False
  | _ => True

def Heard (n : Network) (mac : Mac) (index : Nat) (pkt : Packet) : Prop :=
  n.log[index]? = some (.sent pkt) ∧ (pkt.dst = mac ∨ pkt.dst = espNowBroadcastMac)

/-- One step anywhere in the network. Each MAC has one UID, and no device has
the broadcast MAC. -/
inductive NetStep (uidOf : Mac → Uid) (n : Network) : NetAction → Network → Prop
  | node {m : Mac} {i : LinkInput} : m ≠ espNowBroadcastMac → OwnInput uidOf m i →
      NetStep uidOf n (.node m i) (n.nodeStep m i)
  | nodeHears {m : Mac} {index : Nat} {pkt : Packet} : m ≠ espNowBroadcastMac → n.Heard m index pkt →
      NetStep uidOf n (.nodeHears m index) (n.nodeStep m (.heard pkt.src pkt.data))
  | nodeReboots {m : Mac} :
      NetStep uidOf n (.nodeReboots m) { n with nodes := Function.update n.nodes m (.new (uidOf m)) }
  | station {S : Mac} {a : Substation.Action} : (n.stations S).ready = true → OwnAction a →
      NetStep uidOf n (.station S a) (n.stationStep S a)
  | stationHears {S : Mac} {index : Nat} {pkt : Packet} {peerOk : Bool} : (n.stations S).ready = true →
      n.Heard S index pkt →
      NetStep uidOf n (.stationHears S index peerOk) (n.stationStep S (.frame pkt.src pkt.data peerOk))
  | stationBoots {S : Mac} {link : LoRaLinkConfig} {r : SetupResults} :
      NetStep uidOf n (.stationBoots S link r) (n.stationBoot S link r)

/-- The log only grows. -/
theorem log_grows {uidOf : Mac → Uid} {n n' : Network} {a : NetAction} (h : NetStep uidOf n a n') :
    ∃ done, n'.log = n.log ++ done := by
  cases h with
  | nodeReboots => exact ⟨[], by simp⟩
  | _ => exact ⟨_, rfl⟩

def logged (x : Move Network NetAction) : List NetEvent := x.after.log.drop x.before.log.length

theorem log_of_run {uidOf : Mac → Uid} {n n' : Network} {moves : List (Move Network NetAction)}
    (hrun : Run (NetStep uidOf) n moves n') : n.log <+: n'.log := by
  refine hrun.invariant (fun _ t => n.log <+: t.log) List.prefix_rfl fun _ s a t _ hs hstep => ?_
  obtain ⟨done, hlog⟩ := log_grows hstep
  exact hs.trans ⟨done, hlog.symm⟩

section Packets
variable (uidOf : Mac → Uid)

def beaconPacket (S : Mac) (epoch : UInt32) : Packet :=
  ⟨S, espNowBroadcastMac, (linkFrameMake .beacon epoch none).toBytes⟩

def joinPacket (m S : Mac) (epoch : UInt32) : Packet :=
  ⟨m, S, (linkFrameMake .join epoch (some (uidOf m))).toBytes⟩

def joinAckPacket (S m : Mac) (epoch : UInt32) : Packet :=
  ⟨S, m, (linkFrameMake .joinAck epoch (some (uidOf m))).toBytes⟩

def readingPacket (m S : Mac) (p : Payload) : Packet := ⟨m, S, p.toBytes⟩

def ackPacket (S m : Mac) (p : Payload) : Packet := ⟨S, m, (AckPayload.mk p.uid p.seq).toBytes⟩

inductive OnAir : Packet → Prop
  | beacon {S : Mac} {epoch : UInt32} : OnAir (beaconPacket S epoch)
  | join {m S : Mac} {epoch : UInt32} : m ≠ espNowBroadcastMac → OnAir (joinPacket uidOf m S epoch)
  | joinAck {S m : Mac} {epoch : UInt32} : m ≠ espNowBroadcastMac → OnAir (joinAckPacket uidOf S m epoch)
  | reading {m S : Mac} {p : Payload} : m ≠ espNowBroadcastMac → p.uid = uidOf m → OnAir (readingPacket m S p)
  | ack {S m : Mac} {p : Payload} : m ≠ espNowBroadcastMac → p.uid = uidOf m → OnAir (ackPacket S m p)

variable {uidOf} {pkt : Packet} {frame : LinkFrame}

/-- A Join carries the UID of its sender. -/
theorem OnAir.of_join (h : OnAir uidOf pkt) (hparse : linkFrameParse pkt.data = some frame)
    (htype : frame.type = LinkFrameType.join.toByte) :
    pkt.src ≠ espNowBroadcastMac ∧ frame.uid = uidOf pkt.src := by
  cases h with
  | join hm =>
    obtain rfl := Option.some.inj ((linkFrameParse_make _ _ _).symm.trans hparse)
    exact ⟨hm, rfl⟩
  | beacon =>
    obtain rfl := Option.some.inj ((linkFrameParse_make _ _ _).symm.trans hparse)
    simp at htype
  | joinAck =>
    obtain rfl := Option.some.inj ((linkFrameParse_make _ _ _).symm.trans hparse)
    simp at htype
  | reading => simp [readingPacket] at hparse
  | ack => simp [ackPacket] at hparse

/-- A JoinAck is for its destination and carries that node's UID. -/
theorem OnAir.of_joinAck (h : OnAir uidOf pkt) (hparse : linkFrameParse pkt.data = some frame)
    (htype : frame.type = LinkFrameType.joinAck.toByte) :
    pkt.dst ≠ espNowBroadcastMac ∧ pkt = joinAckPacket uidOf pkt.src pkt.dst frame.epoch := by
  cases h with
  | joinAck hm =>
    obtain rfl := Option.some.inj ((linkFrameParse_make _ _ _).symm.trans hparse)
    exact ⟨hm, rfl⟩
  | beacon =>
    obtain rfl := Option.some.inj ((linkFrameParse_make _ _ _).symm.trans hparse)
    simp at htype
  | join =>
    obtain rfl := Option.some.inj ((linkFrameParse_make _ _ _).symm.trans hparse)
    simp at htype
  | reading => simp [readingPacket] at hparse
  | ack => simp [ackPacket] at hparse

/-- A packet of a `Payload`'s size is a reading of its sender. -/
theorem OnAir.of_reading (h : OnAir uidOf pkt) (hlen : pkt.data.length = payloadSize) :
    pkt.src ≠ espNowBroadcastMac ∧ ∃ p, p.uid = uidOf pkt.src ∧ pkt = readingPacket pkt.src pkt.dst p := by
  cases h with
  | reading hm huid => exact ⟨hm, _, huid, rfl⟩
  | beacon => simp [beaconPacket] at hlen
  | join => simp [joinPacket] at hlen
  | joinAck => simp [joinAckPacket] at hlen
  | ack => simp [ackPacket] at hlen

/-- A packet of an `AckPayload`'s size ACKs a reading of its destination. -/
theorem OnAir.of_ack (h : OnAir uidOf pkt) (hlen : pkt.data.length = ackPayloadSize) :
    pkt.dst ≠ espNowBroadcastMac ∧ ∃ p, p.uid = uidOf pkt.dst ∧ pkt = ackPacket pkt.src pkt.dst p := by
  cases h with
  | ack hm huid => exact ⟨hm, _, huid, rfl⟩
  | beacon => simp [beaconPacket] at hlen
  | join => simp [joinPacket] at hlen
  | joinAck => simp [joinAckPacket] at hlen
  | reading => simp [readingPacket] at hlen

end Packets

structure NetInv (uidOf : Mac → Uid) (n : Network) : Prop where
  node_uid : ∀ m, (n.nodes m).uid = uidOf m
  node_joined : ∀ m, (n.nodes m).point.needsJoined = true → (n.nodes m).joined = true
  node_reading : ∀ m p, (n.nodes m).point.reading = some p → .called m p ∈ n.log
  called_uid : ∀ m p, .called m p ∈ n.log → p.uid = uidOf m
  on_air : ∀ pkt, .sent pkt ∈ n.log → OnAir uidOf pkt

private theorem netInv_start (uidOf : Mac → Uid) : NetInv uidOf (start uidOf) := by
  constructor <;> simp [start, SubstationLink.new, LinkPoint.needsJoined, LinkPoint.reading]

private theorem event?_sent {S : Mac} {e : Effect} {pkt : Packet} :
    e.event? S = some (.sent pkt) ↔ ∃ dst data, e = .sent dst data ∧ ⟨S, dst, data⟩ = pkt := by
  cases e with
  | sent => simp [Effect.event?]
  | pushed _ ok => cases ok <;> simp [Effect.event?]
  | _ => simp [Effect.event?]

theorem event?_called {S m : Mac} {e : Effect} {p : Payload} : e.event? S ≠ some (.called m p) := by
  cases e with
  | pushed _ ok => cases ok <;> simp [Effect.event?]
  | _ => simp [Effect.event?]

def FromAir (uidOf : Mac → Uid) : Substation.Action → Prop
  | .frame src data _ => ∃ dst, OnAir uidOf ⟨src, dst, data⟩
  | _ => True

theorem OwnAction.fromAir {uidOf : Mac → Uid} {a : Substation.Action} (h : OwnAction a) : FromAir uidOf a := by
  cases a with
  | frame => exact h.elim
  | _ => trivial

/-- Everything a station sends is a packet of the protocol. -/
theorem act_onAir {uidOf : Mac → Uid} (s : Substation) {a : Substation.Action} (ha : FromAir uidOf a) (S : Mac)
    {dst : Mac} {data : List UInt8} (hsent : .sent dst data ∈ (s.act a).2) : OnAir uidOf ⟨S, dst, data⟩ := by
  cases a with
  | beacon now later =>
    simp only [Substation.act, Substation.beaconIfDue] at hsent
    split at hsent
    · cases hsent
    · obtain ⟨rfl, rfl⟩ : dst = _ ∧ data = _ := by simpa using hsent
      exact .beacon
  | relay poll now beginAt =>
    have h := s.relayStep_outcome poll now beginAt
    simp only [Substation.act] at hsent
    generalize s.relayStep poll now beginAt = r at h hsent
    cases h <;> simp at hsent
  | frame src buf peerOk =>
    obtain ⟨heard, hair⟩ := ha
    have hanswer {t : Substation} {frame : LinkFrame} (hparse : linkFrameParse buf = some frame)
        (htype : frame.type = LinkFrameType.join.toByte)
        (h : .sent dst data ∈ (t.answerJoin src frame.uid peerOk).2) : OnAir uidOf ⟨S, dst, data⟩ := by
      obtain ⟨hsrc, huid⟩ := hair.of_join hparse htype
      rw [huid] at h
      unfold Substation.answerJoin at h
      split at h
      · obtain ⟨rfl, rfl⟩ : dst = _ ∧ data = _ := by simpa using h
        exact .joinAck hsrc
      · cases h
    have h := s.handleFrame_outcome src buf peerOk
    simp only [Substation.act] at hsent
    generalize s.handleFrame src buf peerOk = r at h hsent
    cases h with
    | ignored => cases hsent
    | joined hparse htype => exact hanswer hparse htype hsent
    | rejoined hparse htype => exact hanswer hparse htype hsent
    | resent hlen =>
      obtain ⟨hsrc, p, huid, hpkt⟩ := hair.of_reading hlen
      obtain rfl : buf = p.toBytes := congrArg Packet.data hpkt
      obtain ⟨rfl, rfl⟩ : dst = _ ∧ data = _ := by simpa [Substation.sendDeliveryAck] using hsent
      exact .ack hsrc huid
    | refused => simp at hsent
    | accepted hlen =>
      obtain ⟨hsrc, p, huid, hpkt⟩ := hair.of_reading hlen
      obtain rfl : buf = p.toBytes := congrArg Packet.data hpkt
      obtain ⟨rfl, rfl⟩ : dst = _ ∧ data = _ := by simpa [Substation.sendDeliveryAck] using hsent
      exact .ack hsrc huid

/-- A node logs only the calls it is given. -/
theorem NetInv.logs_called {uidOf : Mac → Uid} {n : Network} (hinv : NetInv uidOf n) {m k : Mac} {i : LinkInput}
    {p : Payload} (hcalled : .called k p ∈ ((n.nodes m).step i).2.map (LinkEffect.event m)) :
    k = m ∧ i = .callSend p ∧ (n.nodes m).point = .idle := by
  obtain ⟨e, he, heq⟩ := List.mem_map.mp hcalled
  cases e <;> simp only [LinkEffect.event, reduceCtorEq, NetEvent.called.injEq] at heq
  obtain ⟨rfl, rfl⟩ := heq
  exact ⟨rfl, (SubstationLink.step_outcome (hinv.node_joined m) i).called_input he⟩

/-- A node sends only Joins and the reading it was called with. -/
theorem NetInv.logs_sent {uidOf : Mac → Uid} {n : Network} (hinv : NetInv uidOf n) {m : Mac} {i : LinkInput}
    {pkt : Packet} (hsent : .sent pkt ∈ ((n.nodes m).step i).2.map (LinkEffect.event m)) :
    (∃ S epoch, pkt = joinPacket uidOf m S epoch) ∨
      ∃ S p, pkt = readingPacket m S p ∧ (n.nodes m).point.reading = some p := by
  obtain ⟨e, he, heq⟩ := List.mem_map.mp hsent
  cases e <;> simp only [LinkEffect.event, reduceCtorEq, NetEvent.sent.injEq] at heq
  subst heq
  rcases (SubstationLink.step_outcome (hinv.node_joined m) i).sent he with ⟨epoch, rfl⟩ | ⟨p, hp, rfl⟩
  · rw [hinv.node_uid m]
    exact .inl ⟨_, epoch, rfl⟩
  · exact .inr ⟨_, p, rfl, hp⟩

theorem NetInv.nodeStep {uidOf : Mac → Uid} {n : Network} (hinv : NetInv uidOf n) {m : Mac} {i : LinkInput}
    (hm : m ≠ espNowBroadcastMac) (hi : ∀ p, i = .callSend p → p.uid = uidOf m) :
    NetInv uidOf (n.nodeStep m i) := by
  have h := SubstationLink.step_outcome (hinv.node_joined m) i
  refine ⟨?_, ?_, ?_, ?_, ?_⟩
  · intro k
    by_cases hkm : k = m
    · subst hkm
      simpa [Network.nodeStep] using h.uid_eq.trans (hinv.node_uid k)
    · simpa [Network.nodeStep, hkm] using hinv.node_uid k
  · intro k hk
    by_cases hkm : k = m
    · subst hkm
      simp only [Network.nodeStep, Function.update_self] at hk ⊢
      exact h.needsJoined (hinv.node_joined k) hk
    · simp only [Network.nodeStep, Function.update_of_ne hkm] at hk ⊢
      exact hinv.node_joined k hk
  · intro k p hp
    by_cases hkm : k = m
    · subst hkm
      simp only [Network.nodeStep, Function.update_self, List.mem_append] at hp ⊢
      rcases h.reading hp with hold | hcalled
      · exact .inl (hinv.node_reading k p hold)
      · exact .inr (List.mem_map.mpr ⟨_, hcalled, rfl⟩)
    · simp only [Network.nodeStep, Function.update_of_ne hkm, List.mem_append] at hp ⊢
      exact .inl (hinv.node_reading k p hp)
  · intro k p hp
    rcases List.mem_append.mp hp with hold | hnew
    · exact hinv.called_uid k p hold
    · obtain ⟨rfl, rfl, _⟩ := hinv.logs_called hnew
      exact hi p rfl
  · intro pkt hpkt
    rcases List.mem_append.mp hpkt with hold | hnew
    · exact hinv.on_air pkt hold
    · rcases hinv.logs_sent hnew with ⟨S, epoch, rfl⟩ | ⟨S, p, rfl, hp⟩
      · exact .join hm
      · exact .reading hm (hinv.called_uid m p (hinv.node_reading m p hp))

theorem NetInv.stationStep {uidOf : Mac → Uid} {n : Network} (hinv : NetInv uidOf n) {S : Mac}
    {a : Substation.Action} (ha : FromAir uidOf a) : NetInv uidOf (n.stationStep S a) where
  node_uid := hinv.node_uid
  node_joined := hinv.node_joined
  node_reading m p hp := List.mem_append_left _ (hinv.node_reading m p hp)
  called_uid m p hp := by
    simp only [Network.stationStep, List.mem_append, List.mem_filterMap] at hp
    rcases hp with hold | ⟨e, _, he⟩
    · exact hinv.called_uid m p hold
    · exact absurd he event?_called
  on_air pkt hpkt := by
    simp only [Network.stationStep, List.mem_append, List.mem_filterMap] at hpkt
    rcases hpkt with hold | ⟨e, he, hevent⟩
    · exact hinv.on_air pkt hold
    · obtain ⟨dst, data, rfl, rfl⟩ := event?_sent.mp hevent
      exact act_onAir _ ha S he

/-- A packet heard is on the air. -/
theorem NetInv.fromAir {uidOf : Mac → Uid} {n : Network} (hinv : NetInv uidOf n) {mac : Mac} {index : Nat}
    {pkt : Packet} (h : n.Heard mac index pkt) : OnAir uidOf pkt :=
  hinv.on_air pkt (List.mem_of_getElem? h.1)

private theorem netInv_step {uidOf : Mac → Uid} {n n' : Network} {a : NetAction} (hinv : NetInv uidOf n)
    (hs : NetStep uidOf n a n') : NetInv uidOf n' := by
  cases hs with
  | node hm hi =>
    refine hinv.nodeStep hm fun p hp => ?_
    subst hp
    exact hi
  | nodeHears hm => exact hinv.nodeStep hm (by simp)
  | @nodeReboots m =>
    refine ⟨fun k => ?_, fun k hk => ?_, fun k p hp => ?_, hinv.called_uid, hinv.on_air⟩
    all_goals by_cases hkm : k = m
    · subst hkm
      simp [SubstationLink.new]
    · simpa [hkm] using hinv.node_uid k
    · subst hkm
      simp [SubstationLink.new, LinkPoint.needsJoined] at hk
    · simp only [Function.update_of_ne hkm] at hk ⊢
      exact hinv.node_joined k hk
    · subst hkm
      simp [SubstationLink.new, LinkPoint.reading] at hp
    · exact hinv.node_reading k p (by simpa [hkm] using hp)
  | station _ ha => exact hinv.stationStep ha.fromAir
  | stationHears _ hheard => exact hinv.stationStep ⟨_, hinv.fromAir hheard⟩
  | stationBoots =>
    refine ⟨hinv.node_uid, hinv.node_joined, fun m p hp => List.mem_append_left _ (hinv.node_reading m p hp), ?_, ?_⟩
    · intro m p hp
      exact hinv.called_uid m p (by simpa [stationBoot] using hp)
    · intro pkt hpkt
      exact hinv.on_air pkt (by simpa [stationBoot] using hpkt)

theorem netInv_run {uidOf : Mac → Uid} {moves : List (Move Network NetAction)} {n : Network}
    (hrun : Run (NetStep uidOf) (start uidOf) moves n) : NetInv uidOf n :=
  hrun.invariant (fun _ => NetInv uidOf) (netInv_start uidOf) fun _ _ _ _ _ hm hs => netInv_step hm hs

end Network
end IotFirmware
