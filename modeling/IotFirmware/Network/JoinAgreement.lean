import IotFirmware.Network.FirstDelivery

/-! Join agreement: while a substation stays in the epoch a node joined it in,
the node is in its joined table. The link between the two is the JoinAck. -/
namespace IotFirmware.Network
open Substation

def bootEpoch : NetEvent → Option (Mac × UInt32)
  | .booted S (some epoch) => some (S, epoch)
  | _ => none

/-- No substation picks an epoch twice. -/
def FreshEpochs (log : List NetEvent) : Prop := (log.filterMap bootEpoch).Nodup

theorem FreshEpochs.of_append {log done : List NetEvent} (h : FreshEpochs (log ++ done)) : FreshEpochs log := by
  rw [FreshEpochs, List.filterMap_append] at h
  exact h.of_append_left

/-- A JoinAck on the air was sent in an epoch its sender booted with, to a node
in the sender's table while that epoch lasts; a joined node had a JoinAck. -/
structure JoinInv (uidOf : Mac → Uid) (n : Network) : Prop where
  booted : ∀ S, (n.stations S).ready = true → .booted S (some (n.stations S).epoch) ∈ n.log
  ack_booted : ∀ S m epoch, .sent (joinAckPacket uidOf S m epoch) ∈ n.log → .booted S (some epoch) ∈ n.log
  ack_entry : ∀ S m epoch, .sent (joinAckPacket uidOf S m epoch) ∈ n.log → (n.stations S).ready = true →
    (n.stations S).epoch = epoch → ((n.stations S).entry m).isSome
  node_ack : ∀ m, (n.nodes m).joined = true →
    .sent (joinAckPacket uidOf (n.nodes m).substationMac m (n.nodes m).epoch) ∈ n.log

private theorem joinInv_start (uidOf : Mac → Uid) : JoinInv uidOf (start uidOf) := by
  refine ⟨?_, ?_, ?_, ?_⟩ <;> simp [start, reset, SubstationLink.new]

/-- JoinAcks differ from every other frame by their type and size. -/
theorem joinAck_eq_iff {uidOf : Mac → Uid} {S S' m m' : Mac} {epoch epoch' : UInt32} :
    joinAckPacket uidOf S m epoch = joinAckPacket uidOf S' m' epoch' ↔ S = S' ∧ m = m' ∧ epoch = epoch' := by
  constructor
  · intro h
    have hframe := congrArg (fun pkt => LinkFrame.ofBytes pkt.data) h
    simp only [joinAckPacket, LinkFrame.ofBytes_toBytes] at hframe
    exact ⟨congrArg Packet.src h, congrArg Packet.dst h, congrArg LinkFrame.epoch hframe⟩
  · rintro ⟨rfl, rfl, rfl⟩
    rfl

private theorem joinAck_type (uidOf : Mac → Uid) (S m : Mac) (epoch : UInt32) :
    (linkFrameParse (joinAckPacket uidOf S m epoch).data).map LinkFrame.type = some LinkFrameType.joinAck.toByte := by
  simp [joinAckPacket]

/-- A node never sends a JoinAck. -/
theorem joinAck_notMem_node {uidOf : Mac → Uid} {n : Network} (hnet : NetInv uidOf n) {i : LinkInput}
    {S m k : Mac} {epoch : UInt32} :
    .sent (joinAckPacket uidOf S k epoch) ∉ ((n.nodes m).step i).2.map (LinkEffect.event m) := by
  intro hmem
  have htype := joinAck_type uidOf S k epoch
  rcases hnet.logs_sent hmem with ⟨_, _, hpkt⟩ | ⟨_, _, hpkt, _⟩
  · simp [hpkt, joinPacket] at htype
  · simp [hpkt, readingPacket] at htype

theorem JoinInv.nodeStep {uidOf : Mac → Uid} {n : Network} (hinv : JoinInv uidOf n) (hnet : NetInv uidOf n)
    {m : Mac} {i : LinkInput} (hm : m ≠ espNowBroadcastMac)
    (hheard : ∀ src data, i = .heard src data → ∃ index dst, n.Heard m index ⟨src, dst, data⟩) :
    JoinInv uidOf (n.nodeStep m i) := by
  have h := SubstationLink.step_outcome (hnet.node_joined m) i
  have hold {S k : Mac} {epoch : UInt32} (hmem : .sent (joinAckPacket uidOf S k epoch) ∈ (n.nodeStep m i).log) :
      .sent (joinAckPacket uidOf S k epoch) ∈ n.log :=
    (List.mem_append.mp hmem).resolve_right (joinAck_notMem_node hnet)
  refine ⟨fun S hS => List.mem_append_left _ (hinv.booted S hS),
    fun S k epoch hmem => List.mem_append_left _ (hinv.ack_booted S k epoch (hold hmem)),
    fun S k epoch hmem => hinv.ack_entry S k epoch (hold hmem), fun k hk => List.mem_append_left _ ?_⟩
  by_cases hkm : k = m
  · subst hkm
    simp only [Network.nodeStep, Function.update_self] at hk ⊢
    rcases h.joined hk with ⟨hwas, hmac, hepoch⟩ | ⟨src, data, rfl, hack⟩
    · rw [hmac, hepoch]
      exact hinv.node_ack k hwas
    · obtain ⟨index, dst, hlog, hdst⟩ := hheard src data rfl
      unfold SubstationLink.isJoinAck at hack
      split at hack
      · cases hack
      · rename_i frame hparse
        simp only [Bool.and_eq_true, decide_eq_true_eq] at hack
        obtain ⟨⟨⟨htype, hsrc⟩, hepoch⟩, _⟩ := hack
        obtain ⟨hnotAll, hpkt⟩ := (hnet.on_air _ (List.mem_of_getElem? hlog)).of_joinAck hparse htype
        obtain rfl : dst = k := hdst.resolve_right hnotAll
        rw [← hsrc, ← hepoch, ← hpkt]
        exact List.mem_of_getElem? hlog
  · simp only [Network.nodeStep, Function.update_of_ne hkm] at hk ⊢
    exact hinv.node_ack k hk

/-- What a station's action logs is no boot, and a JoinAck only for a row of its
table in its epoch; it never drops a row. -/
theorem StationChange.joins {uidOf : Mac → Uid} {S : Mac} {s t : Substation} {a : Substation.Action}
    {done : List NetEvent} (h : StationChange uidOf S s a t done) :
    (∀ m, (s.entry m).isSome → (t.entry m).isSome) ∧
      ∀ T m epoch, .sent (joinAckPacket uidOf T m epoch) ∈ done → T = S ∧ epoch = s.epoch ∧ (t.entry m).isSome := by
  have hupdate {m k : Mac} {row : JoinedNode} (ht : t.entry = Function.update s.entry m (some row))
      (hk : (s.entry k).isSome) : (t.entry k).isSome := by
    rw [ht]
    by_cases hkm : k = m
    · subst hkm
      simp
    · rwa [Function.update_of_ne hkm]
  have hother {pkt : Packet} {T m : Mac} {epoch : UInt32}
      (hpkt : (linkFrameParse pkt.data).map LinkFrame.type ≠ some LinkFrameType.joinAck.toByte) :
      joinAckPacket uidOf T m epoch ≠ pkt :=
    fun he => hpkt (he ▸ joinAck_type uidOf T m epoch)
  cases h with
  | quiet ht => exact ⟨fun m hm => ht ▸ hm, by simp⟩
  | beacon ht => exact ⟨fun m hm => ht ▸ hm, by simp [hother, beaconPacket]⟩
  | joined ht => exact ⟨fun m => hupdate ht, by simp⟩
  | joinAcked ht =>
    refine ⟨fun m => hupdate ht, ?_⟩
    intro T m epoch hmem
    obtain ⟨rfl, rfl, rfl⟩ := joinAck_eq_iff.mp (by simpa using hmem)
    exact ⟨rfl, rfl, by simp [ht]⟩
  | resent _ _ _ _ ht => exact ⟨fun m hm => ht ▸ hm, by simp [hother, ackPacket]⟩
  | accepted _ _ _ ht => exact ⟨fun m => hupdate ht, by simp [hother, ackPacket]⟩

theorem JoinInv.stationStep {uidOf : Mac → Uid} {n : Network} (hinv : JoinInv uidOf n) {S : Mac}
    (htable : TableInv uidOf (n.stations S)) {a : Substation.Action} (ha : FromAir uidOf a)
    (hready : (n.stations S).ready = true) : JoinInv uidOf (n.stationStep S a) := by
  have hchange := (station_change htable ha S).2
  obtain ⟨hkept, hacks⟩ := hchange.joins
  obtain ⟨hready', hepoch⟩ := act_fixed (n.stations S) a
  refine ⟨?_, ?_, ?_, fun m hm => List.mem_append_left _ (hinv.node_ack m hm)⟩
  · intro T hT
    refine List.mem_append_left _ ?_
    by_cases hTS : T = S
    · subst hTS
      simpa [Network.stationStep, hepoch] using hinv.booted T hready
    · simp only [Network.stationStep, Function.update_of_ne hTS] at hT ⊢
      exact hinv.booted T hT
  · intro T m epoch hmem
    rcases List.mem_append.mp hmem with hold | hnew
    · exact List.mem_append_left _ (hinv.ack_booted T m epoch hold)
    · obtain ⟨rfl, rfl, _⟩ := hacks T m epoch hnew
      exact List.mem_append_left _ (hinv.booted T hready)
  · intro T m epoch hmem hT he
    by_cases hTS : T = S
    · subst hTS
      simp only [Network.stationStep, Function.update_self, hready', hepoch] at hT he ⊢
      rcases List.mem_append.mp hmem with hold | hnew
      · exact hkept m (hinv.ack_entry T m epoch hold hT he)
      · exact (hacks T m epoch hnew).2.2
    · simp only [Network.stationStep, Function.update_of_ne hTS] at hT he ⊢
      have hold := (List.mem_append.mp hmem).resolve_right fun hnew => hTS (hacks T m epoch hnew).1
      exact hinv.ack_entry T m epoch hold hT he

/-- A reboot empties the table and, as its epoch is fresh, voids every JoinAck. -/
theorem JoinInv.stationBoot {uidOf : Mac → Uid} {n : Network} (hinv : JoinInv uidOf n) {S : Mac}
    {link : LoRaLinkConfig} {r : SetupResults} (hfresh : FreshEpochs (n.stationBoot S link r).log) :
    JoinInv uidOf (n.stationBoot S link r) := by
  have hold {T m : Mac} {epoch : UInt32}
      (hmem : .sent (joinAckPacket uidOf T m epoch) ∈ (n.stationBoot S link r).log) :
      .sent (joinAckPacket uidOf T m epoch) ∈ n.log := by
    simpa [Network.stationBoot] using hmem
  refine ⟨?_, ?_, ?_, fun m hm => List.mem_append_left _ (hinv.node_ack m hm)⟩
  · intro T hT
    by_cases hTS : T = S
    · subst hTS
      simp only [Network.stationBoot, Function.update_self] at hT ⊢
      simp [hT]
    · simp only [Network.stationBoot, Function.update_of_ne hTS] at hT ⊢
      exact List.mem_append_left _ (hinv.booted T hT)
  · intro T m epoch hmem
    exact List.mem_append_left _ (hinv.ack_booted T m epoch (hold hmem))
  · intro T m epoch hmem hT he
    by_cases hTS : T = S
    · subst hTS
      simp only [Network.stationBoot, Function.update_self] at hT he
      have hbooted := hinv.ack_booted T m epoch (hold hmem)
      have hbefore : (T, epoch) ∈ n.log.filterMap bootEpoch := List.mem_filterMap.mpr ⟨_, hbooted, rfl⟩
      simp only [FreshEpochs, Network.stationBoot, hT, he, if_true, List.filterMap_append] at hfresh
      exact absurd hbefore fun hmem => (List.nodup_append.mp hfresh).2.2 _ hmem _ (by simp [bootEpoch]) rfl
    · simp only [Network.stationBoot, Function.update_of_ne hTS] at hT he ⊢
      exact hinv.ack_entry T m epoch (hold hmem) hT he

private theorem joinInv_step {uidOf : Mac → Uid} {n n' : Network} {a : NetAction} (hinv : JoinInv uidOf n)
    (hnet : NetInv uidOf n) (htable : ∀ S, TableInv uidOf (n.stations S)) (hs : NetStep uidOf n a n')
    (hfresh : FreshEpochs n'.log) : JoinInv uidOf n' := by
  cases hs with
  | @node m i hm hi =>
    refine hinv.nodeStep hnet hm fun src data he => ?_
    subst he
    exact hi.elim
  | @nodeHears m index pkt hm hheard =>
    refine hinv.nodeStep hnet hm fun src data he => ?_
    obtain ⟨rfl, rfl⟩ : pkt.src = src ∧ pkt.data = data := by simpa using he
    exact ⟨index, pkt.dst, hheard⟩
  | @nodeReboots m =>
    refine ⟨hinv.booted, hinv.ack_booted, hinv.ack_entry, ?_⟩
    intro k hk
    by_cases hkm : k = m
    · subst hkm
      simp [SubstationLink.new] at hk
    · simp only [Function.update_of_ne hkm] at hk ⊢
      exact hinv.node_ack k hk
  | @station S a hready ha => exact hinv.stationStep (htable S) ha.fromAir hready
  | @stationHears S _ _ _ hready hheard => exact hinv.stationStep (htable S) ⟨_, hnet.fromAir hheard⟩ hready
  | stationBoots => exact hinv.stationBoot hfresh

private theorem joinInv_run {uidOf : Mac → Uid} {moves : List (Move Network NetAction)} {n : Network}
    (hrun : Run (NetStep uidOf) (start uidOf) moves n) (hfresh : FreshEpochs n.log) : JoinInv uidOf n := by
  refine hrun.invariant (fun _ n => FreshEpochs n.log → JoinInv uidOf n) (fun _ => joinInv_start uidOf) ?_ hfresh
  intro moves n a n' hrun ih hs hfresh
  obtain ⟨done, hlog⟩ := log_grows hs
  exact joinInv_step (ih (hlog ▸ hfresh).of_append) (netInv_run hrun) (tableInv_run hrun) hs hfresh

/-- Nodes and substations agree on who has joined. A substation is in an epoch
once its setup succeeded. -/
structure JoinAgreement (n : Network) : Prop where
  agreed : ∀ m S, (n.nodes m).joined = true → (n.nodes m).substationMac = S → (n.stations S).ready = true →
    (n.stations S).epoch = (n.nodes m).epoch →
      ∃ node ∈ (n.stations S).joined, node.mac = m ∧ node.uid = (n.nodes m).uid
  macs_nodup : ∀ S, ((n.stations S).joined.map (·.mac)).Nodup
  count_le : ∀ S, (n.stations S).joined.length ≤ readingBufferMaxNodes

/-- In every reachable state, however frames are lost, delayed, duplicated and
reordered, a node joined in its substation's current epoch is in its table. -/
theorem join_agreement {uidOf : Mac → Uid} {moves : List (Move Network NetAction)} {n : Network}
    (hrun : Run (NetStep uidOf) (start uidOf) moves n) (hfresh : FreshEpochs n.log) : JoinAgreement n := by
  have hinv := joinInv_run hrun hfresh
  have htable := tableInv_run hrun
  refine ⟨?_, fun S => (htable S).nodup, fun S => (htable S).length_le⟩
  intro m S hjoined hS hready hepoch
  subst hS
  have hentry := hinv.ack_entry _ m _ (hinv.node_ack m hjoined) hready hepoch
  obtain ⟨node, hnode⟩ := Option.isSome_iff_exists.mp hentry
  refine ⟨node, KeyedList.mem_of_lookup hnode, KeyedList.key_of_lookup hnode, ?_⟩
  rw [(htable _).entry_uid m node hnode, (netInv_run hrun).node_uid m]

/-- Agreement at the end of a first delivery, where the node is joined. -/
theorem join_agreement_firstDelivery : ∃ n : Network, JoinAgreement n ∧ ∃ m S : Mac,
    (n.nodes m).joined = true ∧ (n.nodes m).substationMac = S ∧ (n.stations S).ready = true ∧
      (n.stations S).epoch = (n.nodes m).epoch := by
  let p : Payload := ⟨Vector.replicate uidLen 1, 1, 0, 0, 0, 1, 1, 1⟩
  obtain ⟨moves, x, n, hrun, _, hlog, _, hjoined, hmac, hepoch, hready, hstation⟩ :=
    run_firstDelivery (fun _ => p.uid) (m := Vector.replicate 6 2) (by decide) (Vector.replicate 6 3) ⟨3, 1000⟩ 7
      (p := p) rfl
  have hfresh : FreshEpochs n.log := by
    rw [hlog]
    exact List.nodup_singleton (Vector.replicate 6 3, 7)
  exact ⟨n, join_agreement hrun hfresh, _, _, hjoined, hmac, hready, hstation.trans hepoch.symm⟩

end IotFirmware.Network
