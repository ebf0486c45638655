import IotFirmware.Foundation.KeyedList
import IotFirmware.Network.EspNow

/-! The joined table of a substation among nodes that each have one UID: its
invariant, and what every action does to its rows and adds to the log. -/
namespace IotFirmware

namespace Substation

def entry (s : Substation) : Mac → Option JoinedNode := KeyedList.lookup JoinedNode.mac s.joined

theorem entry_of_findJoined_none {s : Substation} {m : Mac} (h : s.findJoined m = none) : s.entry m = none :=
  KeyedList.lookup_eq_none h

theorem entry_of_findJoined {s : Substation} {m : Mac} {index : Nat} (h : s.findJoined m = some index) :
    s.entry m = some (s.joinedAt index) :=
  KeyedList.lookup_eq_getD h _

/-- No MAC twice, no more rows than node slots, and every row under its MAC's UID. -/
structure TableInv (uidOf : Mac → Uid) (s : Substation) : Prop where
  entry_uid : ∀ m node, s.entry m = some node → node.uid = uidOf m
  nodup : (s.joined.map (·.mac)).Nodup
  length_le : s.joined.length ≤ readingBufferMaxNodes

private theorem TableInv.of_joined_eq {uidOf : Mac → Uid} {s t : Substation} (hinv : TableInv uidOf s)
    (h : t.joined = s.joined) : TableInv uidOf t := by
  refine ⟨fun m node hm => hinv.entry_uid m node ?_, h ▸ hinv.nodup, h ▸ hinv.length_le⟩
  rwa [entry, h] at hm

/-- Changing the row found to one of the same MAC and UID keeps the invariant. -/
theorem TableInv.modify {uidOf : Mac → Uid} {s t : Substation} (hinv : TableInv uidOf s) {m : Mac} {index : Nat}
    (hfind : s.findJoined m = some index) {f : JoinedNode → JoinedNode} (hmac : ∀ node, (f node).mac = node.mac)
    (huid : (f (s.joinedAt index)).uid = uidOf m) (h : t.joined = s.joined.modify index f) :
    TableInv uidOf t ∧ t.entry = Function.update s.entry m (some (f (s.joinedAt index))) := by
  have hentry : t.entry = Function.update s.entry m (some (f (s.joinedAt index))) := by
    have hlookup := KeyedList.lookup_modify hmac hfind
    have hfound : KeyedList.lookup JoinedNode.mac s.joined m = _ := entry_of_findJoined hfind
    rw [← h, hfound] at hlookup
    exact hlookup
  refine ⟨⟨fun k node hk => ?_, ?_, ?_⟩, hentry⟩
  · rw [hentry] at hk
    by_cases hkm : k = m
    · subst hkm
      obtain rfl : f (s.joinedAt index) = node := by simpa using hk
      exact huid
    · rw [Function.update_of_ne hkm] at hk
      exact hinv.entry_uid k node hk
  · rw [h, KeyedList.map_key_modify hmac]
    exact hinv.nodup
  · rw [h, List.length_modify]
    exact hinv.length_le

/-- Adding a row for a MAC without one keeps the invariant while there is room. -/
theorem TableInv.append {uidOf : Mac → Uid} {s t : Substation} (hinv : TableInv uidOf s) {m : Mac}
    (hfind : s.findJoined m = none) (hroom : s.joined.length ≠ readingBufferMaxNodes) {node : JoinedNode}
    (hmac : node.mac = m) (huid : node.uid = uidOf m) (h : t.joined = s.joined ++ [node]) :
    TableInv uidOf t ∧ t.entry = Function.update s.entry m (some node) := by
  subst hmac
  have hnone := entry_of_findJoined_none hfind
  have hentry : t.entry = Function.update s.entry node.mac (some node) := by
    rw [entry, h]
    exact KeyedList.lookup_append hnone
  refine ⟨⟨fun k row hk => ?_, ?_, ?_⟩, hentry⟩
  · rw [hentry] at hk
    by_cases hkm : k = node.mac
    · subst hkm
      obtain rfl : node = row := by simpa using hk
      exact huid
    · rw [Function.update_of_ne hkm] at hk
      exact hinv.entry_uid k row hk
  · have hnew : node.mac ∉ s.joined.map (·.mac) := KeyedList.notMem_of_lookup_eq_none hnone
    rw [h, List.map_append, List.map_singleton]
    exact List.nodup_append.mpr ⟨hinv.nodup, by simp, by simpa using fun a ha he => hnew (by simpa using ⟨a, ha, he⟩)⟩
  · have hle := hinv.length_le
    rw [h, List.length_append, List.length_singleton]
    omega

end Substation

namespace Network
open Substation

/-- What an action does to the joined table, and what it adds to the log. -/
inductive StationChange (uidOf : Mac → Uid) (S : Mac) (s : Substation) :
    Substation.Action → Substation → List NetEvent → Prop
  | quiet {a : Substation.Action} {t : Substation} : t.entry = s.entry → StationChange uidOf S s a t []
  | beacon {a : Substation.Action} {t : Substation} {epoch : UInt32} : t.entry = s.entry →
      StationChange uidOf S s a t [.sent (beaconPacket S epoch)]
  | joined {m : Mac} {buf : List UInt8} {peerOk : Bool} {t : Substation} :
      t.entry = Function.update s.entry m (some ((s.entry m).getD ⟨m, uidOf m, 0, false⟩)) →
      StationChange uidOf S s (.frame m buf peerOk) t []
  | joinAcked {m : Mac} {buf : List UInt8} {peerOk : Bool} {t : Substation} :
      t.entry = Function.update s.entry m (some ((s.entry m).getD ⟨m, uidOf m, 0, false⟩)) →
      StationChange uidOf S s (.frame m buf peerOk) t [.sent (joinAckPacket uidOf S m s.epoch)]
  | resent {m : Mac} {p : Payload} {peerOk : Bool} {t : Substation} {node : JoinedNode} :
      s.entry m = some node → node.hasSeq = true → node.lastSeq = p.seq → p.uid = uidOf m → t.entry = s.entry →
      StationChange uidOf S s (.frame m p.toBytes peerOk) t [.sent (ackPacket S m p)]
  | accepted {m : Mac} {p : Payload} {peerOk : Bool} {t : Substation} {node : JoinedNode} :
      s.entry m = some node → (node.hasSeq = true → node.lastSeq ≠ p.seq) → p.uid = uidOf m →
      t.entry = Function.update s.entry m (some (keepSeq node p.seq)) →
      StationChange uidOf S s (.frame m p.toBytes peerOk) t [.accepted S p, .sent (ackPacket S m p)]

/-- A relay step adds nothing to the log. -/
theorem relayStep_log (s : Substation) (poll : RadioPoll) (now beginAt : UInt32) (S : Mac) :
    (s.relayStep poll now beginAt).2.filterMap (Effect.event? S) = [] := by
  have h := s.relayStep_outcome poll now beginAt
  generalize s.relayStep poll now beginAt = r at h
  rw [List.filterMap_eq_nil_iff]
  cases h <;> simp +contextual [or_imp, Effect.event?]

theorem relayStep_joined (s : Substation) (poll : RadioPoll) (now beginAt : UInt32) :
    (s.relayStep poll now beginAt).1.joined = s.joined := by
  have h := s.relayStep_outcome poll now beginAt
  generalize s.relayStep poll now beginAt = r at h
  cases h <;> rfl

/-- A Join answered for a table with its row in it, whether that row is new or not. -/
theorem answerJoin_change {uidOf : Mac → Uid} {S m : Mac} {s t : Substation} (htable : TableInv uidOf t)
    (hepoch : t.epoch = s.epoch)
    (hentry : t.entry = Function.update s.entry m (some ((s.entry m).getD ⟨m, uidOf m, 0, false⟩)))
    (buf : List UInt8) (peerOk : Bool) :
    TableInv uidOf (answerJoin t m (uidOf m) peerOk).1 ∧
      StationChange uidOf S s (.frame m buf peerOk) (answerJoin t m (uidOf m) peerOk).1
        ((answerJoin t m (uidOf m) peerOk).2.filterMap (Effect.event? S)) := by
  rw [answerJoin_fst]
  refine ⟨htable, ?_⟩
  unfold answerJoin
  split
  · have hsent : StationChange uidOf S s (.frame m buf peerOk) t [.sent (joinAckPacket uidOf S m s.epoch)] :=
      .joinAcked hentry
    simpa [Effect.event?, joinAckPacket, hepoch] using hsent
  · exact .joined hentry

private theorem handleFrame_change {uidOf : Mac → Uid} {s : Substation} (hinv : TableInv uidOf s) {src dst : Mac}
    {buf : List UInt8} (hair : OnAir uidOf ⟨src, dst, buf⟩) (peerOk : Bool) (S : Mac) :
    TableInv uidOf (s.handleFrame src buf peerOk).1 ∧
      StationChange uidOf S s (.frame src buf peerOk) (s.handleFrame src buf peerOk).1
        ((s.handleFrame src buf peerOk).2.filterMap (Effect.event? S)) := by
  have h := s.handleFrame_outcome src buf peerOk
  generalize s.handleFrame src buf peerOk = r at h
  cases h with
  | ignored => exact ⟨hinv, .quiet rfl⟩
  | @joined frame hparse htype hepoch hfind hroom =>
    have huid : frame.uid = uidOf src := (hair.of_join hparse htype).2
    obtain ⟨htable, hentry⟩ := hinv.append (t := { s with joined := s.joined ++ [⟨src, frame.uid, 0, false⟩] })
      hfind hroom rfl huid rfl
    rw [huid] at htable hentry ⊢
    refine answerJoin_change (s := s) htable rfl ?_ buf peerOk
    rw [hentry, entry_of_findJoined_none hfind]
    rfl
  | @rejoined frame index hparse htype hepoch hfind =>
    have huid : frame.uid = uidOf src := (hair.of_join hparse htype).2
    have hrow := entry_of_findJoined hfind
    -- the same node, so its row stays as it is
    have hrejoin : rejoin (s.joinedAt index) frame.uid = s.joinedAt index := by
      rw [huid, ← show (s.joinedAt index).uid = uidOf src from hinv.entry_uid src _ hrow]
      simp [rejoin]
    obtain ⟨htable, hentry⟩ := hinv.modify (f := (rejoin · frame.uid))
      (t := { s with joined := s.joined.modify index (rejoin · frame.uid) }) hfind (fun _ => rfl) huid rfl
    rw [hrejoin] at hentry
    rw [huid] at htable hentry ⊢
    refine answerJoin_change (s := s) htable rfl ?_ buf peerOk
    rw [hentry, hrow]
    rfl
  | @resent index hlen hfind hseq hlast =>
    obtain ⟨_, p, huid, hpkt⟩ := hair.of_reading hlen
    obtain rfl : buf = p.toBytes := congrArg Packet.data hpkt
    rw [Payload.ofBytes_toBytes] at hlast ⊢
    exact ⟨hinv, .resent (entry_of_findJoined hfind) hseq hlast huid rfl⟩
  | refused hlen hfind hpush => exact ⟨hinv.of_joined_eq rfl, .quiet rfl⟩
  | @accepted index buffer hlen hfind hseq hpush =>
    obtain ⟨_, p, huid, hpkt⟩ := hair.of_reading hlen
    obtain rfl : buf = p.toBytes := congrArg Packet.data hpkt
    rw [Payload.ofBytes_toBytes] at hseq ⊢
    have hrow := entry_of_findJoined hfind
    have hrowUid := hinv.entry_uid src _ hrow
    obtain ⟨htable, hentry⟩ := hinv.modify (f := (keepSeq · p.seq))
      (t := { s with buffer := buffer, joined := s.joined.modify index (keepSeq · p.seq) })
      hfind (fun _ => rfl) hrowUid rfl
    exact ⟨htable, .accepted hrow hseq huid hentry⟩

theorem station_change {uidOf : Mac → Uid} {s : Substation} (hinv : TableInv uidOf s) {a : Substation.Action}
    (ha : FromAir uidOf a) (S : Mac) :
    TableInv uidOf (s.act a).1 ∧
      StationChange uidOf S s a (s.act a).1 ((s.act a).2.filterMap (Effect.event? S)) := by
  have hsame {t : Substation} (h : t.joined = s.joined) :
      TableInv uidOf t ∧ t.entry = s.entry :=
    ⟨hinv.of_joined_eq h, by rw [entry, h]; rfl⟩
  cases a with
  | beacon now later =>
    refine ⟨(hsame ?_).1, ?_⟩
    · simp only [act]
      rw [beaconIfDue_frame]
    · simp only [act, beaconIfDue]
      split
      · exact .quiet rfl
      · generalize later + UInt32.ofNat beaconIntervalMs = due
        exact .beacon rfl
  | relay poll now beginAt =>
    obtain ⟨htable, hentry⟩ := hsame (relayStep_joined s poll now beginAt)
    refine ⟨htable, ?_⟩
    simp only [act, relayStep_log]
    exact .quiet hentry
  | frame src buf peerOk =>
    obtain ⟨dst, hair⟩ := ha
    exact handleFrame_change hinv hair peerOk S

private theorem tableInv_reset (uidOf : Mac → Uid) (link : LoRaLinkConfig) : TableInv uidOf (reset link) := by
  constructor <;> simp [reset, entry, KeyedList.lookup]

/-- Every boot starts with an empty table. -/
theorem substationSetup_joined (link : LoRaLinkConfig) (r : SetupResults) :
    (substationSetup link r).joined = (reset link).joined := by
  unfold substationSetup
  split <;> rfl

private theorem tableInv_step {uidOf : Mac → Uid} {n n' : Network} {a : NetAction}
    (htable : ∀ S, TableInv uidOf (n.stations S)) (hnet : NetInv uidOf n) (hs : NetStep uidOf n a n') (T : Mac) :
    TableInv uidOf (n'.stations T) := by
  have hupdate {S : Mac} {t : Substation} (ht : TableInv uidOf t) :
      TableInv uidOf (Function.update n.stations S t T) := by
    by_cases hTS : T = S
    · subst hTS
      simpa using ht
    · simpa [hTS] using htable T
  cases hs with
  | node => exact htable T
  | nodeHears => exact htable T
  | nodeReboots => exact htable T
  | @station S a _ ha => exact hupdate (station_change (htable S) ha.fromAir S).1
  | @stationHears S _ pkt peerOk _ hheard =>
    have hair : FromAir uidOf (.frame pkt.src pkt.data peerOk) := ⟨_, hnet.fromAir hheard⟩
    exact hupdate (station_change (htable S) hair S).1
  | stationBoots => exact hupdate ((tableInv_reset uidOf _).of_joined_eq (substationSetup_joined _ _))

theorem tableInv_run {uidOf : Mac → Uid} {moves : List (Move Network NetAction)} {n : Network}
    (hrun : Run (NetStep uidOf) (start uidOf) moves n) (S : Mac) : TableInv uidOf (n.stations S) := by
  refine hrun.invariant (fun _ n => ∀ S, TableInv uidOf (n.stations S)) (fun _ => tableInv_reset uidOf _) ?_ S
  intro moves n a n' hrun ih hs
  exact tableInv_step ih (netInv_run hrun) hs

end Network
end IotFirmware
