import IotFirmware.Network.JoinedTable
import IotFirmware.Nodes.SubstationCapacity
import IotFirmware.Nodes.SubstationRelay

/-! What holds of every station's buffer in every reachable state of the network. -/
namespace IotFirmware

namespace Substation
open ReadingBuffer ReadingBufferRefinement

/-- Readings are held only for UIDs of the joined table. -/
structure HeldJoined (s : Substation) : Prop where
  subset : keys s.buffer ⊆ joinedUids s

private theorem heldJoined_boot (s : Substation) (h : s.buffer = .boot) : HeldJoined s := by
  refine ⟨?_⟩
  simp [h, keys, NodeSlot.zero]

private theorem HeldJoined.of_joined {s t : Substation} (h : HeldJoined s) (hkeys : keys t.buffer ⊆ keys s.buffer)
    (hjoined : t.joined.map (·.uid) = s.joined.map (·.uid)) : HeldJoined t := by
  refine ⟨?_⟩
  rw [joinedUids, hjoined]
  exact hkeys.trans h.subset

/-- A rejoin under the same UID leaves the table as it is. -/
theorem modify_rejoin_self {s : Substation} {index : Nat} {uid : Uid} (h : (s.joinedAt index).uid = uid) :
    s.joined.modify index (rejoin · uid) = s.joined := by
  refine List.ext_getElem (by simp) fun i hi hi' => ?_
  rw [List.getElem_modify]
  split
  · subst index
    have hrow : s.joinedAt i = s.joined[i] := by simp [joinedAt, hi']
    rw [hrow] at h
    simp [rejoin, ← h]
  · rfl

/-- Among nodes that keep their UID, every action keeps what is held within the table. -/
theorem heldJoined_act {uidOf : Mac → Uid} {s : Substation} (hv : Valid s.buffer) (htable : TableInv uidOf s)
    {a : Action} (hair : Network.FromAir uidOf a) (h : HeldJoined s) : HeldJoined (s.act a).1 := by
  cases a with
  | beacon now later =>
    simp only [act]
    rw [beaconIfDue_frame]
    exact ⟨h.subset⟩
  | relay poll now beginAt =>
    refine h.of_joined ?_ (congrArg (List.map _) (Network.relayStep_joined s poll now beginAt))
    have hout := s.relayStep_outcome poll now beginAt
    simp only [act]
    generalize s.relayStep poll now beginAt = r at hout
    cases hout with
    | acked => exact keys_pop hv
    | nothingToRelay _ _ hpeek => exact (keys_peek hv hpeek).2.subset
    | relaying _ _ hpeek => exact (keys_peek hv hpeek).2.subset
    | _ => exact subset_rfl
  | frame src buf peerOk =>
    obtain ⟨dst, hair⟩ := hair
    have hout := s.handleFrame_outcome src buf peerOk
    simp only [act]
    generalize s.handleFrame src buf peerOk = r at hout
    cases hout with
    | ignored => exact h
    | joined =>
      rw [answerJoin_fst]
      refine ⟨h.subset.trans fun u hu => ?_⟩
      simp only [joinedUids, List.mem_toFinset, List.map_append, List.mem_append] at hu ⊢
      exact .inl hu
    | @rejoined frame index hparse htype _ hfind =>
      rw [answerJoin_fst]
      refine h.of_joined subset_rfl (congrArg (List.map _) (modify_rejoin_self ?_))
      rw [(hair.of_join hparse htype).2]
      exact htable.entry_uid src _ (entry_of_findJoined hfind)
    | resent => exact h
    | refused _ _ hpush =>
      have hsame := (readings_push hv hpush).2.2.1 rfl
      exact h.of_joined (by rw [hsame]) rfl
    | @accepted index buffer hlen hfind _ hpush =>
      obtain ⟨_, p, huid, hpkt⟩ := hair.of_reading hlen
      obtain rfl : buf = p.toBytes := congrArg Packet.data hpkt
      rw [Payload.ofBytes_toBytes] at hpush ⊢
      have hrow : (s.joinedAt index).uid = uidOf src := htable.entry_uid src _ (entry_of_findJoined hfind)
      have hkeys := keys_push hv hpush
      refine ⟨?_⟩
      rw [joinedUids, map_uid_modify_keepSeq, hkeys]
      exact Finset.insert_subset (by rw [huid, ← hrow]; exact joinedAt_uid_mem hfind) h.subset

end Substation

def NetAction.NoRelay (a : NetAction) : Prop := ∀ S poll now beginAt, a ≠ .station S (.relay poll now beginAt)

def NetAction.Steady : NetAction → Prop
  | .nodeReboots _ => False
  | .stationBoots _ _ _ => False
  | _ => True

namespace Network
open Substation ReadingBuffer ReadingBufferRefinement

section Runs
variable {uidOf : Mac → Uid}

/-- Every station's relay invariant holds, whatever its radio hears. -/
theorem relayInv_net {steps : List (Move Network NetAction)} {n : Network}
    (hrun : Run (NetStep uidOf) (start uidOf) steps n) (S : Mac) : ∃ done, RelayInv done (n.stations S) := by
  refine hrun.invariant (fun _ n => ∃ done, RelayInv done (n.stations S))
    ⟨[], .of_idle ReadingBuffer.valid_boot rfl⟩ fun steps n b n' _ ih hs => ?_
  obtain ⟨done, hinv⟩ := ih
  have hacted (T : Mac) (b : Substation.Action) : ∃ done, RelayInv done ((n.stationStep T b).stations S) := by
    by_cases hST : S = T
    · subst hST
      exact ⟨_, by simpa [stationStep] using relayInv_step hinv b⟩
    · exact ⟨done, by simpa [stationStep, hST] using hinv⟩
  cases hs with
  | node => exact ⟨done, hinv⟩
  | nodeHears => exact ⟨done, hinv⟩
  | nodeReboots => exact ⟨done, hinv⟩
  | station => exact hacted _ _
  | stationHears => exact hacted _ _
  | @stationBoots T link r =>
    by_cases hST : S = T
    · subst hST
      obtain ⟨hidle, hbuffer⟩ := substationSetup_idle link r
      exact ⟨[], by simpa [stationBoot] using RelayInv.of_idle (hbuffer ▸ ReadingBuffer.valid_boot) hidle⟩
    · exact ⟨done, by simpa [stationBoot, hST] using hinv⟩

/-- In every reachable state each station holds readings only for UIDs of its table. -/
theorem heldJoined_run {moves : List (Move Network NetAction)} {n : Network}
    (hrun : Run (NetStep uidOf) (start uidOf) moves n) (S : Mac) : HeldJoined (n.stations S) := by
  have hstart : HeldJoined ((start uidOf).stations S) := heldJoined_boot _ (by simp [start, reset])
  refine hrun.invariant (fun _ n => HeldJoined (n.stations S)) hstart fun steps n a n' hto ih hs => ?_
  have hacted {T : Mac} {b : Substation.Action} (hair : FromAir uidOf b) :
      HeldJoined ((n.stationStep T b).stations S) := by
    by_cases hST : S = T
    · subst hST
      obtain ⟨_, hrelay⟩ := relayInv_net hto S
      simpa [stationStep] using heldJoined_act hrelay.valid (tableInv_run hto S) hair ih
    · simpa [stationStep, hST] using ih
  cases hs with
  | node => exact ih
  | nodeHears => exact ih
  | nodeReboots => exact ih
  | station _ hown => exact hacted hown.fromAir
  | stationHears _ hheard => exact hacted ⟨_, (netInv_run hto).fromAir hheard⟩
  | @stationBoots T link r =>
    by_cases hST : S = T
    · subst hST
      simpa [stationBoot] using heldJoined_boot _ (substationSetup_idle link r).2
    · simpa [stationBoot, hST] using ih

/-- No reading of a node in the table is ever refused. -/
theorem never_refused {moves : List (Move Network NetAction)} {n : Network}
    (hrun : Run (NetStep uidOf) (start uidOf) moves n) {S m : Mac} {p : Payload} (hp : p.uid = uidOf m)
    (hfind : (n.stations S).findJoined m ≠ none) (b : ReadingBuffer) :
    readingBufferPush (n.stations S).buffer p ≠ (false, b) := by
  obtain ⟨_, hrelay⟩ := relayInv_net hrun S
  have htable := tableInv_run hrun S
  have hslots : SlotsSuffice (n.stations S) := by
    refine ⟨hrelay.valid, ?_⟩
    rw [slotUids, Finset.union_eq_left.mpr (heldJoined_run hrun S).subset]
    have hle := htable.length_le
    exact ((List.toFinset_card_le _).trans (by simp)).trans hle
  obtain ⟨index, hindex⟩ := Option.ne_none_iff_exists'.mp hfind
  exact hslots.not_refused hindex (hp.trans (htable.entry_uid m _ (entry_of_findJoined hindex)).symm)

end Runs
end Network
end IotFirmware
