import IotFirmware.Foundation.KeyedList
import IotFirmware.Buffering.ReadingBufferRefinement
import IotFirmware.Nodes.SubstationSteps

/-! Eight joined nodes and eight node slots: the joined table is keyed by MAC and
never shrinks, the slots by UID and free up only once drained. Joins that leave
at most eight UIDs between the two never lead to a refused reading. -/
namespace IotFirmware.Substation
open ReadingBuffer ReadingBufferRefinement

def joinedUids (s : Substation) : Finset Uid := (s.joined.map (·.uid)).toFinset

/-- The UIDs that may need a node slot: those of the joined entries, and those
that still hold readings. -/
def slotUids (s : Substation) : Finset Uid := joinedUids s ∪ keys s.buffer

/-- A `Payload` from a joined MAC carries the UID that MAC last joined with. -/
def CarriesUid (s : Substation) : Action → Prop
  | .frame mac buf _ => ∀ index ∈ s.findJoined mac, buf.length = payloadSize →
      (Payload.ofBytes buf).uid = (s.joinedAt index).uid
  | _ => True

/-- A Join of the current epoch leaves at most eight UIDs that may need a node slot. -/
def JoinFits (s : Substation) : Action → Prop
  | .frame mac buf peerOk => ∀ frame ∈ linkFrameParse buf, frame.type = LinkFrameType.join.toByte →
      frame.epoch = s.epoch → (slotUids (s.handleFrame mac buf peerOk).1).card ≤ readingBufferMaxNodes
  | _ => True

/-- A reading was taken from a joined node and found no node slot. -/
def Refuses (s : Substation) (a : Action) : Prop := ∃ p, Effect.pushed p false ∈ (s.act a).2

instance (s : Substation) : DecidablePred (CarriesUid s)
  | .frame mac buf _ => inferInstanceAs (Decidable (∀ index ∈ s.findJoined mac, buf.length = payloadSize →
      (Payload.ofBytes buf).uid = (s.joinedAt index).uid))
  | .beacon _ _ => .isTrue trivial
  | .relay _ _ _ => .isTrue trivial

instance (s : Substation) : DecidablePred (JoinFits s)
  | .frame mac buf peerOk => inferInstanceAs (Decidable (∀ frame ∈ linkFrameParse buf,
      frame.type = LinkFrameType.join.toByte → frame.epoch = s.epoch →
        (slotUids (s.handleFrame mac buf peerOk).1).card ≤ readingBufferMaxNodes))
  | .beacon _ _ => .isTrue trivial
  | .relay _ _ _ => .isTrue trivial

section Keys
variable {b b' : ReadingBuffer}

private theorem keys_of_held_eq (hv : Valid b) (hv' : Valid b') (h : b'.held = b.held) : keys b' = keys b := by
  ext u
  rw [mem_keys hv, mem_keys hv', h]

theorem keys_push (hv : Valid b) {p : Payload} (h : readingBufferPush b p = (true, b')) :
    keys b' = insert p.uid (keys b) := by
  have hupdate {i : Identity} {l : List Reading} (hv' : Valid b')
      (hheld : b'.held = Function.update b.held p.uid (some (i, l))) : keys b' = insert p.uid (keys b) := by
    ext u
    rw [Finset.mem_insert, mem_keys hv, mem_keys hv', hheld]
    by_cases hu : u = p.uid
    · subst hu
      simp
    · simp [hu]
  rcases readingBufferPush_cases hv p with ⟨_, _, c, -, he, hv', hheld, -⟩ | ⟨c, -, -, he, hv', hheld, -⟩ |
    ⟨-, -, he⟩
  · obtain rfl : c = b' := congrArg Prod.snd (he.symm.trans h)
    exact hupdate hv' hheld
  · obtain rfl : c = b' := congrArg Prod.snd (he.symm.trans h)
    exact hupdate hv' hheld
  · exact absurd (congrArg Prod.fst (he.symm.trans h)) (by simp)

/-- A refused push finds eight other UIDs. -/
theorem card_keys_of_refused (hv : Valid b) {p : Payload} (h : readingBufferPush b p = (false, b')) :
    b' = b ∧ p.uid ∉ keys b ∧ (keys b).card = readingBufferMaxNodes := by
  rcases readingBufferPush_cases hv p with ⟨_, _, c, -, he, -⟩ | ⟨c, -, -, he, -⟩ | ⟨hheld, hall, he⟩
  · exact absurd (congrArg Prod.fst (he.symm.trans h)) (by simp)
  · exact absurd (congrArg Prod.fst (he.symm.trans h)) (by simp)
  · refine ⟨congrArg Prod.snd (h.symm.trans he), ?_, card_keys_full hv hall⟩
    rw [mem_keys hv, hheld]
    decide

theorem keys_peek (hv : Valid b) {out out' : Payload} {ok : Bool} (h : readingBufferPeek b out = (ok, out', b')) :
    Valid b' ∧ keys b' = keys b := by
  obtain ⟨hv', hheld⟩ := readingBufferPeek_valid hv out
  rw [h] at hv' hheld
  exact ⟨hv', keys_of_held_eq hv hv' hheld⟩

/-- A pop frees a slot or leaves the UIDs as they are. -/
theorem keys_pop (hv : Valid b) : keys (readingBufferPop b) ⊆ keys b := by
  rcases readingBufferPop_cases hv with ⟨-, he⟩ | ⟨u, r, i, l, -, hheld, hv', hheld', -⟩
  · rw [he]
  · intro u' hu'
    rw [mem_keys hv', hheld'] at hu'
    rw [mem_keys hv]
    by_cases hu : u' = u
    · subst hu
      rw [hheld]
      rfl
    · rwa [Function.update_of_ne hu] at hu'

end Keys

private theorem joinedAt_mem {s : Substation} {mac : Mac} {index : Nat} (h : s.findJoined mac = some index) :
    s.joinedAt index ∈ s.joined := by
  have hrow : KeyedList.lookup JoinedNode.mac s.joined mac = some (s.joinedAt index) :=
    KeyedList.lookup_eq_getD h _
  exact KeyedList.mem_of_lookup hrow

theorem joinedAt_uid_mem {s : Substation} {mac : Mac} {index : Nat} (h : s.findJoined mac = some index) :
    (s.joinedAt index).uid ∈ joinedUids s :=
  List.mem_toFinset.mpr (List.mem_map_of_mem (joinedAt_mem h))

/-- Counting a reading as buffered leaves the UIDs of the table alone. -/
theorem map_uid_modify_keepSeq (joined : List JoinedNode) (index : Nat) (seq : UInt32) :
    (joined.modify index (keepSeq · seq)).map (·.uid) = joined.map (·.uid) :=
  @KeyedList.map_key_modify _ _ JoinedNode.uid joined (keepSeq · seq) (fun _ => rfl) index

/-- The buffer is well formed, and the UIDs that may need a slot fit the slots. -/
structure SlotsSuffice (s : Substation) : Prop where
  valid : Valid s.buffer
  card_le : (slotUids s).card ≤ readingBufferMaxNodes

/-- A smaller set of UIDs still fits. -/
theorem SlotsSuffice.of_subset {s t : Substation} (h : SlotsSuffice s) (hv : Valid t.buffer)
    (hsub : slotUids t ⊆ slotUids s) : SlotsSuffice t :=
  ⟨hv, (Finset.card_le_card hsub).trans h.card_le⟩

/-- While the slots suffice, a reading under its MAC's UID is not refused. -/
theorem SlotsSuffice.not_refused {s : Substation} (h : SlotsSuffice s) {mac : Mac} {index : Nat}
    (hfind : s.findJoined mac = some index) {p : Payload} (huid : p.uid = (s.joinedAt index).uid)
    {b' : ReadingBuffer} : readingBufferPush s.buffer p ≠ (false, b') := by
  intro hpush
  obtain ⟨-, hnew, hfull⟩ := card_keys_of_refused h.valid hpush
  have hsub : insert p.uid (keys s.buffer) ⊆ slotUids s :=
    Finset.insert_subset (Finset.mem_union_left _ (huid ▸ joinedAt_uid_mem hfind)) Finset.subset_union_right
  have hcard := (Finset.card_le_card hsub).trans h.card_le
  rw [Finset.card_insert_of_notMem hnew, hfull] at hcard
  omega

/-- The answer to a join refuses no reading, and the slots suffice for the table as it is now. -/
theorem slotsSuffice_answerJoin {t : Substation} {mac : Mac} {uid : Uid} {peerOk : Bool} (hvalid : Valid t.buffer)
    (hcard : (slotUids (answerJoin t mac uid peerOk).1).card ≤ readingBufferMaxNodes) :
    (∀ p, Effect.pushed p false ∉ (answerJoin t mac uid peerOk).2) ∧ SlotsSuffice (answerJoin t mac uid peerOk).1 := by
  refine ⟨?_, ?_⟩
  · unfold answerJoin
    split <;> simp
  · rw [answerJoin_fst] at hcard ⊢
    exact ⟨hvalid, hcard⟩

/-- One frame: no refusal, and the slots still suffice. -/
theorem SlotsSuffice.frame {s : Substation} (h : SlotsSuffice s) (mac : Mac) (buf : List UInt8) (peerOk : Bool)
    (huid : CarriesUid s (.frame mac buf peerOk)) (hroom : JoinFits s (.frame mac buf peerOk)) :
    (∀ p, Effect.pushed p false ∉ (s.handleFrame mac buf peerOk).2) ∧
      SlotsSuffice (s.handleFrame mac buf peerOk).1 := by
  have hout := s.handleFrame_outcome mac buf peerOk
  have hjoin : ∀ frame ∈ linkFrameParse buf, frame.type = LinkFrameType.join.toByte → frame.epoch = s.epoch →
      (slotUids (s.handleFrame mac buf peerOk).1).card ≤ readingBufferMaxNodes := hroom
  generalize s.handleFrame mac buf peerOk = r at hout hjoin ⊢
  cases hout with
  | ignored => exact ⟨by simp, h⟩
  | joined hparse htype hepoch _ _ => exact slotsSuffice_answerJoin h.valid (hjoin _ hparse htype hepoch)
  | rejoined hparse htype hepoch _ => exact slotsSuffice_answerJoin h.valid (hjoin _ hparse htype hepoch)
  | resent => exact ⟨by simp [sendDeliveryAck], h⟩
  | refused hlen hfind hpush => exact absurd hpush (h.not_refused hfind (huid _ hfind hlen))
  | @accepted index buffer hlen hfind _ hpush =>
    refine ⟨by simp [sendDeliveryAck], h.of_subset (readings_push h.valid hpush).1 ?_⟩
    simp only [slotUids, joinedUids, map_uid_modify_keepSeq]
    rw [keys_push h.valid hpush, huid _ hfind hlen]
    refine Finset.union_subset Finset.subset_union_left (Finset.insert_subset ?_ Finset.subset_union_right)
    exact Finset.mem_union_left _ (joinedAt_uid_mem hfind)

/-- A relay step pushes nothing and frees slots at most. -/
theorem SlotsSuffice.relay {s : Substation} (h : SlotsSuffice s) (poll : RadioPoll) (now beginAt : UInt32) :
    (∀ p, Effect.pushed p false ∉ (s.relayStep poll now beginAt).2) ∧
      SlotsSuffice (s.relayStep poll now beginAt).1 := by
  have hout := s.relayStep_outcome poll now beginAt
  generalize s.relayStep poll now beginAt = r at hout ⊢
  cases hout with
  | pending => exact ⟨by simp, h.valid, h.card_le⟩
  | acked =>
    exact ⟨by simp, h.of_subset (readings_pop h.valid).1 (Finset.union_subset_union_right (keys_pop h.valid))⟩
  | failed => exact ⟨by simp, h.valid, h.card_le⟩
  | heldOff => exact ⟨by simp, h⟩
  | nothingToRelay _ _ hpeek =>
    obtain ⟨hv', hkeys⟩ := keys_peek h.valid hpeek
    exact ⟨by simp, h.of_subset hv' (Finset.union_subset_union_right hkeys.subset)⟩
  | relaying _ _ hpeek =>
    obtain ⟨hv', hkeys⟩ := keys_peek h.valid hpeek
    exact ⟨by simp, h.of_subset hv' (Finset.union_subset_union_right hkeys.subset)⟩

theorem SlotsSuffice.act {s : Substation} (h : SlotsSuffice s) (a : Action) (huid : CarriesUid s a)
    (hroom : JoinFits s a) : ¬ Refuses s a ∧ SlotsSuffice (s.act a).1 := by
  cases a with
  | beacon now later =>
    refine ⟨?_, ?_⟩
    · rintro ⟨p, hp⟩
      simp only [Substation.act, beaconIfDue] at hp
      split at hp <;> simp at hp
    · simp only [Substation.act]
      rw [beaconIfDue_frame]
      exact ⟨h.valid, h.card_le⟩
  | frame mac buf peerOk =>
    obtain ⟨hno, h'⟩ := h.frame mac buf peerOk huid hroom
    exact ⟨not_exists.mpr hno, h'⟩
  | relay poll now beginAt =>
    obtain ⟨hno, h'⟩ := h.relay poll now beginAt
    exact ⟨not_exists.mpr hno, h'⟩

theorem slotsSuffice_setup (link : LoRaLinkConfig) (r : SetupResults) : SlotsSuffice (substationSetup link r) := by
  have hfresh : (substationSetup link r).buffer = boot ∧ (substationSetup link r).joined = [] := by
    unfold substationSetup
    split <;> exact ⟨rfl, rfl⟩
  refine ⟨hfresh.1 ▸ valid_boot, ?_⟩
  have hkeys : keys boot = ∅ := by simp [keys, NodeSlot.zero]
  rw [slotUids, joinedUids, hfresh.1, hfresh.2, hkeys]
  decide

/-- From every boot, whatever joins, rejoins, is read and relayed in whatever
order: while each Join fits, no reading of a joined node is refused. -/
theorem joined_never_refused (link : LoRaLinkConfig) (r : SetupResults) (moves : List (Move Substation Action))
    (s : Substation) (hrun : Run ActionStep (substationSetup link r) moves s)
    (huid : ∀ m ∈ moves, CarriesUid m.before m.label) (hroom : ∀ m ∈ moves, JoinFits m.before m.label) :
    ∀ m ∈ moves, ¬ Refuses m.before m.label := by
  have hinv : (∀ m ∈ moves, CarriesUid m.before m.label) → (∀ m ∈ moves, JoinFits m.before m.label) →
      SlotsSuffice s ∧ ∀ m ∈ moves, ¬ Refuses m.before m.label := by
    refine hrun.invariant (fun moves s => (∀ m ∈ moves, CarriesUid m.before m.label) →
      (∀ m ∈ moves, JoinFits m.before m.label) → SlotsSuffice s ∧ ∀ m ∈ moves, ¬ Refuses m.before m.label) ?_ ?_
    · exact fun _ _ => ⟨slotsSuffice_setup link r, by simp⟩
    · rintro moves m a t _ ih rfl huid hroom
      rw [List.forall_mem_append, List.forall_mem_singleton] at huid hroom
      obtain ⟨h, hno⟩ := ih huid.1 hroom.1
      obtain ⟨hnot, h'⟩ := h.act a huid.2 hroom.2
      exact ⟨h', List.forall_mem_append.mpr ⟨hno, List.forall_mem_singleton.mpr hnot⟩⟩
  exact (hinv huid hroom).2

def freshSubstation : Substation := substationSetup ⟨3, 1000⟩ ⟨true, true, true, true, true, 0⟩

def firstReading (uid : Nat) : Payload := ⟨Vector.replicate uidLen (UInt8.ofNat uid), 1, 0, 0, 0, 0, 0, 0⟩

/-- One MAC joins with one UID after another, with a reading under each. -/
def rejoins (devices : Nat) : List Action :=
  (List.range devices).flatMap fun uid =>
    [.frame (Vector.replicate 6 1) (linkFrameMake .join 0 (some (firstReading uid).uid)).toBytes true,
      .frame (Vector.replicate 6 1) (firstReading uid).toBytes true]

private theorem run_rejoins (devices : Nat) : Run ActionStep freshSubstation
    (movesOf (fun s a => (s.act a).1) freshSubstation (rejoins devices))
    ((rejoins devices).foldl (fun s a => (s.act a).1) freshSubstation) :=
  run_movesOf _ _ _

/-- The ninth UID of a single joined MAC finds the slots of the other eight taken. -/
theorem ninth_uid_refused : ¬ ∀ (link : LoRaLinkConfig) (r : SetupResults) (moves : List (Move Substation Action))
    (s : Substation), Run ActionStep (substationSetup link r) moves s →
      (∀ m ∈ moves, CarriesUid m.before m.label) → ∀ m ∈ moves, ¬ Refuses m.before m.label := by
  intro hclaim
  have hno := hclaim _ _ _ _ (run_rejoins 9) (by decide +kernel)
  have hrefused : ∃ m ∈ movesOf (fun s a => (s.act a).1) freshSubstation (rejoins 9),
      Effect.pushed (firstReading 8) false ∈ (m.before.act m.label).2 := by
    decide +kernel
  obtain ⟨m, hm, hrefused⟩ := hrefused
  exact hno m hm ⟨_, hrefused⟩

/-- Eight UIDs of one joined MAC are all kept. -/
theorem joined_never_refused_rejoins :
    ¬ ∃ m ∈ movesOf (fun s a => (s.act a).1) freshSubstation (rejoins 8), Refuses m.before m.label := by
  rintro ⟨m, hm, hrefuses⟩
  exact joined_never_refused _ _ _ _ (run_rejoins 8) (by decide +kernel) (by decide +kernel) m hm hrefuses

end IotFirmware.Substation
