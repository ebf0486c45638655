import IotFirmware.Buffering.ReadingBuffer
import IotFirmware.Foundation.RoundRobin

/-! The representation invariant of the reading buffer, what the buffer holds
for each UID, and what every operation does to both. -/
namespace IotFirmware
open ReadingBuffer

namespace ReadingBuffer

/-- A slot is used exactly while it holds readings, no ring is over full, used
slots have distinct UIDs, and a peeked slot is a used one. -/
structure Valid (b : ReadingBuffer) : Prop where
  used_iff : ∀ i : SlotIndex, (b.slot i).used = true ↔ 0 < (b.slot i).ring.count
  count_le : ∀ i : SlotIndex, (b.slot i).ring.count ≤ readingsPerNode
  uid_inj : ∀ i j : SlotIndex, (b.slot i).used = true → (b.slot j).used = true →
    (b.slot i).uid = (b.slot j).uid → i = j
  peeked_used : ∀ i, b.peekedSlot = some i → (b.slot i).used = true

/-- What is held for a UID: its latest identity fields and its readings, oldest first. -/
def held (b : ReadingBuffer) (u : Uid) : Option (Identity × List Reading) :=
  ((List.finRange readingBufferMaxNodes).find? fun i =>
    (b.slot i).used && decide ((b.slot i).uid = u)).map
      fun i => ((b.slot i).identity, (b.slot i).ring.contents)

def readings (b : ReadingBuffer) (u : Uid) : List Reading := ((b.held u).map Prod.snd).getD []

theorem valid_boot : Valid boot where
  used_iff i := by simp [NodeSlot.zero]
  count_le i := by simp [NodeSlot.zero]
  uid_inj i j h := by simp [NodeSlot.zero] at h
  peeked_used i h := by simp [boot] at h

section Held
variable {b : ReadingBuffer}

theorem held_of_used (hv : Valid b) {i : SlotIndex} (hi : (b.slot i).used = true) :
    b.held (b.slot i).uid = some ((b.slot i).identity, (b.slot i).ring.contents) := by
  unfold held
  cases hf : (List.finRange readingBufferMaxNodes).find? fun j =>
      (b.slot j).used && decide ((b.slot j).uid = (b.slot i).uid) with
  | none =>
    have := List.find?_eq_none.mp hf i (List.mem_finRange i)
    simp [hi] at this
  | some j =>
    have hj := List.find?_some hf
    simp only [Bool.and_eq_true, decide_eq_true_eq] at hj
    obtain rfl := hv.uid_inj j i hj.1 hi hj.2
    rfl

theorem held_eq_none {u : Uid} (h : ∀ i : SlotIndex,
    (b.slot i).used = true → (b.slot i).uid ≠ u) : b.held u = none := by
  have : (List.finRange readingBufferMaxNodes).find? (fun i =>
      (b.slot i).used && decide ((b.slot i).uid = u)) = none := by
    apply List.find?_eq_none.mpr
    intro i _
    simpa using h i
  simp [held, this]

/-- Whatever is held sits in a used slot. -/
theorem used_of_held {u : Uid} {e : Identity × List Reading} (h : b.held u = some e) :
    ∃ i : SlotIndex, (b.slot i).used = true ∧ (b.slot i).uid = u ∧
      e = ((b.slot i).identity, (b.slot i).ring.contents) := by
  obtain ⟨i, hi, rfl⟩ := Option.map_eq_some_iff.mp h
  have := List.find?_some hi
  simp only [Bool.and_eq_true, decide_eq_true_eq] at this
  exact ⟨i, this.1, this.2, rfl⟩

theorem contents_eq_cons (hv : Valid b) {i : SlotIndex} (hi : (b.slot i).used = true) :
    (b.slot i).ring.contents = (b.slot i).ring.oldest :: (b.slot i).ring.contents.tail :=
  (b.slot i).ring.contents_eq_cons ((hv.used_iff i).mp hi)

theorem readings_of_held {u : Uid} {i : Identity} {l : List Reading} (h : b.held u = some (i, l)) :
    b.readings u = l := by
  simp [readings, h]

theorem readings_of_not_held {u : Uid} (h : b.held u = none) : b.readings u = [] := by
  simp [readings, h]

end Held

/-- Writing one slot changes what is held for its UID only, provided no other
slot has that UID. -/
theorem held_setSlot {b : ReadingBuffer} (hv : Valid b) {i : SlotIndex} {slot : NodeSlot}
    (hv' : Valid (b.setSlot i slot))
    (hold : (b.slot i).used = true → (b.slot i).uid = slot.uid)
    (hother : ∀ j : SlotIndex, j ≠ i → (b.slot j).used = true → (b.slot j).uid ≠ slot.uid) :
    (b.setSlot i slot).held = Function.update b.held slot.uid
      (if slot.used = true then some (slot.identity, slot.ring.contents) else none) := by
  funext u
  by_cases hu : u = slot.uid
  · subst hu
    rw [Function.update_self]
    split
    · rename_i hused
      have := held_of_used (i := i) hv' (by simpa using hused)
      simpa using this
    · rename_i hfree
      apply held_eq_none
      intro j hj
      by_cases hji : j = i
      · subst hji
        simp at hj
        exact absurd hj hfree
      · rw [slot_setSlot_ne _ _ hji] at hj ⊢
        exact hother j hji hj
  · rw [Function.update_of_ne hu]
    by_cases hex : ∃ j : SlotIndex, (b.slot j).used = true ∧ (b.slot j).uid = u
    · obtain ⟨j, hj, rfl⟩ := hex
      have hji : j ≠ i := by
        rintro rfl
        exact hu (hold hj)
      have h' := held_of_used (i := j) hv' (by rw [slot_setSlot_ne _ _ hji]; exact hj)
      rw [slot_setSlot_ne _ _ hji] at h'
      rw [h', held_of_used hv hj]
    · push Not at hex
      rw [held_eq_none hex]
      apply held_eq_none
      intro j hj
      by_cases hji : j = i
      · subst hji
        simpa using fun he : slot.uid = u => hu he.symm
      · rw [slot_setSlot_ne _ _ hji] at hj ⊢
        exact hex j hj

/-- Writing one slot keeps the invariant when the slot itself respects it. -/
theorem Valid.setSlot {b : ReadingBuffer} (hv : Valid b) {i : SlotIndex} {slot : NodeSlot}
    (hused : slot.used = true ↔ 0 < slot.ring.count) (hle : slot.ring.count ≤ readingsPerNode)
    (hother : slot.used = true → ∀ j : SlotIndex, j ≠ i → (b.slot j).used = true →
      (b.slot j).uid ≠ slot.uid)
    (hpeeked : b.peekedSlot = some i → slot.used = true) : Valid (b.setSlot i slot) where
  used_iff j := by
    by_cases hji : j = i
    · subst hji
      simpa using hused
    · rw [slot_setSlot_ne _ _ hji]
      exact hv.used_iff j
  count_le j := by
    by_cases hji : j = i
    · subst hji
      simpa using hle
    · rw [slot_setSlot_ne _ _ hji]
      exact hv.count_le j
  uid_inj j k hj hk he := by
    by_cases hji : j = i <;> by_cases hki : k = i
    · exact hji.trans hki.symm
    · subst hji
      rw [slot_setSlot_self] at hj he
      rw [slot_setSlot_ne _ _ hki] at hk he
      exact absurd he.symm (hother hj k hki hk)
    · subst hki
      rw [slot_setSlot_self] at hk he
      rw [slot_setSlot_ne _ _ hji] at hj he
      exact absurd he (hother hk j hji hj)
    · rw [slot_setSlot_ne _ _ hji] at hj he
      rw [slot_setSlot_ne _ _ hki] at hk he
      exact hv.uid_inj j k hj hk he
  peeked_used j hj := by
    rw [setSlot_peekedSlot] at hj
    by_cases hji : j = i
    · subst hji
      simpa using hpeeked hj
    · rw [slot_setSlot_ne _ _ hji]
      exact hv.peeked_used j hj

/-- The UID and reading a pop would remove. -/
def peeked (b : ReadingBuffer) : Option (Uid × Reading) :=
  b.peekedSlot.map fun i => ((b.slot i).uid, (b.slot i).ring.oldest)

/-- The peeked reading is the oldest one held for its UID. -/
theorem held_of_peeked {b : ReadingBuffer} (hv : Valid b) {u : Uid} {r : Reading}
    (h : b.peeked = some (u, r)) : ∃ i l, b.held u = some (i, r :: l) := by
  obtain ⟨i, hi, he⟩ := Option.map_eq_some_iff.mp h
  obtain ⟨rfl, rfl⟩ := Prod.mk.inj he
  have hused := hv.peeked_used i hi
  exact ⟨_, _, by rw [held_of_used hv hused, ← contents_eq_cons hv hused]⟩

end ReadingBuffer

/-- The search loop returns the first used slot of the UID, or else the first free one. -/
theorem findSlotLoop_eq (b : ReadingBuffer) (uid : Uid) (l : List SlotIndex) (freeSlot : Option SlotIndex) :
    findSlotLoop b uid l freeSlot =
      match l.find? fun i => (b.slot i).used && decide ((b.slot i).uid = uid) with
      | some i => .inl i
      | none => .inr (freeSlot.or (l.find? fun i => !(b.slot i).used)) := by
  induction l generalizing freeSlot with
  | nil => simp [findSlotLoop]
  | cons j rest ih =>
    rw [findSlotLoop]
    by_cases hmatch : (b.slot j).used = true ∧ (b.slot j).uid = uid
    · rw [if_pos hmatch, List.find?_cons_of_pos (by simpa using hmatch)]
    · rw [if_neg hmatch, List.find?_cons_of_neg (by simpa using hmatch), ih, ih]
      cases hused : (b.slot j).used <;> cases freeSlot <;> simp [hused]

/-- A known UID finds its own slot, a new one claims a free slot, and only a
new UID facing eight used slots finds none. -/
theorem findOrClaimSlot_cases (b : ReadingBuffer) (uid : Uid) :
    (∃ i, (b.slot i).used = true ∧ (b.slot i).uid = uid ∧ findOrClaimSlot b uid = (some i, b)) ∨
    (b.held uid = none ∧ (∀ i, (b.slot i).used = true → (b.slot i).uid ≠ uid) ∧
      ((∃ i, (b.slot i).used = false ∧ findOrClaimSlot b uid =
          (some i, b.setSlot i { NodeSlot.zero with used := true, uid := uid })) ∨
        ((∀ i, (b.slot i).used = true) ∧ findOrClaimSlot b uid = (none, b)))) := by
  unfold findOrClaimSlot
  rw [findSlotLoop_eq]
  cases hmatch : (List.finRange readingBufferMaxNodes).find? fun i =>
      (b.slot i).used && decide ((b.slot i).uid = uid) with
  | some i =>
    have hi := List.find?_some hmatch
    simp only [Bool.and_eq_true, decide_eq_true_eq] at hi
    exact .inl ⟨i, hi.1, hi.2, rfl⟩
  | none =>
    have hno : ∀ i, (b.slot i).used = true → (b.slot i).uid ≠ uid := by
      intro i
      simpa using List.find?_eq_none.mp hmatch i (List.mem_finRange i)
    refine .inr ⟨held_eq_none hno, hno, ?_⟩
    simp only [Option.none_or]
    cases hfree : (List.finRange readingBufferMaxNodes).find? fun i => !(b.slot i).used with
    | some i => exact .inl ⟨i, by simpa using List.find?_some hfree, rfl⟩
    | none =>
      refine .inr ⟨fun i => ?_, rfl⟩
      simpa using List.find?_eq_none.mp hfree i (List.mem_finRange i)

namespace ReadingBuffer

private theorem setSlot_setSlot (b : ReadingBuffer) (i : SlotIndex) (s s' : NodeSlot) :
    (b.setSlot i s).setSlot i s' = b.setSlot i s' := by
  simp [setSlot]

/-- Which slot is peeked matters to the invariant only through its being used. -/
theorem Valid.setPeeked {b : ReadingBuffer} (hv : Valid b) {j : Option SlotIndex}
    (hj : ∀ i, j = some i → (b.slot i).used = true) : Valid { b with peekedSlot := j } where
  used_iff := hv.used_iff
  count_le := hv.count_le
  uid_inj := hv.uid_inj
  peeked_used := hj

end ReadingBuffer

namespace NodeSlot
variable {slot : NodeSlot}

private theorem store_count_pos (p : Payload) : 0 < (slot.store p).ring.count := by
  simp only [store, Ring.count_push]
  split
  · decide
  · omega

private theorem store_count_le (p : Payload) (h : slot.ring.count ≤ readingsPerNode) :
    (slot.store p).ring.count ≤ readingsPerNode := by
  simp only [store, Ring.count_push]
  split <;> omega

/-- A push that does not overwrite leaves the slot's oldest reading in place. -/
theorem store_oldest (p : Payload) (h : 0 < slot.ring.count) (hroom : slot.ring.count < readingsPerNode) :
    (slot.store p).ring.oldest = slot.ring.oldest := by
  simp only [store, Ring.push, if_neg hroom.ne, Ring.oldest_append _ _ h hroom]

end NodeSlot

/-- Filing a reading in its UID's own slot. -/
theorem fileReading_known {b : ReadingBuffer} (hv : Valid b) {i : SlotIndex} (p : Payload)
    (hi : (b.slot i).used = true) (hu : (b.slot i).uid = p.uid) :
    Valid (fileReading b i p) ∧
      (fileReading b i p).held = Function.update b.held p.uid (some (p.identity,
        (if (b.slot i).ring.contents.length = readingsPerNode then (b.slot i).ring.contents.tail
          else (b.slot i).ring.contents) ++ [p.reading])) ∧
      (fileReading b i p).peeked =
        (if (b.slot i).ring.contents.length = readingsPerNode ∧ b.peeked.map Prod.fst = some p.uid then none
          else b.peeked) := by
  have hcount := (hv.used_iff i).mp hi
  have hle := hv.count_le i
  have hother : ∀ j, j ≠ i → (b.slot j).used = true → (b.slot j).uid ≠ (b.slot i).uid :=
    fun j hji hj he => hji (hv.uid_inj j i hj hi he)
  have hv' : Valid (b.setSlot i ((b.slot i).store p)) :=
    hv.setSlot ⟨fun _ => NodeSlot.store_count_pos p, fun _ => hi⟩ (NodeSlot.store_count_le p hle)
      (fun _ => hother) fun _ => hi
  refine ⟨hv'.setPeeked ?_, ?_, ?_⟩
  · intro j hj
    refine hv'.peeked_used j ?_
    split at hj
    · cases hj
    · exact hj
  · refine (held_setSlot hv hv' (fun _ => rfl) hother).trans ?_
    simp [NodeSlot.store, hi, hu, Ring.contents_push _ _ hle]
  · simp only [Ring.contents_length, peeked, peekedSlot_fileReading]
    cases hpeek : b.peekedSlot with
    | none => simp
    | some j =>
      by_cases hji : j = i
      · subst hji
        by_cases hfull : (b.slot j).ring.count = readingsPerNode
        · simp [hfull, hu]
        · have hold := NodeSlot.store_oldest p hcount (by omega)
          simp [hfull, hold]
      · have hne := hother j hji (hv.peeked_used j hpeek)
        rw [hu] at hne
        simp [hji, hne, slot_fileReading_ne b p hji]

/-- Filing the first reading of a new UID in the free slot just claimed. -/
theorem fileReading_claimed {b : ReadingBuffer} (hv : Valid b) {i : SlotIndex} (p : Payload)
    (hi : (b.slot i).used = false) (hno : ∀ j, (b.slot j).used = true → (b.slot j).uid ≠ p.uid) :
    let b' := fileReading (b.setSlot i { NodeSlot.zero with used := true, uid := p.uid }) i p
    Valid b' ∧ b'.held = Function.update b.held p.uid (some (p.identity, [p.reading])) ∧
      b'.peeked = b.peeked := by
  intro b'
  let fresh : NodeSlot := { NodeSlot.zero with used := true, uid := p.uid }
  have hnotPeeked : b.peekedSlot ≠ some i := by
    intro h
    simp [hv.peeked_used i h] at hi
  have hv' : Valid (b.setSlot i (fresh.store p)) :=
    hv.setSlot ⟨fun _ => NodeSlot.store_count_pos p, fun _ => rfl⟩
      (NodeSlot.store_count_le p (by simp [fresh, NodeSlot.zero])) (fun _ j _ => hno j)
      fun h => absurd h hnotPeeked
  have hb' : b' = b.setSlot i (fresh.store p) := by
    simp only [b', fileReading, slot_setSlot_self, setSlot_setSlot, setSlot_peekedSlot]
    simp [hnotPeeked, setSlot, fresh]
  have hcontents : (fresh.store p).ring.contents = [p.reading] := by
    have hempty : fresh.ring.contents = [] := (Ring.contents_eq_nil_iff _).mpr rfl
    rw [NodeSlot.store, Ring.contents_push _ _ (by simp [fresh, NodeSlot.zero]), hempty]
    simp
  refine ⟨hb' ▸ hv', ?_, ?_⟩
  · rw [hb', held_setSlot hv hv' (by simp [hi]) fun j _ => hno j]
    simp [NodeSlot.store, fresh] at hcontents ⊢
    simp [hcontents]
  · rw [hb', peeked, peeked, setSlot_peekedSlot]
    cases hpeek : b.peekedSlot with
    | none => rfl
    | some j =>
      have hji : j ≠ i := fun h => hnotPeeked (h ▸ hpeek)
      simp [slot_setSlot_ne b _ hji]

/-- What a push into a valid buffer does: append to a known UID, dropping its
oldest reading exactly when it held 288; file a new UID in a free slot; or,
with eight other UIDs held, change nothing. -/
theorem readingBufferPush_cases {b : ReadingBuffer} (hv : Valid b) (p : Payload) :
    (∃ i l b', b.held p.uid = some (i, l) ∧ readingBufferPush b p = (true, b') ∧ Valid b' ∧
      b'.held = Function.update b.held p.uid (some (p.identity,
        (if l.length = readingsPerNode then l.tail else l) ++ [p.reading])) ∧
      b'.peeked = (if l.length = readingsPerNode ∧ b.peeked.map Prod.fst = some p.uid then none
        else b.peeked) ∧ b'.nextSlot = b.nextSlot) ∨
    (∃ b', b.held p.uid = none ∧ (∃ i, (b.slot i).used = false) ∧ readingBufferPush b p = (true, b') ∧
      Valid b' ∧ b'.held = Function.update b.held p.uid (some (p.identity, [p.reading])) ∧
      b'.peeked = b.peeked ∧ b'.nextSlot = b.nextSlot) ∨
    (b.held p.uid = none ∧ (∀ i, (b.slot i).used = true) ∧ readingBufferPush b p = (false, b)) := by
  rcases findOrClaimSlot_cases b p.uid with ⟨i, hi, hu, hf⟩ | ⟨hnone, hno, ⟨i, hi, hf⟩ | ⟨hall, hf⟩⟩
  · obtain ⟨hv', hheld, hpeeked⟩ := fileReading_known hv p hi hu
    exact .inl ⟨_, _, _, hu ▸ held_of_used hv hi, by rw [readingBufferPush, hf], hv', hheld, hpeeked, rfl⟩
  · obtain ⟨hv', hheld, hpeeked⟩ := fileReading_claimed hv p hi hno
    exact .inr (.inl ⟨_, hnone, ⟨i, hi⟩, by rw [readingBufferPush, hf], hv', hheld, hpeeked, rfl⟩)
  · exact .inr (.inr ⟨hnone, hall, by simp [readingBufferPush, hf]⟩)

/-- A successful peek serves a used slot; a failed one leaves its output
untouched and only happens when nothing is held. -/
theorem readingBufferPeek_cases {b : ReadingBuffer} (hv : Valid b) (out : Payload) :
    (∃ i, (b.slot i).used = true ∧
      readingBufferPeek b out = (true, (b.slot i).payload, { b with peekedSlot := some i })) ∨
    ((∀ i, (b.slot i).used = false) ∧
      readingBufferPeek b out = (false, out, { b with peekedSlot := none })) := by
  unfold readingBufferPeek
  cases hf : ((List.finRange readingBufferMaxNodes).map (b.nextSlot + ·)).find?
      fun i => (b.slot i).used && (b.slot i).ring.count != 0 with
  | some i =>
    have hi := List.find?_some hf
    simp only [Bool.and_eq_true] at hi
    exact .inl ⟨i, hi.1, rfl⟩
  | none =>
    refine .inr ⟨fun i => ?_, rfl⟩
    -- the rotation starting at `nextSlot` visits every slot
    have hi := List.find?_eq_none.mp hf i (RoundRobin.mem_turn b.nextSlot i)
    by_contra hused
    have hused : (b.slot i).used = true := by simpa using hused
    have := (hv.used_iff i).mp hused
    simp [hused] at hi
    omega

/-- A peek keeps the invariant and changes nothing that is held. -/
theorem readingBufferPeek_valid {b : ReadingBuffer} (hv : Valid b) (out : Payload) :
    Valid (readingBufferPeek b out).2.2 ∧ (readingBufferPeek b out).2.2.held = b.held := by
  rcases readingBufferPeek_cases hv out with ⟨i, hi, he⟩ | ⟨_, he⟩
  · rw [he]
    exact ⟨hv.setPeeked fun j hj => Option.some.inj hj ▸ hi, rfl⟩
  · rw [he]
    exact ⟨hv.setPeeked (by simp), rfl⟩

def NodeSlot.popped (slot : NodeSlot) : NodeSlot :=
  { slot with ring := slot.ring.dropOldest, used := decide (slot.ring.count ≠ 1) && slot.used }

/-- A pop without a pending peek does nothing; one with a pending peek removes
the peeked slot's oldest reading, and frees the slot with its last one. -/
theorem readingBufferPop_eq {b : ReadingBuffer} (hv : Valid b) :
    readingBufferPop b = match b.peekedSlot with
      | none => b
      | some i => { b.setSlot i (b.slot i).popped with nextSlot := i + 1, peekedSlot := none } := by
  unfold readingBufferPop
  cases hpeek : b.peekedSlot with
  | none => rfl
  | some i =>
    have hcount := (hv.used_iff i).mp (hv.peeked_used i hpeek)
    by_cases hone : (b.slot i).ring.count = 1
    · simp [hone, NodeSlot.popped]
    · have : (b.slot i).ring.count - 1 ≠ 0 := by omega
      simp [hone, hcount, this, NodeSlot.popped]

/-- What a pop of a valid buffer does: nothing without a pending peek, else
remove exactly the peeked reading. -/
theorem readingBufferPop_cases {b : ReadingBuffer} (hv : Valid b) :
    (b.peeked = none ∧ readingBufferPop b = b) ∨
    (∃ u r i l, b.peeked = some (u, r) ∧ b.held u = some (i, r :: l) ∧ Valid (readingBufferPop b) ∧
      (readingBufferPop b).held = Function.update b.held u (if l = [] then none else some (i, l)) ∧
      (readingBufferPop b).peeked = none) := by
  rw [readingBufferPop_eq hv]
  cases hpeek : b.peekedSlot with
  | none => exact .inl ⟨by simp [peeked, hpeek], rfl⟩
  | some i =>
    have hi := hv.peeked_used i hpeek
    have hcount := (hv.used_iff i).mp hi
    have hle := hv.count_le i
    have hother : ∀ j, j ≠ i → (b.slot j).used = true → (b.slot j).uid ≠ (b.slot i).uid :=
      fun j hji hj he => hji (hv.uid_inj j i hj hi he)
    -- the invariant is restored only once the pending peek is gone
    let c : ReadingBuffer := { b with nextSlot := i + 1, peekedSlot := none }
    have hc : Valid c := ⟨hv.used_iff, hv.count_le, hv.uid_inj, fun j hj => by cases hj⟩
    have hv' : Valid (c.setSlot i (b.slot i).popped) := by
      refine hc.setSlot ?_ ?_ (fun _ => hother) fun hj => by cases hj
      · simp only [NodeSlot.popped, hi, Ring.count_dropOldest, Bool.and_true, decide_eq_true_eq]
        omega
      · simp only [NodeSlot.popped, Ring.count_dropOldest]
        omega
    refine .inr ⟨(b.slot i).uid, (b.slot i).ring.oldest, (b.slot i).identity, (b.slot i).ring.contents.tail,
      by simp [peeked, hpeek], by rw [held_of_used hv hi, ← contents_eq_cons hv hi], hv', ?_, rfl⟩
    refine (held_setSlot hc hv' (fun _ => rfl) hother).trans ?_
    have hnil : (b.slot i).ring.contents.tail = [] ↔ (b.slot i).ring.count = 1 := by
      rw [← List.length_eq_zero_iff, List.length_tail, Ring.contents_length]
      omega
    have hused : (b.slot i).popped.used = true ↔ ¬ (b.slot i).ring.contents.tail = [] := by
      simp [NodeSlot.popped, hi, hnil]
    simp only [NodeSlot.popped] at hused ⊢
    simp only [hused, Ring.contents_dropOldest, ite_not]
    rfl

/-- What a push does to the readings: an accepted one adds its reading behind
those of its UID, over the oldest of a full ring; a refused one changes nothing. -/
theorem readings_push {b b' : ReadingBuffer} (hv : Valid b) {p : Payload} {ok : Bool}
    (h : readingBufferPush b p = (ok, b')) :
    Valid b' ∧ (∀ u r, b'.peeked = some (u, r) → b.peeked = some (u, r)) ∧
      (ok = false → b' = b) ∧
      (ok = true → b'.readings = Function.update b.readings p.uid
        ((if (b.readings p.uid).length = readingsPerNode then (b.readings p.uid).tail
          else b.readings p.uid) ++ [p.reading])) := by
  have hupdate (i : Identity) (l : List Reading) (hheld : b'.held = Function.update b.held p.uid (some (i, l))) :
      b'.readings = Function.update b.readings p.uid l := by
    funext u
    by_cases hu : u = p.uid
    · subst hu
      simp [readings, hheld]
    · simp [readings, hheld, hu]
  rcases readingBufferPush_cases hv p with ⟨i, l, c, hheld, he, hv', hheld', hpeeked, _⟩ |
    ⟨c, hheld, _, he, hv', hheld', hpeeked, _⟩ | ⟨_, _, he⟩
  · obtain ⟨rfl, rfl⟩ := Prod.mk.inj (he.symm.trans h)
    refine ⟨hv', ?_, by simp, ?_⟩
    · intro u r hp
      rw [hpeeked] at hp
      split at hp
      · cases hp
      · exact hp
    · intro _
      rw [hupdate _ _ hheld', readings_of_held hheld]
  · obtain ⟨rfl, rfl⟩ := Prod.mk.inj (he.symm.trans h)
    refine ⟨hv', fun u r hp => hpeeked ▸ hp, by simp, ?_⟩
    intro _
    rw [hupdate _ _ hheld', readings_of_not_held hheld]
    simp
  · obtain ⟨rfl, rfl⟩ := Prod.mk.inj (he.symm.trans h)
    exact ⟨hv, fun u r hp => hp, fun _ => rfl, by simp⟩

/-- What a pop does to the readings: it removes exactly the peeked one. -/
theorem readings_pop {b : ReadingBuffer} (hv : Valid b) :
    Valid (readingBufferPop b) ∧
      ((b.peeked = none ∧ (readingBufferPop b).readings = b.readings) ∨
        ∃ u r, b.peeked = some (u, r) ∧ b.readings u = r :: (readingBufferPop b).readings u ∧
          ∀ u' ≠ u, (readingBufferPop b).readings u' = b.readings u') := by
  rcases readingBufferPop_cases hv with ⟨hnone, he⟩ | ⟨u, r, i, l, hpeek, hheld, hv', hheld', _⟩
  · exact ⟨he.symm ▸ hv, .inl ⟨hnone, by rw [he]⟩⟩
  · refine ⟨hv', .inr ⟨u, r, hpeek, ?_, fun u' hu' => ?_⟩⟩
    · rw [readings_of_held hheld, readings, hheld', Function.update_self]
      split <;> simp_all
    · simp [readings, hheld', hu']

/-- What a peek does: it changes no reading, and a successful one peeks what it
copies out. -/
theorem readings_peek {b b' : ReadingBuffer} (hv : Valid b) {out out' : Payload} {ok : Bool}
    (h : readingBufferPeek b out = (ok, out', b')) :
    Valid b' ∧ b'.readings = b.readings ∧
      (ok = true → b'.peeked = some (out'.uid, out'.reading)) ∧ (ok = false → b'.peeked = none) := by
  obtain ⟨hv', hheld⟩ := readingBufferPeek_valid hv out
  rw [h] at hv' hheld
  refine ⟨hv', funext fun u => by simp only [readings, hheld], ?_, ?_⟩
  · rintro rfl
    rcases readingBufferPeek_cases hv out with ⟨i, _, he⟩ | ⟨_, he⟩
    · cases he.symm.trans h
      rfl
    · cases he.symm.trans h
  · rintro rfl
    rcases readingBufferPeek_cases hv out with ⟨i, _, he⟩ | ⟨_, he⟩
    · cases he.symm.trans h
    · cases he.symm.trans h
      rfl

end IotFirmware
