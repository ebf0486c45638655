import IotFirmware.Buffering.ReadingBufferRefinement

/-! The relay rotation: delivered relays, with readings arriving meanwhile, serve
every waiting node within eight turns, unless a push cancels a pending pop. -/
namespace IotFirmware.RelayRotation
open ReadingBuffer ReadingBufferRefinement RoundRobin

/-- One delivered relay: the caller's output before the peek, and the readings
pushed between the peek and the pop. -/
structure Relay where
  out : Payload
  pushes : List Payload

def pushAll (b : ReadingBuffer) (pushes : List Payload) : ReadingBuffer :=
  pushes.foldl (fun b p => (readingBufferPush b p).2) b

/-- Peek, the readings that arrive until the ACK, then pop. -/
def relay (b : ReadingBuffer) (r : Relay) : ReadingBuffer :=
  readingBufferPop (pushAll (readingBufferPeek b r.out).2.2 r.pushes)

def Serves (m : Move ReadingBuffer Relay) (u : Uid) : Prop :=
  ∃ p b, readingBufferPeek m.before m.label.out = (true, p, b) ∧ p.uid = u ∧ p.reading ∈ m.before.readings u

/-- The ring of the node being relayed has room for what that node pushes
meanwhile, so its peeked reading is not overwritten. -/
def Fits (m : Move ReadingBuffer Relay) : Prop :=
  ∀ u, Serves m u → (m.before.readings u).length + m.label.pushes.countP (·.uid = u) ≤ readingsPerNode

private theorem valid_calls (cs : List Call) : Valid (calls boot cs).2 := by
  obtain ⟨_, _, -, -, hv, -⟩ := readingBuffer_refines cs
  exact hv

section Push
variable {b : ReadingBuffer} {i j : SlotIndex}

private theorem count_store (hle : (b.slot i).ring.count ≤ readingsPerNode) (p : Payload) :
    ((b.slot i).store p).ring.count = min ((b.slot i).ring.count + 1) readingsPerNode := by
  simp only [NodeSlot.store, Ring.count_push]
  split <;> omega

/-- A push leaves every used slot to its node, and grows its own node's ring only. -/
theorem slot_push (hv : Valid b) (p : Payload) (hj : (b.slot j).used = true) :
    let b' := (readingBufferPush b p).2
    Valid b' ∧ b'.nextSlot = b.nextSlot ∧ (b'.slot j).used = true ∧ (b'.slot j).uid = (b.slot j).uid ∧
      (b'.slot j).ring.count = if p.uid = (b.slot j).uid then min ((b.slot j).ring.count + 1) readingsPerNode
        else (b.slot j).ring.count := by
  intro b'
  have hvalid : Valid b' ∧ b'.nextSlot = b.nextSlot := by
    simp only [b']
    rcases readingBufferPush_cases hv p with ⟨_, _, c, -, he, hc, -, -, hnext⟩ | ⟨c, -, -, he, hc, -, -, hnext⟩ |
      ⟨-, -, he⟩
    · rw [he]
      exact ⟨hc, hnext⟩
    · rw [he]
      exact ⟨hc, hnext⟩
    · rw [he]
      exact ⟨hv, rfl⟩
  refine ⟨hvalid.1, hvalid.2, ?_⟩
  rcases findOrClaimSlot_cases b p.uid with ⟨i, hi, hu, hf⟩ | ⟨-, hno, ⟨i, hi, hf⟩ | ⟨-, hf⟩⟩
  · have hb' : b' = fileReading b i p := by simp only [b', readingBufferPush, hf]
    rw [hb']
    by_cases hji : j = i
    · subst hji
      rw [slot_fileReading_self]
      exact ⟨hj, rfl, by rw [if_pos hu.symm, count_store (hv.count_le j)]⟩
    · have hne : p.uid ≠ (b.slot j).uid := fun he => hji (hv.uid_inj j i hj hi (by rw [← he, hu]))
      rw [slot_fileReading_ne b p hji, if_neg hne]
      exact ⟨hj, rfl, rfl⟩
  · have hji : j ≠ i := by
      rintro rfl
      simp [hi] at hj
    have hb' : b' = fileReading (b.setSlot i { NodeSlot.zero with used := true, uid := p.uid }) i p := by
      simp only [b', readingBufferPush, hf]
    rw [hb', slot_fileReading_ne _ p hji, slot_setSlot_ne b _ hji, if_neg (hno j hj).symm]
    exact ⟨hj, rfl, rfl⟩
  · have hb' : b' = b := by simp only [b', readingBufferPush, hf]
    rw [hb', if_neg (hno j hj).symm]
    exact ⟨hj, rfl, rfl⟩

/-- Filing a reading cancels the pending pop only in a full ring. -/
theorem peekedSlot_fileReading_eq {k : SlotIndex} (p : Payload) (hi : b.peekedSlot = some i)
    (hroom : i = k → (b.slot k).ring.count < readingsPerNode) : (fileReading b k p).peekedSlot = some i := by
  rw [peekedSlot_fileReading, if_neg, hi]
  rintro ⟨hfull, hpeek⟩
  exact absurd hfull (hroom (Option.some.inj (hi.symm.trans hpeek))).ne

/-- A pending pop stays pending while the peeked ring has room. -/
theorem peekedSlot_push (hv : Valid b) (p : Payload) (hi : b.peekedSlot = some i)
    (hroom : p.uid = (b.slot i).uid → (b.slot i).ring.count < readingsPerNode) :
    (readingBufferPush b p).2.peekedSlot = some i := by
  rcases findOrClaimSlot_cases b p.uid with ⟨k, -, hu, hf⟩ | ⟨-, -, ⟨k, hk, hf⟩ | ⟨-, hf⟩⟩
  · simp only [readingBufferPush, hf]
    refine peekedSlot_fileReading_eq p hi ?_
    rintro rfl
    exact hroom hu.symm
  · simp only [readingBufferPush, hf]
    refine peekedSlot_fileReading_eq p hi ?_
    rintro rfl
    simp [hv.peeked_used i hi] at hk
  · simp only [readingBufferPush, hf, hi]

/-- Any number of pushes leaves a used slot to its node. -/
theorem slot_pushAll (hv : Valid b) (pushes : List Payload) (hj : (b.slot j).used = true) :
    let b' := pushAll b pushes
    Valid b' ∧ b'.nextSlot = b.nextSlot ∧ (b'.slot j).used = true ∧ (b'.slot j).uid = (b.slot j).uid := by
  induction pushes generalizing b with
  | nil => exact ⟨hv, rfl, hj, rfl⟩
  | cons p rest ih =>
    obtain ⟨hv', hnext, hused, huid, -⟩ := slot_push hv p hj
    obtain ⟨hv'', hnext', hused', huid'⟩ := ih hv' hused
    exact ⟨hv'', hnext'.trans hnext, hused', huid'.trans huid⟩

/-- The pop is still pending after pushes that fit the peeked ring. -/
theorem peekedSlot_pushAll (hv : Valid b) (pushes : List Payload) (hi : b.peekedSlot = some i)
    (hfits : (b.slot i).ring.count + pushes.countP (·.uid = (b.slot i).uid) ≤ readingsPerNode) :
    (pushAll b pushes).peekedSlot = some i := by
  induction pushes generalizing b with
  | nil => exact hi
  | cons p rest ih =>
    obtain ⟨hv', -, -, huid, hcount⟩ := slot_push hv p (hv.peeked_used i hi)
    rw [List.countP_cons] at hfits
    by_cases hu : p.uid = (b.slot i).uid
    · simp only [hu, decide_true, if_true] at hfits hcount
      have hpeeked := peekedSlot_push hv p hi fun _ => by omega
      refine ih hv' hpeeked ?_
      rw [huid, hcount]
      omega
    · simp only [hu, decide_false, Bool.false_eq_true, if_false] at hfits hcount
      have hpeeked := peekedSlot_push hv p hi fun he => absurd he hu
      refine ih hv' hpeeked ?_
      rw [huid, hcount]
      omega

end Push

section Turn
variable {b : ReadingBuffer} {i j : SlotIndex}

/-- The readings of a used slot are those of its UID. -/
theorem readings_slot (hv : Valid b) (hi : (b.slot i).used = true) :
    b.readings (b.slot i).uid = (b.slot i).ring.contents :=
  readings_of_held (held_of_used hv hi)

/-- With a node waiting, the peek picks the first waiting slot from `nextSlot`
onwards, and returns that node's oldest reading. -/
theorem peek_picks (hv : Valid b) (out : Payload) (hj : (b.slot j).used = true) :
    ∃ i, (b.slot i).used = true ∧ distance b.nextSlot i ≤ distance b.nextSlot j ∧
      readingBufferPeek b out = (true, (b.slot i).payload, { b with peekedSlot := some i }) := by
  have hwaits : ((b.slot j).used && (b.slot j).ring.count != 0) = true := by
    have := (hv.used_iff j).mp hj
    simp only [hj, Bool.true_and, bne_iff_ne]
    omega
  unfold readingBufferPeek
  cases hpick : (turn b.nextSlot).find? fun i => (b.slot i).used && (b.slot i).ring.count != 0 with
  | some i =>
    have hi := List.find?_some hpick
    simp only [Bool.and_eq_true] at hi
    refine ⟨i, hi.1, distance_pick_le hpick hwaits, ?_⟩
    rw [← turn, hpick]
  | none =>
    exact absurd hwaits (List.find?_eq_none.mp hpick j (mem_turn _ j))

/-- The pop of the peeked slot moves `nextSlot` behind it and leaves the other slots alone. -/
theorem pop_advances (hv : Valid b) (hi : b.peekedSlot = some i) :
    Valid (readingBufferPop b) ∧ (readingBufferPop b).nextSlot = i + 1 ∧
      ∀ j ≠ i, (readingBufferPop b).slot j = b.slot j := by
  refine ⟨(readings_pop hv).1, ?_, fun j hji => ?_⟩
  · rw [readingBufferPop_eq hv, hi]
  · rw [readingBufferPop_eq hv, hi]
    exact slot_setSlot_ne b _ hji

end Turn

def Waits (j : SlotIndex) (u : Uid) (b : ReadingBuffer) : Prop :=
  Valid b ∧ (b.slot j).used = true ∧ (b.slot j).uid = u

/-- A relay whose pushes fit serves the waiting node, or brings its turn closer. -/
theorem relay_serves_or_advances {b : ReadingBuffer} {r : Relay} {j : SlotIndex} {u : Uid}
    (hfits : Fits ⟨b, r, relay b r⟩) (hw : Waits j u b) :
    Serves ⟨b, r, relay b r⟩ u ∨
      (Waits j u (relay b r) ∧ distance (relay b r).nextSlot j < distance b.nextSlot j) := by
  obtain ⟨hv, hj, rfl⟩ := hw
  obtain ⟨i, hi, hle, hpeek⟩ := peek_picks hv r.out hj
  have hserves : Serves ⟨b, r, relay b r⟩ (b.slot i).uid := by
    refine ⟨_, _, hpeek, rfl, ?_⟩
    rw [readings_slot hv hi, contents_eq_cons hv hi]
    exact List.mem_cons_self
  by_cases hij : i = j
  · subst hij
    exact .inl hserves
  · right
    have hroom := hfits _ hserves
    dsimp only at hroom
    rw [readings_slot hv hi, Ring.contents_length] at hroom
    have hpeeked : Valid { b with peekedSlot := some i } := hv.setPeeked fun k hk => Option.some.inj hk ▸ hi
    have hpending : (pushAll { b with peekedSlot := some i } r.pushes).peekedSlot = some i :=
      peekedSlot_pushAll hpeeked r.pushes rfl hroom
    obtain ⟨hv', -, hused, huid⟩ := slot_pushAll hpeeked r.pushes (j := j) hj
    obtain ⟨hv'', hnext, hkeep⟩ := pop_advances hv' hpending
    have hrelay : relay b r = readingBufferPop (pushAll { b with peekedSlot := some i } r.pushes) := by
      simp only [relay, hpeek]
    rw [hrelay]
    refine ⟨⟨hv'', ?_, ?_⟩, ?_⟩
    · rw [hkeep j (Ne.symm hij)]
      exact hused
    · rw [hkeep j (Ne.symm hij)]
      exact huid
    · rw [hnext]
      exact distance_advance hle hij

/-- A node that holds a reading is served within eight delivered relays, whatever
is pushed meanwhile, if the pushes fit the rings being relayed. -/
theorem rotation_serves (before : List Call) (relays : List Relay) (u : Uid)
    (hheld : (calls boot before).2.readings u ≠ []) (hlen : relays.length = readingBufferMaxNodes)
    (hfits : ∀ m ∈ movesOf relay (calls boot before).2 relays, Fits m) :
    ∃ m ∈ movesOf relay (calls boot before).2 relays, Serves m u := by
  have hv := valid_calls before
  cases hu : (calls boot before).2.held u with
  | none => exact absurd (readings_of_not_held hu) hheld
  | some e =>
    obtain ⟨j, hj, huid, -⟩ := used_of_held hu
    refine exists_good_of_rank (Waits j u) (distance ·.nextSlot j) (Serves · u) ⟨hv, hj, huid⟩ ?_ ?_
    · rw [hlen]
      exact (j - (calls boot before).2.nextSlot).isLt
    · intro m hm hw
      obtain ⟨b, r, b'⟩ := m
      obtain rfl : b' = relay b r := after_of_mem_movesOf hm
      exact relay_serves_or_advances (hfits _ hm) hw

private theorem calls_pushes (pushes : List Payload) (b : ReadingBuffer) :
    (calls b (pushes.map .push)).2 = pushAll b pushes := by
  induction pushes generalizing b with
  | nil => rfl
  | cons p rest ih => exact ih (readingBufferPush b p).2

private theorem pushAll_append (b : ReadingBuffer) (ps qs : List Payload) :
    pushAll b (ps ++ qs) = pushAll (pushAll b ps) qs := List.foldl_append

/-- A node that pushes over and over fills its ring and keeps it full. -/
theorem count_pushAll_replicate {b : ReadingBuffer} {j : SlotIndex} (hv : Valid b) (hj : (b.slot j).used = true)
    {p : Payload} (hu : (b.slot j).uid = p.uid) (k : Nat) :
    ((pushAll b (List.replicate k p)).slot j).ring.count = min ((b.slot j).ring.count + k) readingsPerNode := by
  induction k generalizing b with
  | zero => exact (min_eq_left (hv.count_le j)).symm
  | succ k ih =>
    obtain ⟨hv', -, hused, huid, hcount⟩ := slot_push hv p hj
    refine (ih hv' hused (huid.trans hu)).trans ?_
    rw [hcount, if_pos hu.symm]
    omega

def busyReading : Payload := ⟨Vector.replicate uidLen 1, 1, 0, 0, 0, 0, 0, 0⟩
def quietReading : Payload := ⟨Vector.replicate uidLen 2, 1, 0, 0, 0, 0, 0, 0⟩

structure Stuck (b : ReadingBuffer) : Prop where
  valid : Valid b
  turn : b.nextSlot = 0
  used : (b.slot 0).used = true
  uid : (b.slot 0).uid = busyReading.uid
  full : (b.slot 0).ring.count = readingsPerNode

/-- One more push of the busy node during its own relay cancels the pop: the
relay serves the busy node, and it is its turn again. -/
theorem stuck_relay {b : ReadingBuffer} (h : Stuck b) (out : Payload) :
    let m : Move ReadingBuffer Relay := ⟨b, ⟨out, [busyReading]⟩, relay b ⟨out, [busyReading]⟩⟩
    ¬ Serves m quietReading.uid ∧ Stuck m.after := by
  obtain ⟨i, hi, hle, hpeek⟩ := peek_picks h.valid out h.used
  obtain rfl : i = 0 := by
    rw [h.turn] at hle
    simpa [distance] using hle
  have hpeeked : Valid { b with peekedSlot := some 0 } := h.valid.setPeeked fun k hk => Option.some.inj hk ▸ hi
  obtain ⟨hv', hnext, hused, huid, hcount⟩ := slot_push hpeeked busyReading (j := 0) hi
  have hcancelled : (readingBufferPush { b with peekedSlot := some 0 } busyReading).2.peekedSlot = none := by
    rcases findOrClaimSlot_cases { b with peekedSlot := some 0 } busyReading.uid with
      ⟨k, hk, hku, hf⟩ | ⟨-, hno, -⟩
    · obtain rfl : k = 0 := hpeeked.uid_inj k 0 hk hi (hku.trans h.uid.symm)
      simp only [readingBufferPush, hf]
      rw [peekedSlot_fileReading, if_pos ⟨h.full, rfl⟩]
    · exact absurd h.uid (hno 0 hi)
  have hafter : relay b ⟨out, [busyReading]⟩ =
      (readingBufferPush { b with peekedSlot := some 0 } busyReading).2 := by
    simp only [relay, hpeek, pushAll, List.foldl_cons, List.foldl_nil]
    rw [readingBufferPop_eq hv', hcancelled]
  refine ⟨?_, ?_⟩
  · rintro ⟨p, c, he, hu, -⟩
    rw [hpeek] at he
    obtain ⟨-, rfl, -⟩ := he
    exact absurd (h.uid.symm.trans hu) (by decide)
  · refine hafter ▸ ⟨hv', hnext.trans h.turn, hused, huid.trans h.uid, ?_⟩
    have hslot : ({ b with peekedSlot := some 0 } : ReadingBuffer).slot 0 = b.slot 0 := rfl
    rw [hcount, hslot, if_pos h.uid.symm, h.full]
    rfl

private theorem stuck_relays {b : ReadingBuffer} (h : Stuck b) (out : Payload) (k : Nat) :
    ∀ m ∈ movesOf relay b (List.replicate k ⟨out, [busyReading]⟩), ¬ Serves m quietReading.uid := by
  induction k generalizing b with
  | zero => simp [movesOf]
  | succ k ih =>
    obtain ⟨hnot, hstuck⟩ := stuck_relay h out
    exact List.forall_mem_cons.mpr ⟨hnot, ih hstuck⟩

/-- The busy node can fill its ring while another one waits behind it. -/
theorem exists_stuck : ∃ before, Stuck (calls boot before).2 ∧
    (calls boot before).2.readings quietReading.uid ≠ [] := by
  have hfirst : ((pushAll boot [busyReading, quietReading]).slot 0).used = true ∧
      ((pushAll boot [busyReading, quietReading]).slot 0).uid = busyReading.uid ∧
      ((pushAll boot [busyReading, quietReading]).slot 0).ring.count = 1 ∧
      ((pushAll boot [busyReading, quietReading]).slot 1).used = true ∧
      ((pushAll boot [busyReading, quietReading]).slot 1).uid = quietReading.uid ∧
      (pushAll boot [busyReading, quietReading]).nextSlot = 0 := by
    decide +kernel
  have hvalid : Valid (pushAll boot [busyReading, quietReading]) := by
    rw [← calls_pushes]
    exact valid_calls _
  refine ⟨([busyReading, quietReading] ++ List.replicate 287 busyReading).map .push, ?_⟩
  rw [calls_pushes, pushAll_append]
  generalize pushAll boot [busyReading, quietReading] = first at hfirst hvalid
  obtain ⟨hused, huid, hcount, hquiet, hquietUid, hnext⟩ := hfirst
  obtain ⟨hv, hnext', hused', huid'⟩ := slot_pushAll hvalid (List.replicate 287 busyReading) hused
  obtain ⟨-, -, hquiet', hquietUid'⟩ := slot_pushAll hvalid (List.replicate 287 busyReading) hquiet
  have hfull := count_pushAll_replicate hvalid hused huid 287
  rw [hcount] at hfull
  refine ⟨⟨hv, hnext'.trans hnext, hused', huid'.trans huid, hfull⟩, ?_⟩
  rw [← hquietUid'.trans hquietUid, readings_slot hv hquiet', contents_eq_cons hv hquiet']
  exact List.cons_ne_nil _ _

/-- A node whose ring stays full, and which pushes once during each relay, is
relayed every time: the other one is never served. -/
theorem busy_node_starves : ¬ ∀ (before : List Call) (relays : List Relay) (u : Uid),
    (calls boot before).2.readings u ≠ [] → relays.length = readingBufferMaxNodes →
      ∃ m ∈ movesOf relay (calls boot before).2 relays, Serves m u := by
  intro hclaim
  obtain ⟨before, hstuck, hheld⟩ := exists_stuck
  obtain ⟨m, hm, hserves⟩ := hclaim before (List.replicate 8 ⟨quietReading, [busyReading]⟩) quietReading.uid hheld
    List.length_replicate
  exact stuck_relays hstuck quietReading 8 m hm hserves

/-- A relay during which nothing arrives fits, and leaves a valid buffer. -/
theorem fits_quiet_relay {b : ReadingBuffer} (hv : Valid b) (out : Payload) :
    Fits ⟨b, ⟨out, []⟩, relay b ⟨out, []⟩⟩ ∧ Valid (relay b ⟨out, []⟩) := by
  refine ⟨?_, (readings_pop (readingBufferPeek_valid hv out).1).1⟩
  rintro u ⟨p, c, -, -, hmem⟩
  dsimp only at hmem ⊢
  cases hu : b.held u with
  | none =>
    rw [readings_of_not_held hu] at hmem
    cases hmem
  | some e =>
    obtain ⟨i, hi, rfl, -⟩ := used_of_held hu
    rw [readings_slot hv hi, Ring.contents_length]
    exact hv.count_le i

private theorem fits_quiet_relays {b : ReadingBuffer} (hv : Valid b) (out : Payload) (k : Nat) :
    ∀ m ∈ movesOf relay b (List.replicate k ⟨out, []⟩), Fits m := by
  induction k generalizing b with
  | zero => simp [movesOf]
  | succ k ih =>
    obtain ⟨hfits, hv'⟩ := fits_quiet_relay hv out
    exact List.forall_mem_cons.mpr ⟨hfits, ih hv'⟩

theorem rotation_serves_stuck : ∃ before, Stuck (calls boot before).2 ∧
    ∃ m ∈ movesOf relay (calls boot before).2 (List.replicate 8 ⟨quietReading, []⟩), Serves m quietReading.uid := by
  obtain ⟨before, hstuck, hheld⟩ := exists_stuck
  exact ⟨before, hstuck, rotation_serves before _ _ hheld List.length_replicate
    (fits_quiet_relays hstuck.valid quietReading 8)⟩

end IotFirmware.RelayRotation
