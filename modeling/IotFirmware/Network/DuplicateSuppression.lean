import IotFirmware.Network.DeliverySoundness

/-! Duplicate suppression: with the frames of each sender heard in order, a
substation pushes each reading at most once per boot. -/
namespace IotFirmware.Network
open Substation

def calledReading : NetEvent → Option (Mac × Payload)
  | .called m p => some (m, p)
  | _ => none

/-- Each node's seq strictly increases from reading to reading, reboots or not. -/
def IncreasingSeqs (log : List NetEvent) : Prop :=
  (log.filterMap calledReading).Pairwise fun a b => a.2.uid = b.2.uid → a.2.seq < b.2.seq

theorem IncreasingSeqs.of_append {log done : List NetEvent} (h : IncreasingSeqs (log ++ done)) :
    IncreasingSeqs log := by
  rw [IncreasingSeqs, List.filterMap_append] at h
  exact (List.pairwise_append.mp h).1

theorem mem_called {log : List NetEvent} {m : Mac} {p : Payload} :
    (m, p) ∈ log.filterMap calledReading ↔ .called m p ∈ log := by
  rw [List.mem_filterMap]
  constructor
  · rintro ⟨e, he, heq⟩
    cases e <;> simp only [calledReading, reduceCtorEq, Option.some.injEq, Prod.mk.injEq] at heq
    obtain ⟨rfl, rfl⟩ := heq
    exact he
  · exact fun h => ⟨_, h, rfl⟩

/-- A UID and seq name one reading of one node. -/
theorem IncreasingSeqs.unique {log : List NetEvent} (h : IncreasingSeqs log) {m m' : Mac} {p p' : Payload}
    (hp : .called m p ∈ log) (hp' : .called m' p' ∈ log) (huid : p.uid = p'.uid) (hseq : p.seq = p'.seq) :
    m = m' ∧ p = p' := by
  have hdistinct : (log.filterMap calledReading).Pairwise
      fun a b => a.2.uid = b.2.uid → a.2.seq ≠ b.2.seq := h.imp fun hab hu => UInt32.ne_of_lt (hab hu)
  have hsymm : Std.Symm fun a b : Mac × Payload => a.2.uid = b.2.uid → a.2.seq ≠ b.2.seq :=
    ⟨fun a b hab hu => (hab hu.symm).symm⟩
  by_contra hne
  have hpair : (m, p) ≠ (m', p') := by simpa using hne
  exact hdistinct.forall (mem_called.mpr hp) (mem_called.mpr hp') hpair huid hseq

/-- A reading frame carries a seq no lower than its sender's frames before it. -/
def FramesInOrder (e : NetEvent) (before : List NetEvent) : Prop :=
  ∀ m S p, e = .sent (readingPacket m S p) → ∀ T q, .sent (readingPacket m T q) ∈ before → q.seq ≤ p.seq

structure SeqInv (n : Network) : Prop where
  latest : ∀ m p, (n.nodes m).point.reading = some p → ∀ q, .called m q ∈ n.log → q.seq ≤ p.seq
  frames : Chronicle.Each FramesInOrder n.log

private theorem seqInv_start (uidOf : Mac → Uid) : SeqInv (start uidOf) :=
  ⟨by simp [start], Chronicle.each_nil⟩

theorem SeqInv.nodeStep {uidOf : Mac → Uid} {n : Network} (hinv : SeqInv n) (hnet : NetInv uidOf n)
    (hacks : AckInv n) {m : Mac} {i : LinkInput} (hi : ∀ p, i = .callSend p → p.uid = uidOf m)
    (hinc : IncreasingSeqs (n.nodeStep m i).log) : SeqInv (n.nodeStep m i) := by
  have h := SubstationLink.step_outcome (hnet.node_joined m) i
  have hsent {k S : Mac} {q : Payload}
      (hq : .sent (readingPacket k S q) ∈ ((n.nodes m).step i).2.map (LinkEffect.event m)) :
      k = m ∧ (n.nodes m).point.reading = some q := by
    rcases hnet.logs_sent hq with ⟨_, _, hpkt⟩ | ⟨_, p, hpkt, hp⟩
    · have hlen := congrArg (·.data.length) hpkt
      simp [readingPacket, joinPacket] at hlen
    · obtain ⟨rfl, _, rfl⟩ := readingPacket_inj hpkt
      exact ⟨rfl, hp⟩
  refine ⟨fun k p hp q hq => ?_, hinv.frames.append fun before e after hsplit k S p he T q hq => ?_⟩
  · rcases List.mem_append.mp hq with hold | hnew
    · by_cases hkm : k = m
      · subst hkm
        simp only [Network.nodeStep, Function.update_self] at hp
        rcases h.reading hp with hwas | hcall
        · exact hinv.latest k p hwas q hold
        · have huid : q.uid = p.uid :=
            (hnet.called_uid k q hold).trans (hi p (h.called_input hcall).1).symm
          rw [Network.nodeStep, IncreasingSeqs, List.filterMap_append] at hinc
          have hlater := (List.pairwise_append.mp hinc).2.2 (k, q) (mem_called.mpr hold) (k, p)
            (mem_called.mpr (List.mem_map.mpr ⟨_, hcall, rfl⟩)) huid
          exact UInt32.le_of_lt hlater
      · exact hinv.latest k p (by simpa [Network.nodeStep, hkm] using hp) q hold
    · obtain ⟨rfl, rfl, hidle⟩ := hnet.logs_called hnew
      simp only [Network.nodeStep, Function.update_self] at hp
      rcases h.reading hp with hwas | hcall
      · simp [hidle, LinkPoint.reading] at hwas
      · obtain rfl : q = p := LinkInput.callSend.inj (h.called_input hcall).1
        exact UInt32.le_refl _
  · subst he
    have hmem : .sent (readingPacket k S p) ∈ ((n.nodes m).step i).2.map (LinkEffect.event m) := by
      rw [hsplit]
      simp
    obtain ⟨rfl, hp⟩ := hsent hmem
    rcases List.mem_append.mp hq with hold | hnew
    · exact hinv.latest k p hp q (hacks.reading_called k T q hold)
    · have hmem' : .sent (readingPacket k T q) ∈ ((n.nodes k).step i).2.map (LinkEffect.event k) := by
        rw [hsplit]
        simp [hnew]
      obtain rfl : p = q := Option.some.inj (hp.symm.trans (hsent hmem').2)
      exact UInt32.le_refl _

/-- Entries that are neither calls nor reading frames keep the invariant. -/
theorem SeqInv.append {n n' : Network} (hinv : SeqInv n) (hnodes : n'.nodes = n.nodes) {done : List NetEvent}
    (hlog : n'.log = n.log ++ done) (hcalled : ∀ m p, .called m p ∉ done)
    (hsent : ∀ m S p, .sent (readingPacket m S p) ∉ done) : SeqInv n' := by
  refine ⟨?_, ?_⟩
  · intro m p hp q hq
    rw [hlog] at hq
    exact hinv.latest m p (hnodes ▸ hp) q ((List.mem_append.mp hq).resolve_right (hcalled m q))
  · rw [hlog]
    refine hinv.frames.append fun before e after hsplit m S p he => ?_
    subst he
    exact absurd (hsplit ▸ by simp) (hsent m S p)

theorem seqInv_step {uidOf : Mac → Uid} {n n' : Network} {a : NetAction} (hinv : SeqInv n) (hnet : NetInv uidOf n)
    (htable : ∀ S, TableInv uidOf (n.stations S)) (hacks : AckInv n) (hs : NetStep uidOf n a n')
    (hinc : IncreasingSeqs n'.log) : SeqInv n' := by
  have hstation {S : Mac} {a : Substation.Action} (ha : FromAir uidOf a) : SeqInv (n.stationStep S a) := by
    have hchange := (station_change (htable S) ha S).2
    refine hinv.append rfl rfl (fun m p hmem => ?_) hchange.no_reading
    obtain ⟨e, _, he⟩ := List.mem_filterMap.mp hmem
    exact event?_called he
  cases hs with
  | node _ hi =>
    refine hinv.nodeStep hnet hacks (fun p hp => ?_) hinc
    subst hp
    exact hi
  | nodeHears => exact hinv.nodeStep hnet hacks (by simp) hinc
  | @nodeReboots m =>
    refine ⟨?_, hinv.frames⟩
    intro k p hp
    by_cases hkm : k = m
    · subst hkm
      simp [SubstationLink.new, LinkPoint.reading] at hp
    · exact hinv.latest k p (by simpa [hkm] using hp)
  | station _ ha => exact hstation ha.fromAir
  | stationHears _ hheard => exact hstation ⟨_, hnet.fromAir hheard⟩
  | stationBoots => exact hinv.append rfl rfl (by simp) (by simp)

private theorem seqInv_run {uidOf : Mac → Uid} {moves : List (Move Network NetAction)} {n : Network}
    (hrun : Run (NetStep uidOf) (start uidOf) moves n) (hinc : IncreasingSeqs n.log) : SeqInv n := by
  refine hrun.invariant (fun _ n => IncreasingSeqs n.log → SeqInv n) (fun _ => seqInv_start uidOf) ?_ hinc
  intro moves n a n' hrun ih hs hinc
  obtain ⟨done, hlog⟩ := log_grows hs
  exact seqInv_step (ih (hlog ▸ hinc).of_append) (netInv_run hrun) (tableInv_run hrun) (ackInv_run hrun) hs hinc

/-- A frame heard earlier or at the same place carries no later reading. -/
theorem SeqInv.frame_le {n : Network} (hinv : SeqInv n) {i j : Nat} (hij : i ≤ j) {m S T : Mac} {p q : Payload}
    (hi : n.log[i]? = some (.sent (readingPacket m S q))) (hj : n.log[j]? = some (.sent (readingPacket m T p))) :
    q.seq ≤ p.seq := by
  rcases hij.eq_or_lt with rfl | hlt
  · obtain ⟨_, _, rfl⟩ := readingPacket_inj (NetEvent.sent.inj (Option.some.inj (hi.symm.trans hj)))
    exact UInt32.le_refl _
  · obtain ⟨before, after, hlog, rfl⟩ := Chronicle.split_at hj
    rw [hlog, List.getElem?_append_left hlt] at hi
    exact hinv.frames before _ after hlog m T p rfl S q (List.mem_of_getElem? hi)

def stationHeard (x : Move Network NetAction) : Option (Mac × Mac × Nat) :=
  match x.label with
  | .stationHears S index _ =>
    match x.before.log[index]? with
    | some (.sent pkt) => some (S, pkt.src, index)
    | _ => none
  | _ => none

/-- Stations hear the frames of each sender in the order they were sent, some
of them more than once or not at all. -/
def InOrder (moves : List (Move Network NetAction)) : Prop :=
  (moves.filterMap stationHeard).Pairwise fun a b => a.1 = b.1 → a.2.1 = b.2.1 → a.2.2 ≤ b.2.2

def acceptedSinceBoot (S : Mac) (log : List NetEvent) : List Payload :=
  log.foldl (fun accepted e =>
    match e with
    | .accepted T p => if T = S then accepted ++ [p] else accepted
    | .booted T _ => if T = S then [] else accepted
    | _ => accepted) []

def HeardReading (moves : List (Move Network NetAction)) (log : List NetEvent) (S m : Mac) (p : Payload) : Prop :=
  ∃ index T, (S, m, index) ∈ moves.filterMap stationHeard ∧ log[index]? = some (.sent (readingPacket m T p))

theorem HeardReading.append {moves : List (Move Network NetAction)} {log : List NetEvent} {S m : Mac} {p : Payload}
    (h : HeardReading moves log S m p) (x : Move Network NetAction) (done : List NetEvent) :
    HeardReading (moves ++ [x]) (log ++ done) S m p := by
  obtain ⟨index, T, hmem, hlog⟩ := h
  refine ⟨index, T, by simp [List.filterMap_append, hmem], ?_⟩
  rw [List.getElem?_append_left (List.getElem?_eq_some_iff.mp hlog).1]
  exact hlog

/-- Readings accepted in this boot were heard, are no later than the last seq of
their sender's row, and are pairwise distinct. -/
structure DupInv (moves : List (Move Network NetAction)) (n : Network) : Prop where
  accepted : ∀ S, ∀ p ∈ acceptedSinceBoot S n.log, ∃ m node, HeardReading moves n.log S m p ∧
    (n.stations S).entry m = some node ∧ node.hasSeq = true ∧ p.seq ≤ node.lastSeq
  last : ∀ S m node, (n.stations S).entry m = some node → node.hasSeq = true →
    ∃ p, HeardReading moves n.log S m p ∧ p.seq = node.lastSeq
  nodup : ∀ S, ((acceptedSinceBoot S n.log).map fun p => (p.uid, p.seq)).Nodup

/-- Steps that neither accept nor touch a row with a last seq keep the invariant. -/
theorem DupInv.frame {moves : List (Move Network NetAction)} {n n' : Network} (hinv : DupInv moves n)
    (x : Move Network NetAction) {done : List NetEvent} (hlog : n'.log = n.log ++ done)
    (hacc : ∀ S, acceptedSinceBoot S n'.log = acceptedSinceBoot S n.log)
    (hrows : ∀ S m node, node.hasSeq = true →
      ((n'.stations S).entry m = some node ↔ (n.stations S).entry m = some node)) : DupInv (moves ++ [x]) n' := by
  refine ⟨?_, ?_, fun S => by rw [hacc]; exact hinv.nodup S⟩
  · intro S p hp
    rw [hacc] at hp
    obtain ⟨m, node, hheard, hnode, hseq, hle⟩ := hinv.accepted S p hp
    exact ⟨m, node, hlog ▸ hheard.append x done, (hrows S m node hseq).mpr hnode, hseq, hle⟩
  · intro S m node hnode hseq
    obtain ⟨p, hheard, hp⟩ := hinv.last S m node ((hrows S m node hseq).mp hnode) hseq
    exact ⟨p, hlog ▸ hheard.append x done, hp⟩

/-- Entries of other kinds do not change what was accepted since boot. -/
theorem acceptedSinceBoot_append {S : Mac} {log done : List NetEvent} (hacc : ∀ p, .accepted S p ∉ done)
    (hboot : ∀ epoch, .booted S epoch ∉ done) : acceptedSinceBoot S (log ++ done) = acceptedSinceBoot S log := by
  induction done using List.reverseRecOn with
  | nil => simp
  | append_singleton front e ih =>
    rw [← ih (fun p h => hacc p (by simp [h])) fun epoch h => hboot epoch (by simp [h]), ← List.append_assoc,
      acceptedSinceBoot, List.foldl_append, ← acceptedSinceBoot]
    cases e with
    | accepted T p =>
      have hTS : T ≠ S := by
        rintro rfl
        exact hacc p (by simp)
      simp [hTS]
    | booted T epoch =>
      have hTS : T ≠ S := by
        rintro rfl
        exact hboot epoch (by simp)
      simp [hTS]
    | _ => rfl

/-- An action either accepts nothing and keeps every row with a last seq, or
accepts one reading it just heard whose seq is not the last one. -/
theorem StationChange.rows {uidOf : Mac → Uid} {S : Mac} {s t : Substation} {a : Substation.Action}
    {done : List NetEvent} (h : StationChange uidOf S s a t done) :
    ((∀ T p, .accepted T p ∉ done) ∧ (∀ T epoch, .booted T epoch ∉ done) ∧
      ∀ m node, node.hasSeq = true → (t.entry m = some node ↔ s.entry m = some node)) ∨
    ∃ m p peerOk node, a = .frame m p.toBytes peerOk ∧ s.entry m = some node ∧
      (node.hasSeq = true → node.lastSeq ≠ p.seq) ∧
      t.entry = Function.update s.entry m (some (keepSeq node p.seq)) ∧
      done = [.accepted S p, .sent (ackPacket S m p)] := by
  have hjoined {m k : Mac} {node : JoinedNode}
      (ht : t.entry = Function.update s.entry m (some ((s.entry m).getD ⟨m, uidOf m, 0, false⟩)))
      (hseq : node.hasSeq = true) : t.entry k = some node ↔ s.entry k = some node := by
    rw [ht]
    by_cases hkm : k = m
    · subst hkm
      cases hrow : s.entry k with
      | none =>
        simp only [Function.update_self, Option.getD_none, Option.some.injEq, reduceCtorEq, iff_false]
        rintro rfl
        cases hseq
      | some row => simp
    · rw [Function.update_of_ne hkm]
  cases h with
  | quiet ht => exact .inl ⟨by simp, by simp, fun m node _ => by rw [ht]⟩
  | beacon ht => exact .inl ⟨by simp, by simp, fun m node _ => by rw [ht]⟩
  | joined ht => exact .inl ⟨by simp, by simp, fun m node => hjoined ht⟩
  | joinAcked ht => exact .inl ⟨by simp, by simp, fun m node => hjoined ht⟩
  | resent _ _ _ _ ht => exact .inl ⟨by simp, by simp, fun m node _ => by rw [ht]⟩
  | accepted hnode hnew _ ht => exact .inr ⟨_, _, _, _, rfl, hnode, hnew, ht, rfl⟩

/-- Whatever was heard of a node before is no later than the frame heard now. -/
theorem SeqInv.heard_le {moves : List (Move Network NetAction)} {n : Network} (hinv : SeqInv n)
    {x : Move Network NetAction} (horder : InOrder (moves ++ [x])) {S m dst : Mac} {index : Nat}
    (hx : stationHeard x = some (S, m, index)) {p q : Payload}
    (hlog : n.log[index]? = some (.sent (readingPacket m dst p))) (h : HeardReading moves n.log S m q) :
    q.seq ≤ p.seq := by
  obtain ⟨i, T, hmem, hi⟩ := h
  rw [InOrder, List.filterMap_append] at horder
  have hle := (List.pairwise_append.mp horder).2.2 _ hmem (S, m, index) (by simp [hx]) rfl rfl
  exact hinv.frame_le hle hi hlog

/-- A reading no earlier than all heard before it and other than the row's last one was not accepted before. -/
theorem DupInv.fresh {moves : List (Move Network NetAction)} {n : Network} (hinv : DupInv moves n)
    (hinc : IncreasingSeqs n.log) (hacks : AckInv n) {S m dst : Mac} {p : Payload} {node : JoinedNode}
    (hsent : .sent (readingPacket m dst p) ∈ n.log) (hnode : (n.stations S).entry m = some node)
    (hnew : node.hasSeq = true → node.lastSeq ≠ p.seq)
    (hearlier : ∀ q, HeardReading moves n.log S m q → q.seq ≤ p.seq) :
    ∀ q ∈ acceptedSinceBoot S n.log, (q.uid, q.seq) ≠ (p.uid, p.seq) := by
  intro q hq he
  obtain ⟨huid, hseq⟩ := Prod.mk.inj he
  obtain ⟨k, row, hk, hkrow, hrowSeq, hle⟩ := hinv.accepted S q hq
  obtain ⟨i, U, _, hi⟩ := hk
  have hqCalled := hacks.reading_called k U q (List.mem_of_getElem? hi)
  have hpCalled := hacks.reading_called m dst p hsent
  obtain ⟨rfl, rfl⟩ := hinc.unique hqCalled hpCalled huid hseq
  obtain rfl := Option.some.inj (hnode.symm.trans hkrow)
  obtain ⟨r, hr, hlast⟩ := hinv.last S k node hnode hrowSeq
  exact hnew hrowSeq (UInt32.le_antisymm (hlast ▸ hearlier r hr) hle)

/-- Accepting a reading just heard: by the order of frames it is no earlier than
the row's last seq, which it is not, so it was not accepted before. -/
theorem DupInv.accept {moves : List (Move Network NetAction)} {n : Network} (hinv : DupInv moves n)
    (hseqs : SeqInv n) (hinc : IncreasingSeqs n.log) (hacks : AckInv n) {S m dst : Mac} {p : Payload}
    {node : JoinedNode} {index : Nat}
    (hlog : n.log[index]? = some (.sent (readingPacket m dst p))) (hnode : (n.stations S).entry m = some node)
    (hnew : node.hasSeq = true → node.lastSeq ≠ p.seq) {n' : Network} {x : Move Network NetAction}
    (hx : stationHeard x = some (S, m, index)) (horder : InOrder (moves ++ [x]))
    (hlog' : n'.log = n.log ++ [.accepted S p, .sent (ackPacket S m p)])
    (hentry : ∀ T, T ≠ S → n'.stations T = n.stations T)
    (hrow : (n'.stations S).entry = Function.update (n.stations S).entry m (some (keepSeq node p.seq))) :
    DupInv (moves ++ [x]) n' := by
  have hearlier (q : Payload) (h : HeardReading moves n.log S m q) : q.seq ≤ p.seq :=
    hseqs.heard_le horder hx hlog h
  have hheard : HeardReading (moves ++ [x]) n'.log S m p := by
    refine ⟨index, dst, by simp [List.filterMap_append, hx], ?_⟩
    rw [hlog', List.getElem?_append_left (List.getElem?_eq_some_iff.mp hlog).1]
    exact hlog
  have hfold : acceptedSinceBoot S n'.log = acceptedSinceBoot S n.log ++ [p] := by
    rw [hlog']
    simp [acceptedSinceBoot]
  have hother {T : Mac} (hTS : T ≠ S) : acceptedSinceBoot T n'.log = acceptedSinceBoot T n.log := by
    rw [hlog']
    exact acceptedSinceBoot_append (by simp [hTS]) (by simp)
  refine ⟨?_, ?_, ?_⟩
  · intro T q hq
    by_cases hTS : T = S
    · subst hTS
      rw [hfold, List.mem_append, List.mem_singleton] at hq
      rcases hq with hold | rfl
      · obtain ⟨k, row, hk, hkrow, hseq, hle⟩ := hinv.accepted T q hold
        have hk' := hlog' ▸ hk.append x _
        by_cases hkm : k = m
        · subst hkm
          exact ⟨k, keepSeq node p.seq, hk', by simp [hrow], rfl, hearlier q hk⟩
        · exact ⟨k, row, hk', by rw [hrow, Function.update_of_ne hkm]; exact hkrow, hseq, hle⟩
      · exact ⟨m, keepSeq node q.seq, hheard, by simp [hrow], rfl, UInt32.le_refl _⟩
    · rw [hother hTS] at hq
      obtain ⟨k, row, hk, hkrow, hseq, hle⟩ := hinv.accepted T q hq
      exact ⟨k, row, hlog' ▸ hk.append x _, by rw [hentry T hTS]; exact hkrow, hseq, hle⟩
  · intro T k row hk hseq
    by_cases hTS : T = S
    · subst hTS
      by_cases hkm : k = m
      · subst hkm
        rw [hrow, Function.update_self] at hk
        obtain rfl := Option.some.inj hk
        exact ⟨p, hheard, rfl⟩
      · rw [hrow, Function.update_of_ne hkm] at hk
        obtain ⟨q, hq, hlast⟩ := hinv.last T k row hk hseq
        exact ⟨q, hlog' ▸ hq.append x _, hlast⟩
    · rw [hentry T hTS] at hk
      obtain ⟨q, hq, hlast⟩ := hinv.last T k row hk hseq
      exact ⟨q, hlog' ▸ hq.append x _, hlast⟩
  · intro T
    by_cases hTS : T = S
    · subst hTS
      rw [hfold, List.map_append, List.map_singleton, List.nodup_append]
      refine ⟨hinv.nodup T, by simp, ?_⟩
      intro key hkey key' hkey' he
      obtain ⟨q, hq, rfl⟩ := List.mem_map.mp hkey
      obtain rfl := List.mem_singleton.mp hkey'
      exact hinv.fresh hinc hacks (List.mem_of_getElem? hlog) hnode hnew hearlier q hq he
    · rw [hother hTS]
      exact hinv.nodup T

/-- A boot forgets what was accepted together with every row. -/
theorem DupInv.boot {moves : List (Move Network NetAction)} {n : Network} (hinv : DupInv moves n)
    (S : Mac) (link : LoRaLinkConfig) (r : SetupResults) (x : Move Network NetAction) :
    DupInv (moves ++ [x]) (n.stationBoot S link r) := by
  have hempty (m : Mac) : (substationSetup link r).entry m = none := by
    simp [entry, substationSetup_joined, reset, KeyedList.lookup]
  have hfold : acceptedSinceBoot S (n.stationBoot S link r).log = [] := by
    simp [stationBoot, acceptedSinceBoot]
  have hother {T : Mac} (hTS : T ≠ S) :
      acceptedSinceBoot T (n.stationBoot S link r).log = acceptedSinceBoot T n.log :=
    acceptedSinceBoot_append (by simp) (by simp [hTS])
  refine ⟨fun T q hq => ?_, fun T k row hk hseq => ?_, fun T => ?_⟩
  all_goals by_cases hTS : T = S
  · subst hTS
    simp [hfold] at hq
  · rw [hother hTS] at hq
    obtain ⟨k, row, hk, hrow⟩ := hinv.accepted T q hq
    exact ⟨k, row, hk.append x _, by simpa [stationBoot, hTS] using hrow⟩
  · subst hTS
    simp [stationBoot, hempty] at hk
  · obtain ⟨q, hq, hlast⟩ := hinv.last T k row (by simpa [stationBoot, hTS] using hk) hseq
    exact ⟨q, hq.append x _, hlast⟩
  · subst hTS
    simp [hfold]
  · rw [hother hTS]
    exact hinv.nodup T

private theorem dupInv_step {uidOf : Mac → Uid} {moves : List (Move Network NetAction)} {n n' : Network} {a : NetAction}
    (hinv : DupInv moves n) (hnet : NetInv uidOf n) (htable : ∀ S, TableInv uidOf (n.stations S)) (hacks : AckInv n)
    (hseqs : SeqInv n) (hs : NetStep uidOf n a n') (hinc : IncreasingSeqs n.log)
    (horder : InOrder (moves ++ [⟨n, a, n'⟩])) : DupInv (moves ++ [⟨n, a, n'⟩]) n' := by
  have hnode (m : Mac) (i : LinkInput) (x : Move Network NetAction) : DupInv (moves ++ [x]) (n.nodeStep m i) := by
    have hnone (e : NetEvent) (he : e ∈ ((n.nodes m).step i).2.map (LinkEffect.event m)) :
        (∀ S p, e ≠ .accepted S p) ∧ ∀ S epoch, e ≠ .booted S epoch := by
      obtain ⟨f, _, rfl⟩ := List.mem_map.mp he
      cases f <;> simp [LinkEffect.event]
    exact hinv.frame x rfl (fun S => acceptedSinceBoot_append (fun p hp => (hnone _ hp).1 S p rfl)
      fun epoch he => (hnone _ he).2 S epoch rfl) fun _ _ _ _ => Iff.rfl
  have hquiet {S : Mac} {a : Substation.Action} (x : Move Network NetAction)
      (hacc : ∀ T p, .accepted T p ∉ ((n.stations S).act a).2.filterMap (Effect.event? S))
      (hboot : ∀ T epoch, .booted T epoch ∉ ((n.stations S).act a).2.filterMap (Effect.event? S))
      (hrows : ∀ m node, node.hasSeq = true →
        (((n.stations S).act a).1.entry m = some node ↔ (n.stations S).entry m = some node)) :
      DupInv (moves ++ [x]) (n.stationStep S a) := by
    refine hinv.frame x rfl (fun T => acceptedSinceBoot_append (hacc T) (hboot T)) fun T m node hseq => ?_
    by_cases hTS : T = S
    · subst hTS
      simpa [stationStep] using hrows m node hseq
    · simp [stationStep, hTS]
  cases hs with
  | node => exact hnode _ _ _
  | nodeHears => exact hnode _ _ _
  | nodeReboots => exact hinv.frame _ (List.append_nil _).symm (fun _ => rfl) fun _ _ _ _ => Iff.rfl
  | @station S a _ ha =>
    rcases (station_change (htable S) ha.fromAir S).2.rows with ⟨hacc, hboot, hrows⟩ | ⟨m, p, peerOk, node, rfl, _⟩
    · exact hquiet _ hacc hboot hrows
    · exact ha.elim
  | @stationHears S index pkt peerOk _ hheard =>
    have hair : FromAir uidOf (.frame pkt.src pkt.data peerOk) := ⟨_, hnet.fromAir hheard⟩
    rcases (station_change (htable S) hair S).2.rows with ⟨hacc, hboot, hrows⟩ |
      ⟨m, p, _, node, heq, hrow, hnew, hentry, hdone⟩
    · exact hquiet _ hacc hboot hrows
    · obtain ⟨hsrc, hdata, _⟩ := Substation.Action.frame.inj heq
      have hpkt : pkt = readingPacket m pkt.dst p := by rw [readingPacket, ← hsrc, ← hdata]
      have hlog : n.log[index]? = some (.sent (readingPacket m pkt.dst p)) := hpkt ▸ hheard.1
      refine hinv.accept hseqs hinc hacks hlog hrow hnew ?_ horder ?_ (fun T hTS => ?_) ?_
      · simp [stationHeard, hlog, readingPacket]
      · rw [stationStep, hdone]
      · simp [stationStep, hTS]
      · simpa [stationStep] using hentry
  | stationBoots => exact hinv.boot _ _ _ _

/-- With each sender's frames heard in order and seqs that increase, within one
boot of a substation no reading is pushed into its buffer twice. -/
theorem reading_accepted_once {uidOf : Mac → Uid} {moves : List (Move Network NetAction)} {n : Network}
    (hrun : Run (NetStep uidOf) (start uidOf) moves n) (horder : InOrder moves)
    (hinc : IncreasingSeqs n.log) (S : Mac) :
    ((acceptedSinceBoot S n.log).map fun p => (p.uid, p.seq)).Nodup := by
  refine (hrun.invariant (fun moves n => InOrder moves → IncreasingSeqs n.log → DupInv moves n) (fun _ _ => ?_) ?_
    horder hinc).nodup S
  · refine ⟨?_, ?_, ?_⟩ <;> simp [start, acceptedSinceBoot, reset, entry, KeyedList.lookup]
  · intro moves n a n' hrun ih hs horder hinc
    have hbefore : InOrder moves := by
      rw [InOrder, List.filterMap_append] at horder
      exact (List.pairwise_append.mp horder).1
    obtain ⟨done, hlog⟩ := log_grows hs
    have hinc' : IncreasingSeqs n.log := (hlog ▸ hinc).of_append
    exact dupInv_step (ih hbefore hinc') (netInv_run hrun) (tableInv_run hrun) (ackInv_run hrun)
      (seqInv_run hrun hinc') hs hinc' horder

def hearIndex : NetAction → Option Nat
  | .stationHears _ index _ => some index
  | _ => none

/-- Frames heard in the order of the whole log are heard in order. -/
theorem inOrder_of_hearIndex {moves : List (Move Network NetAction)}
    (h : ((moves.map (·.label)).filterMap hearIndex).Pairwise (· ≤ ·)) : InOrder moves := by
  have hsub : ((moves.filterMap stationHeard).map (·.2.2)).Sublist ((moves.map (·.label)).filterMap hearIndex) := by
    clear h
    induction moves with
    | nil => simp
    | cons x rest ih =>
      cases hx : stationHeard x with
      | none =>
        rw [List.filterMap_cons_none hx, List.map_cons, List.filterMap_cons]
        split
        · exact ih
        · exact ih.cons _
      | some heard =>
        have hlabel : hearIndex x.label = some heard.2.2 := by
          unfold stationHeard at hx
          split at hx
          · split at hx
            · obtain rfl := Option.some.inj hx
              simp [hearIndex, *]
            · cases hx
          · cases hx
        rw [List.filterMap_cons_some hx, List.map_cons, List.map_cons, List.filterMap_cons_some hlabel]
        exact ih.cons_cons _
  exact (List.pairwise_map.mp (h.sublist hsub)).imp fun hle _ _ => hle

/-- A reading whose ACK was lost and that was sent again is heard twice, at
indices 5 and 10, and pushed once. -/
theorem reading_accepted_once_resentDelivery : ∃ (moves : List (Move Network NetAction)) (n : Network) (m S : Mac)
    (p : Payload), (moves.map (·.label)).filterMap hearIndex = [3, 5, 8, 10] ∧
      n.log[5]? = some (.sent (readingPacket m S p)) ∧ n.log[10]? = some (.sent (readingPacket m S p)) ∧
      acceptedSinceBoot S n.log = [p] ∧ ((acceptedSinceBoot S n.log).map fun p => (p.uid, p.seq)).Nodup := by
  let p : Payload := ⟨Vector.replicate uidLen 1, 1, 0, 0, 0, 1, 1, 1⟩
  obtain ⟨moves, n, hrun, hlabels, hlog⟩ :=
    run_resentDelivery (fun _ => p.uid) (m := Vector.replicate 6 2) (by decide) (Vector.replicate 6 3) ⟨3, 1000⟩ 7
      (p := p) rfl
  have hhears : (moves.map (·.label)).filterMap hearIndex = [3, 5, 8, 10] := by
    rw [hlabels]
    rfl
  have horder : InOrder moves := by
    apply inOrder_of_hearIndex
    rw [hhears]
    decide
  have hinc : IncreasingSeqs n.log := by
    rw [hlog]
    exact List.pairwise_singleton _ (Vector.replicate 6 2, p)
  refine ⟨moves, n, Vector.replicate 6 2, Vector.replicate 6 3, p, hhears, ?_, ?_, ?_,
    reading_accepted_once hrun horder hinc _⟩
  · rw [hlog]
    rfl
  · rw [hlog]
    rfl
  · rw [hlog]
    simp [acceptedSinceBoot, resentDeliveryLog, firstAcceptanceLog]

end IotFirmware.Network
