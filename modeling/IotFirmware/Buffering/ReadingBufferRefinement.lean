import IotFirmware.Foundation.FifoMap
import IotFirmware.Buffering.ReadingBufferInvariant

/-! The reading buffer refines a map from UID to a bounded FIFO: any sequence of
calls gets the answers that abstract object allows. -/
namespace IotFirmware.ReadingBufferRefinement
open ReadingBuffer

/-- One call to the buffer. `peek` carries its output's previous value. -/
inductive Call where
  | push (p : Payload)
  | peek (out : Payload)
  | pop
  | count
  | clear

inductive Answer where
  | pushed (ok : Bool)
  | peeked (ok : Bool) (out : Payload)
  | done
  | total (n : Nat)
  deriving DecidableEq, Repr

def call (b : ReadingBuffer) : Call → Answer × ReadingBuffer
  | .push p => (.pushed (readingBufferPush b p).1, (readingBufferPush b p).2)
  | .peek out => (.peeked (readingBufferPeek b out).1 (readingBufferPeek b out).2.1,
      (readingBufferPeek b out).2.2)
  | .pop => (.done, readingBufferPop b)
  | .count => (.total (readingBufferCount b), b)
  | .clear => (.done, readingBufferClear b)

def calls (b : ReadingBuffer) : List Call → List (Call × Answer) × ReadingBuffer
  | [] => ([], b)
  | c :: rest =>
    let (answer, b') := call b c
    let (answers, final) := calls b' rest
    ((c, answer) :: answers, final)

/-- The abstract object: at most 8 UIDs, each with at most 288 readings. -/
abbrev Store := FifoMap Uid Identity Reading readingBufferMaxNodes readingsPerNode

def entry (p : Payload) : FifoMap.Entry Uid Identity Reading := ⟨p.uid, p.identity, p.reading⟩

def absCall : Call → FifoMap.Call Uid Identity Reading
  | .push p => .push (entry p)
  | .peek out => .peek (entry out)
  | .pop => .pop
  | .count => .count
  | .clear => .clear

def absAnswer : Answer → FifoMap.Answer Uid Identity Reading
  | .pushed ok => .pushed ok
  | .peeked ok out => .peeked ok (entry out)
  | .done => .done
  | .total n => .total n

def absLabel (x : Call × Answer) : FifoMap.Call Uid Identity Reading × FifoMap.Answer Uid Identity Reading :=
  (absCall x.1, absAnswer x.2)

def keys (b : ReadingBuffer) : Finset Uid :=
  (Finset.univ.filter fun i => (b.slot i).used = true).image fun i => (b.slot i).uid

theorem card_keys {b : ReadingBuffer} (hv : Valid b) :
    (keys b).card = (Finset.univ.filter fun i => (b.slot i).used = true).card := by
  apply Finset.card_image_of_injOn
  intro i hi j hj he
  exact hv.uid_inj i j (by simpa using hi) (by simpa using hj) he

private theorem card_keys_lt {b : ReadingBuffer} (hv : Valid b) {i : SlotIndex} (hi : (b.slot i).used = false) :
    (keys b).card < readingBufferMaxNodes := by
  rw [card_keys hv]
  have hlt := Finset.card_lt_card (Finset.filter_ssubset.mpr
    ⟨i, Finset.mem_univ i, by simp [hi]⟩ : Finset.univ.filter (fun i => (b.slot i).used = true) ⊂ Finset.univ)
  simpa using hlt

theorem card_keys_full {b : ReadingBuffer} (hv : Valid b) (h : ∀ i, (b.slot i).used = true) :
    (keys b).card = readingBufferMaxNodes := by
  rw [card_keys hv, Finset.filter_true_of_mem fun i _ => h i]
  simp

theorem mem_keys {b : ReadingBuffer} (hv : Valid b) (u : Uid) : u ∈ keys b ↔ (b.held u).isSome := by
  simp only [keys, Finset.mem_image, Finset.mem_filter, Finset.mem_univ, true_and]
  constructor
  · rintro ⟨i, hi, rfl⟩
    simp [held_of_used hv hi]
  · intro h
    obtain ⟨e, he⟩ := Option.isSome_iff_exists.mp h
    obtain ⟨i, hi, hu, _⟩ := used_of_held he
    exact ⟨i, hi, hu⟩

def store (b : ReadingBuffer) (hv : Valid b) : Store where
  held := b.held
  keys := keys b
  peeked := b.peeked
  mem_keys := mem_keys hv
  card_keys := by
    rw [card_keys hv]
    exact (Finset.card_filter_le _ _).trans (by simp)
  items_ne u i l h := by
    obtain ⟨j, hj, _, he⟩ := used_of_held h
    obtain ⟨rfl, rfl⟩ := Prod.mk.inj he
    rw [contents_eq_cons hv hj]
    simp
  items_le u i l h := by
    obtain ⟨j, _, _, he⟩ := used_of_held h
    obtain ⟨rfl, rfl⟩ := Prod.mk.inj he
    simpa using hv.count_le j
  peeked_oldest u r h := held_of_peeked hv h

/-- The total the count loop returns is the number of readings held. -/
theorem readingBufferCount_eq {b : ReadingBuffer} (hv : Valid b) :
    readingBufferCount b = (store b hv).total := by
  have hsum : readingBufferCount b = ∑ i, (b.slot i).ring.count := by
    rw [Fin.sum_univ_def, readingBufferCount, List.sum_eq_foldl, List.foldl_map]
  have hfree : ∀ i ∈ Finset.univ, i ∉ Finset.univ.filter (fun i => (b.slot i).used = true) →
      (b.slot i).ring.count = 0 := by
    intro i _ hi
    have := mt (hv.used_iff i).mpr (by simpa using hi)
    omega
  have hkeys : (store b hv).total = ∑ i ∈ Finset.univ.filter (fun i => (b.slot i).used = true),
      ((store b hv).items (b.slot i).uid).length :=
    Finset.sum_image fun i hi j hj he => hv.uid_inj i j (by simpa using hi) (by simpa using hj) he
  rw [hsum, hkeys, ← Finset.sum_subset (Finset.filter_subset _ _) hfree]
  refine Finset.sum_congr rfl fun i hi => ?_
  rw [FifoMap.items_of_held (held_of_used hv (by simpa using hi)), Ring.contents_length]

private theorem store_boot : store boot valid_boot = FifoMap.empty := by
  apply FifoMap.ext_held
  · funext u
    have hfree : ∀ i, (boot.slot i).used = true → (boot.slot i).uid ≠ u := by simp [NodeSlot.zero]
    exact held_eq_none hfree
  · rfl

/-- `Represents b m`: the buffer respects its invariant and stands for `m`. -/
def Represents (b : ReadingBuffer) (m : Store) : Prop := ∃ hv : Valid b, store b hv = m

/-- Every call from a represented state is a step of the abstract object. -/
theorem call_simulates (b : ReadingBuffer) (m : Store) (c : Call) (h : Represents b m) :
    ∃ m', FifoMap.Step m (absLabel (c, (call b c).1)) m' ∧ Represents (call b c).2 m' := by
  obtain ⟨hv, rfl⟩ := h
  cases c with
  | push p =>
    rcases readingBufferPush_cases hv p with ⟨i, l, b', hheld, he, hv', hheld', hpeeked, _⟩ |
      ⟨b', hheld, ⟨i, hi⟩, he, hv', hheld', hpeeked, _⟩ | ⟨hheld, hall, he⟩
    · refine ⟨store b' hv', ?_, ?_⟩
      · simp only [call, he]
        exact .pushKnown hheld hheld' hpeeked
      · exact ⟨by simpa [call, he] using hv', by simp [call, he]⟩
    · refine ⟨store b' hv', ?_, ?_⟩
      · simp only [call, he]
        exact .pushNew hheld (card_keys_lt hv hi) hheld' hpeeked
      · exact ⟨by simpa [call, he] using hv', by simp [call, he]⟩
    · refine ⟨store b hv, ?_, ?_⟩
      · simp only [call, he]
        exact .pushRefused hheld (card_keys_full hv hall)
      · exact ⟨by simpa [call, he] using hv, by simp [call, he]⟩
  | peek out =>
    obtain ⟨hv', hheld⟩ := readingBufferPeek_valid hv out
    refine ⟨store _ hv', ?_, ⟨hv', rfl⟩⟩
    rcases readingBufferPeek_cases hv out with ⟨i, hi, he⟩ | ⟨hfree, he⟩
    · have hget := held_of_used hv hi
      rw [contents_eq_cons hv hi] at hget
      have hstep : FifoMap.Step (store b hv) (.peek (entry out), _) (store _ hv') :=
        .peekSome hget hheld (by simp [store, he, peeked, ReadingBuffer.slot])
      simpa [call, he, absLabel, absCall, absAnswer, entry, NodeSlot.payload, Payload.identity,
        Payload.reading] using hstep
    · have hstep : FifoMap.Step (store b hv) (.peek (entry out), _) (store _ hv') :=
        .peekNone (by simp [store, keys, hfree]) hheld (by simp [store, he, peeked])
      simpa [call, he, absLabel, absCall, absAnswer] using hstep
  | pop =>
    rcases readingBufferPop_cases hv with ⟨hnone, he⟩ | ⟨u, r, i, l, hpeek, hheld, hv', hheld', hpeeked⟩
    · exact ⟨store b hv, .popNothing hnone, by simpa [call, he] using ⟨hv, rfl⟩⟩
    · exact ⟨store _ hv', .popPeeked hpeek hheld hheld' hpeeked, ⟨hv', rfl⟩⟩
  | count =>
    refine ⟨store b hv, ?_, ⟨hv, rfl⟩⟩
    simpa [absLabel, call, absCall, absAnswer, readingBufferCount_eq hv] using
      FifoMap.Step.count (m := store b hv)
  | clear => exact ⟨FifoMap.empty, .clear, ⟨valid_boot, store_boot⟩⟩

/-- The buffer as a transition system: a call with its answer is one step. -/
def CallStep (b : ReadingBuffer) (x : Call × Answer) (b' : ReadingBuffer) : Prop := call b x.1 = (x.2, b')

private theorem run_calls (cs : List Call) (b : ReadingBuffer) :
    ∃ moves, Run CallStep b moves (calls b cs).2 ∧ moves.map (·.label) = (calls b cs).1 := by
  induction cs generalizing b with
  | nil => exact ⟨[], .nil, rfl⟩
  | cons c rest ih =>
    obtain ⟨moves, hrun, hlabels⟩ := ih (call b c).2
    have hstep : CallStep b (c, (call b c).1) (call b c).2 := rfl
    exact ⟨_, hrun.cons hstep, by simp [calls, hlabels]⟩

/-- From boot, whatever is called in whatever order, the fixed slots and rings
answer as the map of bounded FIFOs does. -/
theorem readingBuffer_refines (cs : List Call) :
    ∃ moves m, Run FifoMap.Step FifoMap.empty moves m ∧
      moves.map (·.label) = (calls boot cs).1.map absLabel ∧ Represents (calls boot cs).2 m := by
  obtain ⟨moves, hrun, hlabels⟩ := run_calls cs boot
  have hstep : ∀ b m x b', Represents b m → CallStep b x b' →
      ∃ m', FifoMap.Step m (absLabel x) m' ∧ Represents b' m' := by
    rintro b m ⟨c, answer⟩ b' hrep he
    have h := call_simulates b m c hrep
    rw [show call b c = (answer, b') from he] at h
    exact h
  obtain ⟨moves', m, hrun', hlabels', hrep⟩ :=
    hrun.simulate Represents absLabel hstep ⟨valid_boot, store_boot⟩
  refine ⟨moves', m, hrun', ?_, hrep⟩
  rw [hlabels', ← hlabels, List.map_map]
  rfl

end IotFirmware.ReadingBufferRefinement
