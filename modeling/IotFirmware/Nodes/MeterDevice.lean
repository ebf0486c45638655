import IotFirmware.Buffering.SeqCounter
import IotFirmware.Nodes.MeterPrograms

/-! A meter node as a device: its program, its sequence counter in flash, and
what reboots and power cuts do to both. -/
namespace IotFirmware

namespace SeqCounter

/-- While no flash write fails: the last number in use and all numbers returned,
before they are reduced modulo 2^32. -/
structure Drawn (stored : UInt32) (moves : History) (s : State) (top : ℕ) (drawn : List ℕ) : Prop where
  stored_eq : s.stored = UInt32.ofNat top
  loaded : s.opened = true → s.seq = s.stored
  top_le : top ≤ stored.toNat + calls moves
  drawn_le : ∀ c ∈ drawn, stored.toNat < c ∧ c ≤ top
  le_top : stored.toNat ≤ top
  order : drawn.Pairwise (· < ·)
  returned_eq : moves.filterMap returned = drawn.map UInt32.ofNat

theorem Drawn.step {stored : UInt32} {moves : History} {s : State} {top : ℕ} {drawn : List ℕ}
    (h : Drawn stored moves s top drawn) {a : Action} (hen : Enabled s a) (hsaved : a ≠ .next false) :
    ∃ top drawn, Drawn stored (moves ++ [⟨s, a, act s a⟩]) (act s a) top drawn := by
  obtain ⟨hstored, hloaded, htop, hdrawn, hle, horder, hreturned⟩ := h
  have hnext (hopen : s.opened = true) : s.seq + 1 = UInt32.ofNat (top + 1) := by
    rw [hloaded hopen, hstored, UInt32.ofNat_add]
    rfl
  have hcalls (x : Move State Action) : top ≤ stored.toNat + calls (moves ++ [x]) := by
    rw [calls_append]
    omega
  have hhigher : ∀ c ∈ drawn, stored.toNat < c ∧ c ≤ top + 1 :=
    fun c hc => ⟨(hdrawn c hc).1, (hdrawn c hc).2.trans (Nat.le_succ _)⟩
  have hshut {p : Prop} (h : false = true) : p := absurd h Bool.false_ne_true
  cases a with
  | begin opens =>
    refine ⟨top, drawn, ?_, ?_, hcalls _, hdrawn, hle, horder, by simp [hreturned, returned]⟩
    · cases opens <;> exact hstored
    · cases opens <;> simp [act, seqCounterBegin]
  | next saves =>
    cases saves with
    | false => exact absurd rfl hsaved
    | true =>
      refine ⟨top + 1, drawn ++ [top + 1], hnext hen, fun _ => rfl, ?_, ?_, by omega, ?_, ?_⟩
      · rw [calls_append]
        simp [calls] at htop ⊢
        omega
      · rw [List.forall_mem_append, List.forall_mem_singleton]
        exact ⟨hhigher, by omega, le_rfl⟩
      · refine List.pairwise_append.mpr ⟨horder, List.pairwise_singleton _ _, fun c hc d hd => ?_⟩
        obtain rfl := List.mem_singleton.mp hd
        exact Nat.lt_succ_of_le (hdrawn c hc).2
      · simp [hreturned, returned, seqNext, hnext hen]
  | cut saves =>
    cases saves with
    | false => exact ⟨top, drawn, hstored, hshut, hcalls _, hdrawn, hle, horder, by simp [hreturned, returned]⟩
    | true =>
      refine ⟨top + 1, drawn, hnext hen, hshut, ?_, hhigher, by omega, horder, by simp [hreturned, returned]⟩
      rw [calls_append]
      simp [calls] at htop ⊢
      omega
  | reboot => exact ⟨top, drawn, hstored, hshut, hcalls _, hdrawn, hle, horder, by simp [hreturned, returned]⟩

/-- A device on which no flash write fails draws no number twice in 2^32 calls. -/
theorem returned_nodup {stored : UInt32} {moves : History} {s : State} (h : Run Step ⟨stored, 0, false⟩ moves s)
    (hsaved : ∀ x ∈ moves, x.label ≠ .next false) (hfew : calls moves < 2 ^ 32) : (moves.filterMap returned).Nodup := by
  let Inv (moves : History) (s : State) : Prop :=
    (∀ x ∈ moves, x.label ≠ .next false) → ∃ top drawn, Drawn stored moves s top drawn
  have hstart : Inv [] ⟨stored, 0, false⟩ :=
    fun _ => ⟨stored.toNat, [], by simp, nofun, Nat.le_add_right _ _, by simp, le_rfl, .nil, rfl⟩
  obtain ⟨top, drawn, hd⟩ := h.invariant Inv hstart (by
    rintro moves s a _ - ih ⟨hen, rfl⟩ hsaved
    rw [List.forall_mem_append, List.forall_mem_singleton] at hsaved
    obtain ⟨top, drawn, hd⟩ := ih hsaved.1
    exact hd.step hen hsaved.2) hsaved
  rw [hd.returned_eq, List.nodup_map_iff_inj_on (hd.order.imp fun h => h.ne)]
  intro c hc d hd' hcd
  have hmod := congrArg UInt32.toNat hcd
  simp only [UInt32.toNat_ofNat'] at hmod
  have hc' := hd.drawn_le c hc
  have hd'' := hd.drawn_le d hd'
  have htop := hd.top_le
  omega

end SeqCounter

/-- A meter node: its program's state, its counter, whether its set up succeeded,
and the passes its program has made over its boots. -/
structure Device (P : NodeProgram) where
  state : P.State
  counter : SeqCounter.State
  setupOk : Bool
  history : List (Move P.State P.Input)

namespace Device
variable {P : NodeProgram}

def new (P : NodeProgram) (stored : UInt32) : Device P := ⟨P.start, ⟨stored, 0, false⟩, false, []⟩

/-- A boot: `opens` is the result of `seqCounterBegin`, `rest` that of the other
checks of the bring up. -/
def boot (d : Device P) (opens rest : Bool) : Device P :=
  { d with
    state := P.start
    counter := (SeqCounter.seqCounterBegin opens (SeqCounter.reboot d.counter)).2
    setupOk := opens && rest }

/-- A loop pass, and the payload it hands to `send`, if any: only then has it
drawn a number, saved or not. -/
def pass (d : Device P) (i : P.Input) (saves : Bool) : Device P × Option Payload :=
  let drawn := SeqCounter.seqNext saves d.counter
  let x := P.move d.state i drawn.1
  match sentIn P.loop x with
  | [] => ({ d with state := x.after, history := d.history ++ [x] }, none)
  | p :: _ => ({ d with state := x.after, counter := drawn.2, history := d.history ++ [x] }, some p)

def cut (d : Device P) (saves : Bool) : Device P :=
  { d with counter := SeqCounter.reboot (SeqCounter.seqNext saves d.counter).2, setupOk := false }

end Device

/-- What holds of a device at every point: its number draws are a run of the
counter, with every write saved if `saved`, `called` is what it has handed to
`send`, and its sends are fresh over all its boots. -/
structure DeviceAt {P : NodeProgram} (stored : UInt32) (saved : Prop) (called : List Payload) (cuts : ℕ) (d : Device P)
    (draws : SeqCounter.History) (earlier since : List (Move P.State P.Input)) : Prop where
  up : d.setupOk = true → d.counter.opened = true
  run : Run SeqCounter.Step ⟨stored, 0, false⟩ draws d.counter
  writes : saved → ∀ x ∈ draws, x.label ≠ .next false
  returned_eq : draws.filterMap SeqCounter.returned = called.map (·.seq)
  calls_eq : SeqCounter.calls draws = called.length + cuts
  history_eq : d.history = earlier ++ since
  earlier_fresh : FreshSends P.loop P.Reads earlier
  inv : P.Inv since d.state
  sent_eq : d.history.flatMap (sentIn P.loop) = called
  owner_eq : ∀ p ∈ called, p.owner = P.owner

def DeviceInv {P : NodeProgram} (stored : UInt32) (saved : Prop) (called : List Payload) (cuts : ℕ) (d : Device P) :
    Prop :=
  ∃ draws earlier since, DeviceAt stored saved called cuts d draws earlier since

namespace DeviceInv
variable {P : NodeProgram} {stored : UInt32} {saved : Prop} {called : List Payload} {cuts : ℕ} {d : Device P}

theorem new (P : NodeProgram) (stored : UInt32) (saved : Prop) : DeviceInv stored saved [] 0 (Device.new P stored) :=
  ⟨[], [], [], nofun, .nil, by simp, rfl, rfl, rfl, freshSends_nil, P.inv_start, rfl, by simp⟩

theorem mono (h : DeviceInv stored saved called cuts d) {saved' : Prop} (hsaved : saved' → saved) :
    DeviceInv stored saved' called cuts d := by
  obtain ⟨draws, earlier, since, h⟩ := h
  exact ⟨draws, earlier, since, { h with writes := fun hs => h.writes (hsaved hs) }⟩

theorem fresh (h : DeviceInv stored saved called cuts d) : FreshSends P.loop P.Reads d.history := by
  obtain ⟨draws, earlier, since, h⟩ := h
  rw [h.history_eq]
  exact h.earlier_fresh.append (P.fresh h.inv)

/-- What a device has handed to `send` over its boots is what its programs sent. -/
theorem sent_eq (h : DeviceInv stored saved called cuts d) : d.history.flatMap (sentIn P.loop) = called := by
  obtain ⟨draws, earlier, since, h⟩ := h
  exact h.sent_eq

theorem owner_eq (h : DeviceInv stored saved called cuts d) : ∀ p ∈ called, p.owner = P.owner := by
  obtain ⟨draws, earlier, since, h⟩ := h
  exact h.owner_eq

theorem boot (h : DeviceInv stored saved called cuts d) (opens rest : Bool) :
    DeviceInv stored saved called cuts (d.boot opens rest) := by
  have hfresh := h.fresh
  obtain ⟨draws, earlier, since, h⟩ := h
  have hreboot : SeqCounter.Step d.counter .reboot (SeqCounter.reboot d.counter) := ⟨trivial, rfl⟩
  have hbegin : SeqCounter.Step (SeqCounter.reboot d.counter) (.begin opens) (d.boot opens rest).counter :=
    ⟨trivial, rfl⟩
  refine ⟨_, d.history, [], ?_, (h.run.snoc hreboot).snoc hbegin, ?_, ?_, ?_, (List.append_nil _).symm, hfresh,
    P.inv_start, h.sent_eq, h.owner_eq⟩
  · intro hup
    obtain ⟨rfl, _⟩ := Bool.and_eq_true_iff.mp hup
    rfl
  · simpa [or_imp, forall_and] using h.writes
  · simp [h.returned_eq, SeqCounter.returned]
  · rw [SeqCounter.calls_append, SeqCounter.calls_append, h.calls_eq]
    rfl

theorem cut (h : DeviceInv stored saved called cuts d) (hup : d.setupOk = true) (saves : Bool) :
    DeviceInv stored saved called (cuts + 1) (d.cut saves) := by
  obtain ⟨draws, earlier, since, h⟩ := h
  have hcut : SeqCounter.Step d.counter (.cut saves) (d.cut saves).counter := ⟨h.up hup, rfl⟩
  refine ⟨_, earlier, since, nofun, h.run.snoc hcut, ?_, ?_, ?_, h.history_eq, h.earlier_fresh, h.inv, h.sent_eq,
    h.owner_eq⟩
  · simpa [or_imp, forall_and] using h.writes
  · simp [h.returned_eq, SeqCounter.returned]
  · rw [SeqCounter.calls_append, h.calls_eq]
    rfl

/-- A pass that sends hands over one payload, of the number it drew. -/
theorem pass (h : DeviceInv stored saved called cuts d) (hup : d.setupOk = true) (i : P.Input) (saves : Bool) :
    DeviceInv stored (saved ∧ saves = true) (called ++ (d.pass i saves).2.toList) cuts (d.pass i saves).1 ∧
      ∀ p, (d.pass i saves).2 = some p → p.owner = P.owner := by
  obtain ⟨draws, earlier, since, h⟩ := h
  let drawn := SeqCounter.seqNext saves d.counter
  let x := P.move d.state i drawn.1
  have hinv : P.Inv (since ++ [x]) x.after := P.inv_loop _ _ _ h.inv
  have hsent : (d.history ++ [x]).flatMap (sentIn P.loop) = called ++ sentIn P.loop x := by
    simp [h.sent_eq]
  have hhistory : d.history ++ [x] = earlier ++ (since ++ [x]) := by rw [h.history_eq, List.append_assoc]
  rcases P.sends i drawn.1 h.inv with hnone | ⟨p, hone, howner, hseq⟩
  · have hpass : d.pass i saves = ({ d with state := x.after, history := d.history ++ [x] }, none) := by
      simp only [Device.pass]
      rw [show sentIn P.loop (P.move d.state i (SeqCounter.seqNext saves d.counter).1) = [] from hnone]
    rw [hpass]
    rw [show sentIn P.loop x = [] from hnone, List.append_nil] at hsent
    refine ⟨⟨draws, earlier, _, h.up, h.run, fun hs => h.writes hs.1, ?_, ?_, hhistory, h.earlier_fresh, hinv, ?_, ?_⟩,
      nofun⟩
    · simpa using h.returned_eq
    · simpa using h.calls_eq
    · simpa using hsent
    · simpa using h.owner_eq
  · have hpass : d.pass i saves =
        ({ d with state := x.after, counter := drawn.2, history := d.history ++ [x] }, some p) := by
      simp only [Device.pass]
      rw [show sentIn P.loop (P.move d.state i (SeqCounter.seqNext saves d.counter).1) = [p] from hone]
    have hnext : SeqCounter.Step d.counter (.next saves) drawn.2 := ⟨h.up hup, rfl⟩
    rw [hpass]
    rw [show sentIn P.loop x = [p] from hone] at hsent
    refine ⟨⟨_, earlier, _, h.up, h.run.snoc hnext, ?_, ?_, ?_, hhistory, h.earlier_fresh, hinv, hsent, ?_⟩, ?_⟩
    · rintro ⟨hs, rfl⟩
      rw [List.forall_mem_append, List.forall_mem_singleton]
      exact ⟨h.writes hs, by simp⟩
    · simp [h.returned_eq, SeqCounter.returned, hseq, drawn]
    · have hone : SeqCounter.calls [⟨d.counter, .next saves, drawn.2⟩] = 1 := rfl
      rw [SeqCounter.calls_append, h.calls_eq, hone, List.length_append, Option.toList_some, List.length_singleton]
      omega
    · rw [List.forall_mem_append]
      exact ⟨h.owner_eq, by simpa using howner⟩
    · rintro q hq
      obtain rfl := Option.some.inj hq
      exact howner

/-- While no flash write fails and few numbers are drawn, no two payloads handed
to `send` carry the same number. -/
theorem seq_nodup (h : DeviceInv stored saved called cuts d) (hsaved : saved) (hfew : called.length + cuts < 2 ^ 32) :
    (called.map (·.seq)).Nodup := by
  obtain ⟨draws, earlier, since, h⟩ := h
  rw [← h.returned_eq]
  exact SeqCounter.returned_nodup h.run (h.writes hsaved) (h.calls_eq ▸ hfew)

end DeviceInv
end IotFirmware
