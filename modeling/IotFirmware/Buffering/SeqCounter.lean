import IotFirmware.Foundation.Runs

/-! The reading sequence number, kept in RAM and in flash: what a device hands out
over reboots, power cuts and failing flash writes. -/
namespace IotFirmware.SeqCounter

/-- The counter of a device: its flash key, its RAM copy, and whether the flash
namespace was opened since boot. -/
structure State where
  stored : UInt32
  seq : UInt32 := 0
  opened : Bool := false

def seqCounterBegin (opens : Bool) (s : State) : Bool × State :=
  if opens then (true, { s with seq := s.stored, opened := true }) else (false, { s with opened := false })

/-- Increments the sequence number and saves it, whether or not the write succeeds. -/
def seqNext (saves : Bool) (s : State) : UInt32 × State :=
  let seq := s.seq + 1
  (seq, { s with seq, stored := if saves then seq else s.stored })

def reboot (s : State) : State := { stored := s.stored }

/-- What happens to a device. `cut` is a `seqNext` that a power cut ends before it
returns, with its write done or not. -/
inductive Action where
  | begin (opens : Bool)
  | next (saves : Bool)
  | cut (saves : Bool)
  | reboot
  deriving DecidableEq

def act (s : State) : Action → State
  | .begin opens => (seqCounterBegin opens s).2
  | .next saves => (seqNext saves s).2
  | .cut saves => SeqCounter.reboot (seqNext saves s).2
  | .reboot => SeqCounter.reboot s

/-- Numbers are only drawn behind a `seqCounterBegin` that succeeded. -/
def Enabled (s : State) : Action → Prop
  | .next _ | .cut _ => s.opened = true
  | _ => True

def Step (s : State) (a : Action) (t : State) : Prop := Enabled s a ∧ t = act s a

abbrev History := List (Move State Action)

def returned (m : Move State Action) : Option UInt32 :=
  match m.label with
  | .next saves => some (seqNext saves m.before).1
  | _ => none

def calls (moves : History) : ℕ :=
  moves.countP fun m => match m.label with
    | .next _ | .cut _ => true
    | _ => false

theorem calls_append (front back : History) : calls (front ++ back) = calls front + calls back :=
  List.countP_append

/-- No number is returned twice within 2^32 calls. -/
def NeverRepeats (moves : History) : Prop :=
  ∀ front m mid m' back v, moves = front ++ m :: (mid ++ m' :: back) → calls (mid ++ [m']) < 2 ^ 32 →
    returned m = some v → returned m' ≠ some v

def Saves (m : Move State Action) : Prop := m.label = .next true ∨ m.label = .cut true

/-- The last number returned is not in flash: its write failed, and no later one succeeded. -/
def Unsaved (moves : History) : Prop :=
  ∃ front m back, moves = front ++ m :: back ∧ m.label = .next false ∧ ∀ x ∈ back, ¬ Saves x

/-- The counter as it would run without wrapping: in RAM, in flash, and the last returned. -/
structure Ledger where
  ram : ℕ
  flash : ℕ
  last : ℕ

def Ledger.act (g : Ledger) : Action → Ledger
  | .begin true => { g with ram := g.flash }
  | .next true => ⟨g.ram + 1, g.ram + 1, g.ram + 1⟩
  | .next false => ⟨g.ram + 1, g.flash, g.ram + 1⟩
  | .cut true => { g with flash := g.ram + 1 }
  | _ => g

/-- The device holds what the ledger holds, modulo 2^32. -/
structure Tracks (s : State) (g : Ledger) : Prop where
  stored : s.stored = UInt32.ofNat g.flash
  seq : s.opened = true → s.seq = UInt32.ofNat g.ram
  ahead : s.opened = true → g.flash ≤ g.ram
  drawn : s.opened = true → g.last ≤ g.ram

/-- The highest number in use: the one in RAM, or the one it will be loaded from. -/
def top (s : State) (g : Ledger) : ℕ := if s.opened then g.ram else g.flash

/-- One action keeps the ledger in step, as long as a begin finds the last number in flash. -/
theorem Tracks.act {s : State} {g : Ledger} {a : Action} (h : Tracks s g) (hen : Enabled s a)
    (hsaved : (∃ opens, a = .begin opens) → g.last ≤ g.flash) : Tracks (act s a) (g.act a) := by
  have hstored := h.stored
  cases a with
  | begin opens =>
    have hlast := hsaved ⟨opens, rfl⟩
    cases opens
    · exact ⟨hstored, by simp [SeqCounter.act, seqCounterBegin], by simp [SeqCounter.act, seqCounterBegin],
        by simp [SeqCounter.act, seqCounterBegin]⟩
    · exact ⟨hstored, fun _ => hstored, fun _ => le_rfl, fun _ => hlast⟩
  | next saves =>
    have hnext : s.seq + 1 = UInt32.ofNat (g.ram + 1) := by rw [h.seq hen, UInt32.ofNat_add]; rfl
    have hahead := h.ahead hen
    cases saves
    · exact ⟨hstored, fun _ => hnext, fun _ => Nat.le_succ_of_le hahead, fun _ => le_rfl⟩
    · exact ⟨hnext, fun _ => hnext, fun _ => le_rfl, fun _ => le_rfl⟩
  | cut saves =>
    have hnext : s.seq + 1 = UInt32.ofNat (g.ram + 1) := by rw [h.seq hen, UInt32.ofNat_add]; rfl
    cases saves
    · exact ⟨hstored, nofun, nofun, nofun⟩
    · exact ⟨hnext, nofun, nofun, nofun⟩
  | reboot => exact ⟨hstored, nofun, nofun, nofun⟩

/-- Only a call of `seqNext` puts a higher number in use, and only the next one. -/
theorem Tracks.top_act {s : State} {g : Ledger} {a : Action} (h : Tracks s g) (hen : Enabled s a) :
    top (SeqCounter.act s a) (g.act a) ≤ top s g + calls [⟨s, a, SeqCounter.act s a⟩] := by
  have hloaded : g.flash ≤ top s g := by
    unfold top
    split
    · exact h.ahead ‹_›
    · exact le_rfl
  have hram (hopen : s.opened = true) : top s g = g.ram := by simp [top, hopen]
  cases a with
  | begin opens =>
    apply Nat.le_add_right_of_le
    cases opens <;> simpa [SeqCounter.act, seqCounterBegin, top, Ledger.act] using hloaded
  | next saves =>
    rw [hram hen]
    cases saves <;> simp [SeqCounter.act, seqNext, top, Ledger.act, calls, show s.opened = true from hen]
  | cut saves =>
    have hahead := h.ahead hen
    rw [hram hen]
    cases saves
    · simp [SeqCounter.act, SeqCounter.reboot, seqNext, top, Ledger.act, calls]
      omega
    · simp [SeqCounter.act, SeqCounter.reboot, seqNext, top, Ledger.act, calls]
  | reboot =>
    apply Nat.le_add_right_of_le
    simpa [SeqCounter.act, SeqCounter.reboot, top, Ledger.act] using hloaded

def ledger (stored : UInt32) (moves : History) : Ledger :=
  moves.foldl (fun g m => g.act m.label) ⟨0, stored.toNat, 0⟩

private theorem ledger_snoc (stored : UInt32) (moves : History) (m : Move State Action) :
    ledger stored (moves ++ [m]) = (ledger stored moves).act m.label := by
  simp [ledger]

theorem Unsaved.snoc {moves : History} {x : Move State Action} (h : Unsaved moves) (hx : ¬ Saves x) :
    Unsaved (moves ++ [x]) := by
  obtain ⟨front, m, back, rfl, hm, hback⟩ := h
  refine ⟨front, m, back ++ [x], by simp, hm, ?_⟩
  intro y hy
  rcases List.mem_append.mp hy with hy | hy
  · exact hback y hy
  · obtain rfl := List.mem_singleton.mp hy
    exact hx

/-- Where flash is behind the last number returned, that number was never saved. -/
theorem unsaved_of_behind {g : Ledger} {moves : History} {x : Move State Action} {s : State} (h : Tracks s g)
    (hen : Enabled s x.label) (hbehind : g.flash < g.last → Unsaved moves)
    (hnow : (g.act x.label).flash < (g.act x.label).last) : Unsaved (moves ++ [x]) := by
  have hkept (hsame : g.act x.label = ⟨(g.act x.label).ram, g.flash, g.last⟩) (hx : ¬ Saves x) :
      Unsaved (moves ++ [x]) := by
    rw [hsame] at hnow
    exact (hbehind hnow).snoc hx
  cases hlabel : x.label with
  | begin opens =>
    apply hkept
    · cases opens <;> simp [hlabel, Ledger.act]
    · simp [Saves, hlabel]
  | next saves =>
    cases saves
    · exact ⟨moves, x, [], rfl, hlabel, by simp⟩
    · simp [hlabel, Ledger.act] at hnow
  | cut saves =>
    cases saves
    · apply hkept
      · simp [hlabel, Ledger.act]
      · simp [Saves, hlabel]
    · rw [hlabel] at hen
      have hdrawn := h.drawn hen
      simp only [hlabel, Ledger.act] at hnow
      omega
  | reboot =>
    apply hkept
    · simp [hlabel, Ledger.act]
    · simp [Saves, hlabel]

/-- What a history keeps: the ledger, and for each number returned that it is one
of the ledger's, not above the last, and that only calls made since put higher ones in use. -/
structure Inv (stored : UInt32) (moves : History) (s : State) : Prop where
  tracks : Tracks s (ledger stored moves)
  behind : (ledger stored moves).flash < (ledger stored moves).last → Unsaved moves
  numbers : ∀ front m mid v, moves = front ++ m :: mid → returned m = some v →
    ∃ c ≤ (ledger stored moves).last, v = UInt32.ofNat c ∧ top s (ledger stored moves) ≤ c + calls mid

theorem Inv.step {stored : UInt32} {moves : History} {s t : State} {a : Action} (h : Inv stored moves s)
    (hstep : Step s a t) (hsaved : (∃ opens, a = .begin opens) → ¬ Unsaved moves) :
    Inv stored (moves ++ [⟨s, a, t⟩]) t := by
  obtain ⟨hen, rfl⟩ := hstep
  have hlast (hbegin : ∃ opens, a = .begin opens) : (ledger stored moves).last ≤ (ledger stored moves).flash := by
    by_contra hbehind
    exact hsaved hbegin (h.behind (by omega))
  have htop := h.tracks.top_act hen
  refine ⟨?_, ?_, ?_⟩
  · rw [ledger_snoc]
    exact h.tracks.act hen hlast
  · rw [ledger_snoc]
    exact unsaved_of_behind h.tracks hen h.behind
  · intro front m mid v hsplit hv
    rw [ledger_snoc]
    have hmono : (ledger stored moves).last ≤ ((ledger stored moves).act a).last := by
      cases a with
      | next saves =>
        have hdrawn := h.tracks.drawn hen
        cases saves <;> exact Nat.le_succ_of_le hdrawn
      | begin opens => cases opens <;> exact le_rfl
      | cut saves => cases saves <;> exact le_rfl
      | reboot => exact le_rfl
    rcases List.eq_nil_or_concat mid with rfl | ⟨mid, x, rfl⟩
    · -- the number just returned
      obtain ⟨rfl, hm⟩ := List.append_inj' hsplit rfl
      obtain rfl := (List.cons.inj hm).1
      cases a with
      | next saves =>
        have hseq := h.tracks.seq hen
        obtain rfl : s.seq + 1 = v := by simpa [returned, seqNext] using hv
        refine ⟨(ledger stored moves).ram + 1, ?_, by rw [hseq, UInt32.ofNat_add]; rfl, ?_⟩
        · cases saves <;> exact le_rfl
        · cases saves <;> simp [top, act, seqNext, Ledger.act, show s.opened = true from hen]
      | begin opens => simp [returned] at hv
      | cut saves => simp [returned] at hv
      | reboot => simp [returned] at hv
    · have hfront : moves = front ++ m :: mid ∧ x = ⟨s, a, act s a⟩ := by
        have hsplit' : moves ++ [⟨s, a, act s a⟩] = (front ++ m :: mid) ++ [x] := by simpa using hsplit
        obtain ⟨hmoves, hx⟩ := List.append_inj' hsplit' rfl
        exact ⟨hmoves, (List.cons.inj hx).1.symm⟩
      obtain ⟨hmoves, rfl⟩ := hfront
      obtain ⟨c, hc, hv, hbound⟩ := h.numbers front m mid v hmoves hv
      refine ⟨c, hc.trans hmono, hv, ?_⟩
      rw [List.concat_eq_append, calls_append]
      dsimp only
      omega

private theorem inv_of_run {stored : UInt32} {moves : History} {s : State} (h : Run Step ⟨stored, 0, false⟩ moves s)
    (hsaved : ∀ front m back, moves = front ++ m :: back → (∃ opens, m.label = .begin opens) → ¬ Unsaved front) :
    Inv stored moves s := by
  induction h with
  | nil => exact ⟨⟨by simp [ledger], nofun, nofun, nofun⟩, nofun, by simp⟩
  | @snoc moves m t a _ hstep ih =>
    refine (ih ?_).step hstep ?_
    · intro front x back hsplit
      exact hsaved front x (back ++ [⟨m, a, t⟩]) (by simp [hsplit])
    · exact hsaved moves ⟨m, a, t⟩ [] rfl

/-- Numbers are never repeated by a device on which, whenever the counter is
loaded, the last number returned had been written to flash, or a later one. -/
theorem seqNext_never_repeats (stored : UInt32) (moves : History) (s : State) (h : Run Step ⟨stored, 0, false⟩ moves s)
    (hsaved : ∀ front m back, moves = front ++ m :: back → (∃ opens, m.label = .begin opens) → ¬ Unsaved front) :
    NeverRepeats moves := by
  intro front m mid m' back v hsplit hcalls hv hv'
  have hsplit' : moves = (front ++ m :: mid) ++ m' :: back := by simpa using hsplit
  subst hsplit'
  obtain ⟨hrun, ⟨hen, -⟩, -⟩ := h.move
  have hinv : Inv stored (front ++ m :: mid) m'.before := by
    apply inv_of_run hrun
    intro front' x back' hfront
    exact hsaved front' x (back' ++ m' :: back) (by simp [hfront])
  obtain ⟨c, hc, rfl, hbound⟩ := hinv.numbers front m mid v rfl hv
  rw [returned] at hv'
  cases hlabel : m'.label with
  | next saves =>
    rw [hlabel] at hen hv'
    have hdrawn := hinv.tracks.drawn hen
    have hnext : UInt32.ofNat ((ledger stored (front ++ m :: mid)).ram + 1) = UInt32.ofNat c := by
      rw [UInt32.ofNat_add, ← hinv.tracks.seq hen]
      simpa [seqNext] using hv'
    have hcount : calls (mid ++ [m']) = calls mid + 1 := by simp [calls, hlabel]
    have htop : top m'.before (ledger stored (front ++ m :: mid)) = (ledger stored (front ++ m :: mid)).ram := by
      simp [top, show m'.before.opened = true from hen]
    -- the new number is above the old one, by less than a turn of the counter
    have hmod := congrArg UInt32.toNat hnext
    simp only [UInt32.toNat_ofNat'] at hmod
    omega
  | begin opens => simp [hlabel] at hv'
  | cut saves => simp [hlabel] at hv'
  | reboot => simp [hlabel] at hv'

/-- A failed flash write and a reboot: the first number is returned again. -/
theorem seqNext_repeats : ¬ ∀ (stored : UInt32) (moves : History) (s : State), Run Step ⟨stored, 0, false⟩ moves s →
    (∀ m ∈ moves, ∀ opens, m.label = .begin opens → opens = true) → NeverRepeats moves := by
  intro hclaim
  have hrun : Run Step _ (movesOf act ⟨0, 0, false⟩ [.begin true, .next false, .reboot, .begin true, .next true]) _ :=
    run_of_enabled _ _ (by simp [movesOf, Enabled, act, seqCounterBegin])
  have hnever := hclaim 0 _ _ hrun (by simp [movesOf])
  exact hnever [_] _ [_, _] _ [] 1 rfl (by decide) rfl rfl

theorem seqNext_never_repeats_reboot : NeverRepeats
    (movesOf act ⟨7, 0, false⟩ [.begin true, .next true, .cut false, .begin true, .next true]) := by
  apply seqNext_never_repeats 7 _ _ (run_of_enabled _ _ (by simp [movesOf, Enabled, act, seqCounterBegin, seqNext]))
  rintro front m back hsplit - ⟨front', x, back', rfl, hx, -⟩
  have hmem : x ∈ movesOf act ⟨7, 0, false⟩ [.begin true, .next true, .cut false, .begin true, .next true] := by
    simp [hsplit]
  simp only [movesOf, List.mem_cons, List.not_mem_nil, or_false] at hmem
  obtain rfl | rfl | rfl | rfl | rfl := hmem <;> simp at hx

end IotFirmware.SeqCounter
