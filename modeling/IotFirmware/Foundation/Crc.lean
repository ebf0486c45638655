import Mathlib.Tactic

/-! Reflected cyclic redundancy checks of any width over any polynomial: the
register is linear in the bytes shifted in, and loses nothing of them. -/
namespace IotFirmware.Crc
variable {w : ℕ} (poly : BitVec w)

/-- One bit: shift right, and subtract the polynomial when a one falls out. -/
def step (c : BitVec w) : BitVec w := if c.getLsbD 0 then (c >>> 1) ^^^ poly else c >>> 1

def byte (c : BitVec w) (b : UInt8) : BitVec w := (step poly)^[8] (c ^^^ b.toBitVec.setWidth w)

def run (c : BitVec w) (data : List UInt8) : BitVec w := data.foldl (byte poly) c

/-- The bytes in which two strings differ, as their exclusive or. -/
def diff (xs ys : List UInt8) : List UInt8 := List.zipWith (· ^^^ ·) xs ys

@[simp] theorem step_zero : step poly 0#w = 0#w := by simp [step]

theorem step_xor (a b : BitVec w) : step poly (a ^^^ b) = step poly a ^^^ step poly b := by
  unfold step
  simp only [BitVec.getLsbD_xor, BitVec.ushiftRight_xor_distrib]
  cases a.getLsbD 0 <;> cases b.getLsbD 0
  · simp
  · simp [BitVec.xor_assoc]
  · simp only [Bool.bne_false, if_true, Bool.false_eq_true, if_false]
    ac_rfl
  · have hcancel : (a >>> 1 ^^^ poly) ^^^ (b >>> 1 ^^^ poly) = (a >>> 1 ^^^ b >>> 1) ^^^ (poly ^^^ poly) := by ac_rfl
    simp [hcancel]

theorem steps_zero (n : ℕ) : (step poly)^[n] 0#w = 0#w := Function.iterate_fixed (step_zero poly) n

theorem steps_xor (n : ℕ) (a b : BitVec w) :
    (step poly)^[n] (a ^^^ b) = (step poly)^[n] a ^^^ (step poly)^[n] b := by
  induction n generalizing a b with
  | zero => rfl
  | succ n ih => simp only [Function.iterate_succ_apply, step_xor, ih]

@[simp] theorem run_nil (c : BitVec w) : run poly c [] = c := rfl

@[simp] theorem run_cons (c : BitVec w) (b : UInt8) (data : List UInt8) :
    run poly c (b :: data) = run poly (byte poly c b) data := rfl

theorem run_append (c : BitVec w) (front back : List UInt8) :
    run poly c (front ++ back) = run poly (run poly c front) back := List.foldl_append

theorem byte_xor (c d : BitVec w) (a b : UInt8) :
    byte poly (c ^^^ d) (a ^^^ b) = byte poly c a ^^^ byte poly d b := by
  rw [byte, byte, byte, ← steps_xor]
  congr 1
  rw [UInt8.toBitVec_xor, BitVec.setWidth_xor]
  ac_rfl

/-- The register is linear: what two strings leave in it differs by what their
difference leaves in it. -/
theorem run_xor {xs ys : List UInt8} (h : xs.length = ys.length) (c d : BitVec w) :
    run poly (c ^^^ d) (diff xs ys) = run poly c xs ^^^ run poly d ys := by
  induction xs generalizing c d ys with
  | nil =>
    obtain rfl : ys = [] := List.eq_nil_of_length_eq_zero h.symm
    rfl
  | cons x xs ih =>
    obtain _ | ⟨y, ys⟩ := ys
    · simp at h
    · simp only [diff, List.zipWith_cons_cons, run_cons, byte_xor]
      exact ih (by simpa using h) _ _

/-- Equal registers are left by two strings exactly when their difference leaves zero. -/
theorem run_eq_iff {xs ys : List UInt8} (h : xs.length = ys.length) (c : BitVec w) :
    run poly c xs = run poly c ys ↔ run poly 0#w (diff xs ys) = 0#w := by
  have hlinear := run_xor poly h c c
  rw [BitVec.xor_self] at hlinear
  rw [hlinear]
  exact BitVec.xor_eq_zero_iff.symm

section Injective
variable {poly} (hpoly : poly.msb = true)
include hpoly

/-- A polynomial with its top bit set never lets a register fall to zero. -/
theorem step_eq_zero_iff (c : BitVec w) : step poly c = 0#w ↔ c = 0#w := by
  constructor
  · intro h
    unfold step at h
    split at h
    · have htop : (c >>> 1 ^^^ poly).getLsbD (w - 1) = false := by simp [h]
      have hshift : (c >>> 1).getLsbD (w - 1) = false := by
        rw [BitVec.getLsbD_ushiftRight]
        exact BitVec.getLsbD_of_ge c _ (by omega)
      rw [BitVec.msb_eq_getLsbD_last] at hpoly
      rw [BitVec.getLsbD_xor, hshift, hpoly] at htop
      cases htop
    · rename_i hlow
      apply BitVec.eq_of_getLsbD_eq
      intro i _
      have hi := congrArg (·.getLsbD (i - 1)) h
      simp only [BitVec.getLsbD_ushiftRight, BitVec.getLsbD_zero] at hi ⊢
      cases i with
      | zero => simpa using hlow
      | succ i => simpa [add_comm] using hi
  · rintro rfl
    exact step_zero poly

theorem steps_eq_zero_iff (n : ℕ) (c : BitVec w) : (step poly)^[n] c = 0#w ↔ c = 0#w := by
  induction n generalizing c with
  | zero => rfl
  | succ n ih => rw [Function.iterate_succ_apply, ih, step_eq_zero_iff hpoly]

theorem run_zeros (n : ℕ) (c : BitVec w) : run poly c (List.replicate n 0) = 0#w ↔ c = 0#w := by
  induction n generalizing c with
  | zero => rfl
  | succ n ih =>
    rw [List.replicate_succ, run_cons, ih, byte, steps_eq_zero_iff hpoly]
    simp

end Injective

/-- A register whose low `n` bits are clear only moves down through `n` steps. -/
theorem steps_high {n : ℕ} {c : BitVec w} (h : ∀ i < n, c.getLsbD i = false) : (step poly)^[n] c = c >>> n := by
  induction n generalizing c with
  | zero => simp
  | succ n ih =>
    have hlow := h 0 (by omega)
    rw [Function.iterate_succ_apply, step, if_neg (by simp [hlow]), ih, ← BitVec.shiftRight_add, add_comm]
    intro i hi
    rw [BitVec.getLsbD_ushiftRight]
    exact h _ (by omega)

def pair (w : ℕ) (lo hi : UInt8) : BitVec w := lo.toBitVec.setWidth w ^^^ hi.toBitVec.setWidth w <<< 8

theorem byte_byte (hw : 16 ≤ w) (c : BitVec w) (lo hi : UInt8) :
    byte poly (byte poly c lo) hi = (step poly)^[16] (c ^^^ pair w lo hi) := by
  have hhi : (step poly)^[8] (hi.toBitVec.setWidth w <<< 8) = hi.toBitVec.setWidth w := by
    rw [steps_high]
    · apply BitVec.eq_of_getLsbD_eq
      intro i _
      have hpast (hi8 : 8 ≤ i) : hi.toBitVec.getLsbD i = false := BitVec.getLsbD_of_ge _ _ hi8
      by_cases hi8 : 8 ≤ i
      · simp [hpast hi8]
      · simp
        omega
    · intro i hi
      simp
      omega
  conv_lhs => rw [byte, byte, ← hhi, ← steps_xor, ← Function.iterate_add_apply]
  rw [pair, BitVec.xor_assoc]

theorem pair_eq_zero {lo hi : UInt8} (hw : 16 ≤ w) (h : pair w lo hi = 0#w) : lo = 0 ∧ hi = 0 := by
  have hbit (i : ℕ) : (pair w lo hi).getLsbD i = false := by simp [h]
  constructor
  · apply UInt8.toBitVec_inj.mp
    apply BitVec.eq_of_getLsbD_eq
    intro i hi8
    have hi := hbit i
    simp [pair, hi8, show i < w by omega] at hi
    rw [BitVec.getLsbD_eq_getElem hi8]
    simpa using hi
  · apply UInt8.toBitVec_inj.mp
    apply BitVec.eq_of_getLsbD_eq
    intro i hi8
    have hi := hbit (i + 8)
    simp [pair, show i + 8 < w by omega] at hi
    simpa using hi

def DifferInPair (xs ys : List UInt8) : Prop := ∃ i, ∀ j, j ≠ i → j ≠ i + 1 → xs[j]? = ys[j]?

def setBits (data : List UInt8) : ℕ := (data.map fun b => b.toBitVec.cpop.toNat).sum

theorem setBits_cons (b : UInt8) (data : List UInt8) : setBits (b :: data) = b.toBitVec.cpop.toNat + setBits data := by
  simp [setBits]

def flips (xs ys : List UInt8) : ℕ := setBits (diff xs ys)

theorem DifferInPair.inner {xs ys : List UInt8} (hlen : xs.length = ys.length) {front back : List UInt8}
    (h : DifferInPair (front ++ (xs ++ back)) (front ++ (ys ++ back))) : DifferInPair xs ys := by
  obtain ⟨i, hi⟩ := h
  refine ⟨i - front.length, ?_⟩
  intro j hj hj'
  by_cases hin : j < xs.length
  · have hat := hi (front.length + j) (by omega) (by omega)
    simpa [List.getElem?_append_right, List.getElem?_append_left, hin, hlen ▸ hin] using hat
  · rw [List.getElem?_eq_none (by omega), List.getElem?_eq_none (by omega)]

theorem flips_inner {xs ys : List UInt8} (hlen : xs.length = ys.length) (front back : List UInt8) :
    flips (front ++ (xs ++ back)) (front ++ (ys ++ back)) = flips xs ys := by
  have hsame (common : List UInt8) : setBits (diff common common) = 0 := by
    induction common with
    | nil => rfl
    | cons b common ih => simpa [diff, setBits_cons] using ih
  have happend (a b : List UInt8) : setBits (a ++ b) = setBits a + setBits b := by simp [setBits]
  rw [flips, flips, diff, List.zipWith_append rfl, List.zipWith_append hlen, happend, happend]
  change setBits (diff front front) + (_ + setBits (diff back back)) = _
  rw [hsame, hsame]
  simp [diff]

theorem diff_eq_zeros_iff {xs ys : List UInt8} (h : xs.length = ys.length) :
    diff xs ys = List.replicate xs.length 0 ↔ xs = ys := by
  induction xs generalizing ys with
  | nil => simpa [diff, eq_comm] using h
  | cons x xs ih =>
    obtain _ | ⟨y, ys⟩ := ys
    · simp at h
    · simp only [diff, List.zipWith_cons_cons, List.length_cons, List.replicate_succ, List.cons.injEq,
        UInt8.xor_eq_zero_iff]
      rw [← ih (by simpa using h)]
      rfl

theorem diff_getD {xs ys : List UInt8} {j : ℕ} (h : xs[j]? = ys[j]?) : (diff xs ys).getD j 0 = 0 := by
  rw [List.getD_eq_getElem?_getD, diff, List.getElem?_zipWith, h]
  cases ys[j]? <;> simp

theorem eq_zeros {d : List UInt8} (h : ∀ j, d.getD j 0 = 0) : d = List.replicate d.length 0 := by
  apply List.eq_replicate_of_mem
  intro b hb
  obtain ⟨j, hj, rfl⟩ := List.getElem_of_mem hb
  simpa [List.getD_eq_getElem?_getD, hj] using h j

section Detection
variable {poly} {xs ys : List UInt8} {c : BitVec w}

/-- No burst within two adjacent bytes leaves the register at zero. -/
theorem burst_eq_zeros (hpoly : poly.msb = true) (hw : 16 ≤ w) {d : List UInt8} {i : ℕ}
    (hd : ∀ j, j ≠ i → j ≠ i + 1 → d.getD j 0 = 0) (h : run poly 0#w d = 0#w) : d = List.replicate d.length 0 := by
  induction i generalizing d with
  | zero =>
    obtain _ | ⟨lo, _ | ⟨hi, rest⟩⟩ := d
    · rfl
    · have hpair : pair w lo 0 = 0#w := by
        rw [run_cons, run_nil, byte, steps_eq_zero_iff hpoly] at h
        simpa [pair] using h
      obtain ⟨rfl, -⟩ := pair_eq_zero hw hpair
      rfl
    · have hrest : rest = List.replicate rest.length 0 :=
        eq_zeros fun j => by simpa using hd (j + 2) (by omega) (by omega)
      rw [run_cons, run_cons, byte_byte poly hw, hrest, run_zeros hpoly, steps_eq_zero_iff hpoly] at h
      obtain ⟨rfl, rfl⟩ := pair_eq_zero hw (by simpa using h)
      rw [hrest]
      simp [List.replicate_succ]
  | succ i ih =>
    obtain _ | ⟨b, d⟩ := d
    · rfl
    · obtain rfl : b = 0 := by simpa using hd 0 (by omega) (by omega)
      have hzero : byte poly 0#w 0 = 0#w := by simp [byte, steps_zero]
      rw [run_cons, hzero] at h
      have hd' := ih (fun j hj hj' => by simpa using hd (j + 1) (by omega) (by omega)) h
      rw [hd']
      simp [List.replicate_succ]

/-- Two strings of one length that differ only within two adjacent bytes leave different registers. -/
theorem eq_of_differInPair (hpoly : poly.msb = true) (hw : 16 ≤ w) (hlen : xs.length = ys.length)
    (hpair : DifferInPair xs ys) (h : run poly c xs = run poly c ys) : xs = ys := by
  obtain ⟨i, hi⟩ := hpair
  rw [← diff_eq_zeros_iff hlen]
  have hzeros := burst_eq_zeros hpoly hw (fun j hj hj' => diff_getD (hi j hj hj')) ((run_eq_iff poly hlen c).mp h)
  rw [hzeros]
  simp [diff, hlen]

end Detection

def odd (x : BitVec w) : Bool := x.cpop.toNat.bodd

theorem odd_xor (a b : BitVec w) : odd (a ^^^ b) = (odd a ^^ odd b) := by
  have hrec (n : ℕ) : ((a ^^^ b).cpopNatRec n 0).bodd = ((a.cpopNatRec n 0).bodd ^^ (b.cpopNatRec n 0).bodd) := by
    induction n with
    | zero => simp
    | succ n ih =>
      simp only [BitVec.cpopNatRec_succ, BitVec.cpopNatRec_eq (_ + _), BitVec.getLsbD_xor, Nat.bodd_add, ih]
      cases a.getLsbD n <;> cases b.getLsbD n <;> simp
  simpa only [odd, BitVec.toNat_cpop] using hrec w

theorem odd_ushiftRight (c : BitVec w) : odd c = (odd (c >>> 1) ^^ c.getLsbD 0) := by
  have hrec (n : ℕ) : c.cpopNatRec (n + 1) 0 = (c >>> 1).cpopNatRec n 0 + (c.getLsbD 0).toNat := by
    induction n with
    | zero => simp
    | succ n ih =>
      rw [BitVec.cpopNatRec_succ, BitVec.cpopNatRec_eq, ih, BitVec.cpopNatRec_succ, BitVec.cpopNatRec_eq (_ + _),
        BitVec.getLsbD_ushiftRight, add_comm 1 n]
      omega
  have hwidth : c.cpopNatRec (w + 1) 0 = c.cpopNatRec w 0 := BitVec.cpopNatRec_of_le 1 w le_rfl
  simp only [odd, BitVec.toNat_cpop]
  rw [← hwidth, hrec, Nat.bodd_add]
  cases c.getLsbD 0 <;> rfl

theorem odd_setWidth (hw : 8 ≤ w) (b : UInt8) : odd (b.toBitVec.setWidth w) = odd b.toBitVec := by
  obtain ⟨k, rfl⟩ := Nat.exists_eq_add_of_le hw
  simp only [odd, BitVec.toNat_cpop]
  rw [BitVec.cpopNatRec_setWidth_of_le _ le_rfl, BitVec.cpopNatRec_of_le k 8 le_rfl]

section Parity
variable {poly} (hodd : odd poly = true)
include hodd

/-- A polynomial with an odd number of bits set keeps the parity of the register. -/
theorem odd_step (c : BitVec w) : odd (step poly c) = odd c := by
  rw [odd_ushiftRight c, step]
  cases hlow : c.getLsbD 0
  · simp
  · simp [odd_xor, hodd]

theorem odd_run (hw : 8 ≤ w) (c : BitVec w) (d : List UInt8) :
    odd (run poly c d) = (odd c ^^ (setBits d).bodd) := by
  have hsteps (n : ℕ) (c : BitVec w) : odd ((step poly)^[n] c) = odd c := by
    induction n generalizing c with
    | zero => rfl
    | succ n ih => rw [Function.iterate_succ_apply, ih, odd_step hodd]
  induction d generalizing c with
  | nil => simp [setBits]
  | cons b d ih =>
    rw [run_cons, ih, byte, hsteps, odd_xor, odd_setWidth hw, setBits_cons, Nat.bodd_add, Bool.xor_assoc]
    rfl

/-- Two strings of one length with an odd number of bits flipped leave different registers. -/
theorem even_flips (hw : 8 ≤ w) {xs ys : List UInt8} {c : BitVec w} (hlen : xs.length = ys.length)
    (h : run poly c xs = run poly c ys) : ¬ Odd (flips xs ys) := by
  have hzero := (run_eq_iff poly hlen c).mp h
  have hparity := odd_run hodd hw 0#w (diff xs ys)
  rw [hzero] at hparity
  have heven : (flips xs ys).bodd = false := by
    cases hzero : odd 0#w <;> simpa [flips, hzero] using hparity
  rw [Nat.odd_iff, Nat.mod_two_of_bodd, heven]
  simp

end Parity

/-! A 16-bit check word behind the bytes it covers, low byte first. -/

def lowFirst (x : UInt16) : List UInt8 := [(x &&& 0xFF).toUInt8, (x >>> 8).toUInt8]

/-- Bytes with the check word behind them, the register exclusive or a fixed mask. -/
def guarded (poly : BitVec 16) (init mask : BitVec 16) (data : List UInt8) : List UInt8 :=
  data ++ lowFirst (UInt16.ofBitVec (run poly init data ^^^ mask))

/-- A bit step as it is written on machine words. -/
theorem toBitVec_step (poly c : UInt16) :
    (if c &&& 1 ≠ 0 then (c >>> 1) ^^^ poly else c >>> 1).toBitVec = step poly.toBitVec c.toBitVec := by
  have hlow : c &&& 1 ≠ 0 ↔ c.toBitVec.getLsbD 0 = true := by
    rw [Ne, ← UInt16.toBitVec_inj, UInt16.toBitVec_and]
    show ¬ c.toBitVec &&& 1#16 = 0#16 ↔ _
    rw [BitVec.and_one_eq_setWidth_ofBool_getLsbD]
    cases c.toBitVec.getLsbD 0 <;> decide
  unfold step
  simp only [hlow]
  split <;> simp

/-- Eight bit steps on a machine word shift one byte in. -/
theorem toBitVec_byte {poly : BitVec 16} {bit : UInt16 → UInt16}
    (hbit : ∀ c, (bit c).toBitVec = step poly c.toBitVec) (c : UInt16) (b : UInt8) :
    (bit^[8] (c ^^^ b.toUInt16)).toBitVec = byte poly c.toBitVec b := by
  have hbits (n : ℕ) (c : UInt16) : (bit^[n] c).toBitVec = (step poly)^[n] c.toBitVec := by
    induction n generalizing c with
    | zero => rfl
    | succ n ih => rw [Function.iterate_succ_apply, ih, hbit, Function.iterate_succ_apply]
  rw [hbits, byte, UInt16.toBitVec_xor]
  rfl

/-- Bytes shifted one by one into a machine word. -/
theorem toBitVec_foldl {poly : BitVec 16} {shift : UInt16 → UInt8 → UInt16}
    (hshift : ∀ c b, (shift c b).toBitVec = byte poly c.toBitVec b) (data : List UInt8) (c : UInt16) :
    (data.foldl shift c).toBitVec = run poly c.toBitVec data := by
  induction data generalizing c with
  | nil => rfl
  | cons b data ih => rw [List.foldl_cons, ih, hshift, run_cons]

theorem pair_lowFirst (x : UInt16) : pair 16 (x &&& 0xFF).toUInt8 (x >>> 8).toUInt8 = x.toBitVec := by
  apply BitVec.eq_of_getLsbD_eq
  intro i hi
  by_cases h : i < 8
  · have hff : (255#16)[i] = true := by interval_cases i <;> simp
    simp [pair, hi, h, hff]
  · have hshift : 8 + (i - 8) = i := by omega
    simp [pair, hi, h, hshift]
    omega

/-- Whatever they cover, guarded bytes leave the same register. -/
theorem run_guarded (poly init mask : BitVec 16) (data : List UInt8) :
    run poly init (guarded poly init mask data) = (step poly)^[16] mask := by
  rw [guarded, run_append, lowFirst, run_cons, run_cons, run_nil, byte_byte poly le_rfl, pair_lowFirst,
    UInt16.toBitVec_ofBitVec, ← BitVec.xor_assoc, BitVec.xor_self, BitVec.zero_xor]

/-- Guarded bytes are never turned into others by a burst within two adjacent
bytes, nor by an odd number of flipped bits. -/
theorem guarded_eq_of_flips {poly init mask : BitVec 16} (hpoly : poly.msb = true) (hodd : odd poly = true)
    {data data' : List UInt8} (hlen : data.length = data'.length)
    (h : DifferInPair (guarded poly init mask data) (guarded poly init mask data') ∨
      Odd (flips (guarded poly init mask data) (guarded poly init mask data'))) :
    guarded poly init mask data = guarded poly init mask data' := by
  have hlen' : (guarded poly init mask data).length = (guarded poly init mask data').length := by
    simp [guarded, lowFirst, hlen]
  have hrun : run poly init (guarded poly init mask data) = run poly init (guarded poly init mask data') := by
    rw [run_guarded, run_guarded]
  rcases h with hpair | hflips
  · exact eq_of_differInPair hpoly le_rfl hlen' hpair hrun
  · exact absurd hflips (even_flips hodd (by omega) hlen' hrun)

end IotFirmware.Crc
