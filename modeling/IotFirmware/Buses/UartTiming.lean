import Mathlib.Data.Nat.Bitwise
import Mathlib.Data.Rat.Floor
import Mathlib.Tactic
import IotFirmware.Buses.BusChecks

/-! The character times and waits worked out from a UART's rate and frame
format, against the exact times. -/
namespace IotFirmware

inductive StopBits where
  | one
  | oneAndHalf
  | two
  deriving DecidableEq, Repr

/-- Stop bits as they are counted: one and a half as two. -/
def StopBits.count : StopBits → Nat
  | .one => 1
  | .oneAndHalf => 2
  | .two => 2

/-- The stop bit setting of a frame format; the fourth code is none. -/
def stopBitsOf (format : SerialConfig) : Option StopBits :=
  let code := format.toNat / 16 % 4
  if code = 1 then some .one else if code = 2 then some .oneAndHalf else if code = 3 then some .two else none

def characterBits (format : SerialConfig) (stop : StopBits) : Nat :=
  1 + (format.toNat / 4 % 4 + 5) + format.toNat / 2 % 2 + stop.count

def characterTime (baud : UInt32) (bits : Nat) : ℚ := bits * 1000000 / baud.toNat

def LongEnough (baud : UInt32) (bits : Nat) (waitMs : UInt32) : Prop :=
  20 * characterTime baud bits ≤ 1000 * waitMs.toNat ∧ 50 ≤ waitMs.toNat

/-- The timing of one rate and one format is right: nothing wraps, and the waits are long enough. -/
structure TimingExact (baud : UInt32) (format : SerialConfig) (bits : Nat) : Prop where
  /-- The 32-bit sum in front of the division. -/
  no_wrap : (charBits format).toNat * 1000000 + baud.toNat < 2 ^ 32
  char_time : ∃ charUs, charTimeUs baud format = some charUs ∧ charUs.toNat = ⌈characterTime baud bits⌉₊ ∧
    loopbackWaitChars.toNat * charUs.toNat + 999 < 2 ^ 32 ∧ LongEnough baud bits (loopbackWaitMs charUs) ∧
    ∀ start passes, awaitEcho start (loopbackWaitMs charUs) passes = some false →
      ∃ pass ∈ passes, pass.available = false ∧ LongEnough baud bits (pass.now - start)

section Format
variable (format : UInt32)

private theorem toNat_dataBits : ((format &&& 0b1100) >>> 2).toNat = format.toNat / 4 % 4 := by
  have hmask : format.toNat / 2 ^ 2 &&& 12 / 2 ^ 2 = format.toNat / 2 ^ 2 % 2 ^ 2 :=
    Nat.and_two_pow_sub_one_eq_mod _ 2
  rw [← Nat.and_div_two_pow] at hmask
  simpa [Nat.shiftRight_eq_div_pow] using hmask

private theorem toNat_stopCode : ((format &&& 0b110000) >>> 4).toNat = format.toNat / 16 % 4 := by
  have hmask : format.toNat / 2 ^ 4 &&& 48 / 2 ^ 4 = format.toNat / 2 ^ 4 % 2 ^ 2 :=
    Nat.and_two_pow_sub_one_eq_mod _ 2
  rw [← Nat.and_div_two_pow] at hmask
  simpa [Nat.shiftRight_eq_div_pow] using hmask

private theorem parity_iff : format &&& 0b10 ≠ 0 ↔ format.toNat / 2 % 2 = 1 := by
  have hmask : format.toNat &&& 2 = (format.toNat.testBit 1).toNat * 2 := Nat.and_two_pow format.toNat 1
  have hbit : format.toNat.testBit 1 = decide (format.toNat / 2 % 2 = 1) := Nat.testBit_eq_decide_div_mod_eq
  rw [hbit] at hmask
  simp only [ne_eq, ← UInt32.toNat_inj, UInt32.toNat_and, UInt32.reduceToNat, hmask]
  by_cases h : format.toNat / 2 % 2 = 1 <;> simp [h]

/-- The bits are counted as the frame format says. -/
theorem toNat_charBits {stop : StopBits} (hstop : stopBitsOf format = some stop) :
    (charBits format).toNat = characterBits format stop := by
  have hcode : (format &&& 0b110000) >>> 4 = 0b01 ↔ format.toNat / 16 % 4 = 1 := by
    rw [← UInt32.toNat_inj, toNat_stopCode]
    rfl
  have hcount : (if (format &&& 0b110000) >>> 4 = 0b01 then (1 : UInt32) else 2).toNat = stop.count := by
    simp only [hcode]
    unfold stopBitsOf at hstop
    dsimp only at hstop
    split_ifs at hstop ⊢
    · cases hstop
      rfl
    · cases hstop
      rfl
    · cases hstop
      rfl
  have hdata := toNat_dataBits format
  have hparity : (if format &&& 0b10 ≠ 0 then (1 : UInt32) + (((format &&& 0b1100) >>> 2) + 5) + 1
      else (1 : UInt32) + (((format &&& 0b1100) >>> 2) + 5)).toNat =
      1 + (format.toNat / 4 % 4 + 5) + format.toNat / 2 % 2 := by
    simp only [parity_iff]
    split
    · simp only [UInt32.toNat_add, hdata, UInt32.reduceToNat]
      omega
    · simp only [UInt32.toNat_add, hdata, UInt32.reduceToNat]
      omega
  have hle : stop.count ≤ 2 := by cases stop <;> decide
  unfold charBits
  dsimp only
  rw [UInt32.toNat_add, hcount, hparity, characterBits]
  omega

theorem characterBits_bounds (stop : StopBits) : 0 < characterBits format stop ∧ characterBits format stop ≤ 12 := by
  have hle : stop.count ≤ 2 := by cases stop <;> decide
  unfold characterBits
  omega

end Format

/-- Rounding up a quotient is adding one less than the divisor in front of the division. -/
theorem natCeil_div (n : Nat) {r : Nat} (hr : 0 < r) : ⌈(n : ℚ) / r⌉₊ = (n + r - 1) / r := by
  have hpos : (0 : ℚ) < r := by exact_mod_cast hr
  apply eq_of_forall_ge_iff
  intro c
  rw [Nat.ceil_le, div_le_iff₀ hpos, ← Nat.lt_succ_iff, Nat.div_lt_iff_lt_mul hr]
  norm_cast
  rw [Nat.succ_mul]
  omega

section Timing
variable {baud : UInt32} {format : SerialConfig} {stop : StopBits}

private theorem ceil_characterTime (hbaud : 0 < baud.toNat) (bits : Nat) :
    ⌈characterTime baud bits⌉₊ = (bits * 1000000 + baud.toNat - 1) / baud.toNat := by
  rw [← natCeil_div _ hbaud, characterTime]
  norm_cast

/-- What `charTimeUs` gives, with the sum as it wraps. -/
theorem charTimeUs_eq (hstop : stopBitsOf format = some stop) (hbaud : 0 < baud.toNat) :
    ∃ charUs, charTimeUs baud format = some charUs ∧ charUs.toNat =
      (if characterBits format stop * 1000000 + baud.toNat ≤ 2 ^ 32 then
        (characterBits format stop * 1000000 + baud.toNat - 1) / baud.toNat
      else 0) := by
  obtain ⟨hfew, hmany⟩ := characterBits_bounds format stop
  have hbits := toNat_charBits format hstop
  have hne : baud ≠ 0 := fun h => by simp [h] at hbaud
  have hlt := baud.toNat_lt
  refine ⟨_, if_neg hne, ?_⟩
  simp only [UInt32.toNat_div, UInt32.toNat_sub, UInt32.toNat_add, UInt32.toNat_mul, hbits, UInt32.reduceToNat]
  split
  · congr 1
    omega
  · apply Nat.div_eq_of_lt
    omega

/-- The character time is exact for the rates above zero whose sum stays within 32 bits. -/
theorem charTimeUs_exact_iff (hstop : stopBitsOf format = some stop) :
    (∃ charUs, charTimeUs baud format = some charUs ∧
      charUs.toNat = ⌈characterTime baud (characterBits format stop)⌉₊) ↔
      0 < baud.toNat ∧ characterBits format stop * 1000000 + baud.toNat ≤ 2 ^ 32 := by
  obtain ⟨hfew, hmany⟩ := characterBits_bounds format stop
  constructor
  · rintro ⟨charUs, hsome, hexact⟩
    have hbaud : 0 < baud.toNat := by
      by_contra hzero
      obtain rfl : baud = 0 := UInt32.toNat_inj.mp (by simpa using hzero)
      cases hsome
    obtain ⟨charUs', hsome', hvalue⟩ := charTimeUs_eq hstop hbaud
    obtain rfl := Option.some.inj (hsome.symm.trans hsome')
    refine ⟨hbaud, ?_⟩
    by_contra hwraps
    rw [if_neg hwraps, hexact, ceil_characterTime hbaud] at hvalue
    rcases Nat.div_eq_zero_iff.mp hvalue with hzero | hlt
    · omega
    · omega
  · rintro ⟨hbaud, hfits⟩
    obtain ⟨charUs, hsome, hvalue⟩ := charTimeUs_eq hstop hbaud
    exact ⟨charUs, hsome, by rw [hvalue, if_pos hfits, ceil_characterTime hbaud]⟩

private theorem toNat_loopbackWaitMs {charUs : UInt32} (h : 20 * charUs.toNat + 999 < 2 ^ 32) :
    (loopbackWaitMs charUs).toNat = max 50 ((20 * charUs.toNat + 999) / 1000) := by
  have hwait : ((loopbackWaitChars * charUs + 999) / 1000).toNat = (20 * charUs.toNat + 999) / 1000 := by
    simp only [loopbackWaitChars, UInt32.toNat_div, UInt32.toNat_add, UInt32.toNat_mul, UInt32.reduceToNat]
    omega
  unfold loopbackWaitMs
  dsimp only
  split
  · rename_i hshort
    rw [UInt32.lt_iff_toNat_lt, hwait] at hshort
    simp only [loopbackMinWaitMs, UInt32.reduceToNat] at hshort ⊢
    omega
  · rename_i hlong
    rw [UInt32.not_lt, UInt32.le_iff_toNat_le, hwait] at hlong
    simp only [loopbackMinWaitMs, UInt32.reduceToNat] at hlong
    rw [hwait]
    omega

/-- A wait worked out from a character time that was rounded up is long enough. -/
theorem longEnough_of_ceil {charUs waited : UInt32} {bits : Nat} (hfits : 20 * charUs.toNat + 999 < 2 ^ 32)
    (hceil : charUs.toNat = ⌈characterTime baud bits⌉₊) (hwaited : loopbackWaitMs charUs ≤ waited) :
    LongEnough baud bits waited := by
  have hwait := toNat_loopbackWaitMs hfits
  rw [UInt32.le_iff_toNat_le, hwait] at hwaited
  have htime : characterTime baud bits ≤ charUs.toNat := by
    rw [hceil]
    exact Nat.le_ceil _
  have hms : 20 * charUs.toNat ≤ 1000 * waited.toNat := by omega
  refine ⟨?_, by omega⟩
  calc 20 * characterTime baud bits ≤ 20 * charUs.toNat := by linarith
    _ ≤ 1000 * waited.toNat := by exact_mod_cast hms

private theorem timingExact_iff (hstop : stopBitsOf format = some stop) :
    TimingExact baud format (characterBits format stop) ↔
      0 < baud.toNat ∧ characterBits format stop * 1000000 + baud.toNat < 2 ^ 32 := by
  obtain ⟨hfew, hmany⟩ := characterBits_bounds format stop
  constructor
  · intro h
    obtain ⟨charUs, hsome, hexact, -⟩ := h.char_time
    have hwrap := h.no_wrap
    rw [toNat_charBits format hstop] at hwrap
    exact ⟨((charTimeUs_exact_iff hstop).mp ⟨charUs, hsome, hexact⟩).1, hwrap⟩
  · rintro ⟨hbaud, hfits⟩
    obtain ⟨charUs, hsome, hexact⟩ := (charTimeUs_exact_iff hstop).mpr ⟨hbaud, hfits.le⟩
    have hsmall : charUs.toNat ≤ 12000000 := by
      rw [hexact, ceil_characterTime hbaud]
      apply Nat.div_le_of_le_mul
      omega
    have hwait : 20 * charUs.toNat + 999 < 2 ^ 32 := by omega
    refine ⟨by rwa [toNat_charBits format hstop], charUs, hsome, hexact, hwait,
      longEnough_of_ceil hwait hexact (UInt32.le_refl _), ?_⟩
    intro start passes hnone
    obtain ⟨pass, hpass, hempty, hwaited⟩ := awaitEcho_eq_false hnone
    exact ⟨pass, hpass, hempty, longEnough_of_ceil hwait hexact hwaited⟩

end Timing

/-- For every rate stored in NVS and every frame format: the timing is exact
for the rates above zero that leave room for one second's bits in 32 bits. At
the one rate where the sum is 2^32 it wraps, and the subtraction wraps it back. -/
theorem uart_timing_exact_iff {opened : Bool} {efuseUid : Uid} {nvs : Nvs} {cfg : Rs485NodeConfig}
    (hload : loadRs485NodeConfig opened efuseUid nvs = some cfg) (baud : UInt32)
    (hstored : nvs (ascii "baud") = some (.uint baud)) (format : SerialConfig) (stop : StopBits)
    (hstop : stopBitsOf format = some stop) :
    (TimingExact cfg.bus.baudRate format (characterBits format stop) ↔
      0 < baud.toNat ∧ characterBits format stop * 1000000 + baud.toNat < 2 ^ 32) ∧
    ((∃ charUs, charTimeUs cfg.bus.baudRate format = some charUs ∧
      charUs.toNat = ⌈characterTime baud (characterBits format stop)⌉₊) ↔
        0 < baud.toNat ∧ characterBits format stop * 1000000 + baud.toNat ≤ 2 ^ 32) := by
  have hrate : cfg.bus.baudRate = baud := by
    rw [(loadRs485NodeConfig_eq_some hload).1]
    exact Nvs.readU32_of_stored hstored _
  rw [hrate]
  exact ⟨timingExact_iff hstop, charTimeUs_exact_iff hstop⟩

def nvsWithBaud (baud : UInt32) : Nvs := Nvs.blank.put (ascii "baud") (.uint baud)

theorem uart_timing_exact_iff_9600 : ∃ cfg,
    loadRs485NodeConfig true (Vector.replicate uidLen 0) (nvsWithBaud 9600) = some cfg ∧
      TimingExact cfg.bus.baudRate serial8N1 10 := by
  obtain ⟨cfg, hload⟩ : ∃ cfg, loadRs485NodeConfig true (Vector.replicate uidLen 0) (nvsWithBaud 9600) = some cfg :=
    ⟨_, rfl⟩
  exact ⟨cfg, hload, (uart_timing_exact_iff hload 9600 (Nvs.put_self _ _ _) serial8N1 .one rfl).1.mpr (by decide)⟩

private theorem rate_of_nvsWithBaud {opened : Bool} {efuseUid : Uid} {baud : UInt32} {cfg : Rs485NodeConfig}
    (hload : loadRs485NodeConfig opened efuseUid (nvsWithBaud baud) = some cfg) : cfg.bus.baudRate = baud := by
  have hstored : nvsWithBaud baud (ascii "baud") = some (.uint baud) := Nvs.put_self _ _ _
  rw [(loadRs485NodeConfig_eq_some hload).1]
  exact Nvs.readU32_of_stored hstored 9600

/-- At rate zero the check of a transceiver that is there, on a UART that starts, divides by zero. -/
theorem Sp3485.init_of_zero_rate {config : Rs485Config} {board : BringUp} (hrate : config.baudRate = 0)
    (hprobe : probe board = true) (hstart : uartStartChecked board = true) (hport : board.port.isSome = true) :
    init config board = none := by
  obtain ⟨port, hport⟩ := Option.isSome_iff_exists.mp hport
  simp [init, hprobe, hstart, hport, hrate, uartLoopbackTest, charTimeUs]

/-- The largest rate gets through and gives a character time of zero; rate zero
gets through to a division by zero. -/
theorem uart_timing_wraps :
    (∃ cfg, loadRs485NodeConfig true (Vector.replicate uidLen 0) (nvsWithBaud 4294967295) = some cfg ∧
      stopBitsOf serial8N1 = some .one ∧ characterBits serial8N1 .one = 10 ∧
      charTimeUs cfg.bus.baudRate serial8N1 = some 0 ∧ ⌈characterTime cfg.bus.baudRate 10⌉₊ = 1 ∧
      ¬ TimingExact cfg.bus.baudRate serial8N1 10) ∧
    ∃ cfg, loadRs485NodeConfig true (Vector.replicate uidLen 0) (nvsWithBaud 0) = some cfg ∧
      charTimeUs cfg.bus.baudRate serial8N1 = none ∧
      Sp3485.init cfg.bus ⟨⟨true, true⟩, ⟨true, false⟩, true, true, some .uart1, ⟨0, [⟨true, 0⟩], [0x55], []⟩⟩ =
        none := by
  obtain ⟨top, htop⟩ : ∃ cfg,
    loadRs485NodeConfig true (Vector.replicate uidLen 0) (nvsWithBaud 4294967295) = some cfg := ⟨_, rfl⟩
  obtain ⟨zero, hzero⟩ : ∃ cfg,
    loadRs485NodeConfig true (Vector.replicate uidLen 0) (nvsWithBaud 0) = some cfg := ⟨_, rfl⟩
  rw [show (10 : Nat) = characterBits serial8N1 .one from rfl]
  refine ⟨⟨top, htop, rfl, rfl, ?_, ?_, ?_⟩, zero, hzero, ?_, ?_⟩
  · rw [rate_of_nvsWithBaud htop]
    decide
  · rw [rate_of_nvsWithBaud htop, ceil_characterTime (by decide)]
    decide
  · rw [rate_of_nvsWithBaud htop, timingExact_iff rfl]
    decide
  · rw [rate_of_nvsWithBaud hzero]
    rfl
  · exact Sp3485.init_of_zero_rate (rate_of_nvsWithBaud hzero) (by decide) rfl rfl

end IotFirmware
