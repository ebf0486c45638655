import IotFirmware.Foundation.Clock
import IotFirmware.Foundation.TimedRead
import IotFirmware.Protocols.Iec6205621

/-! The timed reads of the IEC 62056-21 reader at any reading of its clock: when
a deadline set on the counter is the same as a timeout in true time. -/
namespace IotFirmware
namespace Iec6205621Reader
open Clock TimedRead

def waitFrom (start : ℕ) (schedule : List Pass) : Wait :=
  ⟨millis start, schedule.map fun pass => ⟨millis (start + pass.elapsed), pass.byte⟩⟩

/-- The check the loops make: the counter against a deadline on it. -/
def beforeDeadline (start : ℕ) (timeoutMs : UInt32) (elapsed : ℕ) : Bool :=
  millis (start + elapsed) < millis start + timeoutMs

/-- The check that is meant: the true time since the start. -/
def withinTimeout (timeoutMs : UInt32) (elapsed : ℕ) : Bool := elapsed < timeoutMs.toNat

def endsWith (terminator bytes : List UInt8) : Bool := decide (terminator <:+ bytes)

def hasCount (count : ℕ) (bytes : List UInt8) : Bool := decide (count ≤ bytes.length)

/-- `readUntil`, with how many checks of the clock it made; nothing while it is still polling. -/
def readUntilRun (terminator : List UInt8) (timeoutMs : UInt32) (start : ℕ) (schedule : List Pass) :
    Option (List UInt8 × ℕ) :=
  timedRead (endsWith terminator) (beforeDeadline start timeoutMs) schedule [] 0

/-- `readBytes` of at least one byte, with how many checks of the clock it made. -/
def readBytesRun (count : ℕ) (timeoutMs : UInt32) (start : ℕ) (schedule : List Pass) : Option (List UInt8 × ℕ) :=
  timedRead (hasCount count) (beforeDeadline start timeoutMs) schedule [] 0

/-- A check made before the timeout has the counter in the same turn as the deadline; one made after it finds the
counter still past the deadline. -/
def ClockHolds (start : ℕ) (timeoutMs : UInt32) (pass : Pass) : Prop :=
  if pass.elapsed < timeoutMs.toNat then (start + pass.elapsed) / 2 ^ 32 = (start + timeoutMs.toNat) / 2 ^ 32
  else (start + timeoutMs.toNat) % 2 ^ 32 ≤ (start + pass.elapsed) % 2 ^ 32

private theorem readUntilLoop_eq (terminator : List UInt8) (timeoutMs : UInt32) (start : ℕ) (schedule : List Pass) :
    ∀ (bytes : List UInt8) (checks : ℕ),
      readUntilLoop terminator (millis start + timeoutMs) (waitFrom start schedule).polls bytes =
        ((timedRead (endsWith terminator) (beforeDeadline start timeoutMs) schedule bytes checks).map Prod.fst).getD
          (bytes ++ schedule.filterMap Pass.byte) := by
  induction schedule with
  | nil => simp [readUntilLoop, timedRead, waitFrom]
  | cons pass schedule ih =>
    intro bytes checks
    have hpolls : (waitFrom start (pass :: schedule)).polls =
        ⟨millis (start + pass.elapsed), pass.byte⟩ :: (waitFrom start schedule).polls := rfl
    rw [hpolls, readUntilLoop, timedRead]
    by_cases hnow : millis (start + pass.elapsed) < millis start + timeoutMs
    · have hin : beforeDeadline start timeoutMs pass.elapsed = true := decide_eq_true hnow
      rw [if_pos hnow, if_pos hin]
      dsimp only
      cases hbyte : pass.byte with
      | none => simpa [hbyte] using ih bytes (checks + 1)
      | some b =>
        by_cases hend : terminator <:+ bytes ++ [b]
        · simp [hend, endsWith]
        · simpa [hend, endsWith, hbyte] using ih (bytes ++ [b]) (checks + 1)
    · rw [if_neg hnow, if_neg (by simpa [beforeDeadline] using hnow)]
      rfl

/-- The bytes of `readUntil` are those it has when it ends, or all there were. -/
theorem readUntil_eq (terminator : List UInt8) (timeoutMs : UInt32) (start : ℕ) (schedule : List Pass) :
    readUntil terminator timeoutMs (waitFrom start schedule) =
      ((readUntilRun terminator timeoutMs start schedule).map Prod.fst).getD (schedule.filterMap Pass.byte) :=
  readUntilLoop_eq terminator timeoutMs start schedule [] 0

private theorem readBytesLoop_eq {count : ℕ} (timeoutMs : UInt32) (start : ℕ) (schedule : List Pass) :
    ∀ (bytes : List UInt8) (checks : ℕ), bytes.length < count →
      readBytesLoop count (millis start + timeoutMs) (waitFrom start schedule).polls bytes =
        ((timedRead (hasCount count) (beforeDeadline start timeoutMs) schedule bytes checks).map Prod.fst).getD
          (bytes ++ schedule.filterMap Pass.byte) := by
  induction schedule with
  | nil => simp [readBytesLoop, timedRead, waitFrom]
  | cons pass schedule ih =>
    intro bytes checks hroom
    have hpolls : (waitFrom start (pass :: schedule)).polls =
        ⟨millis (start + pass.elapsed), pass.byte⟩ :: (waitFrom start schedule).polls := rfl
    rw [hpolls, readBytesLoop, timedRead]
    by_cases hnow : millis (start + pass.elapsed) < millis start + timeoutMs
    · have hin : beforeDeadline start timeoutMs pass.elapsed = true := decide_eq_true hnow
      rw [if_pos ⟨hroom, hnow⟩, if_pos hin]
      dsimp only
      cases hbyte : pass.byte with
      | none => simpa [hbyte] using ih bytes (checks + 1) hroom
      | some b =>
        by_cases hfull : count ≤ bytes.length + 1
        · have hstop : readBytesLoop count (millis start + timeoutMs) (waitFrom start schedule).polls (bytes ++ [b]) =
              bytes ++ [b] := by
            cases (waitFrom start schedule).polls with
            | nil => rfl
            | cons poll polls =>
              rw [readBytesLoop, if_neg]
              simp only [List.length_append, List.length_singleton, not_and]
              omega
          simp [hasCount, hfull, hstop]
        · simpa [hasCount, hfull, hbyte] using ih (bytes ++ [b]) (checks + 1) (by simp; omega)
    · rw [if_neg (fun h => hnow h.2), if_neg (by simpa [beforeDeadline] using hnow)]
      rfl

/-- The bytes of `readBytes` are those it has when it ends, or all there were. -/
theorem readBytes_eq {count : ℕ} (hcount : 0 < count) (timeoutMs : UInt32) (start : ℕ) (schedule : List Pass) :
    readBytes count timeoutMs (waitFrom start schedule) =
      ((readBytesRun count timeoutMs start schedule).map Prod.fst).getD (schedule.filterMap Pass.byte) :=
  readBytesLoop_eq timeoutMs start schedule [] 0 hcount

/-- Where the deadline on the counter and the timeout agree. -/
theorem beforeDeadline_eq_iff (start : ℕ) (timeoutMs : UInt32) (pass : Pass) :
    beforeDeadline start timeoutMs pass.elapsed = withinTimeout timeoutMs pass.elapsed ↔
      ClockHolds start timeoutMs pass := by
  have htimeout := timeoutMs.toNat_lt
  have hdeadline : (millis start + timeoutMs).toNat = (start + timeoutMs.toNat) % 2 ^ 32 := by
    rw [UInt32.toNat_add, toNat_millis]
    omega
  have hcheck : beforeDeadline start timeoutMs pass.elapsed = true ↔
      (start + pass.elapsed) % 2 ^ 32 < (start + timeoutMs.toNat) % 2 ^ 32 := by
    rw [beforeDeadline, decide_eq_true_iff, UInt32.lt_iff_toNat_lt, hdeadline, toNat_millis]
  have hmeant : withinTimeout timeoutMs pass.elapsed = true ↔ pass.elapsed < timeoutMs.toNat := by
    rw [withinTimeout, decide_eq_true_iff]
  rw [Bool.eq_iff_iff, hcheck, hmeant, ClockHolds]
  split <;> omega

/-- A timed read returns the bytes it would by true time, after as many checks, exactly when the counter holds to
the deadline at every check up to the one that ends the read. -/
theorem timedReads_iff (timeoutMs : UInt32) (start : ℕ) (schedule : List Pass) :
    (∀ terminator,
      readUntil terminator timeoutMs (waitFrom start schedule) =
          ((readUntilRun terminator timeoutMs start schedule).map Prod.fst).getD (schedule.filterMap Pass.byte) ∧
        (readUntilRun terminator timeoutMs start schedule =
            timedRead (endsWith terminator) (withinTimeout timeoutMs) schedule [] 0 ↔
          ∀ pass ∈ clockChecks (endsWith terminator) (withinTimeout timeoutMs) schedule [],
            ClockHolds start timeoutMs pass)) ∧
    (∀ count,
      readBytes (count + 1) timeoutMs (waitFrom start schedule) =
          ((readBytesRun (count + 1) timeoutMs start schedule).map Prod.fst).getD (schedule.filterMap Pass.byte) ∧
        (readBytesRun (count + 1) timeoutMs start schedule =
            timedRead (hasCount (count + 1)) (withinTimeout timeoutMs) schedule [] 0 ↔
          ∀ pass ∈ clockChecks (hasCount (count + 1)) (withinTimeout timeoutMs) schedule [],
            ClockHolds start timeoutMs pass)) := by
  constructor
  · intro terminator
    refine ⟨readUntil_eq terminator timeoutMs start schedule, ?_⟩
    rw [readUntilRun, timedRead_eq_iff]
    exact forall₂_congr fun pass _ => beforeDeadline_eq_iff start timeoutMs pass
  · intro count
    refine ⟨readBytes_eq count.succ_pos timeoutMs start schedule, ?_⟩
    rw [readBytesRun, timedRead_eq_iff]
    exact forall₂_congr fun pass _ => beforeDeadline_eq_iff start timeoutMs pass

/-- A second before the counter wraps, an identification that comes at once is not waited for. -/
theorem readUntilRun_wrapped :
    ¬ ∀ (terminator : List UInt8) (timeoutMs : UInt32) (start : ℕ) (schedule : List Pass),
      readUntilRun terminator timeoutMs start schedule =
        timedRead (endsWith terminator) (withinTimeout timeoutMs) schedule [] 0 := by
  intro h
  have hearly := h crlf idTimeoutMs (2 ^ 32 - 1000) [⟨1, some 0x0D⟩, ⟨2, some 0x0A⟩]
  revert hearly
  decide

end Iec6205621Reader
end IotFirmware
