import IotFirmware.Foundation.Crc
import IotFirmware.Protocols.ModbusRtu

/-! What the Modbus read loop hears on any bus, and the frames it accepts. -/
namespace IotFirmware
open Checked

section Hearing
variable {σ ε : Type} (bus : Module σ ε)

/-- The bytes up to the first silence behind one of them, or the timeout. `last`
is when the last byte came, if any did. -/
def heard (t35 startTime : UInt32) : List (Tick ε) → (last : Option UInt32) → σ → List UInt8
  | [], _, _ => []
  | tick :: ticks, last, s =>
    if tick.millis - startTime < modbusTimeout then
      match bus.readByte tick.event s with
      | (some b, s) => b :: heard t35 startTime ticks (some tick.micros) s
      | (none, s) =>
        if ∃ t ∈ last, t35 ≤ tick.micros - t then [] else heard t35 startTime ticks last s
    else []

/-- Asking a bus for bytes again and again yields these, and leaves it there. -/
inductive Reads : σ → List UInt8 → σ → Prop
  | done {s : σ} : Reads s [] s
  | idle {s m t : σ} {event : ε} {bytes : List UInt8} :
      bus.readByte event s = (none, m) → Reads m bytes t → Reads s bytes t
  | byte {s m t : σ} {event : ε} {b : UInt8} {bytes : List UInt8} :
      bus.readByte event s = (some b, m) → Reads m bytes t → Reads s (b :: bytes) t

def captured (max : ℕ) (bytes : List UInt8) (last : UInt32) : Capture := ⟨bytes.take max, bytes.length, last⟩

private theorem captured_keep {max : ℕ} (front : List UInt8) (last : UInt32) (b : UInt8) :
    (captured max front last).keep max b = .ok ((front ++ [b]).take max) := by
  unfold Capture.keep captured
  dsimp only
  split
  · rename_i hlt
    have hfront : front.take max = front := List.take_of_length_le (by omega)
    have hboth : (front ++ [b]).take max = front ++ [b] := List.take_of_length_le (by simp; omega)
    rw [hfront, hboth, store, if_pos ⟨hlt, rfl⟩]
  · rw [List.take_append_of_le_length (by omega)]

/-- The loop counts every byte it hears and keeps those that fit. -/
theorem readFrameLoop_eq (max : ℕ) (t35 startTime : UInt32) (ticks : List (Tick ε)) :
    ∀ (front : List UInt8) (micros : UInt32) (last : Option UInt32) (s : σ),
      last = (if front = [] then none else some micros) → ∃ micros' s',
        ModbusRtuReader.readFrameLoop bus max t35 startTime ticks (captured max front micros) s =
          (.ok (captured max (front ++ heard bus t35 startTime ticks last s) micros'), s') ∧
          Reads bus s (heard bus t35 startTime ticks last s) s' := by
  induction ticks with
  | nil =>
    intro front micros last s _
    exact ⟨micros, s, by simp [ModbusRtuReader.readFrameLoop, heard], .done⟩
  | cons tick ticks ih =>
    intro front micros last s hlast
    rw [ModbusRtuReader.readFrameLoop, heard]
    by_cases htime : tick.millis - startTime < modbusTimeout
    · rw [if_pos htime, if_pos htime]
      have hsilence :
          (0 < (captured max front micros).index ∧ t35 ≤ tick.micros - (captured max front micros).lastByte) ↔
          ∃ t ∈ last, t35 ≤ tick.micros - t := by
        rw [hlast]
        cases front <;> simp [captured]
      rcases hread : bus.readByte tick.event s with ⟨_ | b, m⟩
      · simp only [hsilence]
        split
        · exact ⟨micros, m, by simp, .idle hread .done⟩
        · obtain ⟨micros', s', hloop, hreads⟩ := ih front micros last m hlast
          exact ⟨micros', s', hloop, .idle hread hreads⟩
      · obtain ⟨micros', s', hloop, hreads⟩ := ih (front ++ [b]) tick.micros (some tick.micros) m (by simp)
        refine ⟨micros', s', ?_, .byte hread hreads⟩
        dsimp only
        rw [captured_keep]
        simpa [captured] using hloop
    · rw [if_neg htime, if_neg htime]
      exact ⟨micros, s, by simp, .done⟩

end Hearing

theorem high_byte (x : UInt16) : (x &&& 0xFF00) >>> 8 = x >>> 8 := by
  have hx := x.toNat_lt
  apply UInt16.toNat_inj.mp
  simp only [UInt16.toNat_shiftRight, UInt16.toNat_and, UInt16.reduceToNat, Nat.reduceMod,
    Nat.shiftRight_and_distrib, Nat.reduceShiftRight]
  rw [show 255 = 2 ^ 8 - 1 from rfl, Nat.and_two_pow_sub_one_eq_mod, Nat.shiftRight_eq_div_pow]
  omega

/-- A CRC read low byte first is the one computed, exactly when its bytes are those sent. -/
theorem crc_read_iff (low high : UInt8) (crc : UInt16) :
    crc = low.toUInt16 ||| high.toUInt16 <<< 8 ↔
      low = (crc &&& 0x00FF).toUInt8 ∧ high = ((crc &&& 0xFF00) >>> 8).toUInt8 := by
  have hlow := low.toNat_lt
  have hhigh := high.toNat_lt
  have hcrc := crc.toNat_lt
  have hand : crc.toNat &&& 255 = crc.toNat % 256 := Nat.and_two_pow_sub_one_eq_mod crc.toNat 8
  have hshift := high_byte crc
  have hor := Nat.shiftLeft_add_eq_or_of_lt (show low.toNat < 2 ^ 8 from hlow) high.toNat
  rw [hshift]
  simp only [← UInt8.toNat_inj, ← UInt16.toNat_inj, UInt16.toNat_or, UInt8.toNat_toUInt16, UInt16.toNat_and,
    UInt16.toNat_toUInt8, UInt16.toNat_shiftRight, UInt16.toNat_shiftLeft, UInt16.reduceToNat, Nat.reduceMod, hand,
    Nat.shiftRight_eq_div_pow, Nat.shiftLeft_eq] at hor ⊢
  rw [Nat.mod_eq_of_lt (show high.toNat * 2 ^ 8 < 2 ^ 16 by omega), Nat.or_comm, ← hor]
  omega

theorem withCrc_length (body : List UInt8) : (withCrc body).length = body.length + 2 := by simp [withCrc]

namespace ModbusRtuReader
variable {config : ModbusRtuConfig} {max : ℕ} {bytes frame : List UInt8} {last : UInt32}

/-- The frames accepted: long enough, not too long, from the slave, under their own CRC. -/
theorem checkFrame_eq_ok : checkFrame config max (captured max bytes last) = .ok frame ↔
    frame = bytes ∧ minFrameLen ≤ bytes.length ∧ bytes.length ≤ max ∧ bytes[0]? = some config.slaveAddress ∧
      ∃ body, bytes = withCrc body := by
  unfold checkFrame captured
  simp only [bind_eq_ok, require_eq_ok, byteAt_eq_ok, sub_eq_ok, slice_eq_ok, crc_read_iff, List.drop_zero,
    Nat.zero_add, exists_const]
  constructor
  · rintro ⟨hmin, hmax, _, hslave, rfl, n, hn, low, hlow, j, hj, high, hhigh, k, hk, _, ⟨_, rfl⟩, ⟨rfl, rfl⟩, _, rfl⟩
    obtain rfl : k = n := by omega
    obtain rfl : j = k + 1 := by omega
    rw [List.take_of_length_le hmax] at hslave hlow hhigh ⊢
    have hcrc : bytes.drop k = [_, _] := drop_eq_cons_iff.mpr ⟨hlow, drop_eq_cons_iff.mpr ⟨hhigh, by simp; omega⟩⟩
    refine ⟨List.take_length, hmin, hmax, hslave, bytes.take k, ?_⟩
    rw [withCrc, ← hcrc, List.take_append_drop]
  · rintro ⟨rfl, hmin, hmax, hslave, body, rfl⟩
    have hlen := withCrc_length body
    rw [List.take_of_length_le hmax]
    have htake : (withCrc body).take body.length = body := by simp [withCrc]
    refine ⟨hmin, hmax, _, hslave, rfl, body.length, by omega, _, ?_, body.length + 1, by omega, _, ?_, body.length,
      by omega, _, ⟨by omega, htake⟩, ⟨rfl, rfl⟩, le_rfl, List.take_length⟩
    · simp [withCrc]
    · simp [withCrc]

private theorem inBounds_checkFrame : (checkFrame config max (captured max bytes last)).InBounds := by
  apply inBounds_require_bind
  intro hmin
  apply inBounds_require_bind
  intro hmax
  simp only [captured, minFrameLen] at hmin hmax ⊢
  have hlen : (bytes.take max).length = bytes.length := by simpa using hmax
  apply inBounds_byteAt_bind (by omega)
  intro _
  apply inBounds_require_bind
  intro _
  apply inBounds_sub_bind (by omega)
  intro i hi
  apply inBounds_byteAt_bind (by omega)
  intro low
  apply inBounds_sub_bind (by omega)
  intro j hj
  apply inBounds_byteAt_bind (by omega)
  intro high
  apply inBounds_sub_bind (by omega)
  intro n hn
  apply inBounds_bind (inBounds_slice (by omega))
  intro _ _
  apply inBounds_require_bind
  intro _
  exact inBounds_slice (by omega)

section Frames
variable {σ ε : Type} (bus : Module σ ε) (r : ModbusRtuReader)

def hears (exchange : Exchange ε) (s : σ) : List UInt8 :=
  heard bus r.t35 exchange.startTime exchange.ticks none s

/-- Reading a frame checks what the loop hears. -/
theorem readFrame_eq (max : ℕ) (exchange : Exchange ε) (s : σ) : ∃ micros s',
    r.readFrame bus max exchange s =
      (checkFrame r.config max (captured max (r.hears bus exchange s) micros), { r with lastRx := micros }, s') ∧
      Reads bus s (r.hears bus exchange s) s' := by
  obtain ⟨micros, s', hloop, hreads⟩ := readFrameLoop_eq bus max r.t35 exchange.startTime exchange.ticks []
    exchange.startMicros none s rfl
  refine ⟨micros, s', ?_, hreads⟩
  have hstart : captured max [] exchange.startMicros = ⟨[], 0, exchange.startMicros⟩ := by simp [captured]
  rw [hstart] at hloop
  rw [readFrame, hloop]
  rfl

theorem readFrame_eq_ok {max : ℕ} {exchange : Exchange ε} {s : σ} {frame : List UInt8} :
    (r.readFrame bus max exchange s).1 = .ok frame ↔
      frame = r.hears bus exchange s ∧ minFrameLen ≤ frame.length ∧ frame.length ≤ max ∧
        frame[0]? = some r.config.slaveAddress ∧ ∃ body, frame = withCrc body := by
  obtain ⟨micros, s', hread, -⟩ := r.readFrame_eq bus max exchange s
  rw [hread, checkFrame_eq_ok]
  constructor
  · rintro ⟨rfl, h⟩
    exact ⟨rfl, h⟩
  · rintro ⟨rfl, h⟩
    exact ⟨rfl, h⟩

theorem inBounds_readFrame (max : ℕ) (exchange : Exchange ε) (s : σ) : (r.readFrame bus max exchange s).1.InBounds := by
  obtain ⟨micros, s', hread, -⟩ := r.readFrame_eq bus max exchange s
  rw [hread]
  exact inBounds_checkFrame

/-- A frame of seven bytes and their CRC. -/
theorem withCrc_seven {frame body : List UInt8} (h : frame = withCrc body) (hlen : frame.length = responseLen) :
    ∃ a f n d3 d2 d1 d0, frame = withCrc [a, f, n, d3, d2, d1, d0] := by
  subst h
  rw [withCrc_length] at hlen
  match body, hlen with
  | [a, f, n, d3, d2, d1, d0], _ => exact ⟨a, f, n, d3, d2, d1, d0, rfl⟩

private theorem checkResponse_eq_ok {config : ModbusRtuConfig} {frame : List UInt8} {u : Unit} :
    checkResponse config frame = .ok u ↔ frame[1]? = some config.functionCode ∧ config.functionCode &&& 0x80 = 0 ∧
      frame.length = responseLen ∧ frame[2]? = some 4 := by
  simp only [checkResponse, bind_eq_ok, require_eq_ok, byteAt_eq_ok, exists_const]
  constructor
  · rintro ⟨b, hb, hclear, hlen, _, hfunction, rfl, _, hcount, rfl⟩
    obtain rfl := Option.some.inj (hb.symm.trans hfunction)
    exact ⟨hb, hclear, hlen, hcount⟩
  · rintro ⟨hfunction, hclear, hlen, hcount⟩
    exact ⟨_, hfunction, hclear, hlen, _, hfunction, rfl, _, hcount, rfl⟩

/-- The response taken is the one to a register read. -/
theorem readResponse_eq_ok {exchange : Exchange ε} {s : σ} {frame : List UInt8} :
    (r.readResponse bus exchange s).1 = .ok frame ↔ r.config.functionCode &&& 0x80 = 0 ∧ ∃ d3 d2 d1 d0,
      r.hears bus exchange s = withCrc [r.config.slaveAddress, r.config.functionCode, 4, d3, d2, d1, d0] ∧
        frame = withCrc [r.config.slaveAddress, r.config.functionCode, 4, d3, d2, d1, d0] := by
  have hframe {frame : List UInt8} := @readFrame_eq_ok σ ε bus r responseLen exchange s frame
  rw [readResponse]
  obtain ⟨micros, s', hread, -⟩ := r.readFrame_eq bus responseLen exchange s
  rw [hread] at hframe ⊢
  dsimp only at hframe ⊢
  simp only [bind_eq_ok, pure_eq_ok, hframe, checkResponse_eq_ok]
  constructor
  · rintro ⟨_, ⟨hhears, -, -, hslave, body, hbody⟩, _, ⟨hfunction, hclear, hlen, hcount⟩, rfl⟩
    obtain ⟨a, f, n, d3, d2, d1, d0, rfl⟩ := withCrc_seven hbody hlen
    simp only [withCrc, List.cons_append, List.getElem?_cons_zero, List.getElem?_cons_succ,
      Option.some.injEq] at hslave hfunction hcount
    subst hslave hfunction hcount
    exact ⟨hclear, d3, d2, d1, d0, hhears.symm, rfl⟩
  · rintro ⟨hclear, d3, d2, d1, d0, hhears, rfl⟩
    refine ⟨_, ⟨hhears.symm, ?_, ?_, ?_, _, rfl⟩, (), ⟨?_, hclear, ?_, ?_⟩, rfl⟩
    all_goals simp [withCrc, minFrameLen, responseLen]

theorem inBounds_readResponse (exchange : Exchange ε) (s : σ) : (r.readResponse bus exchange s).1.InBounds := by
  have hframe {frame : List UInt8} := @readFrame_eq_ok σ ε bus r responseLen exchange s frame
  have hbounds := r.inBounds_readFrame bus responseLen exchange s
  rw [readResponse]
  obtain ⟨micros, s', hread, -⟩ := r.readFrame_eq bus responseLen exchange s
  rw [hread] at hframe hbounds ⊢
  dsimp only at hframe hbounds ⊢
  refine inBounds_bind hbounds fun frame h => ?_
  obtain ⟨-, hmin, -⟩ := hframe.mp h
  have hfour : 4 ≤ frame.length := hmin
  refine inBounds_bind ?_ fun _ _ => inBounds_pure _
  refine inBounds_byteAt_bind (by omega) fun _ => inBounds_require_bind fun _ => inBounds_require_bind fun _ => ?_
  refine inBounds_byteAt_bind (by omega) fun _ => inBounds_require_bind fun _ => ?_
  exact inBounds_byteAt_bind (by omega) fun _ => inBounds_require _

theorem readResponse_config (exchange : Exchange ε) (s : σ) :
    (r.readResponse bus exchange s).2.1.config = r.config := by
  rw [readResponse]
  obtain ⟨micros, s', hread, -⟩ := r.readFrame_eq bus responseLen exchange s
  rw [hread]

/-- A register read succeeds exactly on the response to it, and with the number in it. -/
theorem readRegister_eq_ok {address : UInt16} {exchange : Exchange ε} {s : σ} {value : Number} :
    (r.readRegister bus address exchange s).1 = .ok value ↔
      ∃ s', bus.send exchange.send s (buildRequest r.config address) = (true, s') ∧
        r.config.functionCode &&& 0x80 = 0 ∧ ∃ d3 d2 d1 d0,
          r.hears bus exchange s' = withCrc [r.config.slaveAddress, r.config.functionCode, 4, d3, d2, d1, d0] ∧
            decodeRegisters r.config.registerFormat
              (d3.toUInt32 <<< 24 ||| d2.toUInt32 <<< 16 ||| d1.toUInt32 <<< 8 ||| d0.toUInt32) = .ok value := by
  rw [readRegister]
  rcases hsend : bus.send exchange.send s (buildRequest r.config address) with ⟨_ | _, s'⟩
  · simp
  · simp only [Prod.mk.injEq, true_and, exists_eq_left']
    have hresponse {frame : List UInt8} := @readResponse_eq_ok σ ε bus r exchange s' frame
    have hconfig := r.readResponse_config bus exchange s'
    rcases hread : r.readResponse bus exchange s' with ⟨response, r', s''⟩
    rw [hread] at hresponse hconfig
    dsimp only at hresponse hconfig ⊢
    simp only [bind_eq_ok, hresponse, hconfig]
    constructor
    · rintro ⟨_, ⟨hclear, d3, d2, d1, d0, hhears, rfl⟩, raw, hraw, hvalue⟩
      obtain rfl := Except.ok.inj hraw
      exact ⟨hclear, d3, d2, d1, d0, hhears, hvalue⟩
    · rintro ⟨hclear, d3, d2, d1, d0, hhears, hvalue⟩
      exact ⟨_, ⟨hclear, d3, d2, d1, d0, hhears, rfl⟩, _, rfl, hvalue⟩

/-- A register read fails where its frame does. -/
theorem readRegister_of_readFrame {address : UInt16} {exchange : Exchange ε} {s s' : σ}
    (hsend : bus.send exchange.send s (buildRequest r.config address) = (true, s'))
    (h : (r.readFrame bus responseLen exchange s').1 = failure) :
    (r.readRegister bus address exchange s).1 = failure := by
  rw [readRegister, hsend]
  dsimp only
  rw [readResponse]
  rcases hread : r.readFrame bus responseLen exchange s' with ⟨frame, r', s''⟩
  rw [hread] at h
  dsimp only at h ⊢
  rw [h]
  rfl

/-- Wherever a register read ends, the bus was only asked for the bytes it heard,
behind a request that was sent. -/
theorem readRegister_reads (address : UInt16) (exchange : Exchange ε) (s : σ) :
    (r.readRegister bus address exchange s).2.1.config = r.config ∧
      ∃ bytes, Reads bus (bus.send exchange.send s (buildRequest r.config address)).2 bytes
        (r.readRegister bus address exchange s).2.2 ∧
        ((bus.send exchange.send s (buildRequest r.config address)).1 = true →
          bytes = r.hears bus exchange (bus.send exchange.send s (buildRequest r.config address)).2) := by
  rw [readRegister]
  rcases hsend : bus.send exchange.send s (buildRequest r.config address) with ⟨_ | _, s'⟩
  · exact ⟨rfl, [], .done, by simp⟩
  · obtain ⟨micros, s'', hread, hreads⟩ := r.readFrame_eq bus responseLen exchange s'
    dsimp only
    rw [readResponse, hread]
    exact ⟨rfl, _, hreads, fun _ => rfl⟩

theorem probe_of_readFrame {exchange : Exchange ε} {s s' : σ}
    (hsend : bus.send exchange.send s (probeRequest r.config) = (true, s'))
    (h : (r.readFrame bus probeFrameLen exchange s').1 = failure) : (r.probe bus exchange s).1 = failure := by
  rw [probe, hsend]
  rcases hread : r.readFrame bus probeFrameLen exchange s' with ⟨frame, r', s''⟩
  rw [hread] at h
  dsimp only at h ⊢
  rw [hread, h]
  rfl

end Frames

def floatReader : ModbusRtuReader where
  config := {
    registerFormat := .ieee754Float
    slaveAddress := 1
    functionCode := 3
    voltageAddress := 0
    importAddress := 2
    exportAddress := 4 }
  t35 := 4010

end ModbusRtuReader
end IotFirmware
