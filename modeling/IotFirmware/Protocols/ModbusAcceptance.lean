import IotFirmware.Protocols.ModbusDetection
import IotFirmware.Protocols.SingleBits

/-! Which frames a register read and a probe accept, and what a register read
leaves in its caller's float. -/
namespace IotFirmware
open Checked

def wordOf (d3 d2 d1 d0 : UInt8) : UInt32 :=
  d3.toUInt32 <<< 24 ||| d2.toUInt32 <<< 16 ||| d1.toUInt32 <<< 8 ||| d0.toUInt32

/-- The float written for a word, as its bits: the word itself, or its value over 1000. -/
def registerBits (format : RegisterFormat) (raw : UInt32) : Option UInt32 :=
  match format with
  | .ieee754Float => some raw
  | .scaledInt => some (Strtof.magnitudeBits (nearestFloat raw.toNat / 1000))
  | .unknown _ => none

private theorem log_lt {x : ℚ} {k : ℤ} (hx : 0 ≤ x) (hk : 0 < k) (h : x < 2 ^ k) : Int.log 2 x < k := by
  rcases hx.eq_or_lt with rfl | hpos
  · rwa [Int.log_zero_right]
  · exact (Int.lt_zpow_iff_log_lt (by norm_num) hpos).mp (by exact_mod_cast h)

/-- Rounding does not pass a power of two. -/
theorem nearestFloat_le {x : ℚ} {k : ℤ} (hx : 0 ≤ x) (hk : 0 < k) (h : x < 2 ^ k) : nearestFloat x ≤ 2 ^ k := by
  obtain ⟨n, hn, hfloat⟩ := nearestFloat_eq hx
  have hlog := log_lt hx hk h
  calc nearestFloat x = n * 2 ^ ulpExponent x := hfloat
    _ ≤ 2 ^ (24 : ℤ) * 2 ^ (k - 24) := by
      gcongr
      · exact_mod_cast hn
      · norm_num
      · rw [ulpExponent, abs_of_nonneg hx]
        omega
    _ = 2 ^ k := by
      rw [← zpow_add₀ (by norm_num)]
      congr 1
      ring

private theorem nearestFloat_nonneg {x : ℚ} (hx : 0 ≤ x) : 0 ≤ nearestFloat x := by
  obtain ⟨n, -, hfloat⟩ := nearestFloat_eq hx
  rw [hfloat]
  positivity

/-- The bits written for a word are those of the number it is decoded to. -/
theorem decodeRegisters_eq {format : RegisterFormat} {raw bits : UInt32} (h : registerBits format raw = some bits) :
    decodeRegisters format raw = .ok (float32Value bits) := by
  cases format with
  | unknown => exact absurd h (by simp [registerBits])
  | ieee754Float =>
    obtain rfl := Option.some.inj h
    rfl
  | scaledInt =>
    obtain rfl := Option.some.inj h
    have hraw : (0 : ℚ) ≤ raw.toNat := Nat.cast_nonneg _
    have hsmall : (raw.toNat : ℚ) < 2 ^ (32 : ℤ) := by exact_mod_cast raw.toNat_lt
    have hword := nearestFloat_le hraw (by norm_num) hsmall
    have hscaled : 0 ≤ nearestFloat raw.toNat / 1000 := div_nonneg (nearestFloat_nonneg hraw) (by norm_num)
    have hbelow : nearestFloat raw.toNat / 1000 < 2 ^ (32 : ℤ) := by
      rw [div_lt_iff₀ (by norm_num)]
      exact hword.trans_lt (by norm_num)
    have hvalue :=
      (nearestFloat_le hscaled (by norm_num) hbelow).trans_lt (by norm_num : (2 : ℚ) ^ (32 : ℤ) < 2 ^ (33 : ℤ))
    have hlog := log_lt (nearestFloat_nonneg hscaled) (by norm_num) hvalue
    exact congrArg Except.ok (float32Value_magnitudeBits hscaled (by omega)).symm

/-- What a register read makes of the word read: its status, and the float behind its caller's pointer, as bits. -/
def storeWord (format : RegisterFormat) (val : UInt32) : Checked UInt32 → Checked Unit × UInt32
  | .error e => (.error e, val)
  | .ok raw =>
    match registerBits format raw with
    | none => (failure, val)
    | some bits => (.ok (), bits)

private theorem storeWord_eq_ok {format : RegisterFormat} {val bits : UInt32} {word : Checked UInt32} :
    storeWord format val word = (.ok (), bits) ↔ ∃ raw, word = .ok raw ∧ registerBits format raw = some bits := by
  cases word with
  | error e => simp [storeWord]
  | ok raw => cases h : registerBits format raw <;> simp [storeWord, h, Checked.failure]

theorem storeWord_eq_failure {format : RegisterFormat} {val : UInt32} {word : Checked UInt32} (hword : word.InBounds)
    (hno : ∀ bits, storeWord format val word ≠ (.ok (), bits)) : storeWord format val word = (failure, val) := by
  cases word with
  | error e =>
    have herror : (.error e : Checked Unit) = failure := (hword.error rfl).eq_failure fun _ h => absurd h (by simp)
    rw [storeWord, herror]
  | ok raw =>
    cases h : registerBits format raw with
    | none => simp [storeWord, h]
    | some bits => exact absurd (by simp [storeWord, h]) (hno bits)

namespace ModbusRtuReader
variable {σ ε : Type} (bus : Module σ ε) (r : ModbusRtuReader)

/-- A register read with the float its caller points at, kept as its bits. -/
def readRegisterInto (address : UInt16) (exchange : Exchange ε) (s : σ) (val : UInt32) :
    (Checked Unit × UInt32) × ModbusRtuReader × σ :=
  match bus.send exchange.send s (buildRequest r.config address) with
  | (false, s) => ((failure, val), r, s)
  | (true, s) =>
    match r.readResponse bus exchange s with
    | (response, r, s) => (storeWord r.config.registerFormat val (response >>= rawValue), r, s)

private theorem rawValue_of_readResponse {exchange : Exchange ε} {s : σ} {raw : UInt32} :
    (r.readResponse bus exchange s).1 >>= rawValue = .ok raw ↔ r.config.functionCode &&& 0x80 = 0 ∧
      ∃ d3 d2 d1 d0, r.hears bus exchange s =
          withCrc [r.config.slaveAddress, r.config.functionCode, 4, d3, d2, d1, d0] ∧ raw = wordOf d3 d2 d1 d0 := by
  rw [bind_eq_ok]
  constructor
  · rintro ⟨frame, hframe, hraw⟩
    obtain ⟨hclear, d3, d2, d1, d0, hhears, rfl⟩ := (r.readResponse_eq_ok bus).mp hframe
    exact ⟨hclear, d3, d2, d1, d0, hhears, (Except.ok.inj hraw).symm⟩
  · rintro ⟨hclear, d3, d2, d1, d0, hhears, rfl⟩
    exact ⟨_, (r.readResponse_eq_ok bus).mpr ⟨hclear, d3, d2, d1, d0, hhears, rfl⟩, rfl⟩

private theorem inBounds_rawValue (exchange : Exchange ε) (s : σ) :
    ((r.readResponse bus exchange s).1 >>= rawValue).InBounds := by
  refine inBounds_bind (r.inBounds_readResponse bus exchange s) fun frame hframe => ?_
  obtain ⟨-, d3, d2, d1, d0, -, rfl⟩ := (r.readResponse_eq_ok bus).mp hframe
  exact inBounds_ok _

/-- What a register read comes to once its request is sent. -/
theorem readRegisterInto_eq {address : UInt16} {exchange : Exchange ε} {s s' : σ} {val : UInt32}
    (hsend : bus.send exchange.send s (buildRequest r.config address) = (true, s')) :
    (r.readRegisterInto bus address exchange s val).1 =
      storeWord r.config.registerFormat val ((r.readResponse bus exchange s').1 >>= rawValue) := by
  have hconfig := r.readResponse_config bus exchange s'
  rw [readRegisterInto, hsend]
  dsimp only
  rw [hconfig]

/-- The echo of the probe, or the meter's refusal of it. -/
theorem checkProbe_eq_ok {config : ModbusRtuConfig} {body : List UInt8}
    (hslave : (withCrc body)[0]? = some config.slaveAddress) {u : Unit} :
    checkProbe config (withCrc body) = .ok u ↔
      withCrc body = probeRequest config ∨ ∃ code, body = [config.slaveAddress, 0x88, code] := by
  have hlen := withCrc_length body
  simp only [checkProbe, bind_eq_ok, byteAt_eq_ok]
  constructor
  · rintro ⟨function, hfunction, h⟩
    split at h
    case isTrue hrefusal =>
      obtain ⟨hfive, rfl⟩ := hrefusal
      rw [hlen] at hfive
      obtain ⟨a, f, code, rfl⟩ := List.length_eq_three.mp (Nat.add_right_cancel hfive : body.length = 3)
      obtain rfl : a = config.slaveAddress := by simpa [withCrc] using hslave
      obtain rfl : f = fcDiagnostics ||| 0x80 := by simpa [withCrc] using hfunction
      exact .inr ⟨code, rfl⟩
    case isFalse => exact .inl (require_eq_ok.mp h).2
  · rintro (hecho | ⟨code, rfl⟩)
    · rw [hecho]
      refine ⟨fcDiagnostics, rfl, ?_⟩
      rw [if_neg fun h => absurd h.2 (by decide)]
      exact require_eq_ok.mpr ⟨rfl, rfl⟩
    · exact ⟨0x88, rfl, by rw [if_pos ⟨rfl, rfl⟩, pure_eq_ok]⟩

private theorem probe_eq {exchange : Exchange ε} {s s' : σ}
    (hsend : bus.send exchange.send s (probeRequest r.config) = (true, s')) :
    (r.probe bus exchange s).1 = (r.readFrame bus probeFrameLen exchange s').1 >>= checkProbe r.config := by
  rw [probe, hsend]
  dsimp only
  obtain ⟨micros, s'', hread, -⟩ := r.readFrame_eq bus probeFrameLen exchange s'
  rw [hread]

/-- A probe succeeds exactly on its own request and on the refusal of it. -/
theorem probe_eq_ok {exchange : Exchange ε} {s s' : σ}
    (hsend : bus.send exchange.send s (probeRequest r.config) = (true, s')) :
    (r.probe bus exchange s).1 = .ok () ↔ r.hears bus exchange s' = probeRequest r.config ∨
      ∃ code, r.hears bus exchange s' = withCrc [r.config.slaveAddress, 0x88, code] := by
  rw [r.probe_eq bus hsend, bind_eq_ok]
  constructor
  · rintro ⟨frame, hframe, hcheck⟩
    obtain ⟨rfl, -, -, hslave, body, hbody⟩ := (r.readFrame_eq_ok bus).mp hframe
    rw [hbody] at hslave hcheck ⊢
    rcases (checkProbe_eq_ok hslave).mp hcheck with hecho | ⟨code, rfl⟩
    · exact .inl hecho
    · exact .inr ⟨code, rfl⟩
  · intro h
    obtain ⟨body, hbody, hslave, hmin, hmax⟩ : ∃ body, r.hears bus exchange s' = withCrc body ∧
        (withCrc body)[0]? = some r.config.slaveAddress ∧ minFrameLen ≤ (withCrc body).length ∧
          (withCrc body).length ≤ probeFrameLen := by
      rcases h with hecho | ⟨code, hrefusal⟩
      · exact ⟨_, hecho, rfl, show 4 ≤ 8 by decide, show 8 ≤ 8 by decide⟩
      · exact ⟨_, hrefusal, rfl, show 4 ≤ 5 by decide, show 5 ≤ 8 by decide⟩
    rw [hbody] at h
    refine ⟨withCrc body, (r.readFrame_eq_ok bus).mpr ⟨hbody.symm, hmin, hmax, hslave, body, rfl⟩, ?_⟩
    rcases h with hecho | ⟨code, hrefusal⟩
    · exact (checkProbe_eq_ok hslave).mpr (.inl hecho)
    · rw [hrefusal]
      exact (checkProbe_eq_ok rfl).mpr (.inr ⟨code, rfl⟩)

theorem inBounds_probe {exchange : Exchange ε} {s s' : σ}
    (hsend : bus.send exchange.send s (probeRequest r.config) = (true, s')) : (r.probe bus exchange s).1.InBounds := by
  rw [r.probe_eq bus hsend]
  refine inBounds_bind (r.inBounds_readFrame bus probeFrameLen exchange s') fun frame hframe => ?_
  obtain ⟨-, hmin, -⟩ := (r.readFrame_eq_ok bus).mp hframe
  have hfour : 4 ≤ frame.length := hmin
  refine inBounds_byteAt_bind (by omega) fun function => ?_
  split
  · exact inBounds_pure _
  · exact inBounds_require _

/-- Once its request is sent, a register read writes the value of the word that the response to it carries, a probe
accepts its echo and the refusal of it, and both fail on anything else, with the float as it was and nothing stored
past the frame buffer. -/
theorem modbus_acceptance (hclear : r.config.functionCode &&& 0x80 = 0) (exchange : Exchange ε) (s s' : σ) :
    (∀ address val, bus.send exchange.send s (buildRequest r.config address) = (true, s') →
      (∀ bits, (r.readRegisterInto bus address exchange s val).1 = (.ok (), bits) ↔ ∃ d3 d2 d1 d0,
        r.hears bus exchange s' = withCrc [r.config.slaveAddress, r.config.functionCode, 4, d3, d2, d1, d0] ∧
          registerBits r.config.registerFormat (wordOf d3 d2 d1 d0) = some bits ∧
          decodeRegisters r.config.registerFormat (wordOf d3 d2 d1 d0) = .ok (float32Value bits)) ∧
      ((∀ bits, (r.readRegisterInto bus address exchange s val).1 ≠ (.ok (), bits)) →
        (r.readRegisterInto bus address exchange s val).1 = (failure, val))) ∧
    (bus.send exchange.send s (probeRequest r.config) = (true, s') →
      ((r.probe bus exchange s).1 = .ok () ↔ r.hears bus exchange s' = probeRequest r.config ∨
        ∃ code, r.hears bus exchange s' = withCrc [r.config.slaveAddress, 0x88, code]) ∧
      ((r.probe bus exchange s).1 ≠ .ok () → (r.probe bus exchange s).1 = failure)) := by
  refine ⟨fun address val hsend => ?_, fun hsend => ⟨r.probe_eq_ok bus hsend, fun hno => ?_⟩⟩
  · rw [r.readRegisterInto_eq bus hsend]
    refine ⟨fun bits => ?_, storeWord_eq_failure (r.inBounds_rawValue bus exchange s')⟩
    rw [storeWord_eq_ok]
    constructor
    · rintro ⟨raw, hraw, hbits⟩
      obtain ⟨-, d3, d2, d1, d0, hhears, rfl⟩ := (r.rawValue_of_readResponse bus).mp hraw
      exact ⟨d3, d2, d1, d0, hhears, hbits, decodeRegisters_eq hbits⟩
    · rintro ⟨d3, d2, d1, d0, hhears, hbits, -⟩
      exact ⟨_, (r.rawValue_of_readResponse bus).mpr ⟨hclear, d3, d2, d1, d0, hhears, rfl⟩, hbits⟩
  · exact (r.inBounds_probe bus hsend).eq_failure fun _ h => hno h

theorem modbus_acceptance_float :
    (floatReader.readRegisterInto scripted 2 (atOnce [1, 3, 4, 0x43, 0x66, 0, 0, 0x0F, 0xA8]) () 0).1 =
        (.ok (), 0x43660000) ∧
      (floatReader.probe scripted (atOnce [1, 0x88, 1, 0x87, 0xC0]) ()).1 = .ok () := by
  have hread := modbus_acceptance scripted floatReader (by decide)
    (atOnce [1, 3, 4, 0x43, 0x66, 0, 0, 0x0F, 0xA8]) () ()
  have hprobe := modbus_acceptance scripted floatReader (by decide) (atOnce [1, 0x88, 1, 0x87, 0xC0]) () ()
  exact ⟨((hread.1 2 0 rfl).1 0x43660000).mpr ⟨0x43, 0x66, 0, 0, by decide +kernel, by decide, rfl⟩,
    (hprobe.2 rfl).1.mpr (.inr ⟨1, by decide +kernel⟩)⟩

end ModbusRtuReader
end IotFirmware
