import IotFirmware.Protocols.DlmsCosem
import IotFirmware.Protocols.HdlcRoundTrip

/-! The hunt for a frame finds every frame that follows idle flags, as long as it
arrives within the timeout. -/
namespace IotFirmware

def hunt (buf : List UInt8) (total : Nat) : List UInt8 → Hunt
  | [] => .reading buf total
  | b :: rest =>
    match readFrameByte buf total b with
    | .reading buf total => hunt buf total rest
    | .complete frame => .complete frame

/-- The frame is sent, and these bytes arrive within the timeout, before anything else. -/
def Delivers (turn : Turn) (bytes : List UInt8) : Prop :=
  turn.sendOk = true ∧ ∃ early late, turn.polls = early ++ late ∧
    (∀ poll ∈ early, poll.now - turn.startTime < dlmsTimeout) ∧ early.filterMap Poll.byte = bytes

/-- The read loop returns what the hunt finds in the bytes that arrive in time. -/
theorem readFrameLoop_eq_ok {startTime : UInt32} {frame : List UInt8} (late : List Poll) (early : List Poll) :
    ∀ (buf : List UInt8) (total : Nat), (∀ poll ∈ early, poll.now - startTime < dlmsTimeout) →
      hunt buf total (early.filterMap Poll.byte) = .complete frame →
        readFrameLoop startTime (early ++ late) buf total = .ok frame := by
  induction early with
  | nil => simp [hunt]
  | cons poll early ih =>
    intro buf total htime hhunt
    obtain ⟨hnow, htime⟩ := List.forall_mem_cons.mp htime
    rw [List.cons_append, readFrameLoop, if_pos hnow]
    cases hbyte : poll.byte with
    | none =>
      rw [List.filterMap_cons_none hbyte] at hhunt
      exact ih buf total htime hhunt
    | some b =>
      rw [List.filterMap_cons_some hbyte, hunt] at hhunt
      dsimp only
      cases hread : readFrameByte buf total b with
      | reading buf total =>
        rw [hread] at hhunt
        exact ih buf total htime hhunt
      | complete found =>
        rw [hread] at hhunt
        exact congrArg Except.ok (Hunt.complete.inj hhunt)

/-- Idle flags leave the hunt behind one opening flag. -/
theorem hunt_idle (idle : ℕ) (rest : List UInt8) :
    hunt [] 0 (List.replicate idle hdlcFlag ++ hdlcFlag :: rest) = hunt [hdlcFlag] 0 rest := by
  have hmore (n : ℕ) : hunt [hdlcFlag] 0 (List.replicate n hdlcFlag ++ rest) = hunt [hdlcFlag] 0 rest := by
    induction n with
    | zero => rfl
    | succ n ih => exact ih
  cases idle with
  | zero => rfl
  | succ n =>
    have h := hmore (n + 1)
    rw [List.replicate_succ', List.append_assoc] at h
    exact h

theorem readFrameByte_body {buf : List UInt8} (h : 3 ≤ buf.length) (total : Nat) (b : UInt8) :
    readFrameByte buf total b =
      if buf.length + 1 = total then .complete (buf ++ [b]) else .reading (buf ++ [b]) total := by
  have h3 : ¬ buf.length + 1 = 3 := by omega
  simp only [readFrameByte, List.length_append, List.length_singleton, h3, false_and, if_false]
  rw [if_neg (by omega), if_neg (by omega), if_neg (by omega)]

/-- Past the length field, the hunt takes as many bytes as the header gives. -/
theorem hunt_body (rest : List UInt8) : ∀ (buf : List UInt8) (total : Nat), 3 ≤ buf.length →
    buf.length + rest.length = total → rest ≠ [] → hunt buf total rest = .complete (buf ++ rest) := by
  induction rest with
  | nil => exact fun _ _ _ _ hne => absurd rfl hne
  | cons b rest ih =>
    intro buf total hbuf htotal _
    rw [List.length_cons] at htotal
    rw [hunt, readFrameByte_body hbuf]
    by_cases hlast : rest = []
    · subst hlast
      rw [if_pos (by simpa using htotal)]
    · have hpos := List.length_pos_iff.mpr hlast
      rw [if_neg (by omega)]
      dsimp only
      rw [ih (buf ++ [b]) total (by simp; omega) (by simp; omega) hlast, List.append_assoc, List.singleton_append]

/-- The format byte of a frame is taken for one, and not for a flag. -/
theorem format_hunted {format : UInt8} (h : format &&& 0xF8 = hdlcFormatTypeA) :
    format ≠ hdlcFlag ∧ format &&& 0xF0 = hdlcFormatTypeA &&& 0xF0 := by
  have hall : ∀ i : Fin 256, i.val &&& 0xF8 = 0xA0 → i.val ≠ 0x7E ∧ i.val &&& 0xF0 = 0xA0 := by decide +kernel
  simpa [← UInt8.toNat_inj, hdlcFormatTypeA, hdlcFlag] using hall ⟨format.toNat, format.toNat_lt⟩
    (by simpa [← UInt8.toNat_inj, hdlcFormatTypeA] using h)

theorem hunt_wire {f : HdlcFrame} (hmax : f.length + 2 ≤ hdlcFrameMax) (idle : ℕ) :
    hunt [] 0 (List.replicate idle hdlcFlag ++ f.wire) = .complete f.wire := by
  have hle : f.length ≤ 0x7FF := by
    simp only [hdlcFrameMax, hdlcInfoMax] at hmax
    omega
  obtain ⟨hformat, hlength⟩ := (format_length_iff _ _ f.length).mpr ⟨hle, rfl, rfl⟩
  obtain ⟨hnotFlag, hhunted⟩ := format_hunted hformat
  have hwire : f.wire = hdlcFlag :: (hdlcFormatTypeA ||| UInt8.ofNat (f.length >>> 8)) ::
      UInt8.ofNat (f.length &&& 0xFF) :: f.wire.drop 3 := by
    simp [HdlcFrame.wire, HdlcFrame.body, HdlcFrame.header]
  have hrest : (f.wire.drop 3).length = f.length - 1 := by
    rw [List.length_drop, f.wire_length]
    omega
  generalize hdlcFormatTypeA ||| UInt8.ofNat (f.length >>> 8) = format at *
  generalize UInt8.ofNat (f.length &&& 0xFF) = low at *
  have hseven : 7 ≤ f.length := by
    simp only [HdlcFrame.length, HdlcAddress.len, HdlcAddress.len_eq]
    omega
  have hfirst : readFrameByte [hdlcFlag] 0 format = .reading [hdlcFlag, format] 0 := by
    simp [readFrameByte, hnotFlag, hhunted]
  have hsecond : readFrameByte [hdlcFlag, format] 0 low = .reading [hdlcFlag, format, low] (f.length + 2) := by
    simp [readFrameByte, -UInt8.toNat_and, hlength, Nat.not_lt.mpr hmax, Nat.not_lt.mpr hseven]
    omega
  rw [hwire, hunt_idle, hunt, hfirst]
  dsimp only
  rw [hunt, hsecond]
  dsimp only
  rw [hunt_body _ _ _ le_rfl (by rw [hrest]; simp; omega) (List.ne_nil_of_length_pos (by omega))]
  rfl

/-- A frame that fits is read behind any number of idle flags. -/
theorem readFrame_wire {turn : Turn} {f : HdlcFrame} (hmax : f.length + 2 ≤ hdlcFrameMax) {idle : ℕ}
    (hdelivers : Delivers turn (List.replicate idle hdlcFlag ++ f.wire)) : readFrame turn = .ok f.wire := by
  obtain ⟨-, early, late, hpolls, htime, hbytes⟩ := hdelivers
  rw [readFrame, hpolls]
  exact readFrameLoop_eq_ok late early [] 0 htime (hbytes ▸ hunt_wire hmax idle)

end IotFirmware
