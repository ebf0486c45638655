import IotFirmware.Protocols.FrameHunt

/-! The hunt for a frame behind noise: where it stands after noise that holds no
plausible header, and which noise makes it lose the frame that follows. -/
namespace IotFirmware

/-- Three bytes that open a frame which can be read: a flag, a format byte, and
a length that fits. -/
def PlausibleHeader (stream : List UInt8) (i : ℕ) : Prop :=
  ∃ format low, stream[i]? = some hdlcFlag ∧ stream[i + 1]? = some format ∧ stream[i + 2]? = some low ∧
    format &&& 0xF0 = 0xA0 ∧ 7 ≤ (format &&& 0x07).toNat <<< 8 ||| low.toNat ∧
      (format &&& 0x07).toNat <<< 8 ||| low.toNat ≤ hdlcFrameMax - 2

/-- Noise with no plausible header in it, seen together with what follows. -/
def Quiet (noise rest : List UInt8) : Prop := ∀ i < noise.length, ¬ PlausibleHeader (noise ++ rest) i

/-- A format byte whose length is past 255, whatever the byte after it. -/
def longFormat (b : UInt8) : Bool := b &&& 0xF0 == 0xA0 && b &&& 0x07 != 0

/-- How many headers of a flag and a long format byte stand at the end of some
bytes, given last byte first. -/
def trailingHeaders : List UInt8 → ℕ
  | format :: flag :: rest => if flag = hdlcFlag ∧ longFormat format = true then trailingHeaders rest + 1 else 0
  | _ => 0

private theorem hunt_append (front back : List UInt8) :
    ∀ (buf : List UInt8) (total : ℕ), hunt buf total (front ++ back) =
      match hunt buf total front with
      | .reading buf total => hunt buf total back
      | .complete frame => .complete frame := by
  induction front with
  | nil => exact fun _ _ => rfl
  | cons b front ih =>
    intro buf total
    rw [List.cons_append, hunt, hunt]
    cases readFrameByte buf total b with
    | reading buf total => exact ih buf total
    | complete frame => rfl

theorem Quiet.front {noise more rest : List UInt8} (h : Quiet (noise ++ more) rest) : Quiet noise (more ++ rest) := by
  intro i hi
  rw [← List.append_assoc]
  exact h i (by simp; omega)

private theorem hunt_idle_byte (b : UInt8) :
    hunt [] 0 [b] = .reading [] 0 ∨ b = hdlcFlag ∧ hunt [] 0 [b] = .reading [hdlcFlag] 0 := by
  by_cases hflag : b = hdlcFlag
  · subst hflag
    exact .inr ⟨rfl, rfl⟩
  · exact .inl (by simp [hunt, readFrameByte, hflag])

private theorem hunt_flag_byte (b : UInt8) :
    hunt [hdlcFlag] 0 [b] = .reading [] 0 ∨ b = hdlcFlag ∧ hunt [hdlcFlag] 0 [b] = .reading [hdlcFlag] 0 ∨
      b &&& 0xF0 = 0xA0 ∧ hunt [hdlcFlag] 0 [b] = .reading [hdlcFlag, b] 0 := by
  by_cases hflag : b = hdlcFlag
  · subst hflag
    exact .inr (.inl ⟨rfl, rfl⟩)
  · have htypeA : hdlcFormatTypeA &&& 0xF0 = 0xA0 := rfl
    by_cases hformat : b &&& 0xF0 = 0xA0
    · exact .inr (.inr ⟨hformat, by simp [hunt, readFrameByte, hflag, hformat, htypeA]⟩)
    · exact .inl (by simp [hunt, readFrameByte, hflag, hformat, htypeA])

/-- A length that cannot be a frame drops all three bytes of the header. -/
theorem hunt_length_byte {format low : UInt8}
    (h : ¬ (7 ≤ (format &&& 0x07).toNat <<< 8 ||| low.toNat ∧
      (format &&& 0x07).toNat <<< 8 ||| low.toNat ≤ hdlcFrameMax - 2)) :
    hunt [hdlcFlag, format] 0 [low] = .reading [] 0 := by
  have hrefused : (format &&& 0x07).toNat <<< 8 ||| low.toNat < 7 ∨
      hdlcFrameMax < ((format &&& 0x07).toNat <<< 8 ||| low.toNat) + 2 := by
    simp only [hdlcFrameMax, hdlcInfoMax] at h ⊢
    omega
  simp [hunt, readFrameByte, -UInt8.toNat_and, hrefused]

private theorem Quiet.length_byte {front rest : List UInt8} {format low : UInt8}
    (h : Quiet (front ++ [hdlcFlag, format]) (low :: rest)) (hformat : format &&& 0xF0 = 0xA0) :
    ¬ (7 ≤ (format &&& 0x07).toNat <<< 8 ||| low.toNat ∧
      (format &&& 0x07).toNat <<< 8 ||| low.toNat ≤ hdlcFrameMax - 2) := by
  rintro ⟨hmin, hmax⟩
  apply h front.length (by simp)
  exact ⟨format, low, by simp, by simp, by simp, hformat, hmin, hmax⟩

/-- Behind quiet noise the hunt keeps nothing, an opening flag, or the flag and
the format byte that the noise ends with. -/
theorem hunt_quiet {noise rest : List UInt8} (h : Quiet noise rest) :
    hunt [] 0 noise = .reading [] 0 ∨
      (∃ front, noise = front ++ [hdlcFlag] ∧ hunt [] 0 noise = .reading [hdlcFlag] 0) ∨
      ∃ front format, noise = front ++ [hdlcFlag, format] ∧ format &&& 0xF0 = 0xA0 ∧
        hunt [] 0 noise = .reading [hdlcFlag, format] 0 := by
  induction noise using List.reverseRecOn generalizing rest with
  | nil => exact .inl rfl
  | append_singleton front b ih =>
    have hquiet := h.front
    rw [hunt_append]
    rcases ih hquiet with hbuf | ⟨more, rfl, hbuf⟩ | ⟨more, format, rfl, hformat, hbuf⟩
    · rw [hbuf]
      rcases hunt_idle_byte b with hb | ⟨rfl, hb⟩
      · exact .inl hb
      · exact .inr (.inl ⟨front, rfl, hb⟩)
    · rw [hbuf]
      rcases hunt_flag_byte b with hb | ⟨rfl, hb⟩ | ⟨hformat, hb⟩
      · exact .inl hb
      · exact .inr (.inl ⟨_, rfl, hb⟩)
      · exact .inr (.inr ⟨more, b, by simp, hformat, hb⟩)
    · rw [hbuf]
      exact .inl (hunt_length_byte (hquiet.length_byte hformat))

private theorem longFormat_iff (b : UInt8) : longFormat b = true ↔ b &&& 0xF0 = 0xA0 ∧ b &&& 0x07 ≠ 0 := by
  simp [longFormat]

private theorem Quiet.format_long {front rest : List UInt8} {format : UInt8}
    (h : Quiet (front ++ [hdlcFlag, format]) (hdlcFlag :: rest)) (hformat : format &&& 0xF0 = 0xA0) :
    longFormat format = true := by
  rw [longFormat_iff]
  refine ⟨hformat, ?_⟩
  intro hshort
  apply h.length_byte hformat
  rw [hshort]
  decide

/-- Where the hunt waits for a length in front of a flag, the noise ends with a long header. -/
theorem Quiet.waits {noise rest : List UInt8} {last : UInt8} (h : Quiet noise (hdlcFlag :: rest))
    (hwaits : hunt [] 0 noise = .reading [hdlcFlag, last] 0) :
    longFormat last = true ∧ ∃ front, noise = front ++ [hdlcFlag, last] := by
  rcases hunt_quiet h with hbuf | ⟨front, -, hbuf⟩ | ⟨front, format, rfl, hformat, hbuf⟩
  · simp [hbuf] at hwaits
  · simp [hbuf] at hwaits
  · obtain rfl : format = last := by simpa [hbuf] using hwaits
    exact ⟨h.format_long hformat, front, rfl⟩

/-- A long format byte restarts the hunt whatever follows it, a flag included. -/
theorem hunt_longFormat {format : UInt8} (h : longFormat format = true) (low : UInt8) :
    hunt [hdlcFlag, format] 0 [low] = .reading [] 0 := by
  apply hunt_length_byte
  obtain ⟨-, hlong⟩ := (longFormat_iff format).mp h
  have hpos : 0 < (format &&& 0x07).toNat := by
    rw [Nat.pos_iff_ne_zero]
    exact fun hzero => hlong (UInt8.toNat_inj.mp hzero)
  have hor := Nat.shiftLeft_add_eq_or_of_lt (show low.toNat < 2 ^ 8 from low.toNat_lt) (format &&& 0x07).toNat
  rw [← hor, Nat.shiftLeft_eq, hdlcFrameMax, hdlcInfoMax]
  omega

/-- A header with a long format byte is taken up where nothing or a flag was kept. -/
theorem hunt_header {format : UInt8} (hformat : format &&& 0xF0 = 0xA0) (hflag : format ≠ hdlcFlag) :
    hunt [] 0 [hdlcFlag, format] = .reading [hdlcFlag, format] 0 ∧
      hunt [hdlcFlag] 0 [hdlcFlag, format] = .reading [hdlcFlag, format] 0 := by
  have hstep : hunt [hdlcFlag] 0 [format] = .reading [hdlcFlag, format] 0 := by
    simp [hunt, readFrameByte, hflag, hformat, show hdlcFormatTypeA &&& 0xF0 = 0xA0 from rfl]
  exact ⟨hstep, hstep⟩

/-- Which noise leaves the hunt waiting for a length: the headers at its end undo
one another in pairs. -/
theorem hunt_waits_iff (back : List UInt8) : ∀ rest, Quiet back.reverse (hdlcFlag :: rest) →
    ((∃ format, hunt [] 0 back.reverse = .reading [hdlcFlag, format] 0) ↔ ¬ Even (trailingHeaders back)) := by
  fun_induction trailingHeaders back with
  | case1 format flag back hlong ih =>
    intro rest h
    obtain ⟨rfl, hlong⟩ := hlong
    obtain ⟨hformat, -⟩ := (longFormat_iff format).mp hlong
    have hflag : format ≠ hdlcFlag := by
      rintro rfl
      cases hformat
    rw [List.reverse_cons, List.reverse_cons, List.append_assoc] at h ⊢
    have hfront : Quiet back.reverse (hdlcFlag :: (format :: hdlcFlag :: rest)) := h.front
    have hih := ih _ hfront
    rw [hunt_append, Nat.even_add_one, not_not]
    obtain ⟨hfromNone, hfromFlag⟩ := hunt_header hformat hflag
    rcases hunt_quiet hfront with hbuf | ⟨_, -, hbuf⟩ | ⟨_, before, -, -, hbuf⟩
    · rw [hbuf] at hih ⊢
      simpa [hfromNone] using hih
    · rw [hbuf] at hih ⊢
      simpa [hfromFlag] using hih
    · have hrefused : hunt [hdlcFlag, before] 0 [hdlcFlag, format] = .reading [] 0 := by
        change hunt [hdlcFlag, before] 0 ([hdlcFlag] ++ [format]) = _
        rw [hunt_append, hunt_longFormat (hfront.waits hbuf).1]
        simp [hunt, readFrameByte, hflag]
      rw [hbuf] at hih ⊢
      simpa [hrefused] using hih
  | case2 format flag back hshort =>
    intro rest h
    simp only [Even.zero, not_true_eq_false, iff_false]
    rintro ⟨last, hlast⟩
    obtain ⟨hlong, front, hfront⟩ := h.waits hlast
    have hback : format :: flag :: back = last :: hdlcFlag :: front.reverse := by
      simpa using congrArg List.reverse hfront
    simp only [List.cons.injEq] at hback
    obtain ⟨rfl, rfl, -⟩ := hback
    exact hshort ⟨rfl, hlong⟩
  | case3 back hshort =>
    intro rest h
    simp only [Even.zero, not_true_eq_false, iff_false]
    rintro ⟨last, hlast⟩
    obtain ⟨-, front, hfront⟩ := h.waits hlast
    have hback : back = last :: hdlcFlag :: front.reverse := by
      simpa using congrArg List.reverse hfront
    exact hshort _ _ _ hback

/-- One byte adds at most itself to what is kept. -/
theorem readFrameByte_length (buf : List UInt8) (total : ℕ) (b : UInt8) :
    (∃ buf' total', readFrameByte buf total b = .reading buf' total' ∧ buf'.length ≤ buf.length + 1) ∨
      readFrameByte buf total b = .complete (buf ++ [b]) := by
  unfold readFrameByte
  dsimp only
  split_ifs <;> simp

/-- A completed frame is no longer than what was kept and what came in. -/
theorem hunt_complete_length {bytes frame : List UInt8} :
    ∀ {buf : List UInt8} {total : ℕ}, hunt buf total bytes = .complete frame →
      frame.length ≤ buf.length + bytes.length := by
  induction bytes with
  | nil => simp [hunt]
  | cons b bytes ih =>
    intro buf total h
    rw [hunt] at h
    rcases readFrameByte_length buf total b with ⟨buf', total', hread, hlen⟩ | hread
    · rw [hread] at h
      have hih := ih h
      rw [List.length_cons]
      omega
    · rw [hread] at h
      obtain rfl := Hunt.complete.inj h
      simp

/-- What the read loop returns was found by the hunt in bytes that came in. -/
theorem hunt_of_readFrameLoop {startTime : UInt32} {frame : List UInt8} (polls : List Poll) :
    ∀ (buf : List UInt8) (total : ℕ), readFrameLoop startTime polls buf total = .ok frame →
      hunt buf total (polls.filterMap Poll.byte) = .complete frame := by
  induction polls with
  | nil => simp [readFrameLoop]
  | cons poll polls ih =>
    intro buf total h
    rw [readFrameLoop] at h
    split at h
    swap
    · simp at h
    cases hbyte : poll.byte with
    | none =>
      rw [hbyte] at h
      rw [List.filterMap_cons_none hbyte]
      exact ih buf total h
    | some b =>
      rw [hbyte] at h
      rw [List.filterMap_cons_some hbyte, hunt]
      dsimp only at h
      cases hread : readFrameByte buf total b with
      | reading buf total =>
        rw [hread] at h
        exact ih buf total h
      | complete found =>
        rw [hread] at h
        exact congrArg Hunt.complete (Except.ok.inj h)

def promptTurn (bytes : List UInt8) : Turn := ⟨true, 0, bytes.map fun b => ⟨0, some b⟩⟩

private theorem promptTurn_bytes (bytes : List UInt8) : (promptTurn bytes).polls.filterMap Poll.byte = bytes := by
  simp [promptTurn, List.filterMap_map]

private theorem promptTurn_delivers (bytes : List UInt8) : Delivers (promptTurn bytes) bytes := by
  refine ⟨rfl, (promptTurn bytes).polls, [], by simp, ?_, promptTurn_bytes bytes⟩
  intro poll hpoll
  obtain ⟨b, -, rfl⟩ := List.mem_map.mp hpoll
  show (0 : UInt32) - 0 < dlmsTimeout
  decide

section Resync
variable {noise : List UInt8} {f : HdlcFrame} (hquiet : Quiet noise f.wire)
include hquiet

/-- Behind an even number of long headers the hunt finds the frame. -/
theorem hunt_resync (hmax : f.length + 2 ≤ hdlcFrameMax) (heven : Even (trailingHeaders noise.reverse)) :
    hunt [] 0 (noise ++ f.wire) = .complete f.wire := by
  have hidle (n : ℕ) := hunt_wire hmax n
  rw [hunt_append]
  rcases hunt_quiet hquiet with hbuf | ⟨_, -, hbuf⟩ | ⟨_, format, -, -, hbuf⟩
  · rw [hbuf]
    exact hidle 0
  · rw [hbuf]
    exact hidle 1
  · have hwaits := hunt_waits_iff noise.reverse _ (noise.reverse_reverse.symm ▸ hquiet)
    rw [List.reverse_reverse] at hwaits
    exact absurd heven (hwaits.mp ⟨format, hbuf⟩)

/-- Behind an odd number the opening flag is dropped, and no whole frame is left. -/
theorem readFrame_swallowed (hodd : ¬ Even (trailingHeaders noise.reverse)) {turn : Turn}
    (hbytes : turn.polls.filterMap Poll.byte = noise ++ f.wire) : readFrame turn ≠ .ok f.wire := by
  intro hread
  have hwaits := hunt_waits_iff noise.reverse _ (noise.reverse_reverse.symm ▸ hquiet)
  rw [List.reverse_reverse] at hwaits
  obtain ⟨format, hbuf⟩ := hwaits.mpr hodd
  have hcomplete := hunt_of_readFrameLoop turn.polls [] 0 hread
  have hdropped (rest : List UInt8) : hunt [hdlcFlag, format] 0 (hdlcFlag :: rest) = hunt [] 0 rest := by
    change hunt [hdlcFlag, format] 0 ([hdlcFlag] ++ rest) = _
    rw [hunt_append, hunt_longFormat (hquiet.waits hbuf).1]
  rw [hbytes, hunt_append, hbuf, HdlcFrame.wire] at hcomplete
  dsimp only at hcomplete
  rw [hdropped] at hcomplete
  have hlen := hunt_complete_length hcomplete
  simp at hlen

end Resync

/-- Every frame that fits is read behind quiet noise unless the noise ends with
an odd number of long headers, whose format byte swallows the opening flag. -/
theorem readFrame_resync_iff {noise frame : List UInt8} {f : HdlcFrame} (hparse : hdlcParseFrame frame = .ok f)
    (hmax : frame.length ≤ hdlcFrameMax) (hquiet : ∀ i < noise.length, ¬ PlausibleHeader (noise ++ frame) i) :
    (∀ turn, Delivers turn (noise ++ frame) → readFrame turn = .ok frame) ↔ Even (trailingHeaders noise.reverse) := by
  obtain ⟨rfl, -⟩ := wire_of_hdlcParseFrame hparse
  constructor
  · intro hread
    by_contra hodd
    apply readFrame_swallowed hquiet hodd (promptTurn_bytes _)
    exact hread _ (promptTurn_delivers _)
  · rintro heven turn ⟨-, early, late, hpolls, htime, hbytes⟩
    rw [readFrame, hpolls]
    apply readFrameLoop_eq_ok late early [] 0 htime
    rw [hbytes]
    exact hunt_resync hquiet (f.wire_length ▸ hmax) heven

private theorem quiet_longHeader (f : HdlcFrame) : Quiet [hdlcFlag, 0xA1] f.wire := by
  rintro i hi ⟨format, low, hflag, hformat, hlow, -, -, hmax⟩
  obtain rfl | rfl : i = 0 ∨ i = 1 := by
    simp at hi
    omega
  · obtain rfl : 0xA1 = format := by simpa using hformat
    obtain rfl : hdlcFlag = low := by simpa [HdlcFrame.wire] using hlow
    exact absurd hmax (by decide)
  · simp [hdlcFlag] at hflag

/-- The UA that meter 1 answers client 16 with. -/
def meterUa : List UInt8 := [0x7E, 0xA0, 0x07, 0x21, 0x03, 0x73, 0x01, 0x40, 0x7E]

private theorem meterUa_parsed : ∃ f, hdlcParseFrame meterUa = .ok f :=
  ⟨⟨⟨[], 0x21, by simp, by decide, by simp⟩, ⟨[], 0x03, by simp, by decide, by simp⟩, hdlcUa, []⟩, by decide +kernel⟩

/-- A meter's UA behind a flag and one long format byte is lost. -/
theorem readFrame_swallows_flag : ¬ ∀ (noise frame : List UInt8) (f : HdlcFrame), hdlcParseFrame frame = .ok f →
    frame.length ≤ hdlcFrameMax → (∀ i < noise.length, ¬ PlausibleHeader (noise ++ frame) i) →
      ∀ turn, Delivers turn (noise ++ frame) → readFrame turn = .ok frame := by
  intro hclaim
  obtain ⟨f, hparse⟩ := meterUa_parsed
  have hwire := (wire_of_hdlcParseFrame hparse).1
  have hquiet := quiet_longHeader f
  apply readFrame_swallowed hquiet (by decide) (promptTurn_bytes _)
  rw [← hwire] at hquiet ⊢
  exact hclaim _ _ f hparse (by decide) hquiet _ (promptTurn_delivers _)

theorem readFrame_resync_iff_noise :
    (∀ turn, Delivers turn ([0x00, 0x7E, 0x12] ++ meterUa) → readFrame turn = .ok meterUa) ↔
      Even (trailingHeaders [0x12, 0x7E, 0x00]) := by
  obtain ⟨f, hparse⟩ := meterUa_parsed
  apply @readFrame_resync_iff [0x00, 0x7E, 0x12] meterUa f hparse (by decide)
  rintro i hi ⟨format, low, hflag, hformat, hlow, htypeA, -, -⟩
  obtain rfl | rfl | rfl : i = 0 ∨ i = 1 ∨ i = 2 := by
    simp at hi
    omega
  · simp [hdlcFlag] at hflag
  · obtain rfl : 0x12 = format := by simpa using hformat
    exact absurd htypeA (by decide)
  · simp [hdlcFlag] at hflag

end IotFirmware
