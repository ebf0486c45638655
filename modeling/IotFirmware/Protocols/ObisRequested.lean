import IotFirmware.Protocols.ObisLines

/-! When `parseObisFloat` reads the requested line of a data block and nothing else. -/
namespace IotFirmware

namespace Iec6205621Reader
open ObisLine

/-- `parseObisFloat` with its output behind a reference. -/
def parseObisFloatInto (block code : List UInt8) (out : UInt32) : Bool × UInt32 :=
  match parseObisFloat block code with
  | some value => (true, value)
  | none => (false, out)

/-- What a request for a code has to come to: the value of the line with that
code or a failure, never anything read from elsewhere. -/
structure ReadsRequested (lines : List ObisLine) (c : List UInt8) : Prop where
  value : ∀ bits, parseObisFloat (block lines) c = some bits ↔
    ∃ line ∈ lines, line.code = c ∧ SpellsFloat line.value bits
  supplied : ∀ t, findValue c (cString (block lines)) = some t → (parseObisFloat (block lines) c).isSome →
    ∃ front line back, lines = front ++ line :: back ∧ line.code = c ∧
      cString (block lines) = block front ++ line.code ++ 0x28 :: t
  untouched : ∀ out, (parseObisFloatInto (block lines) c out).1 = false →
    (parseObisFloatInto (block lines) c out).2 = out

/-- The first line whose code ends with the requested one is the requested one, or
holds no number; and the requested one, when it holds a plain decimal, is reached. -/
structure RequestedReached (lines : List ObisLine) (c : List UInt8) : Prop where
  read : ∀ line back bits, reached c [] lines = some (line, back) → strtof line.value = some (bits, []) →
    line.code = c ∧ SpellsFloat line.value bits
  present : ∀ line ∈ lines, line.code = c → (∃ bits, SpellsFloat line.value bits) →
    ∃ back, reached c [] lines = some (line, back)

/-- A code as it is asked for: not empty, and without a bracket. -/
def IsCode (c : List UInt8) : Prop := c ≠ [] ∧ NoBracket c

instance (c : List UInt8) : Decidable (IsCode c) := inferInstanceAs (Decidable (_ ∧ _))

private theorem eq_of_code {lines : List ObisLine} (hcodes : (lines.map code).Nodup) {first second : ObisLine}
    (hfirst : first ∈ lines) (hsecond : second ∈ lines) (h : first.code = second.code) : first = second :=
  List.inj_on_of_nodup_map hcodes hfirst hsecond h

private theorem length_block_lt {front mid : List ObisLine} {line : ObisLine} :
    (block front ++ line.code).length < (block (front ++ line :: mid)).length := by
  simp [block_append, block_cons]

/-- A place in a block is behind one line's bracket only. -/
theorem line_of_place {lines front₁ front₂ back₁ back₂ : List ObisLine} {line₁ line₂ : ObisLine} {t : List UInt8}
    (h₁ : lines = front₁ ++ line₁ :: back₁) (h₂ : lines = front₂ ++ line₂ :: back₂)
    (ht : block front₁ ++ line₁.code ++ 0x28 :: t = block front₂ ++ line₂.code ++ 0x28 :: t) : line₁ = line₂ := by
  have hlength : (block front₁ ++ line₁.code).length = (block front₂ ++ line₂.code).length := by
    have := congrArg List.length ht
    simp only [List.length_append, List.length_cons] at this ⊢
    omega
  rw [h₁] at h₂
  rcases List.append_eq_append_iff.mp h₂ with ⟨mid, rfl, hmid⟩ | ⟨mid, rfl, hmid⟩
  · cases mid with
    | nil => exact (List.cons.inj hmid).1
    | cons line mid =>
      obtain ⟨rfl, -⟩ := List.cons.inj hmid
      have := @length_block_lt front₁ mid line₁
      simp only [List.length_append] at this hlength
      omega
  · cases mid with
    | nil => exact (List.cons.inj hmid).1.symm
    | cons line mid =>
      obtain ⟨rfl, -⟩ := List.cons.inj hmid
      have := @length_block_lt front₂ mid line₂
      simp only [List.length_append] at this hlength
      omega

/-- Where the line reached stands in the text the search sees. -/
theorem reached_place {c lead : List UInt8} {lines back : List ObisLine} {line : ObisLine}
    (h : reached c lead lines = some (line, back)) :
    ∃ front, lines = front ++ line :: back ∧
      cString (block lines) = block front ++ line.code ++ 0x28 :: cString (line.behind back) := by
  induction lines generalizing lead with
  | nil => simp [reached] at h
  | cons first lines ih =>
    rw [reached] at h
    split at h
    · simp at h
    case isFalse hcode =>
      have hopen : cString (block (first :: lines)) = first.code ++ 0x28 :: cString (first.behind lines) := by
        rw [block_cons, cString_of_not_mem hcode, cString, List.takeWhile_cons_of_pos (by decide), ← cString]
      split at h
      · obtain ⟨rfl, rfl⟩ := Prod.mk.inj (Option.some.inj h)
        exact ⟨[], rfl, by simpa [block] using hopen⟩
      · split at h
        · simp at h
        case isFalse hfield =>
          obtain ⟨front, rfl, hfront⟩ := ih h
          refine ⟨first :: front, rfl, ?_⟩
          rw [hopen, behind, cString_of_not_mem hfield, cString_of_not_mem (by decide), hfront]
          simp [block, text]

private theorem parseObisFloatInto_untouched {block c : List UInt8} {out : UInt32}
    (h : (parseObisFloatInto block c out).1 = false) : (parseObisFloatInto block c out).2 = out := by
  rw [parseObisFloatInto] at h ⊢
  cases hparse : parseObisFloat block c with
  | none => rfl
  | some value => simp [hparse] at h

theorem RequestedReached.of_reads {lines : List ObisLine} {c : List UInt8} (hcodes : (lines.map code).Nodup)
    (hc : IsCode c) (h : ReadsRequested lines c) : RequestedReached lines c := by
  have hread : ∀ line back bits, reached c [] lines = some (line, back) → strtof line.value = some (bits, []) →
      line.code = c ∧ SpellsFloat line.value bits := by
    intro line back bits hreached hwhole
    have hparse : parseObisFloat (block lines) c = some bits := by
      rw [parseObisFloat_block hc.2, hreached, Option.bind_some]
      exact wholeFloat_eq_some.mpr hwhole
    obtain ⟨front, hlines, hplace⟩ := reached_place hreached
    have hfind : findValue c (cString (block lines)) = some (cString (line.behind back)) := by
      rw [findValue_lines hc.2, hreached, Option.map_some]
    obtain ⟨front', line', back', hlines', hcode, hplace'⟩ := h.supplied _ hfind (by rw [hparse]; rfl)
    obtain rfl : line = line' := line_of_place hlines hlines' (hplace.symm.trans hplace')
    refine ⟨hcode, ?_⟩
    obtain ⟨other, hother, hothercode, hspells⟩ := (h.value bits).mp hparse
    rwa [eq_of_code hcodes (mem_of_reached hreached) hother (hcode.trans hothercode.symm)]
  refine ⟨hread, fun line hline hcode hspells => ?_⟩
  obtain ⟨bits, hspells⟩ := hspells
  have hparse := (h.value bits).mpr ⟨line, hline, hcode, hspells⟩
  rw [parseObisFloat_block hc.2, Option.bind_eq_some_iff] at hparse
  obtain ⟨⟨found, back⟩, hreached, hwhole⟩ := hparse
  have hfound := (hread found back bits hreached (wholeFloat_eq_some.mp hwhole)).1
  obtain rfl := eq_of_code hcodes (mem_of_reached hreached) hline (hfound.trans hcode.symm)
  exact ⟨back, hreached⟩

private theorem ReadsRequested.of_reached {lines : List ObisLine} {c : List UInt8} (hc : IsCode c)
    (h : RequestedReached lines c) : ReadsRequested lines c where
  value bits := by
    rw [parseObisFloat_block hc.2, Option.bind_eq_some_iff]
    constructor
    · rintro ⟨⟨line, back⟩, hreached, hwhole⟩
      exact ⟨line, mem_of_reached hreached, h.read line back bits hreached (wholeFloat_eq_some.mp hwhole)⟩
    · rintro ⟨line, hline, hcode, hspells⟩
      obtain ⟨back, hreached⟩ := h.present line hline hcode ⟨bits, hspells⟩
      exact ⟨(line, back), hreached, wholeFloat_eq_some.mpr hspells.strtof⟩
  supplied t hfind hsome := by
    obtain ⟨bits, hparse⟩ := Option.isSome_iff_exists.mp hsome
    rw [parseObisFloat_block hc.2, Option.bind_eq_some_iff] at hparse
    obtain ⟨⟨line, back⟩, hreached, hwhole⟩ := hparse
    obtain ⟨front, hlines, hplace⟩ := reached_place hreached
    refine ⟨front, line, back, hlines, (h.read line back bits hreached (wholeFloat_eq_some.mp hwhole)).1, ?_⟩
    rw [findValue_lines hc.2, hreached, Option.map_some] at hfind
    rw [hplace, Option.some.inj hfind]
  untouched _ := parseObisFloatInto_untouched

/-- A request is answered from its own line alone exactly when that line is the one
the search reaches, and what `strtof` takes of a reached value is a plain decimal. -/
theorem readsRequested_iff {lines : List ObisLine} {c : List UInt8} (hcodes : (lines.map code).Nodup)
    (hc : IsCode c) : ReadsRequested lines c ↔ RequestedReached lines c :=
  ⟨.of_reads hcodes hc, .of_reached hc⟩

private theorem importCode_isCode : IsCode importCode := by decide

def kilowattHours : List UInt8 := ascii "001234.567*kWh"

private theorem kilowattHours_free : NoBracket kilowattHours := by decide

private theorem exportCode_free : NoBracket exportCode := by decide

def ordinaryLines : List ObisLine :=
  [⟨exportCode, kilowattHours, exportCode_free, kilowattHours_free⟩,
    ⟨importCode, kilowattHours, importCode_isCode.2, kilowattHours_free⟩]

private theorem spellsFloat_kilowattHours : ∀ line ∈ ordinaryLines, ∃ bits, SpellsFloat line.value bits := by
  intro line hline
  refine ⟨_, ⟨none, [0, 0, 1, 2, 3, 4], some [5, 6, 7], by decide⟩, ?_, by decide +kernel, rfl⟩
  fin_cases hline <;> decide

theorem reached_ordinary : (reached importCode [] ordinaryLines).map (fun found => found.1.code) = some importCode := by
  decide

theorem readsRequested_ordinary : ReadsRequested ordinaryLines importCode := by
  have hcodes : (ordinaryLines.map code).Nodup := by decide
  obtain ⟨⟨found, behind⟩, hfound, hcode⟩ := Option.map_eq_some_iff.mp reached_ordinary
  refine (readsRequested_iff hcodes importCode_isCode).mpr ⟨?_, ?_⟩
  · intro line back bits hreached hwhole
    obtain ⟨rfl, rfl⟩ := Prod.mk.inj (Option.some.inj (hfound.symm.trans hreached))
    obtain ⟨bits', hspells⟩ := spellsFloat_kilowattHours found (mem_of_reached hfound)
    obtain ⟨rfl, -⟩ := Prod.mk.inj (Option.some.inj (hspells.strtof.symm.trans hwhole))
    exact ⟨hcode, hspells⟩
  · intro line hline hrequested _
    rw [eq_of_code hcodes hline (mem_of_reached hfound) (hrequested.trans hcode.symm)]
    exact ⟨behind, hfound⟩

private theorem longer_free : NoBracket (0x31 :: importCode) := by decide

private theorem five_free : NoBracket [0x35] := by decide

/-- `11-0:1.8.0(5)` -/
def longerLine : ObisLine := ⟨0x31 :: importCode, [0x35], longer_free, five_free⟩

/-- The line of a code that merely ends with the requested one supplies its value. -/
theorem readsRequested_longer :
    ¬ ∀ lines c, (lines.map code).Nodup → IsCode c → ReadsRequested lines c := by
  intro h
  have hparse : (parseObisFloat (block [longerLine]) importCode).isSome := by decide +kernel
  obtain ⟨bits, hbits⟩ := Option.isSome_iff_exists.mp hparse
  obtain ⟨line, hline, hcode, -⟩ :=
    ((h [longerLine] importCode (by simp) importCode_isCode).value bits).mp hbits
  rw [List.mem_singleton.mp hline] at hcode
  exact absurd hcode (by decide)

end Iec6205621Reader
end IotFirmware
