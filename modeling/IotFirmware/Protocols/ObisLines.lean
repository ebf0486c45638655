import IotFirmware.Foundation.Decimal
import IotFirmware.Protocols.Iec6205621

/-! The lines of a data block, and which of them `parseObisFloat` reads. -/
namespace IotFirmware

def NoBracket (s : List UInt8) : Prop := 0x28 ∉ s ∧ 0x29 ∉ s

instance (s : List UInt8) : Decidable (NoBracket s) := inferInstanceAs (Decidable (_ ∧ _))

/-- A code and, in brackets behind it, a value with an optional unit. -/
structure ObisLine where
  code : List UInt8
  field : List UInt8
  code_free : NoBracket code
  field_free : NoBracket field

namespace ObisLine

def closing : List UInt8 := 0x29 :: crlf

def text (line : ObisLine) : List UInt8 := line.code ++ 0x28 :: (line.field ++ closing)

/-- The value runs up to the star in front of the unit. -/
def value (line : ObisLine) : List UInt8 := line.field.takeWhile (· ≠ 0x2A)

def block (lines : List ObisLine) : List UInt8 := lines.flatMap text

def behind (line : ObisLine) (back : List ObisLine) : List UInt8 := line.field ++ (closing ++ block back)

theorem block_cons (line : ObisLine) (lines : List ObisLine) :
    block (line :: lines) = line.code ++ 0x28 :: line.behind lines := by
  simp [block, text, behind]

theorem block_append (front back : List ObisLine) : block (front ++ back) = block front ++ block back :=
  List.flatMap_append

/-- The first line whose code, with what is before it on its line, ends with `c`, and the
lines behind it. No line is reached past a NUL. -/
def reached (c : List UInt8) : (lead : List UInt8) → List ObisLine → Option (ObisLine × List ObisLine)
  | _, [] => none
  | lead, line :: lines =>
    if 0 ∈ line.code then none
    else if c <:+ lead ++ line.code then some (line, lines)
    else if 0 ∈ line.field then none
    else reached c crlf lines

theorem mem_of_reached {c lead : List UInt8} {lines back : List ObisLine} {line : ObisLine}
    (h : reached c lead lines = some (line, back)) : line ∈ lines := by
  induction lines generalizing lead with
  | nil => simp [reached] at h
  | cons first lines ih =>
    rw [reached] at h
    split at h
    · simp at h
    · split at h
      · obtain ⟨rfl, -⟩ := Prod.mk.inj (Option.some.inj h)
        exact List.mem_cons_self
      · split at h
        · simp at h
        · exact List.mem_cons_of_mem first (ih h)

end ObisLine

/-- What ends with a text ends with it behind any byte the text does not hold. -/
theorem suffix_past {c front back : List UInt8} {z : UInt8} (hz : z ∉ c) : c <:+ front ++ z :: back ↔ c <:+ back := by
  induction front with
  | nil =>
    rw [List.nil_append, List.suffix_cons_iff, or_iff_right]
    rintro rfl
    exact hz List.mem_cons_self
  | cons b front ih =>
    rw [List.cons_append, List.suffix_cons_iff, ih, or_iff_right]
    rintro rfl
    exact hz (by simp)

namespace Iec6205621Reader
open ObisLine

/-- Without a bracket there is nothing to find. -/
theorem findValue_none {c s : List UInt8} (h : 0x28 ∉ s) : findValue c s = none := by
  induction s with
  | nil => rfl
  | cons b s ih =>
    rw [findValue, if_neg, ih fun hs => h (List.mem_cons_of_mem b hs)]
    rintro ⟨-, hbracket⟩
    exact h (List.mem_of_getElem? hbracket)

/-- At its first bracket the search stops if the code is right in front of it. -/
theorem findValue_bracket {c p : List UInt8} (hc : 0x28 ∉ c) (hp : 0x28 ∉ p) (t : List UInt8) :
    findValue c (p ++ 0x28 :: t) = if c <:+ p then some t else findValue c t := by
  induction p with
  | nil =>
    rw [List.nil_append, findValue]
    by_cases hnil : c = []
    · simp [hnil]
    · rw [if_neg, if_neg fun h => hnil (List.suffix_nil.mp h)]
      rintro ⟨hstarts, -⟩
      obtain ⟨b, c, rfl⟩ := List.exists_cons_of_ne_nil hnil
      exact hc (by simp [(List.cons_prefix_cons.mp hstarts).1])
  | cons b p ih =>
    rw [List.cons_append, findValue, ih fun h => hp (List.mem_cons_of_mem b h)]
    by_cases heq : c = b :: p
    · subst heq
      rw [if_pos, if_pos List.suffix_rfl]
      · simp
      · exact ⟨List.prefix_append (b :: p) _, by simp⟩
    · have hsuffix : c <:+ b :: p ↔ c <:+ p := by simp [List.suffix_cons_iff, heq]
      simp only [hsuffix]
      rw [if_neg]
      rintro ⟨⟨u, hu⟩, hbracket⟩
      -- The code ends in front of the bracket, at it, or behind it.
      have hu : c ++ u = (b :: p) ++ 0x28 :: t := hu
      rcases List.append_eq_append_iff.mp hu with ⟨as, hsplit, -⟩ | ⟨bs, hsplit, htail⟩
      · cases as with
        | nil => exact heq (by simpa using hsplit.symm)
        | cons a as =>
          rw [← List.cons_append, hsplit, List.append_assoc, List.getElem?_append_right le_rfl] at hbracket
          obtain rfl : a = 0x28 := by simpa using hbracket
          exact hp (by simp [hsplit])
      · cases bs with
        | nil => exact heq (by simpa using hsplit)
        | cons a bs =>
          obtain rfl : 0x28 = a := (List.cons.inj htail).1
          exact hc (by simp [hsplit])

/-- The search over a block finds the first line the code ends in. -/
theorem findValue_block {c : List UInt8} (hc : NoBracket c) (lines : List ObisLine) {p lead : List UInt8}
    (hp : 0x28 ∉ p) (hlead : ∀ code, c <:+ p ++ code ↔ c <:+ lead ++ code) :
    findValue c (p ++ cString (block lines)) =
      (reached c lead lines).map fun found => cString (found.1.behind found.2) := by
  induction lines generalizing p lead with
  | nil => simpa [block, cString, reached] using findValue_none hp
  | cons line lines ih =>
    rw [block_cons, reached]
    by_cases hcode : 0 ∈ line.code
    · rw [if_pos hcode, cString_of_mem hcode, findValue_none, Option.map_none]
      rw [List.mem_append, not_or]
      exact ⟨hp, fun h => line.code_free.1 (cString_subset _ h)⟩
    · rw [if_neg hcode, cString_of_not_mem hcode, cString, List.takeWhile_cons_of_pos (by decide), ← cString,
        ← List.append_assoc, findValue_bracket hc.1]
      · simp only [hlead]
        split
        · rfl
        · rw [behind]
          by_cases hfield : 0 ∈ line.field
          · rw [if_pos hfield, cString_of_mem hfield, Option.map_none]
            exact findValue_none fun h => line.field_free.1 (cString_subset _ h)
          · rw [if_neg hfield, cString_of_not_mem hfield, cString_of_not_mem (by decide), ← List.append_assoc]
            apply ih
            · rw [List.mem_append, not_or]
              exact ⟨line.field_free.1, by decide⟩
            · intro code
              rw [List.append_assoc, closing, List.cons_append, suffix_past hc.2]
      · rw [List.mem_append, not_or]
        exact ⟨hp, line.code_free.1⟩

theorem findValue_lines {c : List UInt8} (hc : NoBracket c) (lines : List ObisLine) :
    findValue c (cString (block lines)) =
      (reached c [] lines).map fun found => cString (found.1.behind found.2) := by
  have h := @findValue_block c hc lines [] [] List.not_mem_nil fun _ => Iff.rfl
  rwa [List.nil_append] at h

/-- The float a text is taken for as a whole. -/
def wholeFloat (value : List UInt8) : Option UInt32 :=
  match strtof value with
  | some (bits, []) => some bits
  | _ => none

theorem wholeFloat_eq_some {value : List UInt8} {bits : UInt32} :
    wholeFloat value = some bits ↔ strtof value = some (bits, []) := by
  unfold wholeFloat
  split
  case h_1 found hfound => simp [hfound]
  case h_2 hnone =>
    simp only [reduceCtorEq, false_iff]
    exact hnone bits

/-- The number that has to fill a bracket up to its unit or its end. -/
def readNumber (t : List UInt8) : Option UInt32 := do
  let (value, behind) ← strtof t
  if behind.head? = some 0x2A ∨ behind.head? = some 0x29 then some value else none

theorem parseObisFloat_eq (block code : List UInt8) :
    parseObisFloat block code = (findValue code (cString block)).bind readNumber := rfl

private theorem value_free (line : ObisLine) : 0x28 ∉ line.value ∧ 0x29 ∉ line.value ∧ 0x2A ∉ line.value := by
  have hsubset : line.value ⊆ line.field := (List.takeWhile_sublist _).subset
  refine ⟨fun h => line.field_free.1 (hsubset h), fun h => line.field_free.2 (hsubset h), fun h => ?_⟩
  simpa using List.mem_takeWhile_imp h

/-- A field is split where its value ends, at its star or at its closing bracket. -/
theorem exists_field (line : ObisLine) (more : List UInt8) :
    ∃ z rest, (z = 0x2A ∨ z = 0x29) ∧ line.field ++ 0x29 :: more = line.value ++ z :: rest := by
  have hsplit := @List.takeWhile_append_dropWhile UInt8 (· ≠ 0x2A) line.field
  cases hunit : line.field.dropWhile (· ≠ 0x2A) with
  | nil =>
    rw [hunit, List.append_nil] at hsplit
    exact ⟨0x29, more, .inr rfl, by rw [value, hsplit]⟩
  | cons z rest =>
    obtain rfl : z = 0x2A := by
      have := List.head?_dropWhile_not (· ≠ (0x2A : UInt8)) line.field
      rw [hunit] at this
      simpa using this
    refine ⟨0x2A, rest ++ 0x29 :: more, .inl rfl, ?_⟩
    rw [value, ← List.cons_append, ← hunit, ← List.append_assoc, hsplit]

theorem isStop_of_end {z : UInt8} (hz : z = 0x2A ∨ z = 0x29) : Strtof.IsStop z :=
  hz.elim (fun h => .inr (.inr h)) fun h => .inr (.inl h)

private theorem readNumber_value {value : List UInt8} (hfree : 0x28 ∉ value ∧ 0x29 ∉ value ∧ 0x2A ∉ value) {z : UInt8}
    (hz : z = 0x2A ∨ z = 0x29) (rest : List UInt8) :
    readNumber (cString (value ++ z :: rest)) = wholeFloat value := by
  -- What is left of a value never starts with a star or a closing bracket.
  have hleft : ∀ {front left : List UInt8} {bits : UInt32}, front ⊆ value → strtof front = some (bits, left) →
      ¬(left.head? = some 0x2A ∨ left.head? = some 0x29) := by
    intro front left bits hfront hscan hhead
    have hmem : ∀ b, left.head? = some b → b ∈ value := fun b hb =>
      hfront ((strtof_suffix hscan).subset (List.mem_of_head? hb))
    rcases hhead with hb | hb
    · exact hfree.2.2 (hmem _ hb)
    · exact hfree.2.1 (hmem _ hb)
  by_cases hzero : 0 ∈ value
  · obtain ⟨front, back, hvalue, hfront⟩ := List.eq_append_cons_of_mem hzero
    have hsubset : front ⊆ value := hvalue ▸ List.subset_append_left front _
    have hcut : cString (value ++ z :: rest) = front := by
      rw [cString_of_mem hzero, hvalue, cString_of_not_mem hfront, cString]
      simp
    have hscan := strtof_stop (.inl rfl : Strtof.IsStop 0) (fun h => hfree.1 (hsubset h)) back
    rw [hcut, readNumber, wholeFloat, hvalue, hscan]
    cases hfloat : strtof front with
    | none => rfl
    | some scanned =>
      obtain ⟨bits, left⟩ := scanned
      have := hleft hsubset hfloat
      simp [Strtof.followedBy, this]
  · have hcut : cString (value ++ z :: rest) = value ++ z :: cString rest := by
      rw [cString_of_not_mem hzero, cString, List.takeWhile_cons_of_pos, ← cString]
      rcases hz with rfl | rfl <;> decide
    rw [hcut, readNumber, wholeFloat, strtof_stop (isStop_of_end hz) hfree.1]
    cases hfloat : strtof value with
    | none => rfl
    | some scanned =>
      obtain ⟨bits, left⟩ := scanned
      have := hleft (List.Subset.refl value) hfloat
      cases left with
      | nil => rcases hz with rfl | rfl <;> simp [Strtof.followedBy]
      | cons b left => simpa [Strtof.followedBy] using this

/-- Only a value `strtof` takes as a whole is read. -/
theorem readNumber_behind (line : ObisLine) (back : List ObisLine) :
    readNumber (cString (line.behind back)) = wholeFloat line.value := by
  obtain ⟨z, rest, hz, hfield⟩ := exists_field line (crlf ++ block back)
  rw [behind, closing, List.cons_append, hfield, readNumber_value (value_free line) hz]

theorem parseObisFloat_block {c : List UInt8} (hc : NoBracket c) (lines : List ObisLine) :
    parseObisFloat (block lines) c = (reached c [] lines).bind fun found => wholeFloat found.1.value := by
  rw [parseObisFloat_eq, findValue_lines hc, Option.bind_map]
  congr 1
  funext found
  exact readNumber_behind found.1 found.2

end Iec6205621Reader
end IotFirmware
