import Mathlib.Data.List.Basic

/-! Streams read up to a terminator, the places of a word in a text, and xor sums. -/
namespace IotFirmware

section Cut
variable {α : Type} [DecidableEq α] (terminator : List α)

/-- A stream up to its first terminator, and what is behind it; the whole stream where
no terminator comes. -/
def cutAt : (seen stream : List α) → List α × List α
  | seen, [] => (seen, [])
  | seen, b :: stream =>
    if terminator <:+ seen ++ [b] then (seen ++ [b], stream) else cutAt (seen ++ [b]) stream

theorem cutAt_append (seen stream : List α) :
    (cutAt terminator seen stream).1 ++ (cutAt terminator seen stream).2 = seen ++ stream := by
  induction stream generalizing seen with
  | nil => rfl
  | cons b stream ih =>
    rw [cutAt]
    split
    · simp
    · rw [ih, List.append_assoc, List.singleton_append]

/-- Something is left behind a terminator only. -/
theorem suffix_of_cutAt {seen stream : List α} (h : (cutAt terminator seen stream).2 ≠ []) :
    terminator <:+ (cutAt terminator seen stream).1 := by
  induction stream generalizing seen with
  | nil => exact absurd rfl h
  | cons b stream ih =>
    rw [cutAt] at h ⊢
    split
    case isTrue hend => exact hend
    case isFalse hend =>
      rw [if_neg hend] at h
      exact ih h

variable {terminator}

/-- The cut is behind the first place where the terminator ends. -/
theorem cutAt_first {seen u : List α} (hu : u ≠ []) (hend : terminator <:+ seen ++ u)
    (hfirst : ∀ v w, u = v ++ w → v ≠ [] → w ≠ [] → ¬terminator <:+ seen ++ v) (stream : List α) :
    cutAt terminator seen (u ++ stream) = (seen ++ u, stream) := by
  induction u generalizing seen with
  | nil => exact absurd rfl hu
  | cons b u ih =>
    rw [List.cons_append, cutAt]
    by_cases hnil : u = []
    · subst hnil
      rw [if_pos hend, List.nil_append]
    · rw [if_neg (hfirst [b] u rfl (by simp) hnil), ih hnil (by simpa using hend)]
      · simp
      · intro v w huv _ hw
        have := hfirst (b :: v) w (by rw [huv]; rfl) (by simp) hw
        simpa using this

/-- A terminator is cut at its first byte where that stands nowhere in front of it. -/
theorem cutAt_mark {mark : α} {more front : List α} (hfront : mark ∉ front) (hmore : mark ∉ more) (rest : List α) :
    cutAt (mark :: more) [] (front ++ mark :: more ++ rest) = (front ++ mark :: more, rest) := by
  refine cutAt_first (by simp) (by simp) ?_ rest
  rintro v w hvw - hw ⟨p, rfl⟩
  rw [List.append_assoc, List.cons_append] at hvw
  obtain ⟨-, -, hrest⟩ := (List.append_cons_inj_of_notMem hfront hmore).mp hvw
  exact hw (by simpa using hrest.symm)

/-- What is read up to a terminator is read again up to the same place. -/
theorem cutAt_again (seen stream : List α) : ∃ u, (cutAt terminator seen stream).1 = seen ++ u ∧
    (cutAt terminator seen u).1 = seen ++ u := by
  induction stream generalizing seen with
  | nil => exact ⟨[], by simp [cutAt], by simp [cutAt]⟩
  | cons b stream ih =>
    rw [cutAt]
    split
    case isTrue hend => exact ⟨[b], rfl, by rw [cutAt, if_pos hend]⟩
    case isFalse hend =>
      obtain ⟨u, hu, hagain⟩ := ih (seen ++ [b])
      exact ⟨b :: u, by rw [hu]; simp, by rw [cutAt, if_neg hend, hagain]; simp⟩

end Cut

section Occurrences
variable {α : Type} [DecidableEq α] (word : List α)

def occurrences : List α → Nat
  | [] => 0
  | b :: text => (if word <+: b :: text then 1 else 0) + occurrences text

variable {word}

theorem occurrences_pos (hword : word ≠ []) (front back : List α) :
    0 < occurrences word (front ++ (word ++ back)) := by
  induction front with
  | nil =>
    obtain ⟨b, rest, rfl⟩ := List.exists_cons_of_ne_nil hword
    rw [List.nil_append, List.cons_append, occurrences, if_pos ⟨back, rfl⟩]
    omega
  | cons b front ih =>
    rw [List.cons_append, occurrences]
    omega

/-- A word that occurs once does not stand before its place. -/
theorem occurrences_cons_eq_one (hword : word ≠ []) {b : α} {front back : List α}
    (h : occurrences word (b :: front ++ (word ++ back)) = 1) :
    ¬word <+: b :: front ++ (word ++ back) ∧ occurrences word (front ++ (word ++ back)) = 1 := by
  have hpos := occurrences_pos hword front back
  rw [List.cons_append, occurrences] at h
  split at h
  · omega
  case isFalse hb => exact ⟨hb, by omega⟩

end Occurrences

def xorSum (bytes : List UInt8) : UInt8 := bytes.foldl (· ^^^ ·) 0

theorem foldl_xor (acc : UInt8) (bytes : List UInt8) : bytes.foldl (· ^^^ ·) acc = acc ^^^ xorSum bytes := by
  induction bytes generalizing acc with
  | nil => simp [xorSum]
  | cons b bytes ih => rw [xorSum, List.foldl_cons, List.foldl_cons, ih, ih, UInt8.zero_xor, UInt8.xor_assoc]

theorem xorSum_append (a b : List UInt8) : xorSum (a ++ b) = xorSum a ^^^ xorSum b := by
  rw [xorSum, List.foldl_append, foldl_xor, ← xorSum]

/-- An xor sum tells what stands between two parts. -/
theorem xorSum_middle {front back a b : List UInt8}
    (h : xorSum (front ++ (a ++ back)) = xorSum (front ++ (b ++ back))) :
    xorSum a = xorSum b := by
  simpa [xorSum_append] using h

end IotFirmware
