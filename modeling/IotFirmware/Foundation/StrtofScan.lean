import IotFirmware.Foundation.Strtof

/-! Where `strtof` ends: a byte that is part of no number stops it, and what it
leaves is the end of what it was given. -/
namespace IotFirmware

theorem cString_of_not_mem {s : List UInt8} (h : 0 ∉ s) (t : List UInt8) : cString (s ++ t) = s ++ cString t := by
  rw [cString, List.takeWhile_append_of_pos, ← cString]
  intro b hb
  simpa using fun hzero : b = 0 => h (hzero ▸ hb)

theorem cString_of_mem {s : List UInt8} (h : 0 ∈ s) (t : List UInt8) : cString (s ++ t) = cString s := by
  obtain ⟨front, back, rfl, hfront⟩ := List.eq_append_cons_of_mem h
  rw [List.append_assoc, cString_of_not_mem hfront, cString_of_not_mem hfront]
  rfl

theorem cString_eq_self {s : List UInt8} (h : 0 ∉ s) : cString s = s := by
  have hself := cString_of_not_mem h []
  rwa [List.append_nil, show cString [] = [] from rfl, List.append_nil] at hself

theorem cString_subset (s : List UInt8) : cString s ⊆ s := (List.takeWhile_sublist _).subset

namespace Strtof

/-- The end of a C string, a closing bracket and a star are part of no number. -/
def IsStop (z : UInt8) : Prop := z = 0x00 ∨ z = 0x29 ∨ z = 0x2A

def followedBy {α : Type} (more : List UInt8) (scanned : α × List UInt8) : α × List UInt8 :=
  (scanned.1, scanned.2 ++ more)

theorem takeWhile_stop {p : UInt8 → Bool} {z : UInt8} (hp : p z = false) (s more : List UInt8) :
    (s ++ z :: more).takeWhile p = s.takeWhile p := by
  induction s with
  | nil => simp [hp]
  | cons b s ih => cases hb : p b <;> simp [hb, ih]

theorem dropWhile_stop {p : UInt8 → Bool} {z : UInt8} (hp : p z = false) (s more : List UInt8) :
    (s ++ z :: more).dropWhile p = s.dropWhile p ++ z :: more := by
  induction s with
  | nil => simp [hp]
  | cons b s ih => cases hb : p b <;> simp [hb, ih]

def lowerCase (b : UInt8) : UInt8 := if 0x41 ≤ b ∧ b ≤ 0x5A then b + 0x20 else b

theorem keyword_eq (word s : List UInt8) :
    keyword word s = if (s.take word.length).map lowerCase = word then some (s.drop word.length) else none := rfl

theorem mantissa_point {base : Nat} {s rest : List UInt8} (h : s.dropWhile (isDigit base) = 0x2E :: rest) :
    mantissa base s =
      if s.takeWhile (isDigit base) = [] ∧ rest.takeWhile (isDigit base) = [] then none
      else some ((digitsValue base (s.takeWhile (isDigit base) ++ rest.takeWhile (isDigit base)) : ℚ) /
        base ^ (rest.takeWhile (isDigit base)).length, rest.dropWhile (isDigit base)) := by
  simp only [mantissa, h]

theorem mantissa_whole {base : Nat} {s : List UInt8} (h : (s.dropWhile (isDigit base)).head? ≠ some 0x2E) :
    mantissa base s =
      if s.takeWhile (isDigit base) = [] then none
      else some ((digitsValue base (s.takeWhile (isDigit base)) : ℚ), s.dropWhile (isDigit base)) := by
  simp only [mantissa]
  split
  case h_1 rest hrest => exact absurd (by rw [hrest]; rfl) h
  case h_2 => rfl

def scaled (base : Nat) (upper lower : UInt8) (scale : ℚ → Int → ℚ) (s : List UInt8) : Option (ℚ × List UInt8) :=
  (mantissa base s).map fun scanned =>
    (scale scanned.1 (exponent upper lower scanned.2).1, (exponent upper lower scanned.2).2)

theorem decimal_eq (s : List UInt8) : decimal s = scaled 10 0x45 0x65 (fun value power => value * 10 ^ power) s := rfl

theorem hexadecimal_eq (s : List UInt8) :
    hexadecimal s = scaled 16 0x50 0x70 (fun value power => value * 2 ^ power) s := rfl

section Stop
variable {z : UInt8} (hz : IsStop z) (more : List UInt8)
include hz

theorem IsStop.isSpace : isSpace z = false := by
  rcases hz with rfl | rfl | rfl <;> decide

theorem IsStop.isDigit (base : Nat) : isDigit base z = false := by
  have : digitValue z = none := by rcases hz with rfl | rfl | rfl <;> decide
  rw [Strtof.isDigit, this]
  rfl

theorem sign_stop (s : List UInt8) : sign (s ++ z :: more) = followedBy (z :: more) (sign s) := by
  cases s with
  | nil => rcases hz with rfl | rfl | rfl <;> rfl
  | cons b s =>
    by_cases hminus : b = 0x2D
    · subst hminus; rfl
    by_cases hplus : b = 0x2B
    · subst hplus; rfl
    simp [sign, followedBy, hminus, hplus]

/-- A word that ends before the byte is found or missed as it was without it. -/
theorem keyword_stop {word : List UInt8} (hword : z ∉ word) (s : List UInt8) :
    keyword word (s ++ z :: more) = (keyword word s).map (· ++ z :: more) := by
  have hlower : lowerCase z = z := by rcases hz with rfl | rfl | rfl <;> decide
  rw [keyword_eq, keyword_eq]
  by_cases hlong : word.length ≤ s.length
  · rw [List.take_append_of_le_length hlong, List.drop_append_of_le_length hlong]
    split <;> rfl
  · rw [if_neg, if_neg]
    · rfl
    · intro h
      have := congrArg List.length h
      simp at this
      omega
    · intro h
      apply hword
      rw [← h, List.mem_map]
      refine ⟨z, ?_, hlower⟩
      rw [List.take_append, List.mem_append]
      right
      obtain ⟨n, hn⟩ := Nat.exists_eq_add_of_lt (Nat.lt_of_not_le hlong)
      rw [show word.length - s.length = n + 1 by omega]
      simp

theorem mantissa_stop (base : Nat) (s : List UInt8) :
    mantissa base (s ++ z :: more) = (mantissa base s).map (followedBy (z :: more)) := by
  have hdigit := hz.isDigit base
  have hdot : z ≠ 0x2E := by rcases hz with rfl | rfl | rfl <;> decide
  by_cases hpoint : (s.dropWhile (Strtof.isDigit base)).head? = some 0x2E
  · obtain ⟨rest, hrest⟩ := List.head?_eq_some_iff.mp hpoint
    rw [mantissa_point hrest, mantissa_point (by rw [dropWhile_stop hdigit, hrest, List.cons_append]),
      takeWhile_stop hdigit, takeWhile_stop hdigit, dropWhile_stop hdigit]
    split <;> rfl
  · rw [mantissa_whole hpoint, mantissa_whole, takeWhile_stop hdigit, dropWhile_stop hdigit]
    · split <;> rfl
    · rw [dropWhile_stop hdigit]
      cases hrest : s.dropWhile (Strtof.isDigit base) with
      | nil => simpa using hdot
      | cons b rest => simpa [hrest] using hpoint

theorem exponent_stop {upper lower : UInt8} (hupper : z ≠ upper) (hlower : z ≠ lower) (s : List UInt8) :
    exponent upper lower (s ++ z :: more) = followedBy (z :: more) (exponent upper lower s) := by
  have hdigit := hz.isDigit 10
  cases s with
  | nil => simp [exponent, followedBy, hupper, hlower]
  | cons b s =>
    simp only [List.cons_append, exponent, sign_stop hz, followedBy, takeWhile_stop hdigit, dropWhile_stop hdigit]
    split <;> rfl

theorem scaled_stop {base : Nat} {upper lower : UInt8} (hupper : z ≠ upper) (hlower : z ≠ lower)
    (scale : ℚ → Int → ℚ) (s : List UInt8) :
    scaled base upper lower scale (s ++ z :: more) =
      (scaled base upper lower scale s).map (followedBy (z :: more)) := by
  rw [scaled, scaled, mantissa_stop hz]
  cases mantissa base s with
  | none => rfl
  | some scanned => simp only [Option.map_some, followedBy, exponent_stop hz more hupper hlower]

theorem decimal_stop (s : List UInt8) : decimal (s ++ z :: more) = (decimal s).map (followedBy (z :: more)) := by
  have hE : z ≠ 0x45 ∧ z ≠ 0x65 := by rcases hz with rfl | rfl | rfl <;> decide
  rw [decimal_eq, decimal_eq, scaled_stop hz more hE.1 hE.2]

theorem hexadecimal_stop (s : List UInt8) :
    hexadecimal (s ++ z :: more) = (hexadecimal s).map (followedBy (z :: more)) := by
  have hP : z ≠ 0x50 ∧ z ≠ 0x70 := by rcases hz with rfl | rfl | rfl <;> decide
  rw [hexadecimal_eq, hexadecimal_eq, scaled_stop hz more hP.1 hP.2]

theorem magnitude_stop (s : List UInt8) :
    magnitude (s ++ z :: more) = (magnitude s).map (followedBy (z :: more)) := by
  have hinf : z ∉ ascii "inf" := by rcases hz with rfl | rfl | rfl <;> decide
  have hinity : z ∉ ascii "inity" := by rcases hz with rfl | rfl | rfl <;> decide
  have hhex : z ∉ ascii "0x" := by rcases hz with rfl | rfl | rfl <;> decide
  have hx : (keyword (ascii "0x") (s ++ z :: more)).bind hexadecimal =
      ((keyword (ascii "0x") s).bind hexadecimal).map (followedBy (z :: more)) := by
    rw [keyword_stop hz more hhex]
    cases keyword (ascii "0x") s with
    | none => rfl
    | some digits => exact hexadecimal_stop hz more digits
  rw [magnitude, magnitude, keyword_stop hz more hinf, hx, decimal_stop hz]
  cases keyword (ascii "inf") s with
  | none =>
    cases (keyword (ascii "0x") s).bind hexadecimal with
    | none => cases decimal s <;> rfl
    | some scanned => rfl
  | some rest =>
    simp only [Option.map_some, keyword_stop hz more hinity]
    cases keyword (ascii "inity") rest <;> rfl

theorem nanTail_stop {s : List UInt8} (hs : 0x28 ∉ s) : nanTail (s ++ z :: more) = nanTail s ++ z :: more := by
  cases s with
  | nil => rcases hz with rfl | rfl | rfl <;> rfl
  | cons b s =>
    have hb : b ≠ 0x28 := fun h => hs (by simp [h])
    simp [nanTail, hb]

end Stop

/-! What is left is the end of what was given. -/
section Suffix

theorem sign_suffix (s : List UInt8) : (sign s).2 <:+ s := by
  unfold sign
  split
  · exact List.suffix_cons _ _
  · exact List.suffix_cons _ _
  · exact List.suffix_rfl

theorem keyword_suffix {word s rest : List UInt8} (h : keyword word s = some rest) : rest <:+ s := by
  rw [keyword_eq, Option.ite_none_right_eq_some] at h
  rw [← Option.some.inj h.2]
  exact List.drop_suffix _ _

theorem mantissa_suffix {base : Nat} {s rest : List UInt8} {value : ℚ} (h : mantissa base s = some (value, rest)) :
    rest <:+ s := by
  have hdrop : s.dropWhile (isDigit base) <:+ s := List.dropWhile_suffix _
  by_cases hpoint : (s.dropWhile (isDigit base)).head? = some 0x2E
  · obtain ⟨digits, hdigits⟩ := List.head?_eq_some_iff.mp hpoint
    rw [mantissa_point hdigits] at h
    simp only [Option.ite_none_left_eq_some, Option.some.injEq, Prod.mk.injEq] at h
    rw [← h.2.2]
    exact (List.dropWhile_suffix _).trans ((List.suffix_cons _ _).trans (hdigits ▸ hdrop))
  · rw [mantissa_whole hpoint] at h
    simp only [Option.ite_none_left_eq_some, Option.some.injEq, Prod.mk.injEq] at h
    rw [← h.2.2]
    exact hdrop

theorem exponent_suffix (upper lower : UInt8) (s : List UInt8) : (exponent upper lower s).2 <:+ s := by
  cases s with
  | nil => exact List.suffix_rfl
  | cons b s =>
    simp only [exponent]
    split
    · exact (List.dropWhile_suffix _).trans ((sign_suffix s).trans (List.suffix_cons b s))
    · exact List.suffix_rfl

theorem scaled_suffix {base : Nat} {upper lower : UInt8} {scale : ℚ → Int → ℚ} {s rest : List UInt8} {value : ℚ}
    (h : scaled base upper lower scale s = some (value, rest)) : rest <:+ s := by
  obtain ⟨⟨_, middle⟩, hmantissa, heq⟩ := Option.map_eq_some_iff.mp h
  rw [← (Prod.mk.inj heq).2]
  exact (exponent_suffix _ _ middle).trans (mantissa_suffix hmantissa)

theorem decimal_suffix {s rest : List UInt8} {value : ℚ} (h : decimal s = some (value, rest)) : rest <:+ s := by
  rw [decimal_eq] at h
  exact scaled_suffix h

theorem hexadecimal_suffix {s rest : List UInt8} {value : ℚ} (h : hexadecimal s = some (value, rest)) :
    rest <:+ s := by
  rw [hexadecimal_eq] at h
  exact scaled_suffix h

theorem magnitude_suffix {s rest : List UInt8} {bits : UInt32} (h : magnitude s = some (bits, rest)) :
    rest <:+ s := by
  rw [magnitude] at h
  split at h
  case h_1 behind hinf =>
    rw [← (Prod.mk.inj (Option.some.inj h)).2]
    cases hinity : keyword (ascii "inity") behind with
    | none => exact keyword_suffix hinf
    | some further => exact (keyword_suffix hinity).trans (keyword_suffix hinf)
  case h_2 =>
    split at h
    case h_1 value behind hhex =>
      obtain ⟨digits, hdigits, hvalue⟩ := Option.bind_eq_some_iff.mp hhex
      rw [← (Prod.mk.inj (Option.some.inj h)).2]
      exact (hexadecimal_suffix hvalue).trans (keyword_suffix hdigits)
    case h_2 =>
      obtain ⟨⟨value, behind⟩, hdecimal, heq⟩ := Option.map_eq_some_iff.mp h
      rw [← (Prod.mk.inj heq).2]
      exact decimal_suffix hdecimal

theorem nanTail_suffix (s : List UInt8) : nanTail s <:+ s := by
  unfold nanTail
  split
  · split
    case h_1 rest _ behind hbehind =>
      refine ((List.suffix_cons 0x29 behind).trans ?_).trans (List.suffix_cons 0x28 rest)
      rw [← hbehind]
      exact List.dropWhile_suffix _
    case h_2 => exact List.suffix_rfl
  · exact List.suffix_rfl

end Suffix
end Strtof

theorem strtof_suffix {s rest : List UInt8} {bits : UInt32} (h : strtof s = some (bits, rest)) : rest <:+ s := by
  have hsign : (Strtof.sign (s.dropWhile Strtof.isSpace)).2 <:+ s :=
    (Strtof.sign_suffix _).trans (List.dropWhile_suffix _)
  simp only [strtof] at h
  split at h
  case h_1 behind hnan =>
    rw [← (Prod.mk.inj (Option.some.inj h)).2]
    exact (Strtof.nanTail_suffix behind).trans ((Strtof.keyword_suffix hnan).trans hsign)
  case h_2 =>
    obtain ⟨⟨magnitude, behind⟩, hmagnitude, heq⟩ := Option.map_eq_some_iff.mp h
    rw [← (Prod.mk.inj heq).2]
    exact (Strtof.magnitude_suffix hmagnitude).trans hsign

/-- Text without an opening bracket is read up to a stop as it is read alone. -/
theorem strtof_stop {z : UInt8} (hz : Strtof.IsStop z) {s : List UInt8} (hs : 0x28 ∉ s) (more : List UInt8) :
    strtof (s ++ z :: more) = (strtof s).map (Strtof.followedBy (z :: more)) := by
  have hnan : z ∉ ascii "nan" := by rcases hz with rfl | rfl | rfl <;> decide
  simp only [strtof, Strtof.dropWhile_stop hz.isSpace, Strtof.sign_stop hz, Strtof.followedBy,
    Strtof.keyword_stop hz more hnan, Strtof.magnitude_stop hz]
  cases hword : Strtof.keyword (ascii "nan") (Strtof.sign (s.dropWhile Strtof.isSpace)).2 with
  | none =>
    simp only [Option.map_none, Option.map_map]
    rfl
  | some rest =>
    have hrest : rest <:+ s :=
      (Strtof.keyword_suffix hword).trans ((Strtof.sign_suffix _).trans (List.dropWhile_suffix _))
    simp only [Option.map_some, Strtof.nanTail_stop hz more fun h => hs (hrest.subset h), Strtof.followedBy]

end IotFirmware
