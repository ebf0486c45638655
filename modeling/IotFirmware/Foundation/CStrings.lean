import IotFirmware.Foundation.StrtofScan
import Mathlib.Data.List.TakeWhile

/-! `strtok`, `strrchr` and decimal `strtoul` on the bytes of a C string, and what
they make of the front part of a longer one. -/
namespace IotFirmware

/-- The next token, and what is left for the next call. -/
def strtok (delims s : List UInt8) : Option (List UInt8 × List UInt8) :=
  let s := s.dropWhile (· ∈ delims)
  if s = [] then none else some (s.takeWhile (· ∉ delims), (s.dropWhile (· ∉ delims)).tail)

def strrchr (c : UInt8) : List UInt8 → Option Nat
  | [] => none
  | b :: rest =>
    match strrchr c rest with
    | some i => some (i + 1)
    | none => if b = c then some 0 else none

/-- The number in front, in decimal. Without any digit it is zero, and it is the
largest one when the digits are out of range. -/
def strtoul (s : List UInt8) : UInt32 :=
  let (negative, digits) := Strtof.sign (s.dropWhile Strtof.isSpace)
  let value := Strtof.digitsValue 10 (digits.takeWhile (Strtof.isDigit 10))
  if 2 ^ 32 ≤ value then 0xFFFFFFFF
  else if negative then -UInt32.ofNat value
  else UInt32.ofNat value

section Strtok
variable {d : UInt8} {s t tail : List UInt8}

/-- With no delimiters the token is all that is left. -/
theorem strtok_nil (s : List UInt8) : strtok [] s = if s = [] then none else some (s, []) := by
  have hfront : s.dropWhile (· ∈ []) = s := by
    cases s <;> simp
  simp only [strtok, hfront]
  rw [List.takeWhile_eq_self_iff.mpr (by simp), List.dropWhile_eq_nil_iff.mpr (by simp)]
  rfl

theorem strtok_replicate (a : Nat) : strtok [d] (List.replicate a d ++ s) = strtok [d] s := by
  induction a with
  | zero => rfl
  | succ a ih =>
    rw [← ih, List.replicate_succ, List.cons_append]
    simp [strtok]

theorem strtok_last (hd : d ∉ s) (hs : s ≠ []) : strtok [d] s = some (s, []) := by
  have hout : ∀ b ∈ s, b ≠ d := fun b hb h => hd (h ▸ hb)
  have hfront : s.dropWhile (· ∈ [d]) = s := by
    cases s with
    | nil => rfl
    | cons b s => simp [hout b]
  simp only [strtok, hfront, if_neg hs]
  rw [List.takeWhile_eq_self_iff.mpr (by simpa using hout), List.dropWhile_eq_nil_iff.mpr (by simpa using hout)]
  rfl

theorem strtok_word (hd : d ∉ t) (ht : t ≠ []) : strtok [d] (t ++ d :: tail) = some (t, tail) := by
  have hout : ∀ b ∈ t, b ≠ d := fun b hb h => hd (h ▸ hb)
  have hfront : (t ++ d :: tail).dropWhile (· ∈ [d]) = t ++ d :: tail := by
    cases t with
    | nil => exact absurd rfl ht
    | cons b t => simp [hout b]
  have hstop : decide (d ∉ [d]) = false := by simp
  simp only [strtok, hfront, if_neg (List.append_ne_nil_of_left_ne_nil ht _)]
  rw [Strtof.takeWhile_stop hstop, Strtof.dropWhile_stop hstop, List.takeWhile_eq_self_iff.mpr (by simpa using hout),
    List.dropWhile_eq_nil_iff.mpr (by simpa using hout)]
  rfl

/-- The front part of a string has the front part of its token. -/
theorem strtok_of_prefix (hd : d ∉ t) (ht : t ≠ []) {a : Nat} (hs : s <+: List.replicate a d ++ (t ++ d :: tail))
    {word rest : List UInt8} (h : strtok [d] s = some (word, rest)) : word <+: t ∧ rest <+: tail := by
  induction a generalizing s with
  | zero =>
    have hnil : s ≠ [] := by
      rintro rfl
      simp [strtok] at h
    rw [List.replicate_zero, List.nil_append] at hs
    rcases List.prefix_or_prefix_of_prefix hs (List.prefix_append t _) with hshort | ⟨more, rfl⟩
    · rw [strtok_last (fun hmem => hd (hshort.subset hmem)) hnil] at h
      obtain ⟨rfl, rfl⟩ := Prod.mk.inj (Option.some.inj h)
      exact ⟨hshort, List.nil_prefix⟩
    rw [List.prefix_append_right_inj] at hs
    cases more with
    | nil =>
      rw [List.append_nil, strtok_last hd ht] at h
      obtain ⟨rfl, rfl⟩ := Prod.mk.inj (Option.some.inj h)
      exact ⟨List.prefix_rfl, List.nil_prefix⟩
    | cons b more =>
      obtain ⟨rfl, hmore⟩ := List.cons_prefix_cons.mp hs
      rw [strtok_word hd ht] at h
      obtain ⟨rfl, rfl⟩ := Prod.mk.inj (Option.some.inj h)
      exact ⟨List.prefix_rfl, hmore⟩
  | succ a ih =>
    cases s with
    | nil => simp [strtok] at h
    | cons b s =>
      rw [List.replicate_succ, List.cons_append, List.cons_prefix_cons] at hs
      obtain ⟨rfl, hs⟩ := hs
      rw [show b :: s = List.replicate 1 b ++ s from rfl, strtok_replicate] at h
      exact ih hs h

end Strtok

section Strrchr
variable {c : UInt8}

theorem strrchr_eq_none {s : List UInt8} : strrchr c s = none ↔ c ∉ s := by
  induction s with
  | nil => simp [strrchr]
  | cons b s ih =>
    rw [strrchr, List.mem_cons, not_or, ← ih]
    cases strrchr c s <;> simp [eq_comm]

theorem strrchr_lt {s : List UInt8} {i : Nat} (h : strrchr c s = some i) : i < s.length := by
  induction s generalizing i with
  | nil => simp [strrchr] at h
  | cons b s ih =>
    rw [strrchr] at h
    cases hs : strrchr c s with
    | none =>
      rw [hs] at h
      simp only [Option.ite_none_right_eq_some, Option.some.injEq] at h
      simp [← h.2]
    | some j =>
      rw [hs] at h
      have := ih hs
      simp only [Option.some.injEq] at h
      simp only [List.length_cons]
      omega

/-- The last of them is in front only where it is the only one. -/
theorem strrchr_cons_self (s : List UInt8) : strrchr c (c :: s) = some 0 ↔ c ∉ s := by
  rw [strrchr, ← strrchr_eq_none]
  cases strrchr c s <;> simp

theorem strrchr_cons_isSome (s : List UInt8) : (strrchr c (c :: s)).isSome := by
  rw [strrchr]
  cases strrchr c s <;> simp

theorem strrchr_concat (s : List UInt8) : strrchr c (s ++ [c]) = some s.length := by
  induction s with
  | nil => simp [strrchr]
  | cons b s ih => rw [List.cons_append, strrchr, ih, List.length_cons]

end Strrchr

namespace Strtof

theorem digitsValue_append (base : Nat) (front back : List UInt8) :
    digitsValue base (front ++ back) = digitsValue base front * base ^ back.length + digitsValue base back := by
  induction back using List.reverseRecOn with
  | nil => simp [digitsValue]
  | append_singleton back b ih =>
    have hnext (digits : List UInt8) :
        digitsValue base (digits ++ [b]) = digitsValue base digits * base + (digitValue b).getD 0 := by
      simp [digitsValue]
    rw [← List.append_assoc, hnext, hnext, ih, List.length_append, List.length_singleton, pow_succ]
    ring

/-- Digits cut short keep their value only where all of them are zeros. -/
theorem digitsValue_prefix {base : Nat} (hbase : 1 < base) {front back : List UInt8} (hback : back ≠ []) :
    digitsValue base front = digitsValue base (front ++ back) ↔ digitsValue base (front ++ back) = 0 := by
  rw [digitsValue_append]
  have hgrow : 1 < base ^ back.length := Nat.one_lt_pow (by simpa using hback) hbase
  constructor
  · intro h
    have hfront : digitsValue base front = 0 := by
      by_contra hne
      have hlt := (Nat.lt_mul_iff_one_lt_right (Nat.pos_of_ne_zero hne)).mpr hgrow
      omega
    omega
  · intro h
    have hzero := Nat.eq_zero_of_add_eq_zero_right h
    rcases Nat.mul_eq_zero.mp hzero with hfront | hpow
    · omega
    · omega

end Strtof

/-- Blanks in front of a number are skipped. -/
theorem strtoul_replicate (a : Nat) (s : List UInt8) : strtoul (List.replicate a 0x20 ++ s) = strtoul s := by
  have hskip : (List.replicate a 0x20 ++ s).dropWhile Strtof.isSpace = s.dropWhile Strtof.isSpace :=
    List.dropWhile_append_of_pos fun b hb => by rw [List.eq_of_mem_replicate hb]; rfl
  rw [strtoul, hskip, strtoul]

theorem Strtof.le_of_isDigit {b : UInt8} (h : Strtof.isDigit 10 b = true) : 0x30 ≤ b ∧ b ≤ 0x39 := by
  by_contra hout
  rw [Strtof.isDigit, Strtof.digitValue, if_neg hout] at h
  split_ifs at h <;> simp at h

theorem Strtof.plain_of_isDigit {b : UInt8} (h : Strtof.isDigit 10 b = true) :
    Strtof.isSpace b = false ∧ b ≠ 0x2D ∧ b ≠ 0x2B := by
  obtain ⟨hlow, -⟩ := Strtof.le_of_isDigit h
  rw [UInt8.le_iff_toNat_le, show (0x30 : UInt8).toNat = 48 from rfl] at hlow
  refine ⟨?_, ?_, ?_⟩
  · rw [Strtof.isSpace, Bool.or_eq_false_iff, Bool.and_eq_false_iff]
    refine ⟨?_, .inr ?_⟩
    · rw [beq_eq_false_iff_ne]
      rintro rfl
      exact absurd hlow (by decide)
    · rw [decide_eq_false_iff_not, UInt8.le_iff_toNat_le, show (0x0D : UInt8).toNat = 13 from rfl]
      omega
  · rintro rfl
    exact absurd hlow (by decide)
  · rintro rfl
    exact absurd hlow (by decide)

/-- Digits in range are read as their value. -/
theorem strtoul_digits {digits : List UInt8} (hdigits : ∀ b ∈ digits, Strtof.isDigit 10 b = true)
    (hfits : Strtof.digitsValue 10 digits < 2 ^ 32) :
    strtoul digits = UInt32.ofNat (Strtof.digitsValue 10 digits) := by
  have hskip : digits.dropWhile Strtof.isSpace = digits := by
    cases digits with
    | nil => rfl
    | cons b rest => simp [(Strtof.plain_of_isDigit (hdigits b List.mem_cons_self)).1]
  have hsign : Strtof.sign digits = (false, digits) := by
    cases digits with
    | nil => rfl
    | cons b rest =>
      have hb := Strtof.plain_of_isDigit (hdigits b List.mem_cons_self)
      simp [Strtof.sign, hb.2.1, hb.2.2]
  simp only [strtoul, hskip, hsign, List.takeWhile_eq_self_iff.mpr hdigits, if_neg (Nat.not_le.mpr hfits),
    Bool.false_eq_true, if_false]

end IotFirmware
