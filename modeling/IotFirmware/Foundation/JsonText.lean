import IotFirmware.Foundation.Json
import IotFirmware.Foundation.Strtof
import Mathlib.Data.List.TakeWhile

/-! JSON values as text without blanks and escapes, and a reader of such text that
gets every value back from what was written of it. -/
namespace IotFirmware.Json
open Strtof

/-- A byte that a string holds as it is. -/
def isPlain (b : UInt8) : Bool := 0x20 ≤ b ∧ b ≠ 0x22 ∧ b ≠ 0x5C

def isNumberByte (b : UInt8) : Bool := isDigit 10 b ∨ b ∈ [0x2B, 0x2D, 0x2E, 0x45, 0x65]

/-- Nothing, or an exponent. -/
def isExponent (s : List UInt8) : Bool :=
  match s with
  | [] => true
  | b :: rest =>
    let digits := if rest.head? = some 0x2B ∨ rest.head? = some 0x2D then rest.tail else rest
    (b = 0x45 ∨ b = 0x65) ∧ digits ≠ [] ∧ digits.all (isDigit 10)

/-- Nothing, or the rest of a number behind its whole part. -/
def isFraction (s : List UInt8) : Bool :=
  if s.head? = some 0x2E then s.tail.takeWhile (isDigit 10) ≠ [] ∧ isExponent (s.tail.dropWhile (isDigit 10))
  else isExponent s

/-- A number: a whole part without needless zeros, then a fraction and an exponent if any. -/
def isNumber (s : List UInt8) : Bool :=
  let unsigned := if s.head? = some 0x2D then s.tail else s
  let whole := unsigned.takeWhile (isDigit 10)
  s.all isNumberByte ∧ whole ≠ [] ∧ (whole.length = 1 ∨ whole.head? ≠ some 0x30) ∧
    isFraction (unsigned.dropWhile (isDigit 10))

def words : List (List UInt8 × Json) :=
  [(ascii "null", null), (ascii "true", bool true), (ascii "false", bool false)]

def writeString (text : List UInt8) : List UInt8 := 0x22 :: (text ++ [0x22])

mutual

def write : Json → List UInt8
  | null => ascii "null"
  | bool true => ascii "true"
  | bool false => ascii "false"
  | number literal => literal
  | string text => writeString text
  | array items => 0x5B :: (writeItems items ++ [0x5D])
  | object members => 0x7B :: (writeMembers members ++ [0x7D])

def writeItems : List Json → List UInt8
  | [] => []
  | [v] => write v
  | v :: items => write v ++ 0x2C :: writeItems items

def writeMembers : List (List UInt8 × Json) → List UInt8
  | [] => []
  | [(key, v)] => writeString key ++ 0x3A :: write v
  | (key, v) :: members => writeString key ++ 0x3A :: (write v ++ 0x2C :: writeMembers members)

end

def readString (s : List UInt8) : Option (List UInt8 × List UInt8) :=
  match s.dropWhile isPlain with
  | b :: rest => if b = 0x22 then some (s.takeWhile isPlain, rest) else none
  | [] => none

def readNumber (s : List UInt8) : Option (Json × List UInt8) :=
  if isNumber (s.takeWhile isNumberByte) then some (number (s.takeWhile isNumberByte), s.dropWhile isNumberByte)
  else none

def readWord (s : List UInt8) : Option (Json × List UInt8) :=
  words.findSome? fun w => if w.1.isPrefixOf s then some (w.2, s.drop w.1.length) else none

mutual

/-- A value, and what is behind it. The fuel bounds the depth and the number of members. -/
def readValue : ℕ → List UInt8 → Option (Json × List UInt8)
  | 0, _ => none
  | _, [] => none
  | fuel + 1, b :: rest =>
    if b = 0x22 then (readString rest).map fun r => (string r.1, r.2)
    else if b = 0x5B then
      if rest.head? = some 0x5D then some (array [], rest.tail) else (readItems fuel rest).map fun r => (array r.1, r.2)
    else if b = 0x7B then
      if rest.head? = some 0x7D then some (object [], rest.tail)
      else (readMembers fuel rest).map fun r => (object r.1, r.2)
    else if isNumberByte b then readNumber (b :: rest)
    else readWord (b :: rest)

def readItems : ℕ → List UInt8 → Option (List Json × List UInt8)
  | 0, _ => none
  | fuel + 1, s =>
    match readValue fuel s with
    | some (v, 0x2C :: rest) => (readItems fuel rest).map fun r => (v :: r.1, r.2)
    | some (v, 0x5D :: rest) => some ([v], rest)
    | _ => none

def readMembers : ℕ → List UInt8 → Option (List (List UInt8 × Json) × List UInt8)
  | 0, _ => none
  | fuel + 1, s =>
    match s with
    | 0x22 :: rest =>
      match readString rest with
      | some (key, 0x3A :: rest) =>
        match readValue fuel rest with
        | some (v, 0x2C :: rest) => (readMembers fuel rest).map fun r => ((key, v) :: r.1, r.2)
        | some (v, 0x7D :: rest) => some ([(key, v)], rest)
        | _ => none
      | _ => none
    | _ => none

end

def read (s : List UInt8) : Option Json :=
  match readValue s.length s with
  | some (v, []) => some v
  | _ => none

/-- The values that have a text: numbers are numbers, and no string needs an escape. -/
inductive Plain : Json → Prop
  | null : Plain null
  | bool (b : Bool) : Plain (bool b)
  | number {literal : List UInt8} : isNumber literal = true → Plain (number literal)
  | string {text : List UInt8} : (∀ b ∈ text, isPlain b = true) → Plain (string text)
  | array {items : List Json} : (∀ v ∈ items, Plain v) → Plain (array items)
  | object {members : List (List UInt8 × Json)} : (∀ m ∈ members, ∀ b ∈ m.1, isPlain b = true) →
      (∀ m ∈ members, Plain m.2) → Plain (object members)

section RoundTrip
variable {p : UInt8 → Bool} {s rest : List UInt8}

theorem head_cons {b : UInt8} (h : p b = false) : ∀ c ∈ (b :: rest).head?, p c = false := by
  simpa using h

/-- A run of bytes of a kind ends at the first byte of another kind. -/
theorem takeWhile_run (hs : ∀ b ∈ s, p b = true) (hrest : ∀ b ∈ rest.head?, p b = false) :
    (s ++ rest).takeWhile p = s ∧ (s ++ rest).dropWhile p = rest := by
  rw [List.takeWhile_append_of_pos hs, List.dropWhile_append_of_pos hs]
  cases rest with
  | nil => simp
  | cons b rest =>
    have hb : p b = false := hrest b rfl
    simp [hb]

theorem readString_write {text : List UInt8} (h : ∀ b ∈ text, isPlain b = true) (rest : List UInt8) :
    readString (text ++ 0x22 :: rest) = some (text, rest) := by
  obtain ⟨htake, hdrop⟩ := takeWhile_run h (@head_cons isPlain rest 0x22 (by decide))
  rw [readString, htake, hdrop]
  rfl

theorem readNumber_write {literal : List UInt8} (h : isNumber literal = true)
    (hrest : ∀ b ∈ rest.head?, isNumberByte b = false) :
    readNumber (literal ++ rest) = some (number literal, rest) := by
  have hall : ∀ b ∈ literal, isNumberByte b = true := by
    simp only [isNumber, decide_eq_true_eq, List.all_eq_true] at h
    exact h.1
  obtain ⟨htake, hdrop⟩ := takeWhile_run hall hrest
  rw [readNumber, htake, hdrop, if_pos h]

/-- A number starts with one of its bytes. -/
theorem exists_numberByte {literal : List UInt8} (h : isNumber literal = true) :
    ∃ b tail, literal = b :: tail ∧ isNumberByte b = true := by
  cases literal with
  | nil => simp [isNumber] at h
  | cons b tail =>
    simp only [isNumber, decide_eq_true_eq, List.all_cons, Bool.and_eq_true] at h
    exact ⟨b, tail, rfl, h.1.1⟩

theorem write_length_pos {v : Json} (h : Plain v) : 0 < (write v).length := by
  cases h with
  | null => simp [write, ascii]
  | bool b => cases b <;> simp [write, ascii]
  | number h =>
    obtain ⟨b, tail, rfl, _⟩ := exists_numberByte h
    simp [write]
  | string | array | object => simp [write, writeString]

/-- Digits are a number, with a minus in front or not, unless a zero leads more of them. -/
theorem isNumber_digits {digits : List UInt8} (hne : digits ≠ []) (hdigits : ∀ b ∈ digits, isDigit 10 b = true)
    (hzero : digits.length = 1 ∨ digits.head? ≠ some 0x30) :
    isNumber digits = true ∧ isNumber (0x2D :: digits) = true := by
  have hbytes : ∀ b ∈ digits, isNumberByte b = true := fun b hb => by simp [isNumberByte, hdigits b hb]
  have hsign : digits.head? ≠ some 0x2D := fun h => absurd (hdigits _ (List.mem_of_head? h)) (by decide)
  have hwhole : digits.takeWhile (isDigit 10) = digits := List.takeWhile_eq_self_iff.mpr hdigits
  have hnone : digits.dropWhile (isDigit 10) = [] := List.dropWhile_eq_nil_iff.mpr hdigits
  have hend : isFraction [] = true := rfl
  have hminus : isNumberByte 0x2D = true := rfl
  constructor
  · simp only [isNumber, if_neg hsign, hwhole, hnone, hend, decide_eq_true_eq, List.all_eq_true]
    exact ⟨hbytes, hne, hzero, trivial⟩
  · simp only [isNumber, List.head?_cons, if_true, List.tail_cons, hwhole, hnone, hend, decide_eq_true_eq,
      List.all_eq_true, List.forall_mem_cons]
    exact ⟨⟨hminus, hbytes⟩, hne, hzero, trivial⟩

/-- No value starts like the end of an array. -/
theorem head_write_ne {v : Json} (h : Plain v) (rest : List UInt8) : (write v ++ rest).head? ≠ some 0x5D := by
  cases h with
  | null => simp [write, ascii]
  | bool b => cases b <;> simp [write, ascii]
  | number h =>
    obtain ⟨b, tail, rfl, hb⟩ := exists_numberByte h
    rintro hhead
    obtain rfl : b = 0x5D := by simpa [write] using hhead
    exact absurd hb (by decide)
  | string | array | object => simp [write, writeString]

theorem writeItems_cons {items : List Json} (h : items ≠ []) (v : Json) :
    writeItems (v :: items) = write v ++ 0x2C :: writeItems items := by
  cases items with
  | nil => exact absurd rfl h
  | cons w items =>
    rw [writeItems]
    simp

theorem writeMembers_cons {members : List (List UInt8 × Json)} (h : members ≠ []) (key : List UInt8) (v : Json) :
    writeMembers ((key, v) :: members) = writeString key ++ 0x3A :: (write v ++ 0x2C :: writeMembers members) := by
  cases members with
  | nil => exact absurd rfl h
  | cons m members =>
    rw [writeMembers]
    simp

/-- Each member adds its key and value, two quotes, a colon and at most one comma. -/
theorem writeMembers_length_le (members : List (List UInt8 × Json)) :
    (writeMembers members).length ≤ (members.map fun m => m.1.length + (write m.2).length + 4).sum := by
  induction members with
  | nil => simp [writeMembers]
  | cons m members ih =>
    obtain ⟨key, v⟩ := m
    by_cases hlast : members = []
    · subst hlast
      simp only [writeMembers, writeString, List.length_append, List.length_cons, List.length_nil, List.map_cons,
        List.map_nil, List.sum_cons, List.sum_nil]
      omega
    · simp only [writeMembers_cons hlast, writeString, List.length_append, List.length_cons, List.length_nil,
        List.map_cons, List.sum_cons]
      omega

/-- With this fuel all values are read back whose text is no longer than it. -/
def ReadsValues (fuel : ℕ) : Prop :=
  ∀ v rest, Plain v → (write v).length ≤ fuel → (∀ b ∈ rest.head?, isNumberByte b = false) →
    readValue fuel (write v ++ rest) = some (v, rest)

def ReadsItems (fuel : ℕ) : Prop :=
  ∀ items rest, items ≠ [] → (∀ v ∈ items, Plain v) → (writeItems items).length < fuel →
    readItems fuel (writeItems items ++ 0x5D :: rest) = some (items, rest)

def ReadsMembers (fuel : ℕ) : Prop :=
  ∀ members rest, members ≠ [] → (∀ m ∈ members, ∀ b ∈ m.1, isPlain b = true) → (∀ m ∈ members, Plain m.2) →
    (writeMembers members).length < fuel →
    readMembers fuel (writeMembers members ++ 0x7D :: rest) = some (members, rest)

variable {fuel : ℕ}

theorem readsItems_succ (hvalue : ReadsValues fuel) (hitems : ReadsItems fuel) : ReadsItems (fuel + 1) := by
  intro items rest hne hplain hlength
  obtain ⟨v, items, rfl⟩ := List.exists_cons_of_ne_nil hne
  rw [List.forall_mem_cons] at hplain
  by_cases hlast : items = []
  · subst hlast
    have hv := hvalue v (0x5D :: rest) hplain.1 (Nat.lt_succ_iff.mp hlength) (head_cons (by decide))
    rw [writeItems, readItems, hv]
    rfl
  · rw [writeItems_cons hlast, List.length_append, List.length_cons] at hlength
    have hv := hvalue v (0x2C :: (writeItems items ++ 0x5D :: rest)) hplain.1 (by omega) (head_cons (by decide))
    have hrest := hitems items rest hlast hplain.2 (by omega)
    rw [writeItems_cons hlast, List.append_assoc, List.cons_append, readItems, hv]
    simp only [hrest, Option.map_some]

theorem readsMembers_succ (hvalue : ReadsValues fuel) (hmembers : ReadsMembers fuel) : ReadsMembers (fuel + 1) := by
  intro members rest hne hkeys hplain hlength
  obtain ⟨⟨key, v⟩, members, rfl⟩ := List.exists_cons_of_ne_nil hne
  rw [List.forall_mem_cons] at hkeys hplain
  by_cases hlast : members = []
  · subst hlast
    rw [writeMembers, writeString] at hlength
    simp only [List.length_append, List.length_cons, List.length_nil] at hlength
    have hv := hvalue v (0x7D :: rest) hplain.1 (by omega) (head_cons (by decide))
    have hkey := readString_write hkeys.1 (0x3A :: (write v ++ 0x7D :: rest))
    simp [writeMembers, writeString, readMembers, hkey, hv]
  · rw [writeMembers_cons hlast, writeString] at hlength
    simp only [List.length_append, List.length_cons, List.length_nil] at hlength
    have hv := hvalue v (0x2C :: (writeMembers members ++ 0x7D :: rest)) hplain.1 (by omega) (head_cons (by decide))
    have hkey := readString_write hkeys.1 (0x3A :: (write v ++ 0x2C :: (writeMembers members ++ 0x7D :: rest)))
    have hrest := hmembers members rest hlast hkeys.2 hplain.2 (by omega)
    simp [writeMembers_cons hlast, writeString, readMembers, hkey, hv, hrest]

/-- What is written of items does not start with the bracket behind them. -/
theorem head_writeItems_ne {items : List Json} (hne : items ≠ []) (h : ∀ v ∈ items, Plain v) (rest : List UInt8) :
    (writeItems items ++ rest).head? ≠ some 0x5D := by
  obtain ⟨v, items, rfl⟩ := List.exists_cons_of_ne_nil hne
  by_cases hlast : items = []
  · subst hlast
    rw [writeItems]
    exact head_write_ne (h v List.mem_cons_self) _
  · rw [writeItems_cons hlast, List.append_assoc]
    exact head_write_ne (h v List.mem_cons_self) _

theorem head_writeMembers_ne {members : List (List UInt8 × Json)} (hne : members ≠ []) (rest : List UInt8) :
    (writeMembers members ++ rest).head? ≠ some 0x7D := by
  obtain ⟨⟨key, v⟩, members, rfl⟩ := List.exists_cons_of_ne_nil hne
  by_cases hlast : members = []
  · subst hlast
    simp [writeMembers, writeString]
  · simp [writeMembers_cons hlast, writeString]

theorem readsValues_succ (hitems : ReadsItems fuel) (hmembers : ReadsMembers fuel) : ReadsValues (fuel + 1) := by
  intro v rest hplain hlength hrest
  cases hplain with
  | null => simp [write, ascii, readValue, readWord, words, isNumberByte, isDigit, digitValue]
  | bool b => cases b <;> simp [write, ascii, readValue, readWord, words, isNumberByte, isDigit, digitValue]
  | @number literal h =>
    obtain ⟨b, tail, rfl, hb⟩ := exists_numberByte h
    have hread := readNumber_write h hrest
    rw [write]
    rw [List.cons_append] at hread ⊢
    have hquote : b ≠ 0x22 := by rintro rfl; exact absurd hb (by decide)
    have hbracket : b ≠ 0x5B := by rintro rfl; exact absurd hb (by decide)
    have hbrace : b ≠ 0x7B := by rintro rfl; exact absurd hb (by decide)
    rw [readValue, if_neg hquote, if_neg hbracket, if_neg hbrace, if_pos hb, hread]
  | @string text h => simp [write, writeString, readValue, readString_write h]
  | @array items h =>
    by_cases hnil : items = []
    · subst hnil
      simp [write, writeItems, readValue]
    · rw [write, List.length_cons, List.length_append, List.length_singleton] at hlength
      have hread := hitems items rest hnil h (by omega)
      have hhead := head_writeItems_ne hnil h (0x5D :: rest)
      rw [write, List.cons_append, List.append_assoc, List.singleton_append, readValue, if_neg (by decide),
        if_pos rfl, if_neg hhead, hread]
      rfl
  | @object members hkeys h =>
    by_cases hnil : members = []
    · subst hnil
      simp [write, writeMembers, readValue]
    · rw [write, List.length_cons, List.length_append, List.length_singleton] at hlength
      have hread := hmembers members rest hnil hkeys h (by omega)
      have hhead := head_writeMembers_ne hnil (0x7D :: rest)
      rw [write, List.cons_append, List.append_assoc, List.singleton_append, readValue, if_neg (by decide),
        if_neg (by decide), if_pos rfl, if_neg hhead, hread]
      rfl

/-- By induction on the fuel, each reader on the others with less of it. -/
theorem reads_all (fuel : ℕ) : ReadsValues fuel ∧ ReadsItems fuel ∧ ReadsMembers fuel := by
  induction fuel with
  | zero =>
    refine ⟨fun v rest hplain hlength => ?_, fun _ _ _ _ hlength => ?_, fun _ _ _ _ _ hlength => ?_⟩
    · have := write_length_pos hplain
      omega
    · exact absurd hlength (Nat.not_lt_zero _)
    · exact absurd hlength (Nat.not_lt_zero _)
  | succ fuel ih =>
    obtain ⟨hvalue, hitems, hmembers⟩ := ih
    exact ⟨readsValues_succ hitems hmembers, readsItems_succ hvalue hitems, readsMembers_succ hvalue hmembers⟩

/-- What is written of a plain value is read as that value. -/
theorem read_write {v : Json} (h : Plain v) : read (write v) = some v := by
  have hread := (reads_all (write v).length).1 v [] h le_rfl (by simp)
  rw [List.append_nil] at hread
  rw [read, hread]

end RoundTrip
end IotFirmware.Json
