import Mathlib.Tactic

/-! Packed byte layouts: little-endian words and fixed-size arrays read out of
a byte list at an offset, as a `memcpy` of a packed struct does. -/
namespace IotFirmware

/-- The bytes of a text, one for each ASCII character. -/
def ascii (text : String) : List UInt8 := text.toList.map fun c => UInt8.ofNat c.toNat

namespace Bytes

def le32 (x : UInt32) : List UInt8 :=
  [UInt8.ofNat x.toNat, UInt8.ofNat (x.toNat / 2 ^ 8),
    UInt8.ofNat (x.toNat / 2 ^ 16), UInt8.ofNat (x.toNat / 2 ^ 24)]

/-- The byte at an offset, zero past the end. -/
def byteAt (bytes : List UInt8) (i : Nat) : UInt8 := bytes.getD i 0

def word32At (bytes : List UInt8) (i : Nat) : UInt32 :=
  UInt32.ofNat ((byteAt bytes i).toNat + 2 ^ 8 * (byteAt bytes (i+1)).toNat +
    2 ^ 16 * (byteAt bytes (i+2)).toNat + 2 ^ 24 * (byteAt bytes (i+3)).toNat)

def arrayAt (n : Nat) (bytes : List UInt8) (i : Nat) : Vector UInt8 n :=
  Vector.ofFn fun k => byteAt bytes (i + k)

@[simp] theorem le32_length (x : UInt32) : (le32 x).length = 4 := rfl

/-- Bytes past a prefix are read from what follows it. -/
theorem byteAt_append_right (front back : List UInt8) (i : Nat) :
    byteAt (front ++ back) (front.length + i) = byteAt back i := by
  simp [byteAt, List.getD_eq_getElem?_getD, List.getElem?_append_right]

theorem byteAt_append_left (front back : List UInt8) (i : Nat) (h : i < front.length) :
    byteAt (front ++ back) i = byteAt front i := by
  simp [byteAt, List.getD_eq_getElem?_getD, List.getElem?_append_left h]

/-- A byte laid out after `i` others is the byte at offset `i`. -/
theorem byteAt_field (front : List UInt8) (x : UInt8) (rest : List UInt8) (i : Nat)
    (h : front.length = i) : byteAt (front ++ x :: rest) i = x := by
  subst h
  exact byteAt_append_right front (x :: rest) 0

/-- A word laid out after `i` bytes is the word at offset `i`. -/
theorem word32At_field (front : List UInt8) (x : UInt32) (rest : List UInt8) (i : Nat)
    (h : front.length = i) : word32At (front ++ (le32 x ++ rest)) i = x := by
  subst h
  have hx := x.toNat_lt
  have hb (k : Nat) (hk : k < 4) :
      byteAt (front ++ (le32 x ++ rest)) (front.length + k) = byteAt (le32 x) k := by
    rw [byteAt_append_right, byteAt_append_left _ _ _ hk]
  apply UInt32.toNat_inj.mp
  rw [word32At, hb 1 (by decide), hb 2 (by decide), hb 3 (by decide)]
  rw [show byteAt (front ++ (le32 x ++ rest)) front.length = byteAt (le32 x) 0 from hb 0 (by decide)]
  simp only [byteAt, le32, List.getD_cons_zero, List.getD_cons_succ, UInt8.toNat_ofNat',
    UInt32.toNat_ofNat']
  omega

/-- An array laid out after `i` bytes is the array at offset `i`. -/
theorem arrayAt_field {n : Nat} (front : List UInt8) (v : Vector UInt8 n) (rest : List UInt8) (i : Nat)
    (h : front.length = i) : arrayAt n (front ++ (v.toList ++ rest)) i = v := by
  subst h
  apply Vector.ext
  intro k hk
  rw [arrayAt, Vector.getElem_ofFn, byteAt_append_right, byteAt_append_left _ _ _ (by simpa using hk)]
  simp [byteAt, List.getD_eq_getElem?_getD, hk]

/-- The bytes from an offset on, one at a time. -/
theorem drop_eq_byteAt_cons {bytes : List UInt8} {i : Nat} (h : i < bytes.length) :
    bytes.drop i = byteAt bytes i :: bytes.drop (i + 1) := by
  rw [List.drop_eq_getElem_cons h]
  simp [byteAt, List.getD_eq_getElem?_getD, List.getElem?_eq_getElem h]

/-- A word read at an offset has the bytes there. -/
theorem le32_word32At {bytes : List UInt8} {i : Nat} (h : i + 4 ≤ bytes.length) :
    le32 (word32At bytes i) ++ bytes.drop (i + 4) = bytes.drop i := by
  rw [drop_eq_byteAt_cons (show i < bytes.length by omega), drop_eq_byteAt_cons (show i + 1 < bytes.length by omega),
    drop_eq_byteAt_cons (show i + 1 + 1 < bytes.length by omega),
    drop_eq_byteAt_cons (show i + 1 + 1 + 1 < bytes.length by omega)]
  have h0 := (byteAt bytes i).toNat_lt
  have h1 := (byteAt bytes (i + 1)).toNat_lt
  have h2 := (byteAt bytes (i + 2)).toNat_lt
  have h3 := (byteAt bytes (i + 3)).toNat_lt
  simp only [le32, List.cons_append, List.nil_append, List.cons.injEq, and_true, ← UInt8.toNat_inj, word32At,
    UInt32.toNat_ofNat', UInt8.toNat_ofNat', Nat.add_assoc, Nat.reduceAdd]
  omega

/-- An array read at an offset has the bytes there. -/
theorem toList_arrayAt {n : Nat} {bytes : List UInt8} {i : Nat} (h : i + n ≤ bytes.length) :
    (arrayAt n bytes i).toList ++ bytes.drop (i + n) = bytes.drop i := by
  have harray : (arrayAt n bytes i).toList = (bytes.drop i).take n := by
    apply List.ext_getElem
    · simp
      omega
    · intro k hk _
      have hk : k < n := by simpa using hk
      simp [arrayAt, byteAt, List.getElem?_eq_getElem (show i + k < bytes.length by omega)]
  rw [harray, ← List.drop_drop, List.take_append_drop]

end Bytes
end IotFirmware
