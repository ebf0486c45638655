import Mathlib.Tactic

/-! Circular buffers over a fixed array: the oldest item sits at `head` and the
next one is written `count` cells further on, both modulo the capacity. -/
namespace IotFirmware

structure Ring (α : Type) (N : Nat) where
  cells : Vector α N
  head : Fin N
  count : Nat
  deriving DecidableEq, Repr

namespace Ring
variable {α : Type} {N : Nat} [NeZero N]

def cell (r : Ring α N) (i : Nat) : α := r.cells[Fin.ofNat N (r.head.val + i)]

def contents (r : Ring α N) : List α := (List.range r.count).map r.cell

def oldest (r : Ring α N) : α := r.cells[r.head]

def dropOldest (r : Ring α N) : Ring α N :=
  { r with head := Fin.ofNat N (r.head.val + 1), count := r.count - 1 }

def append (r : Ring α N) (a : α) : Ring α N :=
  { r with
    cells := r.cells.set (Fin.ofNat N (r.head.val + r.count)).val a (Fin.isLt _)
    count := r.count + 1 }

/-- Append, overwriting the oldest item of a full ring. -/
def push (r : Ring α N) (a : α) : Ring α N :=
  if r.count = N then r.dropOldest.append a else r.append a

@[simp] theorem contents_length (r : Ring α N) : r.contents.length = r.count := by
  simp [contents]

@[simp] theorem count_dropOldest (r : Ring α N) : r.dropOldest.count = r.count - 1 := rfl

@[simp] theorem count_append (r : Ring α N) (a : α) : (r.append a).count = r.count + 1 := rfl

theorem contents_eq_nil_iff (r : Ring α N) : r.contents = [] ↔ r.count = 0 := by
  rw [← List.length_eq_zero_iff, contents_length]

theorem oldest_eq_cell (r : Ring α N) : r.oldest = r.cell 0 := by
  simp [oldest, cell]

theorem cell_dropOldest (r : Ring α N) (i : Nat) : r.dropOldest.cell i = r.cell (i + 1) := by
  have hindex : Fin.ofNat N ((Fin.ofNat N (r.head.val + 1)).val + i) =
      Fin.ofNat N (r.head.val + (i + 1)) := by
    apply Fin.ext
    simp only [Fin.val_ofNat, Nat.mod_add_mod]
    rw [Nat.add_assoc, Nat.add_comm 1 i]
  simp only [cell, dropOldest, hindex]

/-- Dropping the oldest item leaves the rest in order. -/
@[simp] theorem contents_dropOldest (r : Ring α N) : r.dropOldest.contents = r.contents.tail := by
  unfold contents
  cases hc : r.count with
  | zero => simp [hc]
  | succ n =>
    simp only [count_dropOldest, hc, Nat.add_sub_cancel, List.range_succ_eq_map, List.map_cons,
      List.tail_cons, List.map_map]
    exact List.map_congr_left fun i _ => r.cell_dropOldest i

/-- A non-empty ring's contents start with the cell at `head`. -/
theorem contents_eq_cons (r : Ring α N) (h : 0 < r.count) :
    r.contents = r.oldest :: r.contents.tail := by
  obtain ⟨n, hn⟩ := Nat.exists_eq_add_of_lt h
  simp only [contents, hn, Nat.zero_add, List.range_succ_eq_map, List.map_cons, List.tail_cons,
    oldest_eq_cell]

/-- Distinct places within one capacity never share a cell. -/
theorem index_ne (head : Fin N) {i j : Nat} (hij : i < j) (hj : j < N) :
    (Fin.ofNat N (head.val + j)).val ≠ (Fin.ofNat N (head.val + i)).val := by
  intro he
  simp only [Fin.val_ofNat] at he
  have hmod : j ≡ i [MOD N] := Nat.ModEq.add_left_cancel' head.val he
  have : j = i := Nat.ModEq.eq_of_lt_of_lt hmod hj (hij.trans hj)
  omega

/-- With room left, appending puts the new item behind all others. -/
theorem contents_append (r : Ring α N) (a : α) (h : r.count < N) :
    (r.append a).contents = r.contents ++ [a] := by
  have hnew : (r.append a).cell r.count = a := by
    simp [cell, append]
  have hold : ∀ i ∈ List.range r.count, (r.append a).cell i = r.cell i := by
    intro i hi
    have hne := index_ne r.head (List.mem_range.mp hi) h
    exact Vector.getElem_set_ne (Fin.isLt _) (Fin.isLt _) hne
  simp only [contents, count_append, List.range_succ, List.map_append, List.map_cons, List.map_nil, hnew]
  rw [List.map_congr_left hold]

/-- A push keeps every item but the oldest one of a full ring. -/
theorem contents_push (r : Ring α N) (a : α) (h : r.count ≤ N) :
    (r.push a).contents = (if r.count = N then r.contents.tail else r.contents) ++ [a] := by
  unfold push
  split
  · rename_i hfull
    rw [contents_append _ _ ?_, contents_dropOldest]
    have := NeZero.pos N
    simp only [count_dropOldest]
    omega
  · exact contents_append r a (by omega)

/-- Appending behind a held item leaves the oldest one in place. -/
theorem oldest_append (r : Ring α N) (a : α) (h : 0 < r.count) (hroom : r.count < N) :
    (r.append a).oldest = r.oldest := by
  have hne := index_ne r.head (i := 0) h hroom
  rw [oldest_eq_cell, oldest_eq_cell]
  exact Vector.getElem_set_ne (Fin.isLt _) (Fin.isLt _) hne

theorem count_push (r : Ring α N) (a : α) :
    (r.push a).count = if r.count = N then N else r.count + 1 := by
  have := NeZero.pos N
  unfold push
  split
  · simp only [count_append, count_dropOldest]
    omega
  · rfl

end Ring
end IotFirmware
