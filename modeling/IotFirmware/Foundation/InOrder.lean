import Mathlib.Tactic

/-! Sequences sent in order, perhaps with repeats: a reader of a list that skips
items and repeats the last one, and never goes back. -/
namespace IotFirmware

/-- Every item of `xs` is one of `ys`, at positions that never go back and none
of them beyond `k`. -/
def InOrderUpTo {α : Type} (k : Nat) (xs ys : List α) : Prop :=
  ∃ positions : List Nat, positions.Pairwise (· ≤ ·) ∧ (∀ i ∈ positions, i ≤ k) ∧
    xs.map some = positions.map fun i => ys[i]?

/-- The same with no bound. -/
def InOrder {α : Type} (xs ys : List α) : Prop := ∃ k, InOrderUpTo k xs ys

namespace InOrderUpTo
variable {α : Type} {k : Nat} {xs ys : List α}

theorem nil (k : Nat) (ys : List α) : InOrderUpTo k [] ys := ⟨[], .nil, by simp, rfl⟩

theorem mono (h : InOrderUpTo k xs ys) {k' : Nat} (hk : k ≤ k') : InOrderUpTo k' xs ys := by
  obtain ⟨positions, horder, hle, hmap⟩ := h
  exact ⟨positions, horder, fun i hi => (hle i hi).trans hk, hmap⟩

/-- More items to read leave the ones read where they were. -/
theorem append (h : InOrderUpTo k xs ys) (more : List α) : InOrderUpTo k xs (ys ++ more) := by
  obtain ⟨positions, horder, hle, hmap⟩ := h
  refine ⟨positions, horder, hle, hmap.trans (List.map_congr_left fun i hi => ?_)⟩
  have hmem : ys[i]? ∈ xs.map some := hmap ▸ List.mem_map_of_mem (f := fun i => ys[i]?) hi
  obtain ⟨a, _, ha⟩ := List.mem_map.mp hmem
  rw [← ha]
  exact (List.getElem?_append_left (List.getElem?_eq_some_iff.mp ha.symm).1 |>.trans ha.symm).symm

/-- The item at the bound is read next, or once more. -/
theorem snoc (h : InOrderUpTo k xs ys) {a : α} (ha : ys[k]? = some a) : InOrderUpTo k (xs ++ [a]) ys := by
  obtain ⟨positions, horder, hle, hmap⟩ := h
  refine ⟨positions ++ [k], List.pairwise_append.mpr ⟨horder, List.pairwise_singleton _ _, ?_⟩, ?_, ?_⟩
  · intro i hi j hj
    rw [List.mem_singleton.mp hj]
    exact hle i hi
  · intro i hi
    exact (List.mem_append.mp hi).elim (hle i) fun hlast => (List.mem_singleton.mp hlast).le
  · rw [List.map_append, List.map_append, hmap]
    simp [ha]

end InOrderUpTo
end IotFirmware
