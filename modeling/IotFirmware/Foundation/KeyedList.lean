import Mathlib.Tactic

/-! Tables kept as lists of rows with a key: looking a row up, changing the row
found, and adding a row for a new key. -/
namespace IotFirmware.KeyedList
variable {α κ : Type} [DecidableEq κ] {key : α → κ} {l : List α} {k : κ}

def lookup (key : α → κ) (l : List α) (k : κ) : Option α := l.find? fun a => decide (key a = k)

theorem key_of_lookup {a : α} (h : lookup key l k = some a) : key a = k := by
  simpa using List.find?_some h

theorem mem_of_lookup {a : α} (h : lookup key l k = some a) : a ∈ l := List.mem_of_find?_eq_some h

/-- A key with no index has no row. -/
theorem lookup_eq_none (h : l.findIdx? (fun a => decide (key a = k)) = none) : lookup key l k = none := by
  simpa [lookup] using h

theorem notMem_of_lookup_eq_none (h : lookup key l k = none) : k ∉ l.map key := by
  simpa [lookup] using h

/-- The row at the index found is the row looked up. -/
theorem lookup_eq_getD {i : Nat} (h : l.findIdx? (fun a => decide (key a = k)) = some i) (d : α) :
    lookup key l k = some (l.getD i d) := by
  induction l generalizing i with
  | nil => simp at h
  | cons a rest ih =>
    rw [List.findIdx?_cons] at h
    by_cases ha : key a = k
    · obtain rfl : i = 0 := by simpa [ha, eq_comm] using h
      simp [lookup, ha]
    · obtain ⟨j, hj, rfl⟩ : ∃ j, rest.findIdx? (fun a => decide (key a = k)) = some j ∧ j + 1 = i := by
        simpa [ha] using h
      simpa [lookup, ha] using ih hj

/-- A row added for a new key is found, and no other lookup changes. -/
theorem lookup_append {a : α} (h : lookup key l (key a) = none) :
    lookup key (l ++ [a]) = Function.update (lookup key l) (key a) (some a) := by
  funext k
  by_cases hk : k = key a
  · subst hk
    simp only [lookup, List.find?_append] at h ⊢
    simp [h]
  · simp [lookup, List.find?_append, hk, Ne.symm hk]

/-- Changing the row found, key aside, changes that lookup only. -/
theorem lookup_modify {f : α → α} (hf : ∀ a, key (f a) = key a) {i : Nat}
    (h : l.findIdx? (fun a => decide (key a = k)) = some i) :
    lookup key (l.modify i f) = Function.update (lookup key l) k ((lookup key l k).map f) := by
  induction l generalizing i with
  | nil => simp at h
  | cons a rest ih =>
    rw [List.findIdx?_cons] at h
    funext k'
    by_cases ha : key a = k
    · obtain rfl : i = 0 := by simpa [ha, eq_comm] using h
      by_cases hk : k' = k
      · subst hk
        simp [lookup, hf, ha]
      · simp [lookup, hf, ha, hk, Ne.symm hk]
    · obtain ⟨j, hj, rfl⟩ : ∃ j, rest.findIdx? (fun a => decide (key a = k)) = some j ∧ j + 1 = i := by
        simpa [ha] using h
      have hrest := congrFun (ih hj) k'
      by_cases hk : k' = k
      · subst hk
        simpa [lookup, ha] using hrest
      · simp only [lookup, List.modify_succ_cons, List.find?_cons, Function.update_of_ne hk] at hrest ⊢
        rw [hrest]

omit [DecidableEq κ] in
/-- Changing a row, key aside, leaves the list of keys as it is. -/
theorem map_key_modify {f : α → α} (hf : ∀ a, key (f a) = key a) (i : Nat) :
    (l.modify i f).map key = l.map key := by
  induction l generalizing i with
  | nil => simp
  | cons a rest ih => cases i <;> simp [hf, ih]

end IotFirmware.KeyedList
