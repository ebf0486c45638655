import IotFirmware.Foundation.Runs

/-! Round robin over `n` places: the pick is the first waiting place from a
cursor onwards, and a cursor that moves past each pick reaches every place that
keeps waiting within `n` turns. -/
namespace IotFirmware.RoundRobin
variable {n : Nat}

/-- The places in turn, from the cursor onwards. -/
def turn (cursor : Fin n) : List (Fin n) := (List.finRange n).map (cursor + ·)

/-- How many places are ahead of `j`. -/
def distance (cursor j : Fin n) : Nat := (j - cursor).val

theorem getElem_turn (cursor : Fin n) (k : Nat) (hk : k < (turn cursor).length) :
    (turn cursor)[k] = cursor + ⟨k, by simpa [turn] using hk⟩ := by
  simp [turn]

variable [NeZero n]

/-- Every place has its turn. -/
theorem mem_turn (cursor j : Fin n) : j ∈ turn cursor :=
  List.mem_map.mpr ⟨j - cursor, List.mem_finRange _, by simp⟩

/-- No place that waits is ahead of the one picked. -/
theorem distance_pick_le {waits : Fin n → Bool} {cursor i j : Fin n}
    (hpick : (turn cursor).find? waits = some i) (hj : waits j = true) :
    distance cursor i ≤ distance cursor j := by
  obtain ⟨-, k, hk, hi, hbefore⟩ := List.find?_eq_some_iff_getElem.mp hpick
  rw [getElem_turn] at hi
  have hik : distance cursor i = k := by
    rw [distance, ← hi, add_sub_cancel_left]
  rw [hik]
  by_contra hlt
  have hpassed := hbefore (distance cursor j) (by omega)
  rw [getElem_turn] at hpassed
  have hplace : cursor + (j - cursor) = j := by abel
  have hnot : waits j = false := by simpa [distance, hplace] using hpassed
  simp [hj] at hnot

/-- Moving the cursor past another pick brings it closer. -/
theorem distance_advance {cursor i j : Fin n} (hle : distance cursor i ≤ distance cursor j) (hne : i ≠ j) :
    distance (i + 1) j < distance cursor j := by
  have hlt : (i - cursor).val < (j - cursor).val := by
    refine lt_of_le_of_ne hle fun he => hne ?_
    exact sub_left_injective (Fin.ext he)
  have hn := (j - cursor).isLt
  have hsucc : ((i - cursor) + 1).val = (i - cursor).val + 1 := by
    rw [Fin.val_add]
    have hone : ((1 : Fin n)).val = 1 := by
      rw [Fin.val_one']
      exact Nat.mod_eq_of_lt (by omega)
    rw [hone]
    exact Nat.mod_eq_of_lt (by omega)
  have hsplit : j - (i + 1) = (j - cursor) - ((i - cursor) + 1) := by abel
  have hle' : (i - cursor) + 1 ≤ j - cursor := by
    rw [Fin.le_def, hsucc]
    omega
  unfold distance
  rw [hsplit, Fin.sub_val_of_le hle', hsucc]
  omega

end IotFirmware.RoundRobin
