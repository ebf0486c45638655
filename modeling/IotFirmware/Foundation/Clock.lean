import Mathlib.Tactic

/-! A wrapping 32-bit millisecond counter: its value at a true time, and a
wrapped difference read as a signed number. -/
namespace IotFirmware.Clock

/-- The counter at true time `t`. -/
def millis (t : Nat) : UInt32 := UInt32.ofNat t

/-- A wrapped difference read as a signed 32-bit integer. -/
def signed (x : UInt32) : Int := x.toBitVec.toInt

@[simp] theorem toNat_millis (t : Nat) : (millis t).toNat = t % 2 ^ 32 := by
  simp [millis]

/-- The signed reading is negative exactly in the upper half of the range. -/
theorem signed_neg_iff (x : UInt32) : signed x < 0 ↔ 2 ^ 31 ≤ x.toNat := by
  have hx := x.toNat_lt
  rw [signed, BitVec.toInt_eq_toNat_cond]
  simp only [UInt32.toNat_toBitVec]
  split <;> omega

/-- A deadline set `d` after true time `t` tests as pending before it is reached. -/
theorem deadline_pending_before {t d now : Nat} (hset : t ≤ now) (h : now < t + d) (hd : d ≤ 2 ^ 31) :
    signed (millis now - (millis t + UInt32.ofNat d)) < 0 := by
  rw [signed_neg_iff, UInt32.toNat_sub, UInt32.toNat_add]
  simp only [toNat_millis, UInt32.toNat_ofNat']
  omega

/-- Once reached it tests as pending again in every second half turn of the counter. -/
theorem deadline_pending_after_iff {t d now : Nat} (h : t + d ≤ now) :
    signed (millis now - (millis t + UInt32.ofNat d)) < 0 ↔ 2 ^ 31 ≤ (now - (t + d)) % 2 ^ 32 := by
  rw [signed_neg_iff, UInt32.toNat_sub, UInt32.toNat_add]
  simp only [toNat_millis, UInt32.toNat_ofNat']
  omega

/-- A wrapped difference never exceeds the time that has passed. -/
theorem elapsed_le {since now : Nat} (h : since ≤ now) : (millis now - millis since).toNat ≤ now - since := by
  rw [UInt32.toNat_sub]
  simp only [toNat_millis]
  omega

/-- Within one turn of the counter a wrapped difference is the time that has passed. -/
theorem elapsed_eq {since now : Nat} (h : since ≤ now) (hturn : now < since + 2 ^ 32) :
    (millis now - millis since).toNat = now - since := by
  rw [UInt32.toNat_sub]
  simp only [toNat_millis]
  omega

/-- Every window of length `d` that starts no later than the last of these times
holds one of them. -/
def Covered (d : Nat) (times : List Nat) : Prop := ∀ b ∈ times, ∀ t ≤ b, ∃ c ∈ times, t ≤ c ∧ c < t + d

/-- Times stay covered as long as each comes within `d` of one before it, and the
first within `d` of 0. -/
theorem Covered.snoc {d b : Nat} {times : List Nat} (h : Covered d times)
    (hnext : (times = [] ∧ b < d) ∨ ∃ c ∈ times, b < c + d) : Covered d (times ++ [b]) := by
  intro e he t ht
  by_cases hearlier : ∃ c ∈ times, t ≤ c
  · obtain ⟨c, hc, htc⟩ := hearlier
    obtain ⟨c', hc', hwindow⟩ := h c hc t htc
    exact ⟨c', List.mem_append_left _ hc', hwindow⟩
  · push Not at hearlier
    have hte : e = b := by
      refine List.mem_singleton.mp ((List.mem_append.mp he).resolve_left fun hmem => ?_)
      have := hearlier e hmem
      omega
    refine ⟨b, by simp, hte ▸ ht, ?_⟩
    rcases hnext with ⟨_, hfirst⟩ | ⟨c, hc, hnear⟩
    · omega
    · have := hearlier c hc
      omega

end IotFirmware.Clock
