import IotFirmware.Foundation.Runs

/-! A bounded map of bounded FIFOs, with a memory of the last item looked at.
Keys, per-key tags and items are arbitrary; the bounds are fields of the state,
so no state breaks them. -/
namespace IotFirmware

/-- At most `maxKeys` keys, each with a tag and between one and `maxItems`
items, oldest first. `peeked` is the item looked at since the last removal,
while it is still the oldest one of its key. -/
structure FifoMap (κ ι α : Type) (maxKeys maxItems : Nat) where
  held : κ → Option (ι × List α)
  keys : Finset κ
  peeked : Option (κ × α)
  mem_keys : ∀ k, k ∈ keys ↔ (held k).isSome
  card_keys : keys.card ≤ maxKeys
  items_ne : ∀ k i l, held k = some (i, l) → l ≠ []
  items_le : ∀ k i l, held k = some (i, l) → l.length ≤ maxItems
  peeked_oldest : ∀ k a, peeked = some (k, a) → ∃ i l, held k = some (i, a :: l)

namespace FifoMap

structure Entry (κ ι α : Type) where
  key : κ
  tag : ι
  item : α

inductive Call (κ ι α : Type) where
  | push (e : Entry κ ι α)
  | peek (out : Entry κ ι α)
  | pop
  | count
  | clear

inductive Answer (κ ι α : Type) where
  | pushed (ok : Bool)
  | peeked (ok : Bool) (out : Entry κ ι α)
  | done
  | total (n : Nat)

variable {κ ι α : Type} {M N : Nat}

def items (m : FifoMap κ ι α M N) (k : κ) : List α := ((m.held k).map Prod.snd).getD []

def total (m : FifoMap κ ι α M N) : Nat := ∑ k ∈ m.keys, (m.items k).length

def empty : FifoMap κ ι α M N where
  held _ := none
  keys := ∅
  peeked := none
  mem_keys := by simp
  card_keys := Nat.zero_le M
  items_ne := by simp
  items_le := by simp
  peeked_oldest := by simp

theorem items_of_held {m : FifoMap κ ι α M N} {k : κ} {i : ι} {l : List α} (h : m.held k = some (i, l)) :
    m.items k = l := by
  simp [items, h]

/-- States with the same entries and the same last look are equal. -/
theorem ext_held {m m' : FifoMap κ ι α M N} (h : m.held = m'.held) (hp : m.peeked = m'.peeked) : m = m' := by
  have hkeys : m.keys = m'.keys := by
    ext k
    rw [m.mem_keys, m'.mem_keys, h]
  cases m
  cases m'
  simp only at h hp hkeys
  subst h hp hkeys
  rfl

/-- What each call answers and does. Only `peek` leaves a choice: which held
key to look at. -/
inductive Step [DecidableEq κ] (m : FifoMap κ ι α M N) :
    Call κ ι α × Answer κ ι α → FifoMap κ ι α M N → Prop
  | pushKnown {e : Entry κ ι α} {i : ι} {l : List α} {m' : FifoMap κ ι α M N} :
      m.held e.key = some (i, l) →
      m'.held = Function.update m.held e.key
        (some (e.tag, (if l.length = N then l.tail else l) ++ [e.item])) →
      m'.peeked = (if l.length = N ∧ m.peeked.map Prod.fst = some e.key then none else m.peeked) →
      Step m (.push e, .pushed true) m'
  | pushNew {e : Entry κ ι α} {m' : FifoMap κ ι α M N} :
      m.held e.key = none → m.keys.card < M →
      m'.held = Function.update m.held e.key (some (e.tag, [e.item])) → m'.peeked = m.peeked →
      Step m (.push e, .pushed true) m'
  | pushRefused {e : Entry κ ι α} :
      m.held e.key = none → m.keys.card = M → Step m (.push e, .pushed false) m
  | peekSome {out : Entry κ ι α} {k : κ} {i : ι} {a : α} {l : List α} {m' : FifoMap κ ι α M N} :
      m.held k = some (i, a :: l) → m'.held = m.held → m'.peeked = some (k, a) →
      Step m (.peek out, .peeked true ⟨k, i, a⟩) m'
  | peekNone {out : Entry κ ι α} {m' : FifoMap κ ι α M N} :
      m.keys = ∅ → m'.held = m.held → m'.peeked = none →
      Step m (.peek out, .peeked false out) m'
  | popPeeked {k : κ} {i : ι} {a : α} {l : List α} {m' : FifoMap κ ι α M N} :
      m.peeked = some (k, a) → m.held k = some (i, a :: l) →
      m'.held = Function.update m.held k (if l = [] then none else some (i, l)) → m'.peeked = none →
      Step m (.pop, .done) m'
  | popNothing : m.peeked = none → Step m (.pop, .done) m
  | count : Step m (.count, .total m.total) m
  | clear : Step m (.clear, .done) empty

end FifoMap
end IotFirmware
