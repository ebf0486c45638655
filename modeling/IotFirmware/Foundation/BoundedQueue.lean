import Mathlib.Tactic

/-! A bounded FIFO queue that refuses items while full, as an operating system
queue does. The bound is part of the type. -/
namespace IotFirmware

structure BoundedQueue (α : Type) (N : Nat) where
  items : List α
  length_le : items.length ≤ N
  deriving DecidableEq, Repr

namespace BoundedQueue
variable {α : Type} {N : Nat}

def empty : BoundedQueue α N := ⟨[], by simp⟩

def spaces (q : BoundedQueue α N) : Nat := N - q.items.length

def send (q : BoundedQueue α N) (a : α) : Bool × BoundedQueue α N :=
  if h : q.items.length < N then (true, ⟨q.items ++ [a], by simpa using h⟩) else (false, q)

def peek (q : BoundedQueue α N) : Option α := q.items.head?

def receive (q : BoundedQueue α N) : Option α × BoundedQueue α N :=
  (q.items.head?, ⟨q.items.tail, by simpa using (Nat.sub_le _ 1).trans q.length_le⟩)

@[simp] theorem items_receive (q : BoundedQueue α N) : q.receive.2.items = q.items.tail := rfl

theorem send_of_spaces {q : BoundedQueue α N} (h : 0 < q.spaces) (a : α) :
    (q.send a).1 = true ∧ (q.send a).2.items = q.items ++ [a] := by
  have hlt : q.items.length < N := Nat.lt_of_sub_pos h
  simp [send, hlt]

theorem items_of_peek {q : BoundedQueue α N} {a : α} (h : q.peek = some a) : q.items = a :: q.items.tail :=
  (List.cons_head?_tail h).symm

/-- A place seen free stays free while others only receive. -/
theorem spaces_receive (q : BoundedQueue α N) : q.spaces ≤ q.receive.2.spaces := by
  simp only [spaces, receive, List.length_tail]
  omega

/-- There is room behind a receive. -/
theorem spaces_receive_pos (q : BoundedQueue α N) (hN : 0 < N) : 0 < q.receive.2.spaces := by
  have hle := q.length_le
  simp only [spaces, receive, List.length_tail]
  omega

/-- The head stays the head while others only send. -/
theorem peek_send {q : BoundedQueue α N} {a : α} (h : q.peek = some a) (b : α) : (q.send b).2.peek = some a := by
  unfold send
  split
  · simp only [peek] at h ⊢
    simp [h]
  · exact h

end BoundedQueue
end IotFirmware
