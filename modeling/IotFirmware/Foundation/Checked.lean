import Mathlib.Tactic

/-! Passes over a byte buffer that refuse bad bytes, and that halt rather than
read outside the buffer or subtract below zero. -/
namespace IotFirmware

/-- Why a pass ends without a result. -/
inductive Halt where
  | failure
  | outOfBounds
  deriving DecidableEq, Repr

abbrev Checked (α : Type) := Except Halt α

namespace Checked
variable {α β : Type}

def failure : Checked α := .error .failure

def require (p : Prop) [Decidable p] : Checked Unit := if p then .ok () else failure

def byteAt (buf : List UInt8) (i : Nat) : Checked UInt8 :=
  match buf[i]? with
  | some b => .ok b
  | none => .error .outOfBounds

/-- A byte stored at index `i` of an array of `max` bytes, of which those before `i` are set. -/
def store (max : Nat) (buf : List UInt8) (i : Nat) (b : UInt8) : Checked (List UInt8) :=
  if i < max ∧ i = buf.length then .ok (buf ++ [b]) else .error .outOfBounds

def slice (buf : List UInt8) (start count : Nat) : Checked (List UInt8) :=
  if start + count ≤ buf.length then .ok ((buf.drop start).take count) else .error .outOfBounds

def sub (a b : Nat) : Checked Nat := if b ≤ a then .ok (a - b) else .error .outOfBounds

@[simp] theorem failure_ne_ok (a : α) : (failure : Checked α) ≠ .ok a := by
  simp [failure]

theorem pure_eq_ok {a b : α} : (pure a : Checked α) = .ok b ↔ a = b := by
  simp [pure, Except.pure]

theorem bind_eq_ok {x : Checked α} {f : α → Checked β} {b : β} :
    x >>= f = .ok b ↔ ∃ a, x = .ok a ∧ f a = .ok b := by
  cases x <;> simp [bind, Except.bind]

theorem require_eq_ok {p : Prop} [Decidable p] {u : Unit} : require p = .ok u ↔ p := by
  by_cases hp : p <;> simp [require, hp]

theorem byteAt_eq_ok {buf : List UInt8} {i : Nat} {b : UInt8} : byteAt buf i = .ok b ↔ buf[i]? = some b := by
  unfold byteAt
  cases buf[i]? <;> simp

theorem slice_eq_ok {buf : List UInt8} {start count : Nat} {bytes : List UInt8} :
    slice buf start count = .ok bytes ↔
      start + count ≤ buf.length ∧ (buf.drop start).take count = bytes := by
  by_cases h : start + count ≤ buf.length <;> simp [slice, h]

theorem sub_eq_ok {a b c : Nat} : sub a b = .ok c ↔ b + c = a := by
  by_cases h : b ≤ a
  · simp only [sub, h, if_true, Except.ok.injEq]
    omega
  · simp only [sub, h, if_false, reduceCtorEq, false_iff]
    omega

/-- The pass ends without having read outside its buffer. -/
def InBounds (x : Checked α) : Prop := x ≠ .error .outOfBounds

@[simp] theorem inBounds_failure : (failure : Checked α).InBounds := by simp [InBounds, failure]

@[simp] theorem inBounds_ok (a : α) : InBounds (.ok a) := by simp [InBounds]

@[simp] theorem inBounds_pure (a : α) : InBounds (pure a) := inBounds_ok a

@[simp] theorem inBounds_require (p : Prop) [Decidable p] : (require p).InBounds := by
  by_cases hp : p <;> simp [require, hp]

theorem inBounds_slice {buf : List UInt8} {start count : Nat} (h : start + count ≤ buf.length) :
    (slice buf start count).InBounds := by
  simp [slice, h]

theorem inBounds_sub {a b : Nat} (h : b ≤ a) : (sub a b).InBounds := by
  simp [sub, h]

theorem inBounds_bind {x : Checked α} {f : α → Checked β} (hx : x.InBounds) (hf : ∀ a, x = .ok a → (f a).InBounds) :
    (x >>= f).InBounds := by
  cases x with
  | ok a => exact hf a rfl
  | error e => simpa [bind, Except.bind, InBounds] using hx

theorem inBounds_require_bind {p : Prop} [Decidable p] {f : Unit → Checked β} (hf : p → (f ()).InBounds) :
    (require p >>= f).InBounds := by
  apply inBounds_bind (inBounds_require p)
  intro _ hp
  exact hf (require_eq_ok.mp hp)

theorem inBounds_byteAt_bind {buf : List UInt8} {i : Nat} {f : UInt8 → Checked β} (hi : i < buf.length)
    (hf : ∀ b, (f b).InBounds) : (byteAt buf i >>= f).InBounds := by
  rw [byteAt, List.getElem?_eq_getElem hi]
  exact hf _

theorem inBounds_sub_bind {a b : Nat} {f : Nat → Checked β} (h : b ≤ a) (hf : ∀ c, b + c = a → (f c).InBounds) :
    (sub a b >>= f).InBounds := by
  apply inBounds_bind (inBounds_sub h)
  intro c hc
  exact hf c (sub_eq_ok.mp hc)

/-- What ends a pass that stays in bounds may end another. -/
theorem InBounds.error {x : Checked α} {e : Halt} (h : x.InBounds) (he : x = .error e) :
    InBounds (.error e : Checked β) := by
  subst he
  simpa [InBounds] using h

/-- A pass that stays in bounds either succeeds or refuses. -/
theorem InBounds.eq_failure {x : Checked α} (h : x.InBounds) (hno : ∀ a, x ≠ .ok a) : x = failure := by
  cases x with
  | ok a => exact absurd rfl (hno a)
  | error e =>
    cases e with
    | failure => rfl
    | outOfBounds => exact absurd rfl h

end Checked

/-! What stands in a buffer from an index on. -/
section Drop
variable {α : Type} {buf tail bytes : List α} {i : Nat} {b : α}

theorem drop_eq_cons_iff :
    buf.drop i = b :: tail ↔ buf[i]? = some b ∧ buf.drop (i + 1) = tail := by
  rw [← List.head?_drop, ← List.tail_drop]
  cases buf.drop i <;> simp

theorem cons_prefix_drop_iff :
    b :: tail <+: buf.drop i ↔ buf[i]? = some b ∧ tail <+: buf.drop (i + 1) := by
  rw [← List.head?_drop, ← List.tail_drop]
  cases buf.drop i <;> simp [List.cons_prefix_cons, eq_comm]

theorem prefix_drop_iff :
    bytes <+: buf.drop i ↔ buf.drop i = bytes ++ buf.drop (i + bytes.length) := by
  rw [List.prefix_iff_eq_append, List.drop_drop, eq_comm]

end Drop
end IotFirmware
