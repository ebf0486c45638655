import Mathlib.Tactic

/-! Scripted conversations: messages sent in a fixed order, each only once the
answer to the one before it was accepted. -/
namespace IotFirmware

structure ScriptStep (μ α : Type) where
  message : μ
  Accepts : α → Prop

namespace Script
variable {μ α : Type} (Answers : List μ → α → Prop)

/-- Sent behind `history`, the step gets an answer it accepts. -/
def Accepted (history : List μ) (step : ScriptStep μ α) : Prop :=
  ∃ a, Answers (history ++ [step.message]) a ∧ step.Accepts a

/-- The step at `i` is accepted, sent behind all the steps before it. -/
def AcceptedAt (history : List μ) (steps : List (ScriptStep μ α)) (i : ℕ) : Prop :=
  ∃ step, steps[i]? = some step ∧ Accepted Answers (history ++ (steps.take i).map (·.message)) step

/-- Behind `history` the steps are followed: what is attempted of them, and whether all were accepted. -/
inductive Follows : List μ → List (ScriptStep μ α) → List μ → Prop → Prop
  | finished {history : List μ} : Follows history [] [] True
  | refused {history : List μ} {step : ScriptStep μ α} {steps : List (ScriptStep μ α)} :
      ¬ Accepted Answers history step → Follows history (step :: steps) [step.message] False
  | accepted {history attempted : List μ} {step : ScriptStep μ α} {steps : List (ScriptStep μ α)} {all : Prop} :
      Accepted Answers history step → Follows (history ++ [step.message]) steps attempted all →
        Follows history (step :: steps) (step.message :: attempted) all

variable {Answers} {history attempted : List μ} {step : ScriptStep μ α} {steps : List (ScriptStep μ α)} {all : Prop}

theorem acceptedAt_zero : AcceptedAt Answers history (step :: steps) 0 ↔ Accepted Answers history step := by
  simp [AcceptedAt]

theorem acceptedAt_succ {i : ℕ} :
    AcceptedAt Answers history (step :: steps) (i + 1) ↔ AcceptedAt Answers (history ++ [step.message]) steps i := by
  simp [AcceptedAt]

theorem Follows.isPrefix (h : Follows Answers history steps attempted all) :
    attempted <+: steps.map (·.message) := by
  induction h with
  | finished => exact List.prefix_rfl
  | refused => simp
  | accepted _ _ ih => simpa using ih

/-- A step is attempted exactly when every step before it was accepted. -/
theorem Follows.attempted_iff (h : Follows Answers history steps attempted all) {i : ℕ} (hi : i < steps.length) :
    i < attempted.length ↔ ∀ j < i, AcceptedAt Answers history steps j := by
  induction h generalizing i with
  | finished => simp at hi
  | refused hno =>
    cases i with
    | zero => simp
    | succ i => simpa using ⟨0, by omega, fun h => hno (acceptedAt_zero.mp h)⟩
  | accepted hyes _ ih =>
    cases i with
    | zero => simp
    | succ i =>
      simp only [List.length_cons, Nat.add_lt_add_iff_right] at hi ⊢
      rw [ih hi]
      constructor
      · intro hall j hj
        cases j with
        | zero => exact acceptedAt_zero.mpr hyes
        | succ j => exact acceptedAt_succ.mpr (hall j (by omega))
      · intro hall j hj
        exact acceptedAt_succ.mp (hall (j + 1) (by omega))

/-- The script is completed exactly when every step was accepted. -/
theorem Follows.all_iff (h : Follows Answers history steps attempted all) :
    all ↔ ∀ j < steps.length, AcceptedAt Answers history steps j := by
  induction h with
  | finished => simp
  | refused hno => simpa using ⟨0, by omega, fun h => hno (acceptedAt_zero.mp h)⟩
  | accepted hyes _ ih =>
    rw [ih]
    constructor
    · intro hall j hj
      cases j with
      | zero => exact acceptedAt_zero.mpr hyes
      | succ j => exact acceptedAt_succ.mpr (hall j (by simpa using hj))
    · intro hall j hj
      exact acceptedAt_succ.mp (hall (j + 1) (by simpa using hj))

end Script
end IotFirmware
