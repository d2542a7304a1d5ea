import Mathlib

/-! Runs of a machine whose actions are subject to a condition on the state that they are taken in. -/

namespace Uws.Runs

variable {σ α : Type} {step : σ → α → σ} {holds : σ → α → Prop} {inv : σ → Prop}

/-- What holds of every action of a run and of the state that it is taken in. -/
def Along (step : σ → α → σ) (holds : σ → α → Prop) : σ → List α → Prop
  | _, [] => True
  | state, action :: actions => holds state action ∧ Along step holds (step state action) actions

instance instDecidableAlong (step : σ → α → σ) (holds : σ → α → Prop) [∀ state action, Decidable (holds state action)] :
    (state : σ) → (actions : List α) → Decidable (Along step holds state actions)
  | _, [] => inferInstanceAs (Decidable True)
  | state, action :: actions =>
    have : Decidable (Along step holds (step state action) actions) :=
      instDecidableAlong step holds (step state action) actions
    inferInstanceAs (Decidable (holds state action ∧ Along step holds (step state action) actions))

theorem foldl_induction (keeps : ∀ state action, inv state → holds state action → inv (step state action)) {state : σ}
    {actions : List α} (start : inv state) (along : Along step holds state actions) : inv (actions.foldl step state) := by
  induction actions generalizing state with
  | nil => exact start
  | cons action actions ih => exact ih (keeps state action start along.1) along.2

theorem along_of_invariant {implied : σ → α → Prop} (inv : σ → Prop)
    (keeps : ∀ state action, inv state → holds state action → inv (step state action))
    (implies : ∀ state action, inv state → holds state action → implied state action) {state : σ} {actions : List α}
    (start : inv state) (along : Along step holds state actions) : Along step implied state actions := by
  induction actions generalizing state with
  | nil => exact True.intro
  | cons action actions ih =>
    exact ⟨implies state action start along.1, ih (keeps state action start along.1) along.2⟩

theorem Along.last {state : σ} {actions : List α} {action : α} (along : Along step holds state (actions ++ [action])) :
    holds (actions.foldl step state) action := by
  induction actions generalizing state with
  | nil => exact along.1
  | cons first actions ih => exact ih along.2

end Uws.Runs
