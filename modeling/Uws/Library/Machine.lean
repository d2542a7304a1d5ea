import Mathlib

/-! Machines that take one symbol at a time, and readers that take a stream in blocks. -/

namespace Uws.Machine

variable {σ ρ α ω : Type}

def run (step : σ → α → σ × List ω) : σ → List α → σ × List ω
  | state, [] => (state, [])
  | state, symbol :: rest =>
    ((run step (step state symbol).1 rest).1,
      (step state symbol).2 ++ (run step (step state symbol).1 rest).2)

def reads (read : ρ → List α → ρ × List ω) : ρ → List (List α) → ρ × List ω
  | state, [] => (state, [])
  | state, block :: rest =>
    ((reads read (read state block).1 rest).1,
      (read state block).2 ++ (reads read (read state block).1 rest).2)

variable (step : σ → α → σ × List ω)

@[simp] theorem run_nil (state : σ) : run step state [] = (state, []) := rfl

@[simp] theorem run_cons (state : σ) (symbol : α) (rest : List α) :
    run step state (symbol :: rest) =
      ((run step (step state symbol).1 rest).1,
        (step state symbol).2 ++ (run step (step state symbol).1 rest).2) := rfl

theorem run_append (state : σ) (front back : List α) :
    run step state (front ++ back) =
      ((run step (run step state front).1 back).1,
        (run step state front).2 ++ (run step (run step state front).1 back).2) := by
  induction front generalizing state with
  | nil => simp
  | cons symbol front ih => simp [ih, List.append_assoc]

/-- A state no symbol leads out of and no symbol draws an output from. -/
def Absorbing (state : σ) : Prop := ∀ symbol, step state symbol = (state, [])

theorem run_absorbing {state : σ} (absorbing : Absorbing step state) (symbols : List α) :
    run step state symbols = (state, []) := by
  induction symbols with
  | nil => rfl
  | cons symbol symbols ih => simp [absorbing symbol, ih]

theorem run_append_absorbing {state bad : σ} {front : List α} (absorbing : Absorbing step bad)
    (reached : (run step state front).1 = bad) (back : List α) :
    (run step state (front ++ back)).1 = bad := by
  rw [run_append, reached, run_absorbing step absorbing]

theorem run_prefix_ne {state bad : σ} {front back : List α} (absorbing : Absorbing step bad)
    (avoids : (run step state (front ++ back)).1 ≠ bad) : (run step state front).1 ≠ bad :=
  fun reached => avoids (run_append_absorbing step absorbing reached back)

def runUntil (stop : σ → Bool) : σ → List α → σ × List ω × List α
  | state, [] => (state, [], [])
  | state, symbol :: rest =>
    if stop state then (state, [], symbol :: rest)
    else
      ((runUntil stop (step state symbol).1 rest).1,
        (step state symbol).2 ++ (runUntil stop (step state symbol).1 rest).2.1,
        (runUntil stop (step state symbol).1 rest).2.2)

variable (stop : σ → Bool)

@[simp] theorem runUntil_nil (state : σ) : runUntil step stop state [] = (state, [], []) := rfl

theorem runUntil_stopped {state : σ} (stopped : stop state = true) (symbols : List α) :
    runUntil step stop state symbols = (state, [], symbols) := by
  cases symbols <;> simp [runUntil, stopped]

theorem runUntil_cons {state : σ} (going : stop state = false) (symbol : α) (rest : List α) :
    runUntil step stop state (symbol :: rest) =
      ((runUntil step stop (step state symbol).1 rest).1,
        (step state symbol).2 ++ (runUntil step stop (step state symbol).1 rest).2.1,
        (runUntil step stop (step state symbol).1 rest).2.2) := by
  simp [runUntil, going]

theorem runUntil_resume (state : σ) (front back : List α) :
    runUntil step stop state (front ++ back) =
      ((runUntil step stop (runUntil step stop state front).1
          ((runUntil step stop state front).2.2 ++ back)).1,
        (runUntil step stop state front).2.1 ++
          (runUntil step stop (runUntil step stop state front).1
            ((runUntil step stop state front).2.2 ++ back)).2.1,
        (runUntil step stop (runUntil step stop state front).1
          ((runUntil step stop state front).2.2 ++ back)).2.2) := by
  induction front generalizing state with
  | nil => simp
  | cons symbol front ih =>
    by_cases stopped : stop state = true
    · simp [runUntil_stopped step stop stopped]
    · have going : stop state = false := by simpa using stopped
      rw [List.cons_append, runUntil_cons step stop going, ih, runUntil_cons step stop going]
      simp

theorem runUntil_append {state next : σ} {front : List α} {outputs : List ω}
    (whole : runUntil step stop state front = (next, outputs, [])) (back : List α) :
    runUntil step stop state (front ++ back) =
      ((runUntil step stop next back).1, outputs ++ (runUntil step stop next back).2.1,
        (runUntil step stop next back).2.2) := by
  rw [runUntil_resume, whole, List.nil_append]

theorem runUntil_left (state : σ) (front back : List α) :
    let taken := runUntil step stop state front
    (runUntil step stop taken.1 (taken.2.2 ++ back)).1 = (runUntil step stop taken.1 back).1 ∧
      (runUntil step stop taken.1 (taken.2.2 ++ back)).2.1 = (runUntil step stop taken.1 back).2.1 := by
  induction front generalizing state with
  | nil => simp
  | cons symbol front ih =>
    by_cases stopped : stop state = true
    · simp [runUntil_stopped step stop stopped]
    · have going : stop state = false := by simpa using stopped
      rw [runUntil_cons step stop going]
      exact ih _

theorem runUntil_length (state : σ) (symbols : List α) :
    (runUntil step stop state symbols).2.2.length ≤ symbols.length := by
  induction symbols generalizing state with
  | nil => exact Nat.le_refl _
  | cons symbol symbols ih =>
    by_cases stopped : stop state = true
    · rw [runUntil_stopped step stop stopped]
    · have going : stop state = false := by simpa using stopped
      rw [runUntil_cons step stop going]
      exact Nat.le_succ_of_le (ih _)

end Uws.Machine
