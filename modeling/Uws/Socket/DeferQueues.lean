import Mathlib

/-! Callbacks that any thread defers to the thread of a loop. -/

namespace Uws.Defer

variable {κ : Type}

/-- Where the thread of the loop is in `wakeupCb`. The range of its iteration is taken once, before the first call. -/
inductive Wakeup where
  | outside
  | swapped (oldDeferQueue : Nat)
  | draining (oldDeferQueue position stop : Nat)
  deriving DecidableEq, Repr

/-- The queues of `LoopData`, with the callbacks that were run. -/
structure LoopData (κ : Type) where
  currentDeferQueue : Nat := 0
  deferQueues : Nat → List κ := fun _ => []
  wakeup : Wakeup := .outside
  ran : List κ := []

/-- A section under the lock in any thread, or a step of the thread of the loop. -/
inductive Action (κ : Type) where
  | defer (cb : κ)
  | wakeup
  | proceed

def Action.callback : Action κ → Option κ
  | .defer cb => some cb
  | .wakeup => none
  | .proceed => none

def Action.proceeds : Action κ → Bool
  | .defer _ => false
  | .wakeup => false
  | .proceed => true

namespace LoopData

def defer (data : LoopData κ) (cb : κ) : LoopData κ :=
  { data with
    deferQueues := Function.update data.deferQueues data.currentDeferQueue
      (data.deferQueues data.currentDeferQueue ++ [cb]) }

def swap (data : LoopData κ) : LoopData κ :=
  { data with
    wakeup := .swapped data.currentDeferQueue
    currentDeferQueue := (data.currentDeferQueue + 1) % 2 }

/-- Drain the queue: the range is taken, a callback is run, and behind the last one the queue is cleared. -/
def drain (data : LoopData κ) : LoopData κ :=
  match data.wakeup with
  | .outside => data
  | .swapped oldDeferQueue =>
    { data with wakeup := .draining oldDeferQueue 0 (data.deferQueues oldDeferQueue).length }
  | .draining oldDeferQueue position stop =>
    if position < stop then
      { data with
        wakeup := .draining oldDeferQueue (position + 1) stop
        ran := data.ran ++ ((data.deferQueues oldDeferQueue)[position]?).toList }
    else
      { data with
        wakeup := .outside
        deferQueues := Function.update data.deferQueues oldDeferQueue [] }

/-- A wakeup does not begin inside of another one. -/
def step (data : LoopData κ) : Action κ → LoopData κ
  | .defer cb => data.defer cb
  | .wakeup => if data.wakeup = .outside then data.swap else data
  | .proceed => data.drain

def run (data : LoopData κ) (actions : List (Action κ)) : LoopData κ := actions.foldl step data

def drained (data : LoopData κ) : Option Nat :=
  match data.wakeup with
  | .outside => none
  | .swapped oldDeferQueue => some oldDeferQueue
  | .draining oldDeferQueue _ _ => some oldDeferQueue

def rest (data : LoopData κ) : List κ :=
  match data.wakeup with
  | .outside => []
  | .swapped oldDeferQueue => data.deferQueues oldDeferQueue
  | .draining oldDeferQueue position _ => (data.deferQueues oldDeferQueue).drop position

def current (data : LoopData κ) : List κ := data.deferQueues data.currentDeferQueue

/-- How many steps of the thread of the loop are left in `wakeupCb`. -/
def stepsLeft (data : LoopData κ) : Nat :=
  match data.wakeup with
  | .outside => 0
  | .swapped oldDeferQueue => (data.deferQueues oldDeferQueue).length + 2
  | .draining _ position stop => stop - position + 1

/-- The other queue is the one that is drained, up to its end, or it is empty. -/
structure Accounted (data : LoopData κ) : Prop where
  current : data.currentDeferQueue < 2
  other : ∀ old, data.drained = some old → old = (data.currentDeferQueue + 1) % 2
  empty : data.wakeup = .outside → data.deferQueues ((data.currentDeferQueue + 1) % 2) = []
  range : ∀ old position stop, data.wakeup = .draining old position stop →
    position ≤ stop ∧ stop = (data.deferQueues old).length

namespace Accounted

variable {data : LoopData κ}

theorem init : Accounted ({} : LoopData κ) := by
  constructor
  · exact Nat.zero_lt_two
  · intro old drains
    cases drains
  · intro _
    rfl
  · intro old position stop draining
    cases draining

theorem other_ne (accounted : Accounted data) : (data.currentDeferQueue + 1) % 2 ≠ data.currentDeferQueue := by
  have current := accounted.current
  omega

/-- What is deferred goes to the end of the current queue, and the other one stays as it is. -/
theorem defer_other (accounted : Accounted data) (cb : κ) {old : Nat} (drains : data.drained = some old) :
    (data.defer cb).deferQueues old = data.deferQueues old := by
  have other := accounted.other old drains
  rw [other]
  exact Function.update_of_ne accounted.other_ne ..

theorem rest_defer (accounted : Accounted data) (cb : κ) : (data.defer cb).rest = data.rest := by
  have wakeup : (data.defer cb).wakeup = data.wakeup := rfl
  unfold LoopData.rest
  rw [wakeup]
  cases phase : data.wakeup with
  | outside => rfl
  | swapped old => exact accounted.defer_other cb (by rw [LoopData.drained, phase])
  | draining old position stop =>
    exact congrArg (List.drop position) (accounted.defer_other cb (by rw [LoopData.drained, phase]))

theorem stepsLeft_defer (accounted : Accounted data) (cb : κ) : (data.defer cb).stepsLeft = data.stepsLeft := by
  have wakeup : (data.defer cb).wakeup = data.wakeup := rfl
  unfold LoopData.stepsLeft
  rw [wakeup]
  cases phase : data.wakeup with
  | outside => rfl
  | swapped old =>
    have same := accounted.defer_other cb (show data.drained = some old by rw [LoopData.drained, phase])
    simp only [same]
  | draining old position stop => rfl

theorem defer (accounted : Accounted data) (cb : κ) : Accounted (data.defer cb) := by
  constructor
  · exact accounted.current
  · exact accounted.other
  · intro outside
    have unchanged : (data.defer cb).deferQueues ((data.currentDeferQueue + 1) % 2) = _ :=
      Function.update_of_ne accounted.other_ne ..
    exact unchanged.trans (accounted.empty outside)
  · intro old position stop draining
    have drains : data.drained = some old := by
      rw [LoopData.drained, show data.wakeup = .draining old position stop from draining]
    rw [accounted.defer_other cb drains]
    exact accounted.range old position stop draining

theorem swap (accounted : Accounted data) : Accounted data.swap := by
  have current := accounted.current
  have back : ((data.currentDeferQueue + 1) % 2 + 1) % 2 = data.currentDeferQueue := by omega
  constructor
  · exact Nat.mod_lt _ (by decide)
  · intro old drains
    cases drains
    exact back.symm
  · intro inside
    cases inside
  · intro old position stop draining
    cases draining

theorem drain (accounted : Accounted data) : Accounted data.drain := by
  unfold LoopData.drain
  cases phase : data.wakeup with
  | outside => exact accounted
  | swapped old =>
    have other := accounted.other old (by rw [LoopData.drained, phase])
    constructor
    · exact accounted.current
    · intro old' drains
      cases drains
      exact other
    · intro inside
      cases inside
    · intro old' position stop draining
      cases draining
      exact ⟨Nat.zero_le _, rfl⟩
  | draining old position stop =>
    have other := accounted.other old (by rw [LoopData.drained, phase])
    obtain ⟨within, whole⟩ := accounted.range old position stop phase
    simp only
    split
    · rename_i more
      constructor
      · exact accounted.current
      · intro old' drains
        cases drains
        exact other
      · intro inside
        cases inside
      · intro old' position' stop' draining
        cases draining
        exact ⟨more, whole⟩
    · constructor
      · exact accounted.current
      · intro old' drains
        cases drains
      · intro _
        rw [← other]
        exact Function.update_self ..
      · intro old' position' stop' draining
        cases draining

theorem step (accounted : Accounted data) (action : Action κ) : Accounted (data.step action) := by
  cases action with
  | defer cb => exact accounted.defer cb
  | wakeup =>
    unfold LoopData.step
    dsimp only
    split
    · exact accounted.swap
    · exact accounted
  | proceed => exact accounted.drain

theorem run (accounted : Accounted data) (actions : List (Action κ)) : Accounted (data.run actions) := by
  induction actions generalizing data with
  | nil => exact accounted
  | cons action actions ih => exact ih (accounted.step action)

theorem drain_current (accounted : Accounted data) : data.drain.current = data.current := by
  unfold LoopData.drain
  cases phase : data.wakeup with
  | outside => rfl
  | swapped old => rfl
  | draining old position stop =>
    have other := accounted.other old (by rw [LoopData.drained, phase])
    have ne : data.currentDeferQueue ≠ old := fun same => accounted.other_ne (other ▸ same.symm)
    simp only
    split
    · rfl
    · exact Function.update_of_ne ne ..

/-- The callback that is run is the first one of the rest, and the queue is cleared once nothing of it is left. -/
theorem drain_rest (accounted : Accounted data) :
    data.drain.ran ++ data.drain.rest = data.ran ++ data.rest := by
  cases phase : data.wakeup with
  | outside =>
    have same : data.drain = data := by simp only [LoopData.drain, phase]
    rw [same]
  | swapped old => simp only [LoopData.drain, LoopData.rest, phase, List.drop_zero]
  | draining old position stop =>
    obtain ⟨within, whole⟩ := accounted.range old position stop phase
    simp only [LoopData.drain, phase]
    split
    · rename_i more
      have at_ : position < (data.deferQueues old).length := whole ▸ more
      have taken := List.drop_eq_getElem_cons at_
      simp only [LoopData.rest, phase]
      rw [taken, List.getElem?_eq_getElem at_, Option.toList_some, List.append_assoc, List.singleton_append]
    · rename_i done
      have empty : (data.deferQueues old).drop position = [] := List.drop_eq_nil_of_le (by omega)
      simp only [LoopData.rest, phase, empty]

theorem drain_stepsLeft (accounted : Accounted data) : data.drain.stepsLeft = data.stepsLeft - 1 := by
  cases phase : data.wakeup with
  | outside => simp only [LoopData.drain, LoopData.stepsLeft, phase]
  | swapped old =>
    simp only [LoopData.drain, LoopData.stepsLeft, phase]
    omega
  | draining old position stop =>
    have within := (accounted.range old position stop phase).1
    simp only [LoopData.drain, phase]
    split
    · simp only [LoopData.stepsLeft, phase]
      omega
    · simp only [LoopData.stepsLeft, phase]
      omega

theorem swap_rest (accounted : Accounted data) (outside : data.wakeup = .outside) :
    data.swap.rest = data.current ∧ data.swap.current = [] := ⟨rfl, accounted.empty outside⟩

theorem step_account (accounted : Accounted data) (action : Action κ) :
    (data.step action).ran ++ (data.step action).rest ++ (data.step action).current =
      data.ran ++ data.rest ++ data.current ++ action.callback.toList := by
  cases action with
  | defer cb =>
    have grown : (data.defer cb).current = data.current ++ [cb] := Function.update_self ..
    change data.ran ++ (data.defer cb).rest ++ (data.defer cb).current = _
    rw [accounted.rest_defer, grown, ← List.append_assoc]
    rfl
  | wakeup =>
    unfold LoopData.step
    dsimp only
    split
    · rename_i outside
      obtain ⟨rest, current⟩ := accounted.swap_rest outside
      have none : data.rest = [] := by rw [LoopData.rest, outside]
      rw [rest, current, none]
      simp only [LoopData.swap, Action.callback, Option.toList_none, List.append_nil]
    · exact (List.append_nil _).symm
  | proceed =>
    change data.drain.ran ++ data.drain.rest ++ data.drain.current = _
    rw [accounted.drain_rest, accounted.drain_current]
    exact (List.append_nil _).symm

theorem run_account (accounted : Accounted data) (actions : List (Action κ)) :
    (data.run actions).ran ++ (data.run actions).rest ++ (data.run actions).current =
      data.ran ++ data.rest ++ data.current ++ actions.filterMap Action.callback := by
  induction actions generalizing data with
  | nil => exact (List.append_nil _).symm
  | cons action actions ih =>
    have first := accounted.step_account action
    have later := ih (accounted.step action)
    have split : (action :: actions).filterMap Action.callback =
        action.callback.toList ++ actions.filterMap Action.callback := by
      cases action <;> rfl
    rw [split, ← List.append_assoc, ← first]
    exact later

/-- Enough steps of the thread of the loop end a wakeup, whatever is deferred meanwhile. -/
theorem run_finishes (accounted : Accounted data) (actions : List (Action κ)) (none : .wakeup ∉ actions)
    (enough : data.stepsLeft ≤ actions.countP Action.proceeds) :
    (data.run actions).wakeup = .outside ∧ (data.run actions).ran = data.ran ++ data.rest := by
  induction actions generalizing data with
  | nil =>
    have ended : data.stepsLeft = 0 := Nat.le_zero.mp enough
    change data.wakeup = .outside ∧ data.ran = data.ran ++ data.rest
    cases phase : data.wakeup with
    | outside => exact ⟨rfl, by rw [LoopData.rest, phase, List.append_nil]⟩
    | swapped old => simp only [LoopData.stepsLeft, phase, Nat.add_eq_zero_iff, OfNat.ofNat_ne_zero, and_false] at ended
    | draining old position stop => simp only [LoopData.stepsLeft, phase, Nat.add_eq_zero_iff, one_ne_zero, and_false] at ended
  | cons action actions ih =>
    have later : .wakeup ∉ actions := fun inside => none (.tail _ inside)
    cases action with
    | wakeup => exact absurd (.head _) none
    | defer cb =>
      have left : (data.defer cb).stepsLeft ≤ actions.countP Action.proceeds := by
        rw [accounted.stepsLeft_defer]
        exact enough
      have finished := ih (accounted.defer cb) later left
      rwa [accounted.rest_defer] at finished
    | proceed =>
      have left : data.drain.stepsLeft ≤ actions.countP Action.proceeds := by
        rw [accounted.drain_stepsLeft]
        rw [List.countP_cons_of_pos rfl] at enough
        omega
      have finished := ih accounted.drain later left
      rwa [accounted.drain_rest] at finished

theorem stepsLeft_le (accounted : Accounted data) : data.stepsLeft ≤ data.rest.length + 2 := by
  cases phase : data.wakeup with
  | outside => simp only [LoopData.stepsLeft, phase, Nat.zero_le]
  | swapped old => simp only [LoopData.stepsLeft, LoopData.rest, phase, Nat.le_refl]
  | draining old position stop =>
    have whole := (accounted.range old position stop phase).2
    simp only [LoopData.stepsLeft, LoopData.rest, phase, List.length_drop]
    omega

end Accounted

/-- After any steps of any threads:
    1. What was run, what is left of the queue that is drained and what is in the current queue are the callbacks
       that were deferred, in their order.
    2. The drained queue is another one than the one that is added to.
    3. Outside of a wakeup the other queue is empty, and the next wakeup drains the whole current one.
    4. A wakeup ends in so many steps as its queue has callbacks left, and two more, and has run them all. -/
theorem deferred_in_order (actions : List (Action κ)) :
    let data := run ({} : LoopData κ) actions
    data.ran ++ data.rest ++ data.current = actions.filterMap Action.callback ∧
      (∀ old, data.drained = some old →
        old ≠ data.currentDeferQueue ∧ ∀ cb, (data.step (.defer cb)).deferQueues old = data.deferQueues old) ∧
      (data.wakeup = .outside →
        (data.step .wakeup).rest = data.current ∧ (data.step .wakeup).current = [] ∧
          data.deferQueues ((data.currentDeferQueue + 1) % 2) = []) ∧
      ∀ later, .wakeup ∉ later → data.rest.length + 2 ≤ later.countP Action.proceeds →
        (data.run later).wakeup = .outside ∧ (data.run later).ran = data.ran ++ data.rest := by
  have accounted := Accounted.init.run actions
  refine ⟨Accounted.init.run_account actions, ?_, ?_, ?_⟩
  · intro old drains
    have other := accounted.other old drains
    exact ⟨fun same => accounted.other_ne (other ▸ same), fun cb => accounted.defer_other cb drains⟩
  · intro outside
    obtain ⟨rest, current⟩ := accounted.swap_rest outside
    simp only [step, outside, if_true]
    exact ⟨rest, current, accounted.empty outside⟩
  · intro later none enough
    exact accounted.run_finishes later none (accounted.stepsLeft_le.trans enough)

end LoopData

end Uws.Defer
