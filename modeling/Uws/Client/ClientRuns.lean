import Uws.Client.SlotStages

/-! Runs of a client app: every connect stays at a stage, and contexts are freed when nothing is left in them. -/

namespace Uws.Client

variable {w : App} {k : Nat} {outcome : Outcome}

def Frame.rest : Frame → List Nat
  | .call _ _ => []
  | .closing rest => rest
  | .destroying rest => rest

/-- The handlers that are running for the connect, the innermost first. -/
def callsOf (stack : List Frame) (k : Nat) : List Call :=
  stack.filterMap fun frame => match frame with
    | .call k' call => if k' = k then some call else none
    | _ => none

def waitsOf (deferred : List Deferred) (k : Nat) : List Bool :=
  deferred.filterMap fun callback => match callback with
    | .refused k' user => if k' = k then some user else none
    | .sweep => none

def Bottomed : List Frame → Prop
  | [] => True
  | .destroying _ :: below => below = []
  | _ :: below => Bottomed below

/-- The connect is over, and its contexts have been freed. -/
structure Parted (w : App) (k : Nat) : Prop where
  frees : (w.slot k).frees = 1
  socket : (w.slot k).socket = .none
  request : (w.slot k).request = .none
  data : (w.slot k).dial.user = false ∧ (w.slot k).peer.user = false
  calls : callsOf w.stack k = []
  waits : w.alive = true → waitsOf w.deferred k = []

/-- What holds of an app between steps, up to the stages of the connects that are skipped. -/
structure Kept (w : App) (skip : Nat → Prop) : Prop where
  stages : ∀ k, k < w.created → ¬ skip k → Stage (w.slot k) (callsOf w.stack k) (waitsOf w.deferred k)
  covered : w.closed = true → ∀ k ∈ w.slots, ¬ skip k → (w.slot k).Settled ∨ ∃ frame ∈ w.stack, k ∈ frame.rest
  lively : w.closed = false → ∀ k ∈ w.slots, ¬ skip k → Lively (w.slot k) (callsOf w.stack k) (waitsOf w.deferred k)
  fresh : ∀ k, w.created ≤ k → w.slot k = {} ∧ callsOf w.stack k = [] ∧ waitsOf w.deferred k = []
  family : ∀ k ∈ w.slots, k < w.created
  distinct : w.slots.Nodup
  held : ∀ k ∈ w.slots, (w.slot k).frees = 0
  parted : ∀ k, k < w.created → k ∉ w.slots → Parted w k
  fault : w.fault = false
  gone : w.gone = true → w.slots = [] ∧ w.alive = false
  finished : w.alive = false → w.gone = true ∨ ∃ rest, .destroying rest ∈ w.stack
  dead : w.alive = false → w.closed = true
  bottomed : Bottomed w.stack
  destroying : ∀ rest, .destroying rest ∈ w.stack → w.alive = false ∧ w.gone = false
  looping : ∀ rest, .closing rest ∈ w.stack → w.closed = true
  inside : ∀ frame ∈ w.stack, ∀ k ∈ frame.rest, k ∈ w.slots
  swept : ∀ k ∈ w.slots, (w.slot k).done = true → w.sweepScheduled = true
  scheduled : w.alive = true → w.sweepScheduled = true → .sweep ∈ w.deferred

/-- What holds of an app between steps. -/
def Orderly (w : App) : Prop := Kept w fun _ => False

theorem callsOf_calls (calls : List Call) (stack : List Frame) (k j : Nat) :
    callsOf (calls.map (.call k) ++ stack) j = (if k = j then calls else []) ++ callsOf stack j := by
  induction calls with
  | nil => simp
  | cons call calls ih =>
    by_cases same : k = j
    · simp only [same, if_true] at ih
      simp only [callsOf, same, List.map_cons, List.cons_append, List.filterMap_cons, if_true, List.cons.injEq, true_and] at ih ⊢
      exact ih
    · simp only [same, if_false] at ih
      simp only [callsOf, same, List.map_cons, List.cons_append, List.filterMap_cons, if_false] at ih ⊢
      exact ih

theorem bottomed_calls (calls : List Call) {stack : List Frame} (bottomed : Bottomed stack) (k : Nat) :
    Bottomed (calls.map (.call k) ++ stack) := by
  induction calls with
  | nil => exact bottomed
  | cons call calls ih => exact ih

theorem waitsOf_sweep (deferred : List Deferred) (j : Nat) : waitsOf (deferred ++ [.sweep]) j = waitsOf deferred j := by
  simp [waitsOf]

namespace App

structure Applied (w : App) (k : Nat) (outcome : Outcome) (w' : App) : Prop where
  slot : w'.slot = Function.update w.slot k outcome.result
  stack : w'.stack = outcome.calls.map (.call k) ++ w.stack
  tls : w'.tls = w.tls
  created : w'.created = w.created
  slots : w'.slots = w.slots
  closed : w'.closed = w.closed
  alive : w'.alive = w.alive
  gone : w'.gone = w.gone
  fault : w'.fault = (w.fault || outcome.fault || (outcome.retires && w.gone))
  waits : ∀ j, waitsOf w'.deferred j = waitsOf w.deferred j
  kept : w.sweepScheduled = true → w'.sweepScheduled = true
  scheduled : (w.sweepScheduled = true → .sweep ∈ w.deferred) → w'.sweepScheduled = true → .sweep ∈ w'.deferred
  swept : outcome.retires = true → outcome.slot.done = true ∨ w'.sweepScheduled = true

theorem applied (w : App) (k : Nat) (outcome : Outcome) : Applied w k outcome (w.apply k outcome) := by
  unfold apply
  dsimp only
  cases retires : outcome.retires with
  | false =>
    rw [if_neg Bool.false_ne_true]
    refine ⟨?_, rfl, rfl, rfl, rfl, rfl, rfl, rfl, ?_, fun _ => rfl, fun same => same, fun same => same, fun absurd => ?_⟩
    · simp [Outcome.result, retires]
    · simp [retires]
    · cases retires.symm.trans absurd
  | true =>
    rw [if_pos rfl]
    unfold retire
    dsimp only
    simp only [Function.update_self]
    cases done : outcome.slot.done with
    | true =>
      rw [if_pos rfl]
      refine ⟨?_, rfl, rfl, rfl, rfl, rfl, rfl, rfl, ?_, fun _ => rfl, fun same => same, fun same => same, fun _ => .inl done⟩
      · have same : { outcome.slot with done := true } = outcome.slot := by rw [← done]
        simp [Outcome.result, retires, same]
      · simp [retires]
    | false =>
      rw [if_neg Bool.false_ne_true]
      have slot : Function.update (Function.update w.slot k outcome.slot) k { outcome.slot with done := true } =
          Function.update w.slot k outcome.result := by
        simp [Outcome.result, retires]
      split
      · next already =>
        exact ⟨slot, rfl, rfl, rfl, rfl, rfl, rfl, rfl, by simp [retires], fun _ => rfl, fun same => same, fun same => same,
          fun _ => .inr already⟩
      · exact ⟨slot, rfl, rfl, rfl, rfl, rfl, rfl, rfl, by simp [retires], fun j => waitsOf_sweep _ j, fun _ => rfl,
          fun _ _ => List.mem_append_right _ (List.mem_singleton.mpr rfl), fun _ => .inr rfl⟩

end App

namespace Outcome

theorem result_frees (outcome : Outcome) : outcome.result.frees = outcome.slot.frees := by
  unfold result
  split <;> rfl

theorem result_settled (outcome : Outcome) : outcome.result.Settled ↔ outcome.slot.Settled := by
  unfold result
  split <;> rfl

theorem result_done (outcome : Outcome) : outcome.result.done = (outcome.retires || outcome.slot.done) := by
  unfold result
  cases outcome.retires <;> rfl

end Outcome

namespace Kept

variable {skip : Nat → Prop}

theorem apply (kept : Kept w (· = k)) (inside : k ∈ w.slots) (fault : outcome.fault = false) (frees : outcome.slot.frees = 0)
    (done : outcome.slot.done = (w.slot k).done) : Kept (w.apply k outcome) (· = k) := by
  have applied := w.applied k outcome
  have live : w.gone = false := by
    cases gone : w.gone with
    | false => rfl
    | true =>
      rw [(kept.gone gone).1] at inside
      exact absurd inside List.not_mem_nil
  have others : ∀ j, j ≠ k → (w.apply k outcome).slot j = w.slot j := by
    intro j other
    rw [applied.slot, Function.update_of_ne other]
  have mine : (w.apply k outcome).slot k = outcome.result := by rw [applied.slot, Function.update_self]
  have calls : ∀ j, j ≠ k → callsOf (w.apply k outcome).stack j = callsOf w.stack j := by
    intro j other
    rw [applied.stack, callsOf_calls, if_neg (Ne.symm other), List.nil_append]
  have frames : ∀ frame ∈ (w.apply k outcome).stack, frame ∈ w.stack ∨ ∃ call, frame = .call k call := by
    intro frame member
    rw [applied.stack] at member
    rcases List.mem_append.mp member with called | before
    · obtain ⟨call, -, rfl⟩ := List.mem_map.mp called
      exact .inr ⟨call, rfl⟩
    · exact .inl before
  refine ⟨?_, ?_, ?_, ?_, ?_, ?_, ?_, ?_, ?_, ?_, ?_, ?_, ?_, ?_, ?_, ?_, ?_, ?_⟩
  · intro j created other
    rw [applied.created] at created
    rw [others j other, calls j other, applied.waits]
    exact kept.stages j created other
  · intro closed j member other
    rw [applied.closed] at closed
    rw [applied.slots] at member
    rw [others j other]
    refine (kept.covered closed j member other).imp_right ?_
    intro ⟨frame, stacked, rest⟩
    refine ⟨frame, ?_, rest⟩
    rw [applied.stack]
    exact List.mem_append_right _ stacked
  · intro closed j member other
    rw [applied.closed] at closed
    rw [applied.slots] at member
    rw [others j other, calls j other, applied.waits]
    exact kept.lively closed j member other
  · intro j new
    rw [applied.created] at new
    have other : j ≠ k := by
      rintro rfl
      exact absurd (kept.family j inside) (Nat.not_lt.mpr new)
    rw [others j other, calls j other, applied.waits]
    exact kept.fresh j new
  · rw [applied.slots, applied.created]
    exact kept.family
  · rw [applied.slots]
    exact kept.distinct
  · intro j member
    rw [applied.slots] at member
    by_cases other : j = k
    · subst other
      rw [mine, outcome.result_frees, frees]
    · rw [others j other]
      exact kept.held j member
  · intro j created absent
    rw [applied.created] at created
    rw [applied.slots] at absent
    have other : j ≠ k := by
      rintro rfl
      exact absent inside
    have parted := kept.parted j created absent
    refine ⟨?_, ?_, ?_, ?_, ?_, ?_⟩
    · rw [others j other]
      exact parted.frees
    · rw [others j other]
      exact parted.socket
    · rw [others j other]
      exact parted.request
    · rw [others j other]
      exact parted.data
    · rw [calls j other]
      exact parted.calls
    · rw [applied.alive, applied.waits]
      exact parted.waits
  · rw [applied.fault, kept.fault, fault, live]
    simp
  · rw [applied.gone, applied.slots, applied.alive]
    exact kept.gone
  · rw [applied.alive, applied.gone, applied.stack]
    exact fun dead => (kept.finished dead).imp_right fun ⟨rest, member⟩ => ⟨rest, List.mem_append_right _ member⟩
  · rw [applied.alive, applied.closed]
    exact kept.dead
  · rw [applied.stack]
    exact bottomed_calls _ kept.bottomed k
  · intro rest member
    rw [applied.alive, applied.gone]
    rcases frames _ member with before | ⟨call, new⟩
    · exact kept.destroying rest before
    · cases new
  · intro rest member
    rw [applied.closed]
    rcases frames _ member with before | ⟨call, new⟩
    · exact kept.looping rest before
    · cases new
  · intro frame member j listed
    rw [applied.slots]
    rcases frames _ member with before | ⟨call, rfl⟩
    · exact kept.inside frame before j listed
    · exact absurd listed List.not_mem_nil
  · intro j member marked
    rw [applied.slots] at member
    by_cases other : j = k
    · subst other
      rw [mine, outcome.result_done, done, Bool.or_eq_true] at marked
      rcases marked with retires | before
      · rcases applied.swept retires with before | now
        · exact applied.kept (kept.swept j member (done.symm.trans before))
        · exact now
      · exact applied.kept (kept.swept j member before)
    · rw [others j other] at marked
      exact applied.kept (kept.swept j member marked)
  · rw [applied.alive]
    exact fun alive => applied.scheduled (kept.scheduled alive)

theorem skipped (kept : Orderly w) (skip : Nat → Prop) : Kept w skip where
  stages := fun j created _ => kept.stages j created id
  covered := fun closed j member _ => kept.covered closed j member id
  lively := fun closed j member _ => kept.lively closed j member id
  fresh := kept.fresh
  family := kept.family
  distinct := kept.distinct
  held := kept.held
  parted := kept.parted
  fault := kept.fault
  gone := kept.gone
  finished := kept.finished
  dead := kept.dead
  bottomed := kept.bottomed
  destroying := kept.destroying
  looping := kept.looping
  inside := kept.inside
  swept := kept.swept
  scheduled := kept.scheduled

theorem rejoin (kept : Kept w (· = k)) (stage : k < w.created → Stage (w.slot k) (callsOf w.stack k) (waitsOf w.deferred k))
    (covered : w.closed = true → (w.slot k).Settled ∨ ∃ frame ∈ w.stack, k ∈ frame.rest)
    (lively : w.closed = false → Lively (w.slot k) (callsOf w.stack k) (waitsOf w.deferred k)) : Orderly w := by
  refine { kept with stages := ?_, covered := ?_, lively := ?_ }
  · intro j created _
    by_cases other : j = k
    · subst other
      exact stage created
    · exact kept.stages j created other
  · intro closed j member _
    by_cases other : j = k
    · subst other
      exact covered closed
    · exact kept.covered closed j member other
  · intro closed j member _
    by_cases other : j = k
    · subst other
      exact lively closed
    · exact kept.lively closed j member other

theorem moved (kept : Kept w (· = k)) (inside : k ∈ w.slots)
    (moves : Moves (w.slot k) (callsOf w.stack k) (waitsOf w.deferred k) outcome)
    (covered : w.closed = true → (w.slot k).Settled ∨ ∃ frame ∈ w.stack, k ∈ frame.rest)
    (lively : w.closed = false → Lively outcome.result (outcome.calls ++ callsOf w.stack k) (waitsOf w.deferred k)) :
    Orderly (w.apply k outcome) := by
  have applied := w.applied k outcome
  have mine : (w.apply k outcome).slot k = outcome.result := by rw [applied.slot, Function.update_self]
  have calls : callsOf (w.apply k outcome).stack k = outcome.calls ++ callsOf w.stack k := by
    rw [applied.stack, callsOf_calls, if_pos rfl]
  apply (kept.apply inside moves.fault moves.frees moves.done).rejoin
  · intro _
    rw [mine, calls, applied.waits]
    exact moves.stage
  · intro closed
    rw [applied.closed] at closed
    rw [mine, outcome.result_settled]
    refine (covered closed).imp moves.settled ?_
    intro ⟨frame, stacked, rest⟩
    refine ⟨frame, ?_, rest⟩
    rw [applied.stack]
    exact List.mem_append_right _ stacked
  · intro closed
    rw [applied.closed] at closed
    rw [mine, calls, applied.waits]
    exact lively closed

end Kept

namespace Orderly

theorem apply (orderly : Orderly w) (inside : k ∈ w.slots)
    (moves : Moves (w.slot k) (callsOf w.stack k) (waitsOf w.deferred k) outcome)
    (lively : Lively outcome.result (outcome.calls ++ callsOf w.stack k) (waitsOf w.deferred k)) :
    Orderly (w.apply k outcome) :=
  (Kept.skipped orderly _).moved inside moves (fun closed => orderly.covered closed k inside id) fun _ => lively

theorem member (orderly : Orderly w) (busy : (w.slot k).request ≠ .none ∨ (w.slot k).socket ≠ .none) : k ∈ w.slots := by
  by_contra absent
  rcases Nat.lt_or_ge k w.created with created | new
  · have parted := orderly.parted k created absent
    exact busy.elim (fun request => request parted.request) fun socket => socket parted.socket
  · rw [(orderly.fresh k new).1] at busy
    exact busy.elim (fun request => request rfl) fun socket => socket rfl

theorem stage (orderly : Orderly w) (inside : k ∈ w.slots) : Stage (w.slot k) (callsOf w.stack k) (waitsOf w.deferred k) :=
  orderly.stages k (orderly.family k inside) id

theorem idle (orderly : Orderly w) (inside : k ∈ w.slots) (empty : w.stack = []) :
    Stage (w.slot k) [] (waitsOf w.deferred k) := by
  have stage := orderly.stage inside
  rw [empty] at stage
  exact stage

end Orderly

end Uws.Client
