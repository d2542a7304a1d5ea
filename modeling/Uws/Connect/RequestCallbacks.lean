import Uws.Connect.RequestSteps

/-! The callbacks of the loop: the timer of a request, a semi-socket that is ready, and the resolver. -/

namespace Uws.Connect

open Uws.LinkedList

variable {A : Type} {w w' : World A} {r r' : Request} {c c' : Context} {s : Socket} {lists : Context → List Request}

theorem Orderly.semi_stage (orderly : Orderly w lists) (quiet : w.callback = none) (poll : w.poll s = .semi r c) :
    Placed w r c .connecting .pending none (1, 0, 0) ∧ r ∉ w.outstanding ∧ w.attempt r = some s := by
  obtain ⟨inside, attempt⟩ := orderly.semi s r c poll
  have silent := report_none quiet r
  cases orderly.stages r with
  | absent gone => exact absurd inside gone.allocated
  | freed gone => exact absurd inside gone.allocated
  | resolving c' placed outstanding none_ => cases none_.symm.trans attempt
  | connecting c' s' placed outstanding own semi =>
    obtain rfl := Option.some.inj (own.symm.trans attempt)
    obtain ⟨-, rfl⟩ := Poll.semi.inj (semi.symm.trans poll)
    exact ⟨placed, outstanding, attempt⟩
  | opened c' s' placed outstanding own established =>
    obtain rfl := Option.some.inj (own.symm.trans attempt)
    cases established.symm.trans poll
  | done c' s' placed outstanding own established =>
    obtain rfl := Option.some.inj (own.symm.trans attempt)
    cases established.symm.trans poll
  | failing c' state waits placed => cases silent.symm.trans placed.report
  | expiring c' placed => cases silent.symm.trans placed.report
  | timing c' s' placed => cases silent.symm.trans placed.report
  | reaping allocated outstanding state none_ => cases none_.symm.trans attempt

theorem Kept.own_fresh (kept : Kept w) (inside : r ∈ w.allocated) (attempt : w.attempt r = some s) (other : r' ≠ r)
    (inside' : r' ∈ w.allocated) : w.attempt r' ≠ some s :=
  fun same => other (kept.apart r' r s inside' inside same attempt)

theorem orderly_timer (orderly : Orderly w lists) (quiet : w.callback = none) (armed : w.timer r = .armed) :
    Orderly (w.connectTimerCb r) lists := by
  let w₁ : World A := { w with timer := Function.update w.timer r .idle }
  have silent := report_none quiet r
  have changed : r ∈ w.allocated → Around w w₁ r := by
    intro inside
    refine orderly.around inside ⟨rfl, rfl, rfl, rfl, rfl, rfl⟩ ?_ (fun s changed => absurd rfl changed)
      fun s r' c _ poll => poll
    intro r' other
    exact ⟨Iff.rfl, rfl, rfl, Function.update_of_ne other .., rfl, rfl, rfl, rfl⟩
  cases orderly.stages r with
  | absent gone => cases gone.timer.symm.trans armed
  | freed gone => cases gone.timer.symm.trans armed
  | done c s placed outstanding attempt poll timer => exact absurd armed timer
  | failing c state waits placed => cases silent.symm.trans placed.report
  | expiring c placed => cases silent.symm.trans placed.report
  | timing c s placed => cases silent.symm.trans placed.report
  | reaping allocated outstanding state attempt timer => cases timer.symm.trans armed
  | resolving c placed outstanding attempt =>
    have placed' : Placed w₁ r c .resolving .pending none (1, 0, 0) :=
      ⟨placed.allocated, placed.context, placed.live, placed.state, placed.handle, placed.report, placed.record⟩
    unfold World.connectTimerCb
    dsimp only
    rw [World.touch_mem (by exact placed.allocated), if_neg (by exact fun same => by cases placed.state.symm.trans same)]
    rw [emitConnectError_told (by exact placed.context) (by exact placed.live), decide_eq_true (by exact placed.state)]
    apply orderly_told orderly (changed placed.allocated) (placed.linked (by decide)) (by decide) placed' rfl _ _ quiet orderly.resolves
      orderly.calls
    · exact fun told => .expiring c told outstanding attempt
    · exact fun s c poll => absurd poll (orderly.no_semi attempt s c)
    · exact fun s some_ => absurd (attempt.symm.trans some_) (by simp)
  | connecting c s placed outstanding attempt poll =>
    have placed' : Placed w₁ r c .connecting .pending none (1, 0, 0) :=
      ⟨placed.allocated, placed.context, placed.live, placed.state, placed.handle, placed.report, placed.record⟩
    unfold World.connectTimerCb
    dsimp only
    rw [World.touch_mem (by exact placed.allocated), if_neg (by exact fun same => by cases placed.state.symm.trans same)]
    rw [emitConnectError_told (by exact placed.context) (by exact placed.live),
      decide_eq_false (by exact fun same => by cases placed.state.symm.trans same)]
    apply orderly_told orderly (changed placed.allocated) (placed.linked (by decide)) (by decide) placed' rfl _ _ quiet orderly.resolves
      orderly.calls
    · exact fun told => .timing c s told outstanding attempt poll
    · exact fun s c poll => (orderly.semi s r c poll).2
    · exact fun s' own r' other inside => orderly.own_fresh placed.allocated own other inside
  | opened c s placed outstanding attempt poll =>
    have record : ∀ r', ({ w₁ with log := w.log ++ [.timedOut r] } : World A).record r' = w.record r' := by
      intro r'
      simp [World.record, Event.creates, Event.ends, Event.frees]
    unfold World.connectTimerCb
    dsimp only
    rw [World.touch_mem (by exact placed.allocated), if_pos (by exact placed.state)]
    simp only [attempt]
    rw [World.touchSocket_taken (by exact fun free => by cases poll.symm.trans free),
      World.touchContextOf_established (by exact poll) (by exact placed.live)]
    refine orderly.stay (r := r) ?_ ?_ ?_ rfl orderly.resolves orderly.calls ?_ ?_
    · refine orderly.around placed.allocated ⟨rfl, rfl, rfl, rfl, rfl, rfl⟩ ?_ (fun s changed => absurd rfl changed)
        fun s r' c _ poll => poll
      intro r' other
      exact ⟨Iff.rfl, rfl, Function.update_of_ne other .., Function.update_of_ne other .., rfl, rfl, (report_none quiet r').symm,
        record r'⟩
    · refine .done c s ⟨placed.allocated, placed.context, placed.live, Function.update_self .., placed.handle, rfl,
        (record r).trans placed.record⟩ outstanding attempt poll ?_
      show Function.update w.timer r .idle r ≠ .armed
      rw [Function.update_self]
      decide
    · apply iff_of_true _ (placed.linked (by decide))
      refine ⟨placed.allocated, ?_⟩
      show Function.update w.state r .done r ≠ .cancelled
      rw [Function.update_self]
      decide
    · exact fun s' c' semi => absurd semi (orderly.open_own attempt poll s' c')
    · exact fun s' _ own r' other inside => orderly.own_fresh placed.allocated own other inside

theorem orderly_ready_error (orderly : Orderly w lists) (quiet : w.callback = none) (poll : w.poll s = .semi r c) {err : Int}
    (failed : err ≠ 0) (outcomes : List (Except Int Socket)) (fresh : ∀ s, .ok s ∈ outcomes → w.poll s = .free) :
    Orderly (w.connectReady s r c err outcomes) lists := by
  obtain ⟨placed, outstanding, attempt⟩ := orderly.semi_stage quiet poll
  let w₁ : World A := { w.closedAttempt r s with cursor := Function.update w.cursor r (w.cursor r).tail }
  have around : Around w w₁ r := by
    refine orderly.around placed.allocated ⟨rfl, rfl, rfl, rfl, rfl, rfl⟩ ?_ (closed_polls attempt) closed_semi
    intro r' other
    exact ⟨Iff.rfl, rfl, rfl, rfl, Function.update_of_ne other .., rfl, rfl, record_closed w r s r'⟩
  have bare : Bare w₁ r c :=
    ⟨⟨placed.allocated, placed.context, placed.live, placed.state, placed.handle, placed.report,
      (record_closed w r s r).trans placed.record⟩, outstanding, Function.update_self .., orderly.closed_own attempt, quiet,
      orderly.resolves, orderly.calls⟩
  unfold World.connectReady
  rw [World.touchSocket_taken (by rw [poll]; simp), World.touch_mem placed.allocated]
  dsimp only
  rw [if_pos failed, closeConnecting_semi poll placed.live]
  exact orderly_tryNext orderly around (placed.linked (by decide)) bare rfl err _ outcomes fresh

theorem orderly_ready_opened (orderly : Orderly w lists) (quiet : w.callback = none) (poll : w.poll s = .semi r c)
    (outcomes : List (Except Int Socket)) : Orderly (w.connectReady s r c 0 outcomes) lists := by
  obtain ⟨placed, outstanding, attempt⟩ := orderly.semi_stage quiet poll
  unfold World.connectReady
  rw [World.touchSocket_taken (by rw [poll]; simp), World.touch_mem placed.allocated]
  dsimp only
  rw [if_neg (fun absurd_ => absurd_ rfl), World.touchContext_mem (by exact placed.live)]
  unfold World.requestDropResults
  refine orderly.stay (r := r) ?_ ?_ ?_ rfl orderly.resolves orderly.calls ?_ ?_
  · refine orderly.around placed.allocated ⟨rfl, rfl, rfl, rfl, rfl, rfl⟩ ?_ ?_ ?_
    · intro r' other
      refine ⟨Iff.rfl, rfl, Function.update_of_ne other .., Function.update_of_ne other .., Function.update_of_ne other ..,
        Function.update_of_ne other .., (report_none quiet r').symm, ?_⟩
      simp [World.record, Event.creates, Event.ends, Event.frees, Ne.symm other]
    · intro s' changed
      by_cases same : s' = s
      · exact .inl (same ▸ attempt)
      · exact absurd (Function.update_of_ne same ..) changed
    · intro s' r' c' _ semi
      by_cases same : s' = s
      · subst same
        cases (Function.update_self ..).symm.trans semi
      · exact (Function.update_of_ne same ..).symm.trans semi
  · refine .opened c s ⟨placed.allocated, placed.context, placed.live, Function.update_self .., Function.update_self .., rfl, ?_⟩
      outstanding (Function.update_self ..) (Function.update_self ..)
    have before := placed.record
    simp only [World.record, Prod.mk.injEq] at before
    simp [World.record, before, Event.creates, Event.ends, Event.frees]
  · apply iff_of_true _ (placed.linked (by decide))
    refine ⟨placed.allocated, ?_⟩
    show Function.update w.state r .handshaking r ≠ .cancelled
    rw [Function.update_self]
    decide
  · intro s' c' semi
    by_cases same : s' = s
    · subst same
      cases (Function.update_self ..).symm.trans semi
    · have before := orderly.semi s' r c' ((Function.update_of_ne same ..).symm.trans semi)
      exact absurd (Option.some.inj (before.2.symm.trans attempt)) same
  · intro s' _ own r' other inside
    have here : Function.update w.attempt r (some s) r = some s' := own
    rw [Function.update_self] at here
    obtain rfl := Option.some.inj here
    exact orderly.own_fresh placed.allocated attempt other inside

def World.answered (w : World A) (r : Request) : World A :=
  { w with outstanding := w.outstanding.erase r, pendingResolves := w.pendingResolves - 1 }

namespace Orderly

theorem answered_around (orderly : Orderly w lists) (inside : r ∈ w.allocated) : Around w (w.answered r) r := by
  refine orderly.around inside ⟨rfl, rfl, rfl, rfl, rfl, rfl⟩ ?_ (fun s changed => absurd rfl changed)
    fun s r' c _ poll => poll
  intro r' other
  exact ⟨List.mem_erase_of_ne other, rfl, rfl, rfl, rfl, rfl, rfl, rfl⟩

theorem answered_resolves (orderly : Orderly w lists) (outstanding : r ∈ w.outstanding) :
    (w.answered r).pendingResolves = (w.answered r).outstanding.length := by
  show w.pendingResolves - 1 = (w.outstanding.erase r).length
  rw [List.length_erase_of_mem outstanding, orderly.resolves]

theorem reaped (orderly : Orderly w lists) (inside : r ∈ w.allocated) (outstanding : r ∈ w.outstanding)
    (state : w.state r = .cancelled) (attempt : w.attempt r = none) (timer : w.timer r = .closed) (handle : w.handle r = .none)
    (report : w.report r = none) (record : w.record r = (1, 1, 0)) : Orderly ((w.answered r).requestFree r) lists := by
  have around := orderly.answered_around inside
  unfold World.requestFree
  rw [World.touch_mem (by exact inside)]
  dsimp only
  have kept := orderly.released around orderly.calls.not_mem_erase timer handle report record
    (orderly.answered_resolves outstanding) (orderly.calls.erase r) (orderly.no_semi attempt)
  refine ⟨kept, orderly.places, orderly.family, ?_⟩
  intro c r'
  rw [orderly.listed]
  by_cases same : r' = r
  · subst same
    exact iff_of_false (fun both => both.1.2 state) (fun both => orderly.memory.not_mem_erase both.1.1)
  · rw [(around.freed same).linked, (around.freed same).context]

end Orderly

theorem orderly_resolved (orderly : Orderly w lists) (quiet : w.callback = none) (outstanding : r ∈ w.outstanding)
    (status : Except Int (List A)) (outcomes : List (Except Int Socket)) (fresh : ∀ s, .ok s ∈ outcomes → w.poll s = .free) :
    Orderly (w.connectGaiCb r status outcomes) lists := by
  have silent := report_none quiet r
  unfold World.connectGaiCb
  dsimp only
  cases orderly.stages r with
  | absent gone => exact absurd outstanding gone.outstanding
  | freed gone => exact absurd outstanding gone.outstanding
  | connecting c s placed absent => exact absurd outstanding absent
  | opened c s placed absent => exact absurd outstanding absent
  | done c s placed absent => exact absurd outstanding absent
  | failing c state waits placed absent => exact absurd outstanding absent
  | expiring c placed => cases silent.symm.trans placed.report
  | timing c s placed => cases silent.symm.trans placed.report
  | reaping inside _ state attempt timer handle report record =>
    rw [World.touch_mem (by exact inside)]
    have freed := orderly.reaped inside outstanding state attempt timer handle report record
    split
    · exact freed
    · rw [if_pos (by exact state)]
      exact freed
  | resolving c placed _ attempt =>
    rw [World.touch_mem (by exact placed.allocated)]
    have around := orderly.answered_around placed.allocated
    have linked := placed.linked (by decide)
    dsimp only
    rw [placed.context]
    dsimp only
    rw [if_neg (by exact fun same => by cases placed.state.symm.trans same)]
    have placed' : Placed (w.answered r) r c .resolving .pending none (1, 0, 0) :=
      ⟨placed.allocated, placed.context, placed.live, placed.state, placed.handle, placed.report, placed.record⟩
    cases status with
    | error code =>
      exact orderly_connectFail orderly around linked (by decide) placed' rfl orderly.calls.not_mem_erase attempt
        (orderly.no_semi attempt) quiet (orderly.answered_resolves outstanding) (orderly.calls.erase r) code
    | ok results =>
      dsimp only
      let w₁ : World A := { w.answered r with
        results := Function.update (w.answered r).results r results
        cursor := Function.update (w.answered r).cursor r results
        state := Function.update (w.answered r).state r .connecting
        log := (w.answered r).log ++ [.resolved r results] }
      have record : ∀ r', w₁.record r' = w.record r' := by
        intro r'
        simp [w₁, World.answered, World.record, Event.creates, Event.ends, Event.frees]
      have later : Around w w₁ r := by
        refine orderly.around placed.allocated ⟨rfl, rfl, rfl, rfl, rfl, rfl⟩ ?_ (fun s changed => absurd rfl changed)
          fun s r' c _ poll => poll
        intro r' other
        exact ⟨List.mem_erase_of_ne other, rfl, Function.update_of_ne other .., rfl, rfl, rfl, rfl, record r'⟩
      have bare : Bare w₁ r c :=
        ⟨⟨placed.allocated, placed.context, placed.live, Function.update_self .., placed.handle, placed.report,
          (record r).trans placed.record⟩, orderly.calls.not_mem_erase, attempt, orderly.no_semi attempt, quiet,
          orderly.answered_resolves outstanding, orderly.calls.erase r⟩
      exact orderly_tryNext orderly later linked bare rfl ECONNREFUSED results outcomes fresh

end Uws.Connect
