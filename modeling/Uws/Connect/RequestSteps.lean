import Uws.Connect.RequestStages

/-! That every step keeps the stages of all requests. -/

namespace Uws.Connect

open Uws.LinkedList

variable {A : Type} {w w' : World A} {r r' : Request} {c c' : Context} {s : Socket} {lists : Context → List Request}

theorem Same.linked (same : Same w w' r) : Linked w' r ↔ Linked w r := by
  unfold Linked
  rw [same.allocated, same.state]

namespace Kept

theorem semi_around (kept : Kept w) (others : ∀ r', r' ≠ r → Same w w' r')
    (semi : ∀ s r' c, r' ≠ r → w'.poll s = .semi r' c → w.poll s = .semi r' c)
    (own : ∀ s c, w'.poll s = .semi r c → r ∈ w'.allocated ∧ w'.attempt r = some s) :
    ∀ s r' c, w'.poll s = .semi r' c → r' ∈ w'.allocated ∧ w'.attempt r' = some s := by
  intro s r' c poll
  by_cases same : r' = r
  · subst same
    exact own s c poll
  · obtain ⟨inside, attempt⟩ := kept.semi s r' c (semi s r' c same poll)
    exact ⟨(others r' same).allocated.mpr inside, (others r' same).attempt.trans attempt⟩

theorem apart_around (kept : Kept w) (others : ∀ r', r' ≠ r → Same w w' r')
    (own : ∀ s, r ∈ w'.allocated → w'.attempt r = some s → ∀ r', r' ≠ r → r' ∈ w.allocated → w.attempt r' ≠ some s) :
    ∀ r₁ r₂ s, r₁ ∈ w'.allocated → r₂ ∈ w'.allocated → w'.attempt r₁ = some s → w'.attempt r₂ = some s → r₁ = r₂ := by
  intro r₁ r₂ s first second left right
  by_cases same₁ : r₁ = r
  · by_cases same₂ : r₂ = r
    · exact same₁.trans same₂.symm
    · subst same₁
      have other := others r₂ same₂
      exact absurd (other.attempt.symm.trans right) (own s first left r₂ same₂ (other.allocated.mp second))
  · have other := others r₁ same₁
    by_cases same₂ : r₂ = r
    · subst same₂
      exact absurd (other.attempt.symm.trans left) (own s second right r₁ same₁ (other.allocated.mp first))
    · have other' := others r₂ same₂
      exact kept.apart r₁ r₂ s (other.allocated.mp first) (other'.allocated.mp second) (other.attempt.symm.trans left)
        (other'.attempt.symm.trans right)

theorem around (kept : Kept w) (mine : r ∈ w.allocated)
    (fixed : w'.fault = w.fault ∧ w'.allocated = w.allocated ∧ w'.contexts = w.contexts ∧ w'.next = w.next ∧ w'.prev = w.prev ∧
      w'.headConnectRequests = w.headConnectRequests)
    (fields : ∀ r', r' ≠ r → (r' ∈ w'.outstanding ↔ r' ∈ w.outstanding) ∧ w'.context r' = w.context r' ∧ w'.state r' = w.state r' ∧
      w'.timer r' = w.timer r' ∧ w'.attempt r' = w.attempt r' ∧ w'.handle r' = w.handle r' ∧ w'.report r' = w.report r' ∧
      w'.record r' = w.record r')
    (polls : ∀ s, w'.poll s ≠ w.poll s → w.attempt r = some s ∨ w.poll s = .free)
    (semi : ∀ s r' c, r' ≠ r → w'.poll s = .semi r' c → w.poll s = .semi r' c) : Around w w' r := by
  obtain ⟨fault, allocated, contexts, next, prev, head⟩ := fixed
  refine ⟨?_, fault, allocated, contexts, next, prev, head, semi⟩
  intro r' other
  obtain ⟨outstanding, context, state, timer, attempt, handle, report, record⟩ := fields r' other
  refine ⟨?_, outstanding, context, ?_, state, timer, attempt, ?_, handle, report, record⟩
  · rw [allocated]
  · rw [contexts]
    exact fun _ _ _ _ live => live
  · exact fun s attempt inside => kept.poll_kept mine polls other inside attempt

theorem turned (kept : Kept w) (others : ∀ r', r' ≠ r → Same w w' r') (fault : w'.fault = w.fault) (stage : Stage w' r)
    (resolves : w'.pendingResolves = w'.outstanding.length) (calls : w'.outstanding.Nodup) (memory : w'.allocated.Nodup)
    (semi : ∀ s r' c, r' ≠ r → w'.poll s = .semi r' c → w.poll s = .semi r' c)
    (own : ∀ s c, w'.poll s = .semi r c → r ∈ w'.allocated ∧ w'.attempt r = some s)
    (fresh : ∀ s, r ∈ w'.allocated → w'.attempt r = some s → ∀ r', r' ≠ r → r' ∈ w.allocated → w.attempt r' ≠ some s) :
    Kept w' := by
  refine ⟨fault.trans kept.safe, ?_, resolves, calls, memory, kept.semi_around others semi own, kept.apart_around others fresh⟩
  intro r'
  by_cases same : r' = r
  · exact same ▸ stage
  · exact (kept.stages r').same (others r' same)

end Kept

theorem Around.freed (around : Around w w' r) (other : r' ≠ r) :
    Same w { w' with allocated := w'.allocated.erase r, log := w'.log ++ [.freed r] } r' := by
  have same := around.others r' other
  refine ⟨(List.mem_erase_of_ne other).trans same.allocated, same.outstanding, same.context, same.live, same.state, same.timer,
    same.attempt, same.poll, same.handle, same.report, ?_⟩
  rw [← same.record]
  simp [World.record, Event.creates, Event.ends, Event.frees, Ne.symm other]

theorem Kept.released (kept : Kept w) (around : Around w w' r) (outstanding : r ∉ w'.outstanding) (timer : w'.timer r = .closed)
    (handle : w'.handle r = .none) (report : w'.report r = none) (record : w'.record r = (1, 1, 0))
    (resolves : w'.pendingResolves = w'.outstanding.length) (calls : w'.outstanding.Nodup) (own : ∀ s c, w'.poll s ≠ .semi r c) :
    Kept { w' with allocated := w'.allocated.erase r, log := w'.log ++ [.freed r] } := by
  have memory : w'.allocated.Nodup := by
    rw [around.allocated]
    exact kept.memory
  apply kept.turned (fun r' other => around.freed other) around.fault _ resolves calls (memory.erase r) around.semi
  · exact fun s c poll => absurd poll (own s c)
  · exact fun s inside => absurd inside memory.not_mem_erase
  · refine .freed ⟨memory.not_mem_erase, outstanding, timer, handle, report⟩ ?_
    simp only [World.record, Prod.mk.injEq] at record
    simp [World.record, record, Event.creates, Event.ends, Event.frees]

namespace Orderly

theorem stay (orderly : Orderly w lists) (around : Around w w' r) (stage : Stage w' r) (linked : Linked w' r ↔ Linked w r)
    (context : w'.context r = w.context r) (resolves : w'.pendingResolves = w'.outstanding.length)
    (calls : w'.outstanding.Nodup) (own : ∀ s c, w'.poll s = .semi r c → r ∈ w'.allocated ∧ w'.attempt r = some s)
    (fresh : ∀ s, r ∈ w'.allocated → w'.attempt r = some s → ∀ r', r' ≠ r → r' ∈ w.allocated → w.attempt r' ≠ some s) :
    Orderly w' lists := by
  have memory : w'.allocated.Nodup := by
    rw [around.allocated]
    exact orderly.memory
  refine ⟨orderly.turned around.others around.fault stage resolves calls memory around.semi own fresh, ?_, ?_, ?_⟩
  · rw [around.contexts]
    exact orderly.places
  · rw [around.next, around.prev, around.head]
    exact orderly.family
  · intro c r'
    rw [orderly.listed]
    by_cases same : r' = r
    · rw [same, linked, context]
    · rw [(around.others r' same).linked, (around.others r' same).context]

theorem threaded_around (orderly : Orderly w lists) (around : Around w w' r) : Threaded w' lists := by
  refine ⟨?_, ?_⟩
  · rw [around.next, around.prev, around.head]
    exact orderly.family
  · rw [around.allocated]
    exact orderly.threaded.inside

theorem leave (orderly : Orderly w lists) (around : Around w w' r) (linked : Linked w r) (context : w.context r = some c)
    (outstanding : r ∉ w'.outstanding) (timer : w'.timer r = .closed) (handle : w'.handle r = .none) (report : w'.report r = none)
    (record : w'.record r = (1, 1, 0)) (resolves : w'.pendingResolves = w'.outstanding.length) (calls : w'.outstanding.Nodup)
    (own : ∀ s c, w'.poll s ≠ .semi r c) :
    ∃ lists', Orderly { w'.cut c r with allocated := w'.allocated.erase r, log := w'.log ++ [.freed r] } lists' := by
  have listed := (orderly.listed c r).mpr ⟨linked, context⟩
  obtain ⟨lists', family, left⟩ := (orderly.threaded_around around).cut listed
  have kept := orderly.released around outstanding timer handle report record resolves calls own
  refine ⟨lists', ⟨kept.safe, ?_, resolves, calls, kept.memory, kept.semi, kept.apart⟩, ?_, family, ?_⟩
  · exact fun r' => (kept.stages r').same ⟨Iff.rfl, Iff.rfl, rfl, fun _ _ _ _ live => live, rfl, rfl, rfl, fun _ _ _ => rfl, rfl, rfl, rfl⟩
  · show w'.contexts.Nodup
    rw [around.contexts]
    exact orderly.places
  · intro c' r'
    rw [left, orderly.listed]
    by_cases same : r' = r
    · subst same
      have memory : w'.allocated.Nodup := by
        rw [around.allocated]
        exact orderly.memory
      apply iff_of_false
      · exact fun both => both.2 rfl
      · exact fun both => memory.not_mem_erase both.1.1
    · have freed := around.freed same
      exact (and_iff_left same).trans (and_congr freed.linked.symm (by rw [← freed.context]; exact Iff.rfl))

theorem reap (orderly : Orderly w lists) (around : Around w w' r) (linked : Linked w r) (context : w.context r = some c)
    (outstanding : r ∈ w'.outstanding) (attempt : w'.attempt r = none) (timer : w'.timer r = .closed) (handle : w'.handle r = .none)
    (report : w'.report r = none) (record : w'.record r = (1, 1, 0)) (resolves : w'.pendingResolves = w'.outstanding.length)
    (calls : w'.outstanding.Nodup) (own : ∀ s c, w'.poll s ≠ .semi r c) :
    ∃ lists', Orderly { w'.cut c r with state := Function.update w'.state r .cancelled } lists' := by
  have listed := (orderly.listed c r).mpr ⟨linked, context⟩
  obtain ⟨lists', family, left⟩ := (orderly.threaded_around around).cut listed
  have mine : r ∈ w'.allocated := by
    rw [around.allocated]
    exact linked.1
  have others : ∀ r', r' ≠ r → Same w { w'.cut c r with state := Function.update w'.state r .cancelled } r' := by
    intro r' other
    have same := around.others r' other
    exact ⟨same.allocated, same.outstanding, same.context, same.live, (Function.update_of_ne other ..).trans same.state, same.timer,
      same.attempt, same.poll, same.handle, same.report, same.record⟩
  refine ⟨lists', orderly.turned others around.fault ?_ resolves calls ?_ around.semi ?_ ?_, ?_, family, ?_⟩
  · exact .reaping mine outstanding (Function.update_self ..) attempt timer handle report record
  · show w'.allocated.Nodup
    rw [around.allocated]
    exact orderly.memory
  · exact fun s c poll => absurd poll (own s c)
  · exact fun s _ some_ => absurd (attempt.symm.trans some_) (by simp)
  · show w'.contexts.Nodup
    rw [around.contexts]
    exact orderly.places
  · intro c' r'
    rw [left, orderly.listed]
    by_cases same : r' = r
    · subst same
      apply iff_of_false
      · exact fun both => both.2 rfl
      · exact fun both => both.1.2 (Function.update_self ..)
    · rw [(others r' same).linked, (others r' same).context]
      exact and_iff_left same

theorem unlinked (orderly : Orderly w lists) (around : Around w w' r) (linked : Linked w r) (context : w.context r = some c)
    (context' : w'.context r = some c) (live : c ∈ w.contexts) : w'.unlinkRequest r = w'.cut c r := by
  have listed := (orderly.listed c r).mpr ⟨linked, context⟩
  apply Threaded.unlinkRequest _ listed context'
  · rw [around.contexts]
    exact live
  · exact orderly.threaded_around around

theorem unlinkedFree (orderly : Orderly w lists) (around : Around w w' r) (linked : Linked w r) (context : w.context r = some c)
    (context' : w'.context r = some c) (live : c ∈ w.contexts) :
    (w'.unlinkRequest r).requestFree r =
      { w'.cut c r with allocated := w'.allocated.erase r, log := w'.log ++ [.freed r] } := by
  rw [orderly.unlinked around linked context context' live]
  have mine : r ∈ (w'.cut c r).allocated := by
    show r ∈ w'.allocated
    rw [around.allocated]
    exact linked.1
  unfold World.requestFree
  rw [World.touch_mem mine]
  rfl

end Orderly

section Steps

theorem Placed.linked {state : ConnectState} {handle : Handle} {report : Option (Context × AfterError)} {record : Nat × Nat × Nat}
    (placed : Placed w r c state handle report record) (waits : state ≠ .cancelled) : Linked w r :=
  ⟨placed.allocated, placed.state ▸ waits⟩

theorem Kept.no_semi (kept : Kept w) (attempt : w.attempt r = none) (s : Socket) (c : Context) :
    w.poll s ≠ .semi r c := by
  intro poll
  cases attempt.symm.trans (kept.semi s r c poll).2

def World.closedAttempt (w : World A) (r : Request) (s : Socket) : World A :=
  { w with
    poll := Function.update w.poll s .closed
    attempt := Function.update w.attempt r none
    log := w.log ++ [.closed s] }

theorem closeAttempt_none (none_ : w.attempt r = none) : w.closeAttempt r = w := by
  unfold World.closeAttempt
  rw [none_]

theorem closeConnecting_semi (poll : w.poll s = .semi r c) (live : c ∈ w.contexts) :
    w.closeConnecting s = { w with poll := Function.update w.poll s .closed, log := w.log ++ [.closed s] } := by
  unfold World.closeConnecting
  rw [World.touchSocket_taken (by rw [poll]; simp)]
  dsimp only
  rw [poll]
  dsimp only
  rw [World.touchContextOf_semi poll live]

theorem closeAttempt_semi (attempt : w.attempt r = some s) (poll : w.poll s = .semi r c) (live : c ∈ w.contexts) :
    w.closeAttempt r = w.closedAttempt r s := by
  unfold World.closeAttempt
  rw [attempt]
  dsimp only
  rw [closeConnecting_semi poll live]
  rfl

theorem closed_polls (attempt : w.attempt r = some s) :
    ∀ s', (w.closedAttempt r s).poll s' ≠ w.poll s' → w.attempt r = some s' ∨ w.poll s' = .free := by
  intro s' changed
  by_cases same : s' = s
  · exact .inl (same ▸ attempt)
  · exact absurd (Function.update_of_ne same ..) changed

theorem closed_semi : ∀ s' r' c, r' ≠ r → (w.closedAttempt r s).poll s' = .semi r' c → w.poll s' = .semi r' c := by
  intro s' r' c _ poll
  by_cases same : s' = s
  · subst same
    cases (Function.update_self ..).symm.trans poll
  · exact (Function.update_of_ne same ..).symm.trans poll

theorem Kept.closed_own (kept : Kept w) (attempt : w.attempt r = some s) :
    ∀ s' c, (w.closedAttempt r s).poll s' ≠ .semi r c := by
  intro s' c poll
  by_cases same : s' = s
  · subst same
    cases (Function.update_self ..).symm.trans poll
  · have before := kept.semi s' r c ((Function.update_of_ne same ..).symm.trans poll)
    exact same (Option.some.inj (before.2.symm.trans attempt))

theorem record_closed (w : World A) (r : Request) (s : Socket) (r' : Request) : (w.closedAttempt r s).record r' = w.record r' := by
  simp [World.record, World.closedAttempt, Event.creates, Event.ends, Event.frees]

theorem report_of {after : AfterError} (callback : w.callback = some (.connectError r c after)) : w.report r = some (c, after) := by
  unfold World.report
  rw [callback]
  exact if_pos rfl

theorem report_other {after : AfterError} (callback : w.callback = some (.connectError r c after)) (other : r' ≠ r) : w.report r' = none := by
  unfold World.report
  rw [callback]
  exact if_neg (Ne.symm other)

theorem orderly_reported {after : AfterError} (orderly : Orderly w lists) (callback : w.callback = some (.connectError r c after)) :
    ∃ lists', Orderly (({ w with callback := none }.touchContext c).afterError r after) lists' := by
  have report := report_of callback
  have none_ : ∀ r', r' ≠ r → w.report r' = none := fun r' other => report_other callback other
  cases orderly.stages r with
  | absent gone => cases gone.report.symm.trans report
  | freed gone => cases gone.report.symm.trans report
  | resolving c' placed => cases placed.report.symm.trans report
  | connecting c' s placed => cases placed.report.symm.trans report
  | opened c' s placed => cases placed.report.symm.trans report
  | done c' s placed => cases placed.report.symm.trans report
  | reaping _ _ _ _ _ _ quiet => cases quiet.symm.trans report
  | failing c' state waits placed outstanding attempt =>
    obtain ⟨rfl, rfl⟩ := Prod.mk.inj (Option.some.inj (report.symm.trans placed.report))
    have around : Around w (({ w with callback := none }.requestCloseTimer r).requestDropResults r) r := by
      refine orderly.around placed.allocated ⟨rfl, rfl, rfl, rfl, rfl, rfl⟩ ?_ (fun s changed => absurd rfl changed)
        fun s r' c _ poll => poll
      intro r' other
      exact ⟨Iff.rfl, rfl, rfl, Function.update_of_ne other .., rfl, rfl, (none_ r' other).symm, rfl⟩
    have linked := placed.linked waits
    unfold World.afterError
    dsimp only
    rw [World.touchContext_mem (by exact placed.live), World.touch_mem (by exact placed.allocated),
      orderly.unlinkedFree around linked placed.context placed.context placed.live]
    exact orderly.leave around linked placed.context outstanding (Function.update_self ..) placed.handle rfl placed.record
      orderly.resolves orderly.calls (orderly.no_semi attempt)
  | expiring c' placed outstanding attempt =>
    obtain ⟨rfl, rfl⟩ := Prod.mk.inj (Option.some.inj (report.symm.trans placed.report))
    have around : Around w (({ w with callback := none }.requestCloseTimer r).requestDropResults r) r := by
      refine orderly.around placed.allocated ⟨rfl, rfl, rfl, rfl, rfl, rfl⟩ ?_ (fun s changed => absurd rfl changed)
        fun s r' c _ poll => poll
      intro r' other
      exact ⟨Iff.rfl, rfl, rfl, Function.update_of_ne other .., rfl, rfl, (none_ r' other).symm, rfl⟩
    have linked := placed.linked (by decide)
    unfold World.afterError
    dsimp only
    rw [World.touchContext_mem (by exact placed.live), World.touch_mem (by exact placed.allocated), closeAttempt_none (by exact attempt),
      orderly.unlinked around linked placed.context placed.context placed.live, if_pos rfl]
    exact orderly.reap around linked placed.context outstanding attempt (Function.update_self ..) placed.handle rfl placed.record
      orderly.resolves orderly.calls (orderly.no_semi attempt)
  | timing c' s placed outstanding attempt poll =>
    obtain ⟨rfl, rfl⟩ := Prod.mk.inj (Option.some.inj (report.symm.trans placed.report))
    have around : Around w ((({ w with callback := none }.requestCloseTimer r).closedAttempt r s).requestDropResults r) r := by
      refine orderly.around placed.allocated ⟨rfl, rfl, rfl, rfl, rfl, rfl⟩ ?_ (closed_polls attempt) closed_semi
      intro r' other
      exact ⟨Iff.rfl, rfl, rfl, Function.update_of_ne other .., Function.update_of_ne other .., rfl, (none_ r' other).symm,
        record_closed _ r s r'⟩
    have linked := placed.linked (by decide)
    unfold World.afterError
    dsimp only
    rw [World.touchContext_mem (by exact placed.live), World.touch_mem (by exact placed.allocated),
      closeAttempt_semi (by exact attempt) (by exact poll) (by exact placed.live), if_neg Bool.false_ne_true,
      orderly.unlinkedFree around linked placed.context placed.context placed.live]
    exact orderly.leave around linked placed.context outstanding (Function.update_self ..) placed.handle rfl
      ((record_closed _ r s r).trans placed.record) orderly.resolves orderly.calls (orderly.closed_own attempt)

theorem report_none (quiet : w.callback = none) (r : Request) : w.report r = none := by
  unfold World.report
  rw [quiet]

theorem Kept.open_own (kept : Kept w) (attempt : w.attempt r = some s) (poll : w.poll s = .established c)
    (s' : Socket) (c' : Context) : w.poll s' ≠ .semi r c' := by
  intro semi
  obtain rfl := Option.some.inj (attempt.symm.trans (kept.semi s' r c' semi).2)
  cases poll.symm.trans semi

theorem stage_opened (stage : Stage w r) (handle : w.handle r = .opened) :
    ∃ c s state, state ≠ .cancelled ∧ Placed w r c state .opened none (1, 1, 0) ∧ r ∉ w.outstanding ∧ w.attempt r = some s ∧
      w.poll s = .established c ∧ (state = .handshaking ∨ state = .done ∧ w.timer r ≠ .armed) := by
  cases stage with
  | absent gone => cases gone.handle.symm.trans handle
  | freed gone => cases gone.handle.symm.trans handle
  | resolving c placed => cases placed.handle.symm.trans handle
  | connecting c s placed => cases placed.handle.symm.trans handle
  | opened c s placed outstanding attempt poll => exact ⟨c, s, .handshaking, by decide, placed, outstanding, attempt, poll, .inl rfl⟩
  | done c s placed outstanding attempt poll timer =>
    exact ⟨c, s, .done, by decide, placed, outstanding, attempt, poll, .inr ⟨rfl, timer⟩⟩
  | failing c state waits placed => cases placed.handle.symm.trans handle
  | expiring c placed => cases placed.handle.symm.trans handle
  | timing c s placed => cases placed.handle.symm.trans handle
  | reaping _ _ _ _ _ none_ => cases none_.symm.trans handle

theorem orderly_release (orderly : Orderly w lists) (handle : w.handle r = .opened) :
    ∃ lists', Orderly (w.requestRelease r) lists' := by
  obtain ⟨c, s, state, waits, placed, outstanding, attempt, poll, -⟩ := stage_opened (orderly.stages r) handle
  have linked := placed.linked waits
  let w₁ : World A := { w with state := Function.update w.state r .done, handle := Function.update w.handle r .none }
  have around : Around w ((w₁.requestCloseTimer r).requestDropResults r) r := by
    refine orderly.around placed.allocated ⟨rfl, rfl, rfl, rfl, rfl, rfl⟩ ?_ (fun s changed => absurd rfl changed)
      fun s r' c _ poll => poll
    intro r' other
    exact ⟨Iff.rfl, rfl, Function.update_of_ne other .., Function.update_of_ne other .., rfl, Function.update_of_ne other .., rfl, rfl⟩
  unfold World.requestRelease
  rw [World.touch_mem placed.allocated]
  show ∃ lists', Orderly ((((w₁.requestCloseTimer r).requestDropResults r).unlinkRequest r).requestFree r) lists'
  rw [orderly.unlinkedFree around linked placed.context placed.context placed.live]
  exact orderly.leave around linked placed.context outstanding (Function.update_self ..) (Function.update_self ..) placed.report
    placed.record orderly.resolves orderly.calls (orderly.open_own attempt poll)

theorem orderly_close (orderly : Orderly w lists) (handle : w.handle r = .opened) : ∃ lists', Orderly (w.closeOpened r) lists' := by
  obtain ⟨c, s, state, waits, placed, outstanding, attempt, poll, -⟩ := stage_opened (orderly.stages r) handle
  have linked := placed.linked waits
  let w₁ : World A := { w with
    poll := Function.update w.poll s .closed, state := Function.update w.state r .done
    handle := Function.update w.handle r .none }
  have around : Around w ((w₁.requestCloseTimer r).requestDropResults r) r := by
    refine orderly.around placed.allocated ⟨rfl, rfl, rfl, rfl, rfl, rfl⟩ ?_ (closed_polls attempt) closed_semi
    intro r' other
    exact ⟨Iff.rfl, rfl, Function.update_of_ne other .., Function.update_of_ne other .., rfl, Function.update_of_ne other .., rfl, rfl⟩
  unfold World.closeOpened
  rw [attempt]
  dsimp only
  unfold World.requestRelease
  rw [World.touchSocket_taken (by rw [poll]; simp), World.touchContextOf_established poll placed.live,
    World.touch_mem (by exact placed.allocated)]
  show ∃ lists', Orderly ((((w₁.requestCloseTimer r).requestDropResults r).unlinkRequest r).requestFree r) lists'
  rw [orderly.unlinkedFree around linked placed.context placed.context placed.live]
  exact orderly.leave around linked placed.context outstanding (Function.update_self ..) (Function.update_self ..) placed.report
    placed.record orderly.resolves orderly.calls (orderly.closed_own attempt)

theorem orderly_cancel (orderly : Orderly w lists) (handle : w.handle r = .pending) :
    ∃ lists', Orderly (w.requestCancel r) lists' := by
  cases orderly.stages r with
  | absent gone => cases gone.handle.symm.trans handle
  | freed gone => cases gone.handle.symm.trans handle
  | opened c s placed => cases placed.handle.symm.trans handle
  | done c s placed => cases placed.handle.symm.trans handle
  | failing c state waits placed => cases placed.handle.symm.trans handle
  | expiring c placed => cases placed.handle.symm.trans handle
  | timing c s placed => cases placed.handle.symm.trans handle
  | reaping _ _ _ _ _ none_ => cases none_.symm.trans handle
  | resolving c placed outstanding attempt =>
    have linked := placed.linked (by decide)
    let w₁ : World A := { w.requestCloseTimer r with
      handle := Function.update w.handle r .none, log := w.log ++ [.cancelled r] }
    let w₂ : World A := { w₁ with state := Function.update w.state r .cancelled }
    have record : w₁.record r = (1, 1, 0) := by
      have before := placed.record
      simp only [World.record, Prod.mk.injEq] at before
      simp [w₁, World.record, before, Event.creates, Event.ends, Event.frees]
    have others : ∀ r', r' ≠ r → w₁.record r' = w.record r' := by
      intro r' other
      simp [w₁, World.record, Event.creates, Event.ends, Event.frees, Ne.symm other]
    have around : Around w w₁ r := by
      refine orderly.around placed.allocated ⟨rfl, rfl, rfl, rfl, rfl, rfl⟩ ?_ (fun s changed => absurd rfl changed)
        fun s r' c _ poll => poll
      intro r' other
      exact ⟨Iff.rfl, rfl, rfl, Function.update_of_ne other .., rfl, Function.update_of_ne other .., rfl, others r' other⟩
    have around' : Around w w₂ r := by
      refine orderly.around placed.allocated ⟨rfl, rfl, rfl, rfl, rfl, rfl⟩ ?_ (fun s changed => absurd rfl changed)
        fun s r' c _ poll => poll
      intro r' other
      exact ⟨Iff.rfl, rfl, Function.update_of_ne other .., Function.update_of_ne other .., rfl, Function.update_of_ne other .., rfl,
        others r' other⟩
    unfold World.requestCancel
    rw [World.touch_mem placed.allocated, closeAttempt_none (by exact attempt)]
    dsimp only
    rw [if_pos (decide_eq_true (by exact placed.state))]
    show ∃ lists', Orderly (w₂.unlinkRequest r) lists'
    rw [orderly.unlinked around' linked placed.context placed.context placed.live]
    exact orderly.reap around linked placed.context outstanding attempt (Function.update_self ..) (Function.update_self ..)
      placed.report record orderly.resolves orderly.calls (orderly.no_semi attempt)
  | connecting c s placed outstanding attempt poll =>
    have linked := placed.linked (by decide)
    let w₁ : World A := { (w.requestCloseTimer r).closedAttempt r s with
      state := Function.update w.state r .cancelled, handle := Function.update w.handle r .none
      log := w.log ++ [.closed s] ++ [.cancelled r] }
    have record : w₁.record r = (1, 1, 0) := by
      have before := placed.record
      simp only [World.record, Prod.mk.injEq] at before
      simp [w₁, World.record, before, Event.creates, Event.ends, Event.frees]
    have around : Around w (w₁.requestDropResults r) r := by
      refine orderly.around placed.allocated ⟨rfl, rfl, rfl, rfl, rfl, rfl⟩ ?_ (closed_polls attempt) closed_semi
      intro r' other
      refine ⟨Iff.rfl, rfl, Function.update_of_ne other .., Function.update_of_ne other .., Function.update_of_ne other ..,
        Function.update_of_ne other .., rfl, ?_⟩
      simp [w₁, World.requestDropResults, World.record, Event.creates, Event.ends, Event.frees, Ne.symm other]
    unfold World.requestCancel
    rw [World.touch_mem placed.allocated, closeAttempt_semi (by exact attempt) (by exact poll) (by exact placed.live)]
    dsimp only
    rw [if_neg (by exact fun same => by cases placed.state.symm.trans (of_decide_eq_true same))]
    show ∃ lists', Orderly (((w₁.requestDropResults r).unlinkRequest r).requestFree r) lists'
    rw [orderly.unlinkedFree around linked placed.context placed.context placed.live]
    exact orderly.leave around linked placed.context outstanding (Function.update_self ..) (Function.update_self ..) placed.report
      record orderly.resolves orderly.calls (orderly.closed_own attempt)

theorem Same.trans {w'' : World A} (same : Same w w' r) (later : Same w' w'' r) : Same w w'' r := by
  refine ⟨later.allocated.trans same.allocated, later.outstanding.trans same.outstanding, later.context.trans same.context, ?_,
    later.state.trans same.state, later.timer.trans same.timer, later.attempt.trans same.attempt, ?_, later.handle.trans same.handle,
    later.report.trans same.report, later.record.trans same.record⟩
  · intro c context inside waits live
    exact later.live c (same.context.trans context) (same.allocated.mpr inside) (same.state ▸ waits)
      (same.live c context inside waits live)
  · exact fun s attempt inside => (later.poll s (same.attempt.trans attempt) (same.allocated.mpr inside)).trans (same.poll s attempt inside)

theorem Around.trans {w'' : World A} (around : Around w w' r) (later : Around w' w'' r) : Around w w'' r :=
  ⟨fun r' other => (around.others r' other).trans (later.others r' other), later.fault.trans around.fault,
    later.allocated.trans around.allocated, later.contexts.trans around.contexts, later.next.trans around.next,
    later.prev.trans around.prev, later.head.trans around.head,
    fun s r' c other poll => around.semi s r' c other (later.semi s r' c other poll)⟩

structure Bare (w : World A) (r : Request) (c : Context) : Prop where
  placed : Placed w r c .connecting .pending none (1, 0, 0)
  outstanding : r ∉ w.outstanding
  attempt : w.attempt r = none
  own : ∀ s c, w.poll s ≠ .semi r c
  quiet : w.callback = none
  resolves : w.pendingResolves = w.outstanding.length
  calls : w.outstanding.Nodup

theorem Bare.pass (bare : Bare w r c) (address : A) (rest : List A) :
    Bare { w.note (.tried r address) with cursor := Function.update w.cursor r rest } r c ∧
      Around w { w.note (.tried r address) with cursor := Function.update w.cursor r rest } r := by
  have record : ∀ r', (w.note (.tried r address)).record r' = w.record r' := by
    intro r'
    simp [World.note, World.record, Event.creates, Event.ends, Event.frees]
  obtain ⟨⟨allocated, context, live, state, handle, report, created⟩, outstanding, attempt, own, quiet, resolves, calls⟩ := bare
  refine ⟨⟨⟨allocated, context, live, state, handle, report, (record r).trans created⟩, outstanding, attempt, own, quiet, resolves,
    calls⟩, ?_, rfl, rfl, rfl, rfl, rfl, rfl, fun _ _ _ _ poll => poll⟩
  intro r' other
  exact ⟨Iff.rfl, Iff.rfl, rfl, fun _ _ _ _ live => live, rfl, rfl, rfl, fun _ _ _ => rfl, rfl, rfl, record r'⟩

def World.told (w : World A) (r : Request) (c : Context) (code : Int) (after : AfterError) : World A :=
  { w with
    callback := some (.connectError r c after)
    handle := Function.update w.handle r .none
    log := w.log ++ [.connectError r code] }

theorem emitConnectError_told (context : w.context r = some c) (live : c ∈ w.contexts) (code : Int) (after : AfterError) :
    w.emitConnectError r code after = w.told r c code after := by
  unfold World.emitConnectError
  rw [context]
  dsimp only
  rw [World.touchContext_mem live]
  rfl

theorem orderly_told (orderly : Orderly w lists) (around : Around w w' r) (linked : Linked w r) {state : ConnectState}
    (waits : state ≠ .cancelled) (placed : Placed w' r c state .pending none (1, 0, 0)) (same : w'.context r = w.context r)
    (own : ∀ s c, w'.poll s = .semi r c → w'.attempt r = some s)
    (fresh : ∀ s, w'.attempt r = some s → ∀ r', r' ≠ r → r' ∈ w.allocated → w.attempt r' ≠ some s) (quiet : w'.callback = none)
    (resolves : w'.pendingResolves = w'.outstanding.length) (calls : w'.outstanding.Nodup) (code : Int) (after : AfterError)
    (stage : Placed (w'.told r c code after) r c state .none (some (c, after)) (1, 1, 0) → Stage (w'.told r c code after) r) :
    Orderly (w'.told r c code after) lists := by
  have record : (w'.told r c code after).record r = (1, 1, 0) := by
    have before := placed.record
    simp only [World.record, Prod.mk.injEq] at before
    simp [World.told, World.record, before, Event.creates, Event.ends, Event.frees]
  have later : Around w' (w'.told r c code after) r := by
    refine ⟨?_, rfl, rfl, rfl, rfl, rfl, rfl, fun _ _ _ _ poll => poll⟩
    intro r' other
    refine ⟨Iff.rfl, Iff.rfl, rfl, fun _ _ _ _ live => live, rfl, rfl, rfl, fun _ _ _ => rfl, Function.update_of_ne other .., ?_, ?_⟩
    · rw [report_none quiet]
      exact report_other rfl other
    · simp [World.told, World.record, Event.creates, Event.ends, Event.frees, Ne.symm other]
  apply orderly.stay (around.trans later) _ _ same resolves calls
  · exact fun s c poll => ⟨placed.allocated, own s c poll⟩
  · exact fun s _ attempt => fresh s attempt
  · exact stage ⟨placed.allocated, placed.context, placed.live, placed.state, Function.update_self .., report_of rfl, record⟩
  · exact iff_of_true ⟨placed.allocated, placed.state ▸ waits⟩ linked

theorem orderly_connectFail (orderly : Orderly w lists) (around : Around w w' r) (linked : Linked w r) {state : ConnectState}
    (waits : state ≠ .cancelled) (placed : Placed w' r c state .pending none (1, 0, 0)) (same : w'.context r = w.context r)
    (outstanding : r ∉ w'.outstanding) (attempt : w'.attempt r = none) (own : ∀ s c, w'.poll s ≠ .semi r c)
    (quiet : w'.callback = none) (resolves : w'.pendingResolves = w'.outstanding.length) (calls : w'.outstanding.Nodup) (code : Int) :
    Orderly (w'.connectFail r code) lists := by
  unfold World.connectFail
  rw [World.touch_mem placed.allocated, closeAttempt_none attempt, emitConnectError_told placed.context placed.live]
  apply orderly_told orderly around linked waits placed same _ _ quiet resolves calls
  · exact fun told => .failing c state waits told outstanding attempt
  · exact fun s c poll => absurd poll (own s c)
  · exact fun s some_ => absurd (attempt.symm.trans some_) (by simp)

theorem orderly_startAttempt (orderly : Orderly w lists) (around : Around w w' r) (linked : Linked w r) (bare : Bare w' r c)
    (same : w'.context r = w.context r) (free : w.poll s = .free) : Orderly (w'.startAttempt r s) lists := by
  have placed := bare.placed
  have started : w'.startAttempt r s = { w' with
      poll := Function.update w'.poll s (.semi r c), attempt := Function.update w'.attempt r (some s)
      log := w'.log ++ [.attempted s] } := by
    unfold World.startAttempt
    rw [placed.context]
    dsimp only
    rw [World.touchContext_mem placed.live]
  have record : ∀ r', (w'.startAttempt r s).record r' = w'.record r' := by
    intro r'
    rw [started]
    simp [World.record, Event.creates, Event.ends, Event.frees]
  rw [started] at record ⊢
  -- nobody else has a socket there
  have others : ∀ r', r' ≠ r → r' ∈ w.allocated → w.attempt r' ≠ some s :=
    fun r' _ inside attempt => (orderly.stages r').taken inside attempt free
  have later : Around w' { w' with
      poll := Function.update w'.poll s (.semi r c), attempt := Function.update w'.attempt r (some s)
      log := w'.log ++ [.attempted s] } r := by
    refine ⟨?_, rfl, rfl, rfl, rfl, rfl, rfl, ?_⟩
    · intro r' other
      refine ⟨Iff.rfl, Iff.rfl, rfl, fun _ _ _ _ live => live, rfl, rfl, Function.update_of_ne other .., ?_, rfl, rfl, record r'⟩
      intro s' attempt inside
      have before := around.others r' other
      apply Function.update_of_ne
      rintro rfl
      exact others r' other (before.allocated.mp inside) (before.attempt.symm.trans attempt)
    · intro s' r' c' other poll
      by_cases here : s' = s
      · subst here
        have mine := (Function.update_self ..).symm.trans poll
        exact absurd (Poll.semi.inj mine).1.symm other
      · exact (Function.update_of_ne here ..).symm.trans poll
  apply orderly.stay (around.trans later) _ _ same bare.resolves bare.calls
  · intro s' c' poll
    by_cases here : s' = s
    · subst here
      exact ⟨placed.allocated, Function.update_self ..⟩
    · exact absurd ((Function.update_of_ne here ..).symm.trans poll) (bare.own s' c')
  · intro s' _ attempt
    have own : Function.update w'.attempt r (some s) r = some s' := attempt
    rw [Function.update_self] at own
    obtain rfl := Option.some.inj own
    exact others
  · refine .connecting c s ⟨placed.allocated, placed.context, placed.live, placed.state, placed.handle, placed.report,
      (record r).trans placed.record⟩ bare.outstanding (Function.update_self ..) (Function.update_self ..)
  · exact iff_of_true ⟨placed.allocated, by rw [placed.state]; decide⟩ linked

theorem orderly_tryNext (orderly : Orderly w lists) (around : Around w w' r) (linked : Linked w r) (bare : Bare w' r c)
    (same : w'.context r = w.context r) (code : Int) (rest : List A) (outcomes : List (Except Int Socket))
    (fresh : ∀ s, .ok s ∈ outcomes → w.poll s = .free) : Orderly (World.tryNext r w' code rest outcomes) lists := by
  induction rest generalizing w' code outcomes with
  | nil =>
    exact orderly_connectFail orderly around linked (by decide) bare.placed same bare.outstanding bare.attempt bare.own bare.quiet
      bare.resolves bare.calls code
  | cons address rest ih =>
    obtain ⟨passed, later⟩ := bare.pass address rest
    cases outcomes with
    | nil => exact ih (around.trans later) passed same code [] fun s absent => absurd absent List.not_mem_nil
    | cons outcome outcomes =>
      cases outcome with
      | error last =>
        exact ih (around.trans later) passed same _ outcomes fun s inside => fresh s (List.mem_cons_of_mem _ inside)
      | ok s =>
        obtain ⟨tried, noted⟩ := bare.pass address (w'.cursor r)
        rw [Function.update_eq_self] at tried noted
        exact orderly_startAttempt orderly (around.trans noted) linked tried same (fresh s List.mem_cons_self)

end Steps

end Uws.Connect
