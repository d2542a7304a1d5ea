import Uws.Connect.AttemptLogs

/-! Runs in which addresses are walked over in order, and every attempt is closed or promoted once. -/

namespace Uws.Connect

variable {A : Type} {w w' : World A} {r r' : Request} {c : Context} {s : Socket} {lists : Context → List Request}

section Steps

theorem calm_timer (memory : w.allocated.Nodup) (r : Request) : Calm w (w.connectTimerCb r) := by
  have touched : Calm w ({ w with timer := Function.update w.timer r .idle }.touch r) :=
    .same (.refl _) (fun _ inside => inside) rfl rfl
  unfold World.connectTimerCb
  dsimp only
  split
  · split
    · exact .same (.refl _) (fun _ inside => inside) rfl rfl
    · next s own =>
      unfold World.touchContextOf
      refine .left (r := r) ?_ ?_ ?_ ?_
      · split <;> exact (Extends.refl _).snoc rfl
      · split <;> exact fun _ inside => inside
      · intro inside
        simp
      · intro r' other
        split <;> exact ⟨Function.update_of_ne other .., rfl⟩
  · exact touched.trans (calm_emitConnectError (by exact memory) r _ _)

theorem calm_ready_opened (s : Socket) (r : Request) (c : Context) (outcomes : List (Except Int Socket)) :
    Calm w (w.connectReady s r c 0 outcomes) := by
  refine .left (r := r) ?_ ?_ ?_ ?_
  · have log : (w.connectReady s r c 0 outcomes).log = w.log ++ [.promoted s, .opened r] := by
      simp [World.connectReady, World.touch, World.touchSocket, World.touchContext, World.requestDropResults]
    rw [log]
    exact ⟨_, rfl, by simp [Event.walks]⟩
  · intro r' inside
    simpa [World.connectReady, World.touch, World.touchSocket, World.touchContext, World.requestDropResults] using inside
  · intro inside
    simp [World.connectReady, World.touch, World.touchSocket, World.touchContext, World.requestDropResults]
  · intro r' other
    simp [World.connectReady, World.touch, World.touchSocket, World.touchContext, World.requestDropResults, other]

theorem orphan_memory (memory : w.allocated.Nodup) (r : Request) : (w.requestOrphan r).allocated.Nodup := by
  unfold World.requestOrphan
  dsimp only
  generalize told : (if ((w.touch r).requestCloseTimer r).handle r = .pending then ((w.touch r).requestCloseTimer r).note (.orphaned r)
    else (w.touch r).requestCloseTimer r) = v
  have allocated : v.allocated = w.allocated := by
    rw [← told]
    split <;> rfl
  split
  · simpa [allocated] using memory
  · split
    · simpa [World.requestFree, World.touch, World.requestDropResults, allocated] using memory.erase r
    · simpa [World.requestFree, World.touch, World.requestDropResults, allocated] using memory.erase r

theorem calm_orphanRequests (n : Nat) (first : Option Request) (memory : w.allocated.Nodup) :
    Calm w (World.orphanRequests n first w) := by
  induction n generalizing first w with
  | zero => exact .same (.refl _) (fun _ inside => inside) rfl rfl
  | succ n ih =>
    cases first with
    | none => exact .same (.refl _) (fun _ inside => inside) rfl rfl
    | some r => exact (calm_orphan memory r).trans (ih _ (orphan_memory memory r))

theorem calm_contextFree (memory : w.allocated.Nodup) (c : Context) : Calm w (w.contextFree c) := by
  have touched : Calm w (w.touchContext c) := .same (.refl _) (fun _ inside => inside) rfl rfl
  have freed := touched.trans (calm_orphanRequests (w.touchContext c).allocated.length ((w.touchContext c).headConnectRequests c) memory)
  exact freed.trans (.same (.refl _) (fun _ inside => inside) rfl rfl)

theorem linkRequest_fields (w : World A) (c : Context) (r : Request) :
    (w.linkRequest c r).allocated = w.allocated ∧ (w.linkRequest c r).state = w.state ∧ (w.linkRequest c r).cursor = w.cursor ∧
      (w.linkRequest c r).log = w.log ∧ (w.linkRequest c r).poll = w.poll := by
  unfold World.linkRequest
  dsimp only
  split <;> exact ⟨rfl, rfl, rfl, rfl, rfl⟩

theorem calm_rebind (r : Request) (s : Socket) (c : Context) : Calm w (w.requestRebind r s c) := by
  unfold World.requestRebind
  dsimp only
  obtain ⟨allocated, state, cursor, log, -⟩ := linkRequest_fields _ c r
  refine .same ?_ ?_ ?_ ?_
  · rw [log, World.unlinkRequest_log]
    exact .refl _
  · intro r' inside
    rw [allocated, World.unlinkRequest_allocated] at inside
    exact inside
  · rw [state, World.unlinkRequest_state]
    rfl
  · rw [cursor, World.unlinkRequest_cursor]
    rfl

theorem calm_returned (memory : w.allocated.Nodup) : Calm w w.returned := by
  unfold World.returned
  split
  · next r c after callback =>
    have touched : Calm w ({ w with callback := none }.touchContext c) := .same (.refl _) (fun _ inside => inside) rfl rfl
    exact touched.trans (calm_afterError (by exact memory) r after)
  · exact .same (.refl _) (fun _ inside => inside) rfl rfl
  · exact .same (.refl _) (fun _ inside => inside) rfl rfl
  · exact .same (.refl _) (fun _ inside => inside) rfl rfl

theorem calm_connect (orderly : Orderly w lists) (new : w.isCreated r = false) (live : c ∈ w.contexts)
    (timeout handshakeTimeout resolves : Bool) : Calm w (w.contextConnect r c timeout handshakeTimeout resolves) := by
  rw [contextConnect_created orderly live]
  have created : Calm w (w.created c r timeout handshakeTimeout) := by
    refine ⟨(Extends.refl _).snoc rfl, ?_, ?_⟩
    · intro r' inside connecting
      by_cases same : r' = r
      · subst same
        simp [World.created] at connecting
      · refine ⟨(List.mem_cons.mp inside).resolve_left same, ?_, Function.update_of_ne same ..⟩
        simpa [World.created, same] using connecting
    · intro r' inside resolving
      by_cases same : r' = r
      · exact .inr (same ▸ new)
      · refine .inl ⟨(List.mem_cons.mp inside).resolve_left same, ?_⟩
        simpa [World.created, same] using resolving
  split
  · exact created.trans (.same (.refl _) (fun _ inside => inside) rfl rfl)
  · refine (created.trans (.same ?_ ?_ ?_ ?_)).trans (calm_requestFree _ r)
    · simp only [World.note, World.unlinkRequest_log]
      exact (Extends.refl _).snoc rfl
    · intro r' inside
      simpa [World.note, World.requestCloseTimer] using inside
    · simp [World.note, World.requestCloseTimer]
    · simp [World.note, World.requestCloseTimer]

structure Walking (w : World A) (r : Request) (rest : List A) : Prop where
  others : ∀ r', r' ≠ r → Walked w r'
  created : w.isCreated r = true
  state : w.state r = .connecting
  cursor : w.cursor r = rest
  split : tries w.log r ++ rest = addresses w.log r

theorem Walked.congr (walked : Walked w r) (log : tries w'.log r = tries w.log r) (found : addresses w'.log r = addresses w.log r)
    (created : w'.isCreated r = w.isCreated r) (allocated : w'.allocated = w.allocated) (state : w'.state r = w.state r)
    (cursor : w'.cursor r = w.cursor r) : Walked w' r := by
  refine ⟨?_, ?_, ?_⟩
  · rw [log, found, created, allocated, state]
    exact walked.before
  · rw [log, found, allocated, state, cursor]
    exact walked.during
  · rw [log, found]
    exact walked.always

theorem Walking.tried {address : A} {rest : List A} (walking : Walking w r (address :: rest)) (cursor : List A) :
    let w' : World A := { w.note (.tried r address) with cursor := Function.update w.cursor r cursor }
    (cursor.tail = rest → ∀ r', Walked w' r') ∧ (cursor = rest → Walking w' r rest) := by
  intro w'
  have log : tries w'.log r = tries w.log r ++ [address] := by simp [w', World.note, tries]
  have found : addresses w'.log r = addresses w.log r := by simp [w', World.note, addresses]
  have created : ∀ r', w'.isCreated r' = w.isCreated r' := by
    intro r'
    simp [w', World.note, World.isCreated, Event.creates]
  have others : ∀ r', r' ≠ r → Walked w' r' := by
    intro r' other
    apply (walking.others r' other).congr _ _ (created r') rfl rfl (Function.update_of_ne other ..)
    · simp [w', World.note, tries, Ne.symm other]
    · simp [w', World.note, addresses]
  have split : tries w'.log r ++ rest = addresses w'.log r := by
    rw [log, found, ← walking.split, List.append_assoc]
    rfl
  refine ⟨?_, ?_⟩
  · intro behind r'
    by_cases same : r' = r
    · subst same
      refine ⟨?_, ?_, ⟨rest, split⟩⟩
      · intro early
        rcases early with new | ⟨-, resolving⟩
        · rw [created, walking.created] at new
          cases new
        · cases walking.state.symm.trans resolving
      · intro _ _
        have at_ : w'.cursor r' = cursor := Function.update_self ..
        rw [at_, behind]
        exact split
    · exact others r' same
  · exact fun next_ => ⟨others, (created r).trans walking.created, walking.state, (Function.update_self ..).trans next_, split⟩

theorem walked_tryNext {rest : List A} (walking : Walking w r rest) (memory : w.allocated.Nodup) (code : Int)
    (outcomes : List (Except Int Socket)) (r' : Request) : Walked (World.tryNext r w code rest outcomes) r' := by
  induction rest generalizing w code outcomes with
  | nil =>
    apply (calm_connectFail memory r code).walked
    by_cases same : r' = r
    · subst same
      refine ⟨?_, ?_, ⟨[], walking.split⟩⟩
      · intro early
        rcases early with new | ⟨-, resolving⟩
        · rw [walking.created] at new
          cases new
        · cases walking.state.symm.trans resolving
      · intro _ _
        rw [walking.cursor]
        exact walking.split
    · exact walking.others r' same
  | cons address rest ih =>
    have passed := (walking.tried rest).2 rfl
    cases outcomes with
    | nil => exact ih passed memory code []
    | cons outcome outcomes =>
      cases outcome with
      | error last => exact ih passed memory _ outcomes
      | ok s =>
        have stopped := (walking.tried (w.cursor r)).1 (by rw [walking.cursor]; rfl) r'
        rw [Function.update_eq_self] at stopped
        have started : Calm (w.note (.tried r address)) ((w.note (.tried r address)).startAttempt r s) := by
          unfold World.startAttempt
          split
          · exact .same (.refl _) (fun _ inside => inside) rfl rfl
          · exact .same ((Extends.refl _).snoc rfl) (fun _ inside => inside) rfl rfl
        exact started.walked stopped

end Steps

section Attempts

def OwnSemi (w : World A) (r : Request) : Prop := ∀ s, w.attempt r = some s → (w.poll s).isSemi = true

theorem OwnSemi.of_none (none_ : w.attempt r = none) : OwnSemi w r := by
  intro s own
  cases none_.symm.trans own

theorem Stage.own_or_open (stage : Stage w r) (inside : r ∈ w.allocated) :
    OwnSemi w r ∨ w.handle r = .opened ∧ w.report r = none ∧ (w.state r = .handshaking ∨ w.state r = .done ∧ w.timer r ≠ .armed) := by
  have semi : ∀ {s' : Socket} {c : Context}, w.attempt r = some s' → w.poll s' = .semi r c → OwnSemi w r := by
    intro s' c attempt poll s own
    obtain rfl := Option.some.inj (attempt.symm.trans own)
    rw [poll]
    rfl
  cases stage with
  | absent gone => exact absurd inside gone.allocated
  | freed gone => exact absurd inside gone.allocated
  | resolving c placed outstanding none_ => exact .inl (.of_none none_)
  | connecting c s' placed outstanding attempt poll => exact .inl (semi attempt poll)
  | opened c s' placed => exact .inr ⟨placed.handle, placed.report, .inl placed.state⟩
  | done c s' placed outstanding attempt poll timer => exact .inr ⟨placed.handle, placed.report, .inr ⟨placed.state, timer⟩⟩
  | failing c state waits placed outstanding none_ => exact .inl (.of_none none_)
  | expiring c placed outstanding none_ => exact .inl (.of_none none_)
  | timing c s' placed outstanding attempt poll => exact .inl (semi attempt poll)
  | reaping allocated outstanding state none_ => exact .inl (.of_none none_)

theorem even_closeConnecting (even : Even w.log w.poll) (semi : (w.poll s).isSemi = true) :
    Even (w.closeConnecting s).log (w.closeConnecting s).poll := by
  unfold World.closeConnecting
  dsimp only
  split
  · next closed =>
    have same : w.poll s = .closed := closed
    rw [same] at semi
    cases semi
  · unfold World.touchContextOf
    split <;> exact even.close semi

theorem even_closeAttempt (even : Even w.log w.poll) (own : OwnSemi w r) : Even (w.closeAttempt r).log (w.closeAttempt r).poll := by
  unfold World.closeAttempt
  split
  · next s attempt => exact even_closeConnecting even (own s attempt)
  · exact even

theorem even_afterError (even : Even w.log w.poll) (own : OwnSemi w r) (after : AfterError) :
    Even (w.afterError r after).log (w.afterError r after).poll := by
  cases after with
  | fail =>
    simp only [World.afterError, World.requestFree, World.touch, World.requestDropResults, World.requestCloseTimer,
      World.unlinkRequest_log, World.unlinkRequest_poll]
    exact even.snoc rfl
  | timer gaiPending =>
    have closed : Even (((w.touch r).requestCloseTimer r).closeAttempt r).log (((w.touch r).requestCloseTimer r).closeAttempt r).poll :=
      even_closeAttempt even own
    cases gaiPending with
    | true =>
      simp only [World.afterError, World.requestDropResults, World.unlinkRequest_log, World.unlinkRequest_poll, if_true]
      exact closed
    | false =>
      simp only [World.afterError, World.requestDropResults, World.requestFree, World.touch, World.unlinkRequest_log,
        World.unlinkRequest_poll, Bool.false_eq_true, if_false]
      exact closed.snoc rfl

theorem even_emitConnectError (even : Even w.log w.poll) (own : OwnSemi w r) (code : Int) (after : AfterError) :
    Even (w.emitConnectError r code after).log (w.emitConnectError r code after).poll := by
  unfold World.emitConnectError
  split
  · exact even_afterError even own after
  · exact even.snoc rfl

theorem even_connectFail (even : Even w.log w.poll) (none_ : w.attempt r = none) (code : Int) :
    Even (w.connectFail r code).log (w.connectFail r code).poll := by
  unfold World.connectFail
  rw [closeAttempt_none (by exact none_)]
  exact even_emitConnectError (w := w.touch r) even (.of_none none_) code .fail

theorem even_tryNext {rest : List A} (even : Even w.log w.poll) (none_ : w.attempt r = none) (code : Int)
    (outcomes : List (Except Int Socket)) (fresh : ∀ s, .ok s ∈ outcomes → (w.poll s).isSemi = false) :
    Even (World.tryNext r w code rest outcomes).log (World.tryNext r w code rest outcomes).poll := by
  induction rest generalizing w code outcomes with
  | nil => exact even_connectFail even none_ code
  | cons address rest ih =>
    have noted : Even (w.note (.tried r address)).log w.poll := even.snoc rfl
    let passed : World A := { w.note (.tried r address) with cursor := Function.update w.cursor r rest }
    cases outcomes with
    | nil => exact ih (w := passed) noted none_ code [] fun s absent => absurd absent List.not_mem_nil
    | cons outcome outcomes =>
      cases outcome with
      | error last => exact ih (w := passed) noted none_ _ outcomes fun s inside => fresh s (List.mem_cons_of_mem _ inside)
      | ok s =>
        show Even ((w.note (.tried r address)).startAttempt r s).log ((w.note (.tried r address)).startAttempt r s).poll
        unfold World.startAttempt
        split
        · exact noted
        · exact noted.attempt (fresh s List.mem_cons_self) r _

theorem even_cancel (even : Even w.log w.poll) (own : OwnSemi w r) : Even (w.requestCancel r).log (w.requestCancel r).poll := by
  have closed : Even (((w.touch r).requestCloseTimer r).closeAttempt r).log (((w.touch r).requestCloseTimer r).closeAttempt r).poll :=
    even_closeAttempt even own
  unfold World.requestCancel
  dsimp only
  split
  · simp only [World.unlinkRequest_log, World.unlinkRequest_poll]
    exact closed.snoc rfl
  · simp only [World.requestFree, World.touch, World.requestDropResults, World.unlinkRequest_log, World.unlinkRequest_poll]
    exact (closed.snoc rfl).snoc rfl

theorem even_release (even : Even w.log w.poll) (r : Request) : Even (w.requestRelease r).log (w.requestRelease r).poll := by
  simp only [World.requestRelease, World.requestFree, World.touch, World.requestDropResults, World.requestCloseTimer,
    World.unlinkRequest_log, World.unlinkRequest_poll]
  exact even.snoc rfl

theorem even_close (even : Even w.log w.poll) (established : ∀ s, w.attempt r = some s → (w.poll s).isSemi = false) :
    Even (w.closeOpened r).log (w.closeOpened r).poll := by
  unfold World.closeOpened
  split
  · exact even_release even r
  · next s own =>
    apply even_release
    have closed : Even w.log (Function.update w.poll s .closed) := by
      apply even.congr
      intro s'
      by_cases same : s' = s
      · subst same
        rw [Function.update_self, established s' own]
        rfl
      · rw [Function.update_of_ne same]
    unfold World.touchContextOf
    split <;> exact closed

theorem even_orphan (even : Even w.log w.poll) (own : w.state r = .connecting → OwnSemi w r) :
    Even (w.requestOrphan r).log (w.requestOrphan r).poll := by
  unfold World.requestOrphan
  dsimp only
  generalize told : (if ((w.touch r).requestCloseTimer r).handle r = .pending then ((w.touch r).requestCloseTimer r).note (.orphaned r)
    else (w.touch r).requestCloseTimer r) = v
  have fields : v.state = w.state ∧ v.attempt = w.attempt ∧ v.poll = w.poll ∧ Even v.log v.poll := by
    rw [← told]
    split
    · exact ⟨rfl, rfl, rfl, even.snoc rfl⟩
    · exact ⟨rfl, rfl, rfl, even⟩
  obtain ⟨state, attempt, poll, noted⟩ := fields
  split
  · exact noted
  · split
    · next connecting =>
      have mine : OwnSemi { v with handle := Function.update v.handle r .none } r := by
        intro s same
        rw [poll]
        exact own (by rw [← state]; exact connecting) s (by rw [← attempt]; exact same)
      have closed := even_closeAttempt (w := { v with handle := Function.update v.handle r .none }) noted mine
      exact closed.snoc rfl
    · exact noted.snoc rfl

end Attempts

section Runs

theorem Stage.allocated_of_handle (stage : Stage w r) (handle : w.handle r ≠ .none) : r ∈ w.allocated := by
  cases stage with
  | absent gone => exact absurd gone.handle handle
  | freed gone => exact absurd gone.handle handle
  | resolving c placed => exact placed.allocated
  | connecting c s placed => exact placed.allocated
  | opened c s placed => exact placed.allocated
  | done c s placed => exact placed.allocated
  | failing c state waits placed => exact placed.allocated
  | expiring c placed => exact placed.allocated
  | timing c s placed => exact placed.allocated
  | reaping allocated => exact allocated

theorem Stage.no_attempt (stage : Stage w r) (outstanding : r ∈ w.outstanding) : w.attempt r = none := by
  cases stage with
  | absent gone => exact absurd outstanding gone.outstanding
  | freed gone => exact absurd outstanding gone.outstanding
  | resolving c placed _ none_ => exact none_
  | connecting c s placed absent => exact absurd outstanding absent
  | opened c s placed absent => exact absurd outstanding absent
  | done c s placed absent => exact absurd outstanding absent
  | failing c state waits placed absent => exact absurd outstanding absent
  | expiring c placed _ none_ => exact none_
  | timing c s placed absent => exact absurd outstanding absent
  | reaping allocated _ state none_ => exact none_

theorem Stage.created (stage : Stage w r) (inside : r ∈ w.allocated) : w.isCreated r = true := by
  by_contra new
  exact (stage.new (Bool.eq_false_of_not_eq_true new)).1.allocated inside

/-- Addresses are walked over in order, and attempts are closed or promoted once. -/
structure Traced (w : World A) : Prop where
  walked : ∀ r, Walked w r
  even : Even w.log w.poll

theorem traced_resolved (orderly : Orderly w lists) (traced : Traced w) (outstanding : r ∈ w.outstanding)
    (status : Except Int (List A)) (outcomes : List (Except Int Socket)) (fresh : ∀ s, .ok s ∈ outcomes → w.poll s = .free) :
    Traced (w.connectGaiCb r status outcomes) := by
  have inside := ((orderly.stages r).outstanding outstanding).1
  have none_ := (orderly.stages r).no_attempt outstanding
  have answered : Calm w ((w.answered r).touch r) := .same (.refl _) (fun _ inside => inside) rfl rfl
  have freed : Traced (((w.answered r).touch r).requestFree r) :=
    ⟨fun r' => (answered.trans (calm_requestFree _ r)).walked (traced.walked r'), traced.even.snoc rfl⟩
  unfold World.connectGaiCb
  dsimp only
  split
  · exact freed
  · split
    · exact freed
    · next waits =>
      have resolving : w.state r = .resolving :=
        ((orderly.stages r).outstanding outstanding).2.resolve_right fun cancelled => waits cancelled
      split
      · next code =>
        exact ⟨fun r' => (answered.trans (calm_connectFail (by exact orderly.memory) r code)).walked (traced.walked r'),
          even_connectFail (w := (w.answered r).touch r) traced.even none_ code⟩
      · next results =>
        obtain ⟨noTries, noAddresses⟩ := (traced.walked r).before (.inr ⟨inside, resolving⟩)
        let w₁ : World A := { (w.answered r).touch r with
          results := Function.update w.results r results, cursor := Function.update w.cursor r results
          state := Function.update w.state r .connecting, log := w.log ++ [.resolved r results] }
        have walking : Walking w₁ r results := by
          refine ⟨?_, ?_, Function.update_self .., Function.update_self .., ?_⟩
          · intro r' other
            have log : tries w₁.log r' = tries w.log r' := by simp [w₁, tries]
            have found : addresses w₁.log r' = addresses w.log r' := by simp [w₁, addresses, Ne.symm other]
            have created : w₁.isCreated r' = w.isCreated r' := by simp [w₁, World.isCreated, Event.creates]
            exact (traced.walked r').congr log found created rfl (Function.update_of_ne other ..) (Function.update_of_ne other ..)
          · have before := (orderly.stages r).created inside
            unfold World.isCreated at before
            simp [w₁, World.isCreated, before]
          · have log : tries w₁.log r = tries w.log r := by simp [w₁, tries]
            have found : addresses w₁.log r = addresses w.log r ++ results := by simp [w₁, addresses]
            rw [log, found, noTries, noAddresses]
        have even : Even w₁.log w₁.poll := traced.even.snoc rfl
        refine ⟨walked_tryNext walking orderly.memory ECONNREFUSED outcomes, ?_⟩
        exact even_tryNext even none_ ECONNREFUSED outcomes fun s inside => by rw [show w₁.poll s = w.poll s from rfl, fresh s inside]; rfl

theorem traced_ready_error (orderly : Orderly w lists) (traced : Traced w) (quiet : w.callback = none) (poll : w.poll s = .semi r c)
    {err : Int} (failed : err ≠ 0) (outcomes : List (Except Int Socket)) (fresh : ∀ s, .ok s ∈ outcomes → w.poll s = .free) :
    Traced (w.connectReady s r c err outcomes) := by
  obtain ⟨placed, outstanding, attempt⟩ := orderly.semi_stage quiet poll
  unfold World.connectReady
  rw [World.touchSocket_taken (by rw [poll]; simp), World.touch_mem placed.allocated]
  dsimp only
  rw [if_pos failed, closeConnecting_semi poll placed.live]
  let w₁ : World A := { w.closedAttempt r s with cursor := Function.update w.cursor r (w.cursor r).tail }
  have tried : ∀ r', tries w₁.log r' = tries w.log r' := by
    intro r'
    simp [w₁, World.closedAttempt, tries]
  have found : ∀ r', addresses w₁.log r' = addresses w.log r' := by
    intro r'
    simp [w₁, World.closedAttempt, addresses]
  have created : ∀ r', w₁.isCreated r' = w.isCreated r' := by
    intro r'
    simp [w₁, World.closedAttempt, World.isCreated, Event.creates]
  have walking : Walking w₁ r (w.cursor r).tail := by
    refine ⟨?_, ?_, placed.state, Function.update_self .., ?_⟩
    · exact fun r' other => (traced.walked r').congr (tried r') (found r') (created r') rfl rfl (Function.update_of_ne other ..)
    · exact (created r).trans ((orderly.stages r).created placed.allocated)
    · rw [tried, found]
      exact (traced.walked r).during placed.allocated placed.state
  have even : Even w₁.log w₁.poll := traced.even.close (by rw [poll]; rfl)
  have free : ∀ s', .ok s' ∈ outcomes → (w₁.poll s').isSemi = false := by
    intro s' inside
    have before := fresh s' inside
    have other : s' ≠ s := by
      rintro rfl
      cases before.symm.trans poll
    have kept : w₁.poll s' = w.poll s' := Function.update_of_ne other ..
    rw [kept, before]
    rfl
  exact ⟨walked_tryNext walking orderly.memory err outcomes, even_tryNext even (Function.update_self ..) err outcomes free⟩

theorem traced_ready_opened (traced : Traced w) (poll : w.poll s = .semi r c) (outcomes : List (Except Int Socket)) :
    Traced (w.connectReady s r c 0 outcomes) := by
  refine ⟨fun r' => (calm_ready_opened s r c outcomes).walked (traced.walked r'), ?_⟩
  have log : (w.connectReady s r c 0 outcomes).log = w.log ++ [.promoted s] ++ [.opened r] := by
    simp [World.connectReady, World.touch, World.touchSocket, World.touchContext, World.requestDropResults]
  have polls : (w.connectReady s r c 0 outcomes).poll = Function.update w.poll s (.established c) := by
    simp [World.connectReady, World.touch, World.touchSocket, World.touchContext, World.requestDropResults]
  rw [log, polls]
  exact (traced.even.promote (by rw [poll]; rfl) c).snoc rfl

theorem traced_timer (orderly : Orderly w lists) (traced : Traced w) (armed : w.timer r = .armed) : Traced (w.connectTimerCb r) := by
  refine ⟨fun r' => (calm_timer orderly.memory r).walked (traced.walked r'), ?_⟩
  have inside : r ∈ w.allocated := by
    cases orderly.stages r with
    | absent gone => cases gone.timer.symm.trans armed
    | freed gone => cases gone.timer.symm.trans armed
    | resolving c placed => exact placed.allocated
    | connecting c s placed => exact placed.allocated
    | opened c s placed => exact placed.allocated
    | done c s placed => exact placed.allocated
    | failing c state waits placed => exact placed.allocated
    | expiring c placed => exact placed.allocated
    | timing c s placed => exact placed.allocated
    | reaping allocated => exact allocated
  unfold World.connectTimerCb
  dsimp only
  split
  · split
    · exact traced.even
    · unfold World.touchContextOf
      split <;> exact traced.even.snoc rfl
  · next early =>
    have own : OwnSemi w r := by
      rcases (orderly.stages r).own_or_open inside with own | ⟨-, -, handshaking | ⟨-, idle⟩⟩
      · exact own
      · exact absurd handshaking early
      · exact absurd armed idle
    exact even_emitConnectError (w := { w with timer := Function.update w.timer r .idle }.touch r) traced.even own _ _

theorem traced_cancel (orderly : Orderly w lists) (traced : Traced w) (handle : w.handle r = .pending) : Traced (w.requestCancel r) := by
  have inside := (orderly.stages r).allocated_of_handle (by rw [handle]; decide)
  refine ⟨fun r' => (calm_cancel orderly.memory r).walked (traced.walked r'), even_cancel traced.even ?_⟩
  rcases (orderly.stages r).own_or_open inside with own | opened
  · exact own
  · cases handle.symm.trans opened.1

theorem traced_close (orderly : Orderly w lists) (traced : Traced w) (handle : w.handle r = .opened) : Traced (w.closeOpened r) := by
  obtain ⟨c, s, state, waits, placed, outstanding, attempt, poll, -⟩ := stage_opened (orderly.stages r) handle
  refine ⟨fun r' => (calm_close orderly.memory r).walked (traced.walked r'), even_close traced.even ?_⟩
  intro s' own
  obtain rfl := Option.some.inj (attempt.symm.trans own)
  rw [poll]
  rfl

theorem traced_rebind (orderly : Orderly w lists) (traced : Traced w) (handle : w.handle r = .opened)
    (place : w.poll s = .free ∨ w.attempt r = some s) : Traced (w.requestRebind r s c) := by
  obtain ⟨c₀, s₀, state, waits, placed, outstanding, attempt, poll, -⟩ := stage_opened (orderly.stages r) handle
  refine ⟨fun r' => (calm_rebind r s c).walked (traced.walked r'), ?_⟩
  have unsemi : (w.poll s).isSemi = false := by
    rcases place with free | own
    · rw [free]
      rfl
    · obtain rfl := Option.some.inj (attempt.symm.trans own)
      rw [poll]
      rfl
  have moved : Even w.log (Function.update (Function.update w.poll s₀ .free) s (.established c)) := by
    apply traced.even.congr
    intro s'
    by_cases new : s' = s
    · subst new
      rw [Function.update_self, unsemi]
      rfl
    · rw [Function.update_of_ne new]
      by_cases old : s' = s₀
      · subst old
        rw [Function.update_self, poll]
        rfl
      · rw [Function.update_of_ne old]
  have log : (w.requestRebind r s c).log = w.log := by
    simp [World.requestRebind, World.touch, (linkRequest_fields _ c r).2.2.2.1]
  have polls : (w.requestRebind r s c).poll = Function.update (Function.update w.poll s₀ .free) s (.established c) := by
    simp [World.requestRebind, World.touch, (linkRequest_fields _ c r).2.2.2.2, attempt]
  rw [log, polls]
  exact moved

theorem traced_contextFree (orderly : Orderly w lists) (traced : Traced w) (live : c ∈ w.contexts) (quiet : w.reports c = false) :
    Traced (w.contextFree c) := by
  refine ⟨fun r' => (calm_contextFree orderly.memory c).walked (traced.walked r'), ?_⟩
  have keeps : ∀ v r rest, Orphaning w v c lists (r :: rest) → Even v.log v.poll →
      Even (v.requestOrphan r).log (v.requestOrphan r).poll := by
    intro v r rest orphaning even
    have inside := ((orphaning.left r).mp List.mem_cons_self).1.1
    apply even_orphan even
    intro connecting
    rcases (orphaning.kept.stages r).own_or_open inside with own | ⟨-, -, handshaking | ⟨done, -⟩⟩
    · exact own
    · cases handshaking.symm.trans connecting
    · cases done.symm.trans connecting
  have done := (orderly.orphaned (motive := fun v => Even v.log v.poll) quiet keeps traced.even).2
  unfold World.contextFree
  rw [World.touchContext_mem live]
  exact done

theorem traced_returned (orderly : Orderly w lists) (traced : Traced w) : Traced w.returned := by
  refine ⟨fun r' => (calm_returned orderly.memory).walked (traced.walked r'), ?_⟩
  unfold World.returned
  split
  · next r c after callback =>
    have report := report_of callback
    have own : OwnSemi w r := by
      by_cases inside : r ∈ w.allocated
      · rcases (orderly.stages r).own_or_open inside with own | opened
        · exact own
        · cases opened.2.1.symm.trans report
      · cases orderly.stages r with
        | absent gone => cases gone.report.symm.trans report
        | freed gone => cases gone.report.symm.trans report
        | resolving c placed => exact absurd placed.allocated inside
        | connecting c s placed => exact absurd placed.allocated inside
        | opened c s placed => exact absurd placed.allocated inside
        | done c s placed => exact absurd placed.allocated inside
        | failing c state waits placed => exact absurd placed.allocated inside
        | expiring c placed => exact absurd placed.allocated inside
        | timing c s placed => exact absurd placed.allocated inside
        | reaping allocated => exact absurd allocated inside
    exact even_afterError (w := { w with callback := none }.touchContext c) traced.even own after
  · exact traced.even
  · exact traced.even
  · exact traced.even

theorem traced_connect (orderly : Orderly w lists) (traced : Traced w) (new : w.isCreated r = false) (live : c ∈ w.contexts)
    (timeout handshakeTimeout resolves : Bool) : Traced (w.contextConnect r c timeout handshakeTimeout resolves) := by
  refine ⟨fun r' => (calm_connect orderly new live timeout handshakeTimeout resolves).walked (traced.walked r'), ?_⟩
  rw [contextConnect_created orderly live]
  have created : Even (w.created c r timeout handshakeTimeout).log (w.created c r timeout handshakeTimeout).poll :=
    traced.even.snoc rfl
  split
  · exact created
  · simp only [World.requestFree, World.touch, World.note, World.unlinkRequest_log, World.unlinkRequest_poll]
    exact (created.snoc rfl).snoc rfl

theorem traced_step (orderly : Orderly w lists) (traced : Traced w) (action : Action A) : Traced (w.step action) := by
  cases action with
  | resolved r status outcomes =>
    unfold World.step
    dsimp only
    split
    · next possible => exact traced_resolved orderly traced possible.2.1 status outcomes (fresh_mem possible.2.2)
    · exact traced
  | ready s err outcomes =>
    unfold World.step
    dsimp only
    cases poll : w.poll s with
    | free => exact traced
    | established c => exact traced
    | closed => exact traced
    | semi r c =>
      dsimp only
      split
      · next possible =>
        by_cases failed : err = 0
        · subst failed
          exact traced_ready_opened traced poll outcomes
        · exact traced_ready_error orderly traced (Option.isNone_iff_eq_none.mp possible.1) poll failed outcomes
            (fresh_mem possible.2)
      · exact traced
  | timer r =>
    unfold World.step
    dsimp only
    split
    · next possible => exact traced_timer orderly traced possible.2
    · exact traced
  | endIteration =>
    unfold World.step
    dsimp only
    split
    · have calm : Calm w w.freeClosedSockets := .same (.refl _) (fun _ inside => inside) rfl rfl
      refine ⟨fun r => calm.walked (traced.walked r), ?_⟩
      apply traced.even.congr
      intro s
      show (if w.poll s = .closed then Poll.free else w.poll s).isSemi = _
      split
      · next closed =>
        rw [closed]
        rfl
      · rfl
    · exact traced
  | createContext c =>
    unfold World.step
    dsimp only
    split
    · have calm : Calm w { w with contexts := c :: w.contexts } := .same (.refl _) (fun _ inside => inside) rfl rfl
      exact ⟨fun r => calm.walked (traced.walked r), traced.even⟩
    · exact traced
  | connect r c timeout handshakeTimeout resolves =>
    unfold World.step
    dsimp only
    split
    · next possible => exact traced_connect orderly traced possible.1 possible.2 timeout handshakeTimeout resolves
    · exact traced
  | cancel r =>
    unfold World.step
    dsimp only
    split
    · next pending => exact traced_cancel orderly traced pending
    · exact traced
  | rebind r s c =>
    unfold World.step
    dsimp only
    split
    · next possible => exact traced_rebind orderly traced possible.1 possible.2.2
    · exact traced
  | release r =>
    unfold World.step
    dsimp only
    split
    · exact ⟨fun r' => (calm_release orderly.memory r).walked (traced.walked r'), even_release traced.even r⟩
    · exact traced
  | close r =>
    unfold World.step
    dsimp only
    split
    · next opened => exact traced_close orderly traced opened
    · exact traced
  | freeContext c =>
    unfold World.step
    dsimp only
    split
    · next possible => exact traced_contextFree orderly traced possible.1 possible.2
    · exact traced
  | return_ => exact traced_returned orderly traced

theorem traced_start : Traced ({} : World A) :=
  ⟨fun _ => ⟨fun _ => ⟨rfl, rfl⟩, fun inside => absurd inside List.not_mem_nil, List.prefix_rfl⟩, fun _ => rfl⟩

theorem traced_run (actions : List (Action A)) : Traced (World.run {} actions : World A) := by
  have keeps : ∀ (w : World A) (lists : Context → List Request), Orderly w lists → Traced w → Traced (World.run w actions) := by
    induction actions with
    | nil => exact fun w lists orderly traced => traced
    | cons action actions ih =>
      intro w lists orderly traced
      obtain ⟨lists', stepped⟩ := orderly_step orderly action
      exact ih (w.step action) lists' stepped (traced_step orderly traced action)
  exact keeps {} _ orderly_start traced_start

/-- In every run, the addresses that are tried for a request are a front of what the resolver has found, in its order. -/
theorem addresses_in_order_run (actions : List (Action A)) (r : Request) :
    tries (World.run {} actions : World A).log r <+: addresses (World.run {} actions : World A).log r :=
  ((traced_run actions).walked r).always

/-- In every run, each attempt at a socket has been closed or promoted, and not both, up to one that is still connecting
    there; and that one is the attempt of a request that is in memory. -/
theorem attempts_settled_run (actions : List (Action A)) (s : Socket) :
    (World.run {} actions : World A).log.countP (Event.attempts s) =
      (World.run {} actions : World A).log.countP (Event.closes s) + (World.run {} actions : World A).log.countP (Event.promotes s) +
        ((World.run {} actions : World A).poll s).isSemi.toNat ∧
      ∀ r c, (World.run {} actions : World A).poll s = .semi r c →
        r ∈ (World.run {} actions : World A).allocated ∧ (World.run {} actions : World A).attempt r = some s := by
  obtain ⟨lists, orderly⟩ := orderly_run actions
  exact ⟨(traced_run actions).even s, orderly.semi s⟩

end Runs

end Uws.Connect
