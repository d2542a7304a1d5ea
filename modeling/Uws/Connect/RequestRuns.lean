import Uws.Connect.RequestContexts

/-! Runs of the connect requests: what the loop delivers and what the owner calls, in any order. -/

namespace Uws.Connect

open Uws.LinkedList

variable {A : Type} {w w' v : World A} {r r' : Request} {c c' : Context} {s : Socket} {lists : Context → List Request}

section ContextFree

theorem report_callback {after : AfterError} (report : w.report r = some (c, after)) :
    w.callback = some (.connectError r c after) := by
  unfold World.report at report
  split at report
  · next r' c' after' callback =>
    split at report
    · next same =>
      obtain ⟨rfl, rfl⟩ := Prod.mk.inj (Option.some.inj report)
      rw [callback, same]
    · cases report
  · cases report

theorem reports_of {after : AfterError} (report : w.report r = some (c, after)) : w.reports c = true := by
  unfold World.reports
  rw [report_callback report]
  exact decide_eq_true rfl

structure Orphans (w w' : World A) (r : Request) : Prop where
  kept : Kept w'
  out : ¬ Linked w' r
  others : ∀ r', r' ≠ r → Same w w' r'
  contexts : w'.contexts = w.contexts
  next : w'.next = w.next
  prev : w'.prev = w.prev
  head : w'.headConnectRequests = w.headConnectRequests
  callback : w'.callback = w.callback

theorem Kept.orphan_free (kept : Kept w) (around : Around w w' r) (outstanding : r ∉ w'.outstanding) (timer : w'.timer r = .closed)
    (handle : w'.handle r = .none) (report : w'.report r = none) (record : w'.record r = (1, 1, 0))
    (resolves : w'.pendingResolves = w'.outstanding.length) (calls : w'.outstanding.Nodup) (own : ∀ s c, w'.poll s ≠ .semi r c)
    (inside : r ∈ w.allocated) (callback : w'.callback = w.callback) : Orphans w (w'.requestFree r) r := by
  have inside' : r ∈ w'.allocated := by
    rw [around.allocated]
    exact inside
  unfold World.requestFree
  rw [World.touch_mem inside']
  refine ⟨kept.released around outstanding timer handle report record resolves calls own, ?_, fun r' other => around.freed other,
    around.contexts, around.next, around.prev, around.head, callback⟩
  intro linked
  have memory : w'.allocated.Nodup := by
    rw [around.allocated]
    exact kept.memory
  exact memory.not_mem_erase linked.1

theorem Kept.orphan_opened {state : ConnectState} (kept : Kept w)
    (placed : Placed w r c state .opened none (1, 1, 0)) (resolving : state ≠ .resolving) (connecting : state ≠ .connecting)
    (outstanding : r ∉ w.outstanding) (attempt : w.attempt r = some s) (poll : w.poll s = .established c') :
    Orphans w (w.requestOrphan r) r := by
  unfold World.requestOrphan
  rw [World.touch_mem placed.allocated]
  dsimp only
  have unheld : (w.requestCloseTimer r).handle r ≠ .pending := fun same => by cases placed.handle.symm.trans same
  rw [if_neg unheld, if_neg (by exact fun same => resolving (placed.state.symm.trans same)),
    if_neg (by exact fun same => connecting (placed.state.symm.trans same))]
  let w₁ : World A := { (w.requestCloseTimer r).requestDropResults r with
    handle := Function.update w.handle r .none, context := Function.update w.context r none }
  have around : Around w w₁ r := by
    refine kept.around placed.allocated ⟨rfl, rfl, rfl, rfl, rfl, rfl⟩ ?_ (fun s changed => absurd rfl changed)
      fun s r' c _ poll => poll
    intro r' other
    exact ⟨Iff.rfl, Function.update_of_ne other .., rfl, Function.update_of_ne other .., rfl, Function.update_of_ne other .., rfl, rfl⟩
  show Orphans w (w₁.requestFree r) r
  exact kept.orphan_free around outstanding (Function.update_self ..) (Function.update_self ..) placed.report placed.record
    kept.resolves kept.calls (kept.open_own attempt poll) placed.allocated rfl

theorem Kept.orphan (kept : Kept w) (linked : Linked w r) (context : w.context r = some c) (quiet : w.reports c = false) :
    Orphans w (w.requestOrphan r) r := by
  have told : ∀ {c' : Context} {state : ConnectState} {after : AfterError}, Placed w r c' state .none (some (c', after)) (1, 1, 0) →
      False := by
    intro c' state after placed
    obtain rfl := Option.some.inj (placed.context.symm.trans context)
    cases quiet.symm.trans (reports_of placed.report)
  cases kept.stages r with
  | absent gone => exact absurd linked.1 gone.allocated
  | freed gone => exact absurd linked.1 gone.allocated
  | failing c' state waits placed => exact (told placed).elim
  | expiring c' placed => exact (told placed).elim
  | timing c' s placed => exact (told placed).elim
  | reaping allocated outstanding state => exact absurd state linked.2
  | opened c' s placed outstanding attempt poll =>
    exact kept.orphan_opened placed (by decide) (by decide) outstanding attempt poll
  | done c' s placed outstanding attempt poll =>
    exact kept.orphan_opened placed (by decide) (by decide) outstanding attempt poll
  | resolving c' placed outstanding attempt =>
    unfold World.requestOrphan
    rw [World.touch_mem placed.allocated]
    dsimp only
    have pending : (w.requestCloseTimer r).handle r = .pending := placed.handle
    rw [if_pos pending, if_pos (by exact placed.state)]
    let w₁ : World A := { (w.requestCloseTimer r).note (.orphaned r) with
      handle := Function.update w.handle r .none, state := Function.update w.state r .cancelled
      context := Function.update w.context r none }
    show Orphans w w₁ r
    have record : w₁.record r = (1, 1, 0) := by
      have before := placed.record
      simp only [World.record, Prod.mk.injEq] at before
      simp [w₁, World.note, World.requestCloseTimer, World.record, before, Event.creates, Event.ends, Event.frees]
    have around : Around w w₁ r := by
      refine kept.around placed.allocated ⟨rfl, rfl, rfl, rfl, rfl, rfl⟩ ?_ (fun s changed => absurd rfl changed)
        fun s r' c _ poll => poll
      intro r' other
      refine ⟨Iff.rfl, Function.update_of_ne other .., Function.update_of_ne other .., Function.update_of_ne other .., rfl,
        Function.update_of_ne other .., rfl, ?_⟩
      simp [w₁, World.note, World.requestCloseTimer, World.record, Event.creates, Event.ends, Event.frees, Ne.symm other]
    have stage : Stage w₁ r := .reaping placed.allocated outstanding (Function.update_self ..) attempt (Function.update_self ..)
      (Function.update_self ..) placed.report record
    refine ⟨kept.turned around.others rfl stage kept.resolves kept.calls kept.memory around.semi ?_ ?_, ?_, around.others, rfl, rfl, rfl,
      rfl, rfl⟩
    · exact fun s c poll => absurd poll (kept.no_semi attempt s c)
    · exact fun s _ some_ => absurd (attempt.symm.trans some_) (by simp)
    · exact fun linked => linked.2 (Function.update_self ..)
  | connecting c' s placed outstanding attempt poll =>
    unfold World.requestOrphan
    rw [World.touch_mem placed.allocated]
    dsimp only
    have pending : (w.requestCloseTimer r).handle r = .pending := placed.handle
    rw [if_pos pending, if_neg (by exact fun same => by cases placed.state.symm.trans same),
      if_pos (by exact placed.state), closeAttempt_semi (by exact attempt) (by exact poll) (by exact placed.live)]
    let w₁ : World A := { ((w.requestCloseTimer r).closedAttempt r s).requestDropResults r with
      handle := Function.update w.handle r .none, context := Function.update w.context r none
      log := w.log ++ [.orphaned r] ++ [.closed s] }
    show Orphans w (w₁.requestFree r) r
    have record : w₁.record r = (1, 1, 0) := by
      have before := placed.record
      simp only [World.record, Prod.mk.injEq] at before
      simp [w₁, World.record, before, Event.creates, Event.ends, Event.frees]
    have around : Around w w₁ r := by
      refine kept.around placed.allocated ⟨rfl, rfl, rfl, rfl, rfl, rfl⟩ ?_ (closed_polls attempt) closed_semi
      intro r' other
      refine ⟨Iff.rfl, Function.update_of_ne other .., rfl, Function.update_of_ne other .., Function.update_of_ne other ..,
        Function.update_of_ne other .., rfl, ?_⟩
      simp [w₁, World.record, Event.creates, Event.ends, Event.frees, Ne.symm other]
    exact kept.orphan_free around outstanding (Function.update_self ..) (Function.update_self ..) placed.report record kept.resolves
      kept.calls (kept.closed_own attempt) placed.allocated rfl

structure Orphaning (w v : World A) (c : Context) (lists : Context → List Request) (rest : List Request) : Prop where
  kept : Kept v
  contexts : v.contexts = w.contexts
  next : v.next = w.next
  prev : v.prev = w.prev
  head : v.headConnectRequests = w.headConnectRequests
  callback : v.callback = w.callback
  listed : ∀ c' r, c' ≠ c → (r ∈ lists c' ↔ Linked v r ∧ v.context r = some c')
  left : ∀ r, r ∈ rest ↔ Linked v r ∧ v.context r = some c

theorem Orphaning.step {rest : List Request} (orphaning : Orphaning w v c lists (r :: rest)) (once : r ∉ rest)
    (quiet : w.reports c = false) : Orphaning w (v.requestOrphan r) c lists rest := by
  obtain ⟨linked, context⟩ := (orphaning.left r).mp List.mem_cons_self
  have silent : v.reports c = false := by
    unfold World.reports at quiet ⊢
    rw [orphaning.callback]
    exact quiet
  have orphans := orphaning.kept.orphan linked context silent
  refine ⟨orphans.kept, orphans.contexts.trans orphaning.contexts, orphans.next.trans orphaning.next,
    orphans.prev.trans orphaning.prev, orphans.head.trans orphaning.head, orphans.callback.trans orphaning.callback, ?_, ?_⟩
  · intro c' r' other
    rw [orphaning.listed c' r' other]
    by_cases same : r' = r
    · subst same
      apply iff_of_false
      · exact fun both => other (Option.some.inj (both.2.symm.trans context))
      · exact fun both => orphans.out both.1
    · rw [(orphans.others r' same).linked, (orphans.others r' same).context]
  · intro r'
    by_cases same : r' = r
    · subst same
      exact iff_of_false once (fun both => orphans.out both.1)
    · rw [(orphans.others r' same).linked, (orphans.others r' same).context, ← orphaning.left r', List.mem_cons]
      exact (or_iff_right same).symm

theorem Orphaning.loop {motive : World A → Prop} {rest : List Request} {first : Option Request} {n : Nat}
    (orphaning : Orphaning w v c lists rest) (nodup : rest.Nodup) (leads : Leads v.next first rest) (fuel : rest.length ≤ n)
    (quiet : w.reports c = false)
    (keeps : ∀ v r rest, Orphaning w v c lists (r :: rest) → motive v → motive (v.requestOrphan r)) (start : motive v) :
    Orphaning w (World.orphanRequests n first v) c lists [] ∧ motive (World.orphanRequests n first v) := by
  induction rest generalizing v first n with
  | nil =>
    obtain rfl : first = none := leads
    cases n with
    | zero => exact ⟨orphaning, start⟩
    | succ n => exact ⟨orphaning, start⟩
  | cons r rest ih =>
    obtain ⟨rfl, leads⟩ := leads
    obtain ⟨once, nodup⟩ := List.nodup_cons.mp nodup
    cases n with
    | zero => exact absurd fuel (Nat.not_succ_le_zero _)
    | succ n =>
      have stepped := orphaning.step once quiet
      show Orphaning w (World.orphanRequests n (v.next r) (v.requestOrphan r)) c lists [] ∧ _
      refine ih stepped nodup ?_ (Nat.le_of_succ_le_succ fuel) (keeps v r rest orphaning start)
      rw [stepped.next, ← orphaning.next]
      exact leads

theorem Orderly.orphaned {motive : World A → Prop} (orderly : Orderly w lists) (quiet : w.reports c = false)
    (keeps : ∀ v r rest, Orphaning w v c lists (r :: rest) → motive v → motive (v.requestOrphan r)) (start : motive w) :
    Orphaning w (World.orphanRequests w.allocated.length (w.headConnectRequests c) w) c lists [] ∧
      motive (World.orphanRequests w.allocated.length (w.headConnectRequests c) w) := by
  have doubly := orderly.family.doubly c True.intro
  have first : Orphaning w w c lists (lists c) :=
    ⟨orderly.toKept, rfl, rfl, rfl, rfl, rfl, fun c' r _ => orderly.listed c' r, orderly.listed c⟩
  have fuel : (lists c).length ≤ w.allocated.length :=
    (doubly.nodup.subperm fun r listed => orderly.threaded.inside c r listed).length_le
  exact first.loop doubly.nodup doubly.toLinked.leads fuel quiet keeps start

theorem orderly_contextFree (orderly : Orderly w lists) (live : c ∈ w.contexts) (quiet : w.reports c = false) :
    Orderly (w.contextFree c) (Function.update lists c []) := by
  have done := (orderly.orphaned (motive := fun _ => True) quiet (fun _ _ _ _ _ => True.intro) True.intro).1
  unfold World.contextFree
  rw [World.touchContext_mem live]
  dsimp only
  generalize World.orphanRequests w.allocated.length (w.headConnectRequests c) w = v at done ⊢
  have kept := done.kept
  refine ⟨⟨kept.safe, ?_, kept.resolves, kept.calls, kept.memory, kept.semi, kept.apart⟩, ?_, ?_, ?_⟩
  · intro r
    refine (kept.stages r).same ⟨Iff.rfl, Iff.rfl, rfl, ?_, rfl, rfl, rfl, fun _ _ _ => rfl, rfl, rfl, rfl⟩
    intro c' context inside waits live'
    have other : c' ≠ c := by
      rintro rfl
      exact absurd ((done.left r).mpr ⟨⟨inside, waits⟩, context⟩) List.not_mem_nil
    exact (List.mem_erase_of_ne other).mpr live'
  · show (v.contexts.erase c).Nodup
    rw [done.contexts]
    exact orderly.places.erase c
  · show Family v.next v.prev _ (Function.update v.headConnectRequests c none) _
    rw [done.next, done.prev, done.head]
    exact orderly.family.clear c
  · intro c' r
    by_cases same : c' = c
    · subst same
      rw [Function.update_self]
      exact done.left r
    · rw [Function.update_of_ne same]
      exact done.listed c' r same

end ContextFree

section Steps

theorem Orderly.alike (orderly : Orderly w lists) (same : ∀ r, Same w w' r)
    (fixed : w'.fault = w.fault ∧ w'.allocated = w.allocated ∧ w'.outstanding = w.outstanding ∧
      w'.pendingResolves = w.pendingResolves ∧ w'.next = w.next ∧ w'.prev = w.prev ∧
      w'.headConnectRequests = w.headConnectRequests) (places : w'.contexts.Nodup)
    (semi : ∀ s r c, w'.poll s = .semi r c → w.poll s = .semi r c) : Orderly w' lists := by
  obtain ⟨fault, allocated, outstanding, resolves, next, prev, head⟩ := fixed
  refine ⟨⟨fault.trans orderly.safe, fun r => (orderly.stages r).same (same r), ?_, ?_, ?_, ?_, ?_⟩, places, ?_, ?_⟩
  · rw [resolves, outstanding]
    exact orderly.resolves
  · rw [outstanding]
    exact orderly.calls
  · rw [allocated]
    exact orderly.memory
  · intro s r c poll
    rw [allocated, (same r).attempt]
    exact orderly.semi s r c (semi s r c poll)
  · intro r r' s
    rw [allocated, (same r).attempt, (same r').attempt]
    exact orderly.apart r r' s
  · rw [next, prev, head]
    exact orderly.family
  · intro c r
    rw [orderly.listed, (same r).linked, (same r).context]

theorem orderly_endIteration (orderly : Orderly w lists) : Orderly w.freeClosedSockets lists := by
  refine orderly.alike ?_ ⟨rfl, rfl, rfl, rfl, rfl, rfl, rfl⟩ orderly.places ?_
  · intro r
    refine ⟨Iff.rfl, Iff.rfl, rfl, fun _ _ _ _ live => live, rfl, rfl, rfl, ?_, rfl, rfl, rfl⟩
    intro s attempt inside
    obtain ⟨c, semi | established⟩ := (orderly.stages r).held inside attempt
    · exact if_neg fun closed => by cases semi.symm.trans closed
    · exact if_neg fun closed => by cases established.symm.trans closed
  · intro s r c poll
    have kept : (if w.poll s = .closed then Poll.free else w.poll s) = .semi r c := poll
    split at kept
    · cases kept
    · exact kept

theorem orderly_createContext (orderly : Orderly w lists) (new : c ∉ w.contexts) :
    Orderly { w with contexts := c :: w.contexts } lists := by
  refine orderly.alike ?_ ⟨rfl, rfl, rfl, rfl, rfl, rfl, rfl⟩ (List.nodup_cons.mpr ⟨new, orderly.places⟩) fun s r c poll => poll
  intro r
  exact ⟨Iff.rfl, Iff.rfl, rfl, fun _ _ _ _ live => List.mem_cons_of_mem _ live, rfl, rfl, rfl, fun _ _ _ => rfl, rfl, rfl, rfl⟩

theorem orderly_returned (orderly : Orderly w lists) : ∃ lists', Orderly w.returned lists' := by
  -- a callback that reports nothing
  have quiet : (∀ r, w.report r = none) → Orderly { w with callback := none } lists := by
    intro none_
    refine orderly.alike ?_ ⟨rfl, rfl, rfl, rfl, rfl, rfl, rfl⟩ orderly.places fun s r c poll => poll
    intro r
    exact ⟨Iff.rfl, Iff.rfl, rfl, fun _ _ _ _ live => live, rfl, rfl, rfl, fun _ _ _ => rfl, rfl, (none_ r).symm, rfl⟩
  unfold World.returned
  cases callback : w.callback with
  | none => exact ⟨lists, orderly⟩
  | some running =>
    cases running with
    | connectError r c after => exact orderly_reported orderly callback
    | opened => exact ⟨lists, quiet fun r => by rw [World.report, callback]⟩
    | timedOut => exact ⟨lists, quiet fun r => by rw [World.report, callback]⟩

theorem fresh_mem {outcomes : List (Except Int Socket)} (fresh : w.fresh outcomes = true) (s : Socket) (inside : .ok s ∈ outcomes) :
    w.poll s = .free := by
  unfold World.fresh at fresh
  rw [List.all_eq_true] at fresh
  exact of_decide_eq_true (fresh (.ok s) inside)

theorem orderly_step (orderly : Orderly w lists) (action : Action A) : ∃ lists', Orderly (w.step action) lists' := by
  cases action with
  | resolved r status outcomes =>
    unfold World.step
    dsimp only
    split
    · next possible =>
      obtain ⟨quiet, outstanding, fresh⟩ := possible
      exact ⟨lists, orderly_resolved orderly (Option.isNone_iff_eq_none.mp quiet) outstanding status outcomes (fresh_mem fresh)⟩
    · exact ⟨lists, orderly⟩
  | ready s err outcomes =>
    unfold World.step
    dsimp only
    cases poll : w.poll s with
    | free => exact ⟨lists, orderly⟩
    | established c => exact ⟨lists, orderly⟩
    | closed => exact ⟨lists, orderly⟩
    | semi r c =>
      dsimp only
      split
      · next possible =>
        obtain ⟨quiet, fresh⟩ := possible
        have none_ := Option.isNone_iff_eq_none.mp quiet
        by_cases failed : err = 0
        · subst failed
          exact ⟨lists, orderly_ready_opened orderly none_ poll outcomes⟩
        · exact ⟨lists, orderly_ready_error orderly none_ poll failed outcomes (fresh_mem fresh)⟩
      · exact ⟨lists, orderly⟩
  | timer r =>
    unfold World.step
    dsimp only
    split
    · next possible => exact ⟨lists, orderly_timer orderly (Option.isNone_iff_eq_none.mp possible.1) possible.2⟩
    · exact ⟨lists, orderly⟩
  | endIteration =>
    unfold World.step
    dsimp only
    split
    · exact ⟨lists, orderly_endIteration orderly⟩
    · exact ⟨lists, orderly⟩
  | createContext c =>
    unfold World.step
    dsimp only
    split
    · next new => exact ⟨lists, orderly_createContext orderly new⟩
    · exact ⟨lists, orderly⟩
  | connect r c timeout handshakeTimeout resolves =>
    unfold World.step
    dsimp only
    split
    · next possible => exact orderly_connect orderly possible.1 possible.2 timeout handshakeTimeout resolves
    · exact ⟨lists, orderly⟩
  | cancel r =>
    unfold World.step
    dsimp only
    split
    · next pending => exact orderly_cancel orderly pending
    · exact ⟨lists, orderly⟩
  | rebind r s c =>
    unfold World.step
    dsimp only
    split
    · next possible => exact orderly_rebind orderly possible.1 possible.2.1 possible.2.2
    · exact ⟨lists, orderly⟩
  | release r =>
    unfold World.step
    dsimp only
    split
    · next opened => exact orderly_release orderly opened
    · exact ⟨lists, orderly⟩
  | close r =>
    unfold World.step
    dsimp only
    split
    · next opened => exact orderly_close orderly opened
    · exact ⟨lists, orderly⟩
  | freeContext c =>
    unfold World.step
    dsimp only
    split
    · next possible => exact ⟨_, orderly_contextFree orderly possible.1 possible.2⟩
    · exact ⟨lists, orderly⟩
  | return_ => exact orderly_returned orderly

end Steps

section Runs

theorem orderly_start : Orderly ({} : World A) fun _ => [] := by
  refine ⟨⟨rfl, ?_, rfl, List.nodup_nil, List.nodup_nil, ?_, ?_⟩, List.nodup_nil, ⟨?_, ?_, ?_⟩, ?_⟩
  · exact fun r => .absent ⟨List.not_mem_nil, List.not_mem_nil, rfl, rfl, rfl⟩ rfl
  · exact fun s r c poll => by cases poll
  · exact fun r r' s inside => absurd inside List.not_mem_nil
  · exact fun c => Linked.nil
  · exact fun c _ => DoublyLinked.nil
  · exact fun c c' r inside => absurd inside List.not_mem_nil
  · exact fun c r => iff_of_false List.not_mem_nil fun both => absurd both.1.1 List.not_mem_nil

theorem orderly_run (actions : List (Action A)) : ∃ lists, Orderly (World.run {} actions) lists := by
  have keeps : ∀ (w : World A) (lists : Context → List Request), Orderly w lists → ∃ lists', Orderly (World.run w actions) lists' := by
    induction actions with
    | nil => exact fun w lists orderly => ⟨lists, orderly⟩
    | cons action actions ih =>
      intro w lists orderly
      obtain ⟨lists', stepped⟩ := orderly_step orderly action
      exact ih (w.step action) lists' stepped
  exact keeps {} _ orderly_start

/-- In every run, no request, context or socket is read or written that is not there, and none is freed twice. -/
theorem connect_safe_run (actions : List (Action A)) : (World.run {} actions : World A).fault = false := by
  obtain ⟨lists, orderly⟩ := orderly_run actions
  exact orderly.safe

structure Settled (w : World A) (r : Request) : Prop where
  once : w.record r = (0, 0, 0) ∨ w.record r = (1, 0, 0) ∨ w.record r = (1, 1, 0) ∨ w.record r = (1, 1, 1)
  allocated : r ∈ w.allocated ↔ w.record r = (1, 0, 0) ∨ w.record r = (1, 1, 0)
  waiting : w.record r = (1, 0, 0) → w.handle r = .pending ∧ (r ∈ w.outstanding ∨ ∃ s c, w.poll s = .semi r c ∧ c ∈ w.contexts)
  leaving : w.record r = (1, 1, 0) →
    r ∈ w.outstanding ∨ w.handle r = .opened ∨ ∃ c after, w.callback = some (.connectError r c after)

theorem Settled.of_waiting (record : w.record r = (1, 0, 0)) (inside : r ∈ w.allocated) (handle : w.handle r = .pending)
    (waits : r ∈ w.outstanding ∨ ∃ s c, w.poll s = .semi r c ∧ c ∈ w.contexts) : Settled w r :=
  ⟨.inr (.inl record), iff_of_true inside (.inl record), fun _ => ⟨handle, waits⟩, fun other => by simp [record] at other⟩

theorem Settled.of_leaving (record : w.record r = (1, 1, 0)) (inside : r ∈ w.allocated)
    (leaves : r ∈ w.outstanding ∨ w.handle r = .opened ∨ ∃ c after, w.callback = some (.connectError r c after)) : Settled w r :=
  ⟨.inr (.inr (.inl record)), iff_of_true inside (.inr record), fun other => by simp [record] at other, fun _ => leaves⟩

theorem Stage.settled (stage : Stage w r) : Settled w r := by
  cases stage with
  | absent gone record =>
    exact ⟨.inl record, iff_of_false gone.allocated (by simp [record]), fun other => by simp [record] at other,
      fun other => by simp [record] at other⟩
  | freed gone record =>
    exact ⟨.inr (.inr (.inr record)), iff_of_false gone.allocated (by simp [record]), fun other => by simp [record] at other,
      fun other => by simp [record] at other⟩
  | resolving c placed outstanding attempt => exact .of_waiting placed.record placed.allocated placed.handle (.inl outstanding)
  | connecting c s placed outstanding attempt poll =>
    exact .of_waiting placed.record placed.allocated placed.handle (.inr ⟨s, c, poll, placed.live⟩)
  | opened c s placed => exact .of_leaving placed.record placed.allocated (.inr (.inl placed.handle))
  | done c s placed => exact .of_leaving placed.record placed.allocated (.inr (.inl placed.handle))
  | failing c state waits placed =>
    exact .of_leaving placed.record placed.allocated (.inr (.inr ⟨c, .fail, report_callback placed.report⟩))
  | expiring c placed outstanding => exact .of_leaving placed.record placed.allocated (.inl outstanding)
  | timing c s placed =>
    exact .of_leaving placed.record placed.allocated (.inr (.inr ⟨c, .timer false, report_callback placed.report⟩))
  | reaping allocated outstanding state attempt timer handle report record => exact .of_leaving record allocated (.inl outstanding)

/-- In every run, a request that was created has one outcome at most and is freed at most once, behind it. Until its outcome the
    resolver or a semi-socket is going to call back for it, and behind it the owner, a callback or the resolver lets go of it. -/
theorem outcome_run (actions : List (Action A)) (r : Request) : Settled (World.run {} actions : World A) r := by
  obtain ⟨lists, orderly⟩ := orderly_run actions
  exact (orderly.stages r).settled

/-- A resolver call that has not called back finds its request, which waits for it or was given up. -/
theorem Stage.outstanding (stage : Stage w r) (outstanding : r ∈ w.outstanding) :
    r ∈ w.allocated ∧ (w.state r = .resolving ∨ w.state r = .cancelled) := by
  cases stage with
  | absent gone => exact absurd outstanding gone.outstanding
  | freed gone => exact absurd outstanding gone.outstanding
  | resolving c placed => exact ⟨placed.allocated, .inl placed.state⟩
  | connecting c s placed absent => exact absurd outstanding absent
  | opened c s placed absent => exact absurd outstanding absent
  | done c s placed absent => exact absurd outstanding absent
  | failing c state waits placed absent => exact absurd outstanding absent
  | expiring c placed => exact ⟨placed.allocated, .inl placed.state⟩
  | timing c s placed absent => exact absurd outstanding absent
  | reaping allocated _ state => exact ⟨allocated, .inr state⟩

/-- In every run, the count of the loop is that of the resolver calls that have not called back. -/
theorem pending_resolves_run (actions : List (Action A)) :
    (World.run {} actions : World A).pendingResolves = (World.run {} actions : World A).outstanding.length ∧
      (World.run {} actions : World A).outstanding.Nodup ∧
      ∀ r ∈ (World.run {} actions : World A).outstanding, r ∈ (World.run {} actions : World A).allocated ∧
        ((World.run {} actions : World A).state r = .resolving ∨ (World.run {} actions : World A).state r = .cancelled) := by
  obtain ⟨lists, orderly⟩ := orderly_run actions
  exact ⟨orderly.resolves, orderly.calls, fun r outstanding => (orderly.stages r).outstanding outstanding⟩

theorem Stage.live (stage : Stage w r) (linked : Linked w r) (context : w.context r = some c) : c ∈ w.contexts := by
  have of_placed : ∀ {c' : Context} {state : ConnectState} {handle : Handle} {report : Option (Context × AfterError)}
      {record : Nat × Nat × Nat}, Placed w r c' state handle report record → c ∈ w.contexts := by
    intro c' state handle report record placed
    obtain rfl := Option.some.inj (placed.context.symm.trans context)
    exact placed.live
  cases stage with
  | absent gone => exact absurd linked.1 gone.allocated
  | freed gone => exact absurd linked.1 gone.allocated
  | resolving c' placed => exact of_placed placed
  | connecting c' s placed => exact of_placed placed
  | opened c' s placed => exact of_placed placed
  | done c' s placed => exact of_placed placed
  | failing c' state waits placed => exact of_placed placed
  | expiring c' placed => exact of_placed placed
  | timing c' s placed => exact of_placed placed
  | reaping allocated outstanding state => exact absurd state linked.2

/-- In every run, the list of a context is linked both ways, and holds its requests in memory that are not cancelled. -/
theorem request_lists_run (actions : List (Action A)) :
    ∃ lists : Context → List Request,
      Family (World.run {} actions : World A).next (World.run {} actions : World A).prev (fun _ => True)
        (World.run {} actions : World A).headConnectRequests lists ∧
      (∀ c r, r ∈ lists c ↔ Linked (World.run {} actions : World A) r ∧ (World.run {} actions : World A).context r = some c) ∧
      ∀ c r, r ∈ lists c → c ∈ (World.run {} actions : World A).contexts := by
  obtain ⟨lists, orderly⟩ := orderly_run actions
  refine ⟨lists, orderly.family, orderly.listed, ?_⟩
  intro c r listed
  obtain ⟨linked, context⟩ := (orderly.listed c r).mp listed
  exact (orderly.stages r).live linked context

end Runs

end Uws.Connect
