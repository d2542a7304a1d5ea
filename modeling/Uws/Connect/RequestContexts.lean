import Uws.Connect.RequestCallbacks
import Uws.Library.ListWalks

/-! Requests that are put on the list of a context, and what becomes of them when the context is freed. -/

namespace Uws.Connect

open Uws.LinkedList

variable {A : Type} {w w' : World A} {r r' : Request} {c c' : Context} {s : Socket} {lists : Context → List Request}

def World.pushed (w : World A) (c : Context) (r : Request) : World A :=
  { w with
    context := Function.update w.context r (some c)
    next := Function.update w.next r (w.headConnectRequests c)
    prev := relink (Function.update w.prev r none) (w.headConnectRequests c) (some r)
    headConnectRequests := Function.update w.headConnectRequests c (some r) }

theorem Threaded.linkRequest (threaded : Threaded w lists) (live : c ∈ w.contexts) (r : Request) :
    w.linkRequest c r = w.pushed c r := by
  cases head : w.headConnectRequests c with
  | none => simp only [World.linkRequest, World.touchContext_mem live, World.pushed, head]
  | some first =>
    have inside : first ∈ w.allocated := by
      have linked := (threaded.family.linked c).head
      rw [head] at linked
      exact threaded.inside c first (List.mem_of_head? linked.symm)
    simp only [World.linkRequest, World.touchContext_mem live, World.pushed, head, World.touch_mem inside]

theorem Threaded.push (threaded : Threaded w lists) (out : ∀ c, r ∉ lists c) (c : Context) :
    Family (w.pushed c r).next (w.pushed c r).prev (fun _ => True) (w.pushed c r).headConnectRequests
      (Function.update lists c (r :: lists c)) :=
  threaded.family.push c True.intro out

theorem created_none (created : w.isCreated r = false) : (w.record r).1 = 0 := by
  unfold World.isCreated at created
  rw [List.any_eq_false] at created
  exact List.countP_eq_zero.mpr created

theorem Stage.new (stage : Stage w r) (created : w.isCreated r = false) : Gone w r ∧ w.record r = (0, 0, 0) := by
  have none_ := created_none created
  cases stage with
  | absent gone record => exact ⟨gone, record⟩
  | freed gone record => simp [record] at none_
  | resolving c placed => simp [placed.record] at none_
  | connecting c s placed => simp [placed.record] at none_
  | opened c s placed => simp [placed.record] at none_
  | done c s placed => simp [placed.record] at none_
  | failing c state waits placed => simp [placed.record] at none_
  | expiring c placed => simp [placed.record] at none_
  | timing c s placed => simp [placed.record] at none_
  | reaping allocated outstanding state attempt timer handle report record => simp [record] at none_

def World.created (w : World A) (c : Context) (r : Request) (timeout handshakeTimeout : Bool) : World A :=
  { w.pushed c r with
    allocated := r :: w.allocated
    state := Function.update w.state r .resolving
    results := Function.update w.results r []
    cursor := Function.update w.cursor r []
    attempt := Function.update w.attempt r none
    handshakeTimeout := Function.update w.handshakeTimeout r handshakeTimeout
    timer := Function.update w.timer r (if timeout then .armed else if handshakeTimeout then .idle else .closed)
    log := w.log ++ [.created r] }

theorem contextConnect_created (orderly : Orderly w lists) (live : c ∈ w.contexts) (timeout handshakeTimeout resolves : Bool) :
    w.contextConnect r c timeout handshakeTimeout resolves =
      if resolves then
        { w.created c r timeout handshakeTimeout with
          outstanding := r :: w.outstanding
          pendingResolves := w.pendingResolves + 1
          handle := Function.update w.handle r .pending }
      else
        ((((w.created c r timeout handshakeTimeout).requestCloseTimer r).unlinkRequest r).note (.refused r)).requestFree r := by
  let w₁ : World A := { w with
    allocated := r :: w.allocated
    state := Function.update w.state r .resolving
    results := Function.update w.results r []
    cursor := Function.update w.cursor r []
    attempt := Function.update w.attempt r none
    handshakeTimeout := Function.update w.handshakeTimeout r handshakeTimeout
    log := w.log ++ [.created r] }
  have threaded : Threaded w₁ lists :=
    ⟨orderly.family, fun c r listed => List.mem_cons_of_mem _ (orderly.threaded.inside c r listed)⟩
  have linked : w₁.linkRequest c r = w₁.pushed c r := threaded.linkRequest live r
  unfold World.contextConnect
  dsimp only
  show (if resolves then _ else _) = _
  rw [linked]
  rfl

theorem created_same (other : r' ≠ r) (timeout handshakeTimeout : Bool) : Same w (w.created c r timeout handshakeTimeout) r' := by
  refine ⟨?_, Iff.rfl, Function.update_of_ne other .., fun _ _ _ _ live => live, Function.update_of_ne other ..,
    Function.update_of_ne other .., Function.update_of_ne other .., fun _ _ _ => rfl, rfl, rfl, ?_⟩
  · show r' ∈ r :: w.allocated ↔ _
    rw [List.mem_cons]
    exact or_iff_right other
  · simp [World.created, World.record, Event.creates, Event.ends, Event.frees, Ne.symm other]

theorem listed_push (before : ∀ c r', r' ∈ lists c ↔ (Linked w r' ∧ w.context r' = some c) ∧ r' ≠ r)
    (others : ∀ r', r' ≠ r → Same w w' r') (linked : Linked w' r) (context : w'.context r = some c) (c' : Context) (r' : Request) :
    r' ∈ Function.update lists c (r :: lists c) c' ↔ Linked w' r' ∧ w'.context r' = some c' := by
  rw [Family.mem_push, before]
  by_cases same : r' = r
  · subst same
    rw [context]
    constructor
    · intro either
      rcases either with before | pushed
      · exact absurd rfl before.2
      · exact ⟨linked, by rw [pushed.1]⟩
    · exact fun both => .inr ⟨(Option.some.inj both.2).symm, rfl⟩
  · rw [(others r' same).linked, (others r' same).context]
    constructor
    · intro either
      rcases either with before | pushed
      · exact before.1
      · exact absurd pushed.2 same
    · exact fun both => .inl ⟨both, same⟩

theorem orderly_connect (orderly : Orderly w lists) (new : w.isCreated r = false) (live : c ∈ w.contexts)
    (timeout handshakeTimeout resolves : Bool) :
    ∃ lists', Orderly (w.contextConnect r c timeout handshakeTimeout resolves) lists' := by
  obtain ⟨gone, record⟩ := (orderly.stages r).new new
  have unlisted : ∀ c', r ∉ lists c' := fun c' listed => gone.allocated (orderly.threaded.inside c' r listed)
  have memory : (r :: w.allocated).Nodup := List.nodup_cons.mpr ⟨gone.allocated, orderly.memory⟩
  have pushed := orderly.threaded.push unlisted c
  have none_ : ∀ s c', w.poll s ≠ .semi r c' := fun s c' poll => gone.allocated (orderly.semi s r c' poll).1
  simp only [World.record, Prod.mk.injEq] at record
  rw [contextConnect_created orderly live]
  cases resolves with
  | true =>
    rw [if_pos rfl]
    let w₁ : World A := { w.created c r timeout handshakeTimeout with
      outstanding := r :: w.outstanding, pendingResolves := w.pendingResolves + 1
      handle := Function.update w.handle r .pending }
    have others : ∀ r', r' ≠ r → Same w w₁ r' := by
      intro r' other
      have same : Same w (w.created c r timeout handshakeTimeout) r' := created_same other timeout handshakeTimeout
      refine ⟨same.allocated, ?_, same.context, same.live, same.state, same.timer, same.attempt, same.poll,
        Function.update_of_ne other .., same.report, same.record⟩
      show r' ∈ r :: w.outstanding ↔ _
      rw [List.mem_cons]
      exact or_iff_right other
    have attempt : w₁.attempt r = none := Function.update_self ..
    have waits : w₁.state r = .resolving := Function.update_self ..
    have linked : Linked w₁ r := ⟨List.mem_cons_self, by rw [waits]; decide⟩
    have context : w₁.context r = some c := Function.update_self ..
    refine ⟨_, orderly.turned others rfl ?_ ?_ ?_ memory (fun s r' c' _ poll => poll) ?_ ?_, orderly.places, pushed, ?_⟩
    · refine .resolving c ⟨List.mem_cons_self, context, live, waits, Function.update_self .., gone.report, ?_⟩ List.mem_cons_self
        attempt
      simp [World.created, World.record, record, Event.creates, Event.ends, Event.frees]
    · show w.pendingResolves + 1 = (r :: w.outstanding).length
      rw [List.length_cons, orderly.resolves]
    · exact List.nodup_cons.mpr ⟨gone.outstanding, orderly.calls⟩
    · exact fun s c' poll => absurd poll (none_ s c')
    · exact fun s _ some_ => absurd (attempt.symm.trans some_) (by simp)
    · apply listed_push _ others linked context
      intro c' r'
      rw [orderly.listed]
      refine ⟨fun both => ⟨both, ?_⟩, fun both => both.1⟩
      rintro rfl
      exact gone.allocated both.1.1
  | false =>
    rw [if_neg Bool.false_ne_true]
    let w₁ : World A := (w.created c r timeout handshakeTimeout).requestCloseTimer r
    have threaded : Threaded w₁ (Function.update lists c (r :: lists c)) := by
      refine ⟨pushed, ?_⟩
      intro c' r' listed
      rw [Family.mem_push] at listed
      rcases listed with before | front
      · exact List.mem_cons_of_mem _ (orderly.threaded.inside c' r' before)
      · exact front.2 ▸ List.mem_cons_self
    have listed : r ∈ Function.update lists c (r :: lists c) c := by
      rw [Function.update_self]
      exact List.mem_cons_self
    obtain ⟨lists', family, left⟩ := threaded.cut listed
    have unlinked : w₁.unlinkRequest r = w₁.cut c r := threaded.unlinkRequest listed (Function.update_self ..) live
    show ∃ lists', Orderly (((w₁.unlinkRequest r).note (.refused r)).requestFree r) lists'
    rw [unlinked]
    unfold World.requestFree
    rw [World.touch_mem (by exact List.mem_cons_self)]
    have others : ∀ r', r' ≠ r → Same w { (w₁.cut c r).note (.refused r) with
        allocated := ((w₁.cut c r).note (.refused r)).allocated.erase r
        log := ((w₁.cut c r).note (.refused r)).log ++ [.freed r] } r' := by
      intro r' other
      have same : Same w (w.created c r timeout handshakeTimeout) r' := created_same other timeout handshakeTimeout
      refine ⟨(List.mem_erase_of_ne other).trans same.allocated, same.outstanding, same.context, same.live, same.state,
        (Function.update_of_ne other ..).trans same.timer, same.attempt, same.poll, same.handle, same.report, ?_⟩
      rw [← same.record]
      simp [w₁, World.note, World.cut, World.requestCloseTimer, World.record, Event.creates, Event.ends, Event.frees, Ne.symm other]
    have erased : r ∉ (r :: w.allocated).erase r := memory.not_mem_erase
    refine ⟨lists', orderly.turned others rfl ?_ orderly.resolves orderly.calls (memory.erase r) (fun s r' c' _ poll => poll) ?_ ?_,
      orderly.places, family, ?_⟩
    · refine .freed ⟨erased, gone.outstanding, Function.update_self .., gone.handle, gone.report⟩ ?_
      simp [w₁, World.note, World.cut, World.requestCloseTimer, World.created, World.record, record, Event.creates, Event.ends,
        Event.frees]
    · exact fun s c' poll => absurd poll (none_ s c')
    · exact fun s inside => absurd inside erased
    · intro c' r'
      rw [left, Family.mem_push, orderly.listed]
      by_cases same : r' = r
      · subst same
        exact iff_of_false (fun both => both.2 rfl) (fun both => erased both.1.1)
      · rw [(others r' same).linked, (others r' same).context]
        constructor
        · rintro ⟨before | front, -⟩
          · exact before
          · exact absurd front.2 same
        · exact fun before => ⟨.inl before, same⟩

theorem orderly_rebind (orderly : Orderly w lists) (handle : w.handle r = .opened) (live : c ∈ w.contexts)
    (place : w.poll s = .free ∨ w.attempt r = some s) : ∃ lists', Orderly (w.requestRebind r s c) lists' := by
  obtain ⟨c₀, s₀, state, waits, placed, outstanding, attempt, poll, which⟩ := stage_opened (orderly.stages r) handle
  have linked := placed.linked waits
  let w₁ : World A := { w with
    poll := Function.update (Function.update w.poll s₀ .free) s (.established c)
    attempt := Function.update w.attempt r (some s) }
  have polled : ∀ s', w₁.poll s' = .established c ∧ s' = s ∨ w₁.poll s' = .free ∧ s' = s₀ ∨
      w₁.poll s' = w.poll s' ∧ s' ≠ s ∧ s' ≠ s₀ := by
    intro s'
    by_cases new : s' = s
    · exact .inl ⟨new ▸ Function.update_self .., new⟩
    · by_cases old : s' = s₀
      · exact .inr (.inl ⟨(Function.update_of_ne new ..).trans (old ▸ Function.update_self ..), old⟩)
      · exact .inr (.inr ⟨(Function.update_of_ne new ..).trans (Function.update_of_ne old ..), new, old⟩)
  have semi : ∀ s' r' c', w₁.poll s' = .semi r' c' → w.poll s' = .semi r' c' := by
    intro s' r' c' semi
    rcases polled s' with new | old | kept
    · cases new.1.symm.trans semi
    · cases old.1.symm.trans semi
    · exact kept.1.symm.trans semi
  have around : Around w w₁ r := by
    refine orderly.around placed.allocated ⟨rfl, rfl, rfl, rfl, rfl, rfl⟩ ?_ ?_ fun s' r' c' _ => semi s' r' c'
    · intro r' other
      exact ⟨Iff.rfl, rfl, rfl, rfl, Function.update_of_ne other .., rfl, rfl, rfl⟩
    · intro s' changed
      rcases polled s' with new | old | kept
      · exact new.2 ▸ place.symm
      · exact .inl (old.2 ▸ attempt)
      · exact absurd kept.1 changed
  have listed := (orderly.listed c₀ r).mpr ⟨linked, placed.context⟩
  obtain ⟨lists', family, left⟩ := (orderly.threaded_around around).cut listed
  have threaded : Threaded (w₁.cut c₀ r) lists' :=
    ⟨family, fun c' r' inside => orderly.threaded.inside c' r' ((left c' r').mp inside).1⟩
  have rebound : w.requestRebind r s c = (w₁.cut c₀ r).pushed c r := by
    simp only [World.requestRebind, World.touch_mem placed.allocated, attempt]
    show (w₁.unlinkRequest r).linkRequest c r = _
    rw [orderly.unlinked around linked placed.context placed.context placed.live]
    exact threaded.linkRequest live r
  rw [rebound]
  have out : ∀ c', r ∉ lists' c' := fun c' inside => ((left c' r).mp inside).2 rfl
  have others : ∀ r', r' ≠ r → Same w ((w₁.cut c₀ r).pushed c r) r' := by
    intro r' other
    have same := around.others r' other
    exact ⟨same.allocated, same.outstanding, (Function.update_of_ne other ..).trans same.context, same.live, same.state, same.timer,
      same.attempt, same.poll, same.handle, same.report, same.record⟩
  have context : ((w₁.cut c₀ r).pushed c r).context r = some c := Function.update_self ..
  have placed' : Placed ((w₁.cut c₀ r).pushed c r) r c state .opened none (1, 1, 0) :=
    ⟨placed.allocated, context, live, placed.state, placed.handle, placed.report, placed.record⟩
  have own : ((w₁.cut c₀ r).pushed c r).attempt r = some s := Function.update_self ..
  have established : ((w₁.cut c₀ r).pushed c r).poll s = .established c := Function.update_self ..
  refine ⟨_, orderly.turned others rfl ?_ orderly.resolves orderly.calls orderly.memory (fun s' r' c' _ => semi s' r' c') ?_ ?_,
    orderly.places, threaded.push out c, ?_⟩
  · rcases which with rfl | ⟨rfl, timer⟩
    · exact .opened c s placed' outstanding own established
    · exact .done c s placed' outstanding own established timer
  · exact fun s' c' poll' => absurd (semi s' r c' poll') (orderly.open_own attempt poll s' c')
  · intro s' _ attempt' r' other inside
    obtain rfl := Option.some.inj (own.symm.trans attempt')
    rcases place with free | same
    · exact fun taken => (orderly.stages r').taken inside taken free
    · exact orderly.own_fresh placed.allocated same other inside
  · apply listed_push _ others ⟨placed.allocated, placed'.state ▸ waits⟩ context
    intro c' r'
    rw [left, orderly.listed]

end Uws.Connect
