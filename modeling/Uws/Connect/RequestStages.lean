import Uws.Connect.ConnectRequests

/-! The stages that a connect request goes through, and what is where in each of them. -/

namespace Uws.Connect

open Uws.LinkedList

variable {A : Type} {w w' : World A} {r r' : Request} {c c' : Context} {s : Socket}

namespace World

def record (w : World A) (r : Request) : Nat × Nat × Nat :=
  (w.log.countP (Event.creates r), w.log.countP (Event.ends r), w.log.countP (Event.frees r))

def report (w : World A) (r : Request) : Option (Context × AfterError) :=
  match w.callback with
  | some (.connectError r' c after) => if r' = r then some (c, after) else none
  | _ => none

@[simp] theorem touch_mem (inside : r ∈ w.allocated) : w.touch r = w := by
  simp [touch, inside]

@[simp] theorem touchContext_mem (inside : c ∈ w.contexts) : w.touchContext c = w := by
  simp [touchContext, inside]

@[simp] theorem touchSocket_taken (taken : w.poll s ≠ .free) : w.touchSocket s = w := by
  simp [touchSocket, taken]

theorem touchContextOf_semi (poll : w.poll s = .semi r c) (live : c ∈ w.contexts) : w.touchContextOf s = w := by
  unfold touchContextOf
  rw [poll]
  exact touchContext_mem live

theorem touchContextOf_established (poll : w.poll s = .established c) (live : c ∈ w.contexts) : w.touchContextOf s = w := by
  unfold touchContextOf
  rw [poll]
  exact touchContext_mem live

end World

structure Gone (w : World A) (r : Request) : Prop where
  allocated : r ∉ w.allocated
  outstanding : r ∉ w.outstanding
  timer : w.timer r = .closed
  handle : w.handle r = .none
  report : w.report r = none

/-- What holds of a request in memory that a context has on its list. -/
structure Placed (w : World A) (r : Request) (c : Context) (state : ConnectState) (handle : Handle)
    (report : Option (Context × AfterError)) (record : Nat × Nat × Nat) : Prop where
  allocated : r ∈ w.allocated
  context : w.context r = some c
  live : c ∈ w.contexts
  state : w.state r = state
  handle : w.handle r = handle
  report : w.report r = report
  record : w.record r = record

/-- The stages of a request. The resolver is calling back for one in `resolving`, `expiring` and `reaping`. -/
inductive Stage (w : World A) (r : Request) : Prop
  | absent (gone : Gone w r) (record : w.record r = (0, 0, 0))
  | freed (gone : Gone w r) (record : w.record r = (1, 1, 1))
  | resolving (c : Context) (placed : Placed w r c .resolving .pending none (1, 0, 0)) (outstanding : r ∈ w.outstanding)
    (attempt : w.attempt r = none)
  | connecting (c : Context) (s : Socket) (placed : Placed w r c .connecting .pending none (1, 0, 0))
    (outstanding : r ∉ w.outstanding) (attempt : w.attempt r = some s) (poll : w.poll s = .semi r c)
  | opened (c : Context) (s : Socket) (placed : Placed w r c .handshaking .opened none (1, 1, 0))
    (outstanding : r ∉ w.outstanding) (attempt : w.attempt r = some s) (poll : w.poll s = .established c)
  | done (c : Context) (s : Socket) (placed : Placed w r c .done .opened none (1, 1, 0)) (outstanding : r ∉ w.outstanding)
    (attempt : w.attempt r = some s) (poll : w.poll s = .established c) (timer : w.timer r ≠ .armed)
  | failing (c : Context) (state : ConnectState) (waits : state ≠ .cancelled)
    (placed : Placed w r c state .none (some (c, .fail)) (1, 1, 0)) (outstanding : r ∉ w.outstanding)
    (attempt : w.attempt r = none)
  | expiring (c : Context) (placed : Placed w r c .resolving .none (some (c, .timer true)) (1, 1, 0))
    (outstanding : r ∈ w.outstanding) (attempt : w.attempt r = none)
  | timing (c : Context) (s : Socket) (placed : Placed w r c .connecting .none (some (c, .timer false)) (1, 1, 0))
    (outstanding : r ∉ w.outstanding) (attempt : w.attempt r = some s) (poll : w.poll s = .semi r c)
  | reaping (allocated : r ∈ w.allocated) (outstanding : r ∈ w.outstanding) (state : w.state r = .cancelled)
    (attempt : w.attempt r = none) (timer : w.timer r = .closed) (handle : w.handle r = .none) (report : w.report r = none)
    (record : w.record r = (1, 1, 0))

/-- Nothing about the request is changed, the links apart. -/
structure Same (w w' : World A) (r : Request) : Prop where
  allocated : r ∈ w'.allocated ↔ r ∈ w.allocated
  outstanding : r ∈ w'.outstanding ↔ r ∈ w.outstanding
  context : w'.context r = w.context r
  live : ∀ c, w.context r = some c → r ∈ w.allocated → w.state r ≠ .cancelled → c ∈ w.contexts → c ∈ w'.contexts
  state : w'.state r = w.state r
  timer : w'.timer r = w.timer r
  attempt : w'.attempt r = w.attempt r
  poll : ∀ s, w.attempt r = some s → r ∈ w.allocated → w'.poll s = w.poll s
  handle : w'.handle r = w.handle r
  report : w'.report r = w.report r
  record : w'.record r = w.record r

theorem Gone.same (gone : Gone w r) (same : Same w w' r) : Gone w' r :=
  ⟨fun inside => gone.allocated (same.allocated.mp inside), fun inside => gone.outstanding (same.outstanding.mp inside),
    same.timer.trans gone.timer, same.handle.trans gone.handle, same.report.trans gone.report⟩

theorem Placed.same {state : ConnectState} {handle : Handle} {report : Option (Context × AfterError)} {record : Nat × Nat × Nat}
    (placed : Placed w r c state handle report record) (waits : state ≠ .cancelled) (same : Same w w' r) :
    Placed w' r c state handle report record :=
  ⟨same.allocated.mpr placed.allocated, same.context.trans placed.context,
    same.live c placed.context placed.allocated (placed.state ▸ waits) placed.live, same.state.trans placed.state,
    same.handle.trans placed.handle, same.report.trans placed.report, same.record.trans placed.record⟩

theorem Stage.same (stage : Stage w r) (same : Same w w' r) : Stage w' r := by
  cases stage with
  | absent gone record => exact .absent (gone.same same) (same.record.trans record)
  | freed gone record => exact .freed (gone.same same) (same.record.trans record)
  | resolving c placed outstanding attempt =>
    exact .resolving c (placed.same (by decide) same) (same.outstanding.mpr outstanding) (same.attempt.trans attempt)
  | connecting c s placed outstanding attempt poll =>
    exact .connecting c s (placed.same (by decide) same) (fun inside => outstanding (same.outstanding.mp inside))
      (same.attempt.trans attempt) ((same.poll s attempt placed.allocated).trans poll)
  | opened c s placed outstanding attempt poll =>
    exact .opened c s (placed.same (by decide) same) (fun inside => outstanding (same.outstanding.mp inside))
      (same.attempt.trans attempt) ((same.poll s attempt placed.allocated).trans poll)
  | done c s placed outstanding attempt poll timer =>
    exact .done c s (placed.same (by decide) same) (fun inside => outstanding (same.outstanding.mp inside))
      (same.attempt.trans attempt) ((same.poll s attempt placed.allocated).trans poll) (same.timer ▸ timer)
  | failing c state waits placed outstanding attempt =>
    exact .failing c state waits (placed.same waits same) (fun inside => outstanding (same.outstanding.mp inside))
      (same.attempt.trans attempt)
  | expiring c placed outstanding attempt =>
    exact .expiring c (placed.same (by decide) same) (same.outstanding.mpr outstanding) (same.attempt.trans attempt)
  | timing c s placed outstanding attempt poll =>
    exact .timing c s (placed.same (by decide) same) (fun inside => outstanding (same.outstanding.mp inside))
      (same.attempt.trans attempt) ((same.poll s attempt placed.allocated).trans poll)
  | reaping allocated outstanding state attempt timer handle report record =>
    exact .reaping (same.allocated.mpr allocated) (same.outstanding.mpr outstanding) (same.state.trans state)
      (same.attempt.trans attempt) (same.timer.trans timer) (same.handle.trans handle) (same.report.trans report)
      (same.record.trans record)

/-- The request is on the list of a context. -/
def Linked (w : World A) (r : Request) : Prop := r ∈ w.allocated ∧ w.state r ≠ .cancelled

/-- What holds of all requests together, the lists apart. -/
structure Kept (w : World A) : Prop where
  safe : w.fault = false
  stages : ∀ r, Stage w r
  resolves : w.pendingResolves = w.outstanding.length
  calls : w.outstanding.Nodup
  memory : w.allocated.Nodup
  semi : ∀ s r c, w.poll s = .semi r c → r ∈ w.allocated ∧ w.attempt r = some s
  apart : ∀ r r' s, r ∈ w.allocated → r' ∈ w.allocated → w.attempt r = some s → w.attempt r' = some s → r = r'

/-- The lists of the contexts hold the requests that are neither cancelled nor orphaned. -/
structure Orderly (w : World A) (lists : Context → List Request) : Prop extends Kept w where
  places : w.contexts.Nodup
  family : Family w.next w.prev (fun _ => True) w.headConnectRequests lists
  listed : ∀ c r, r ∈ lists c ↔ Linked w r ∧ w.context r = some c

/-- The links of `r` are taken out of the list of its context. -/
def World.cut (w : World A) (c : Context) (r : Request) : World A :=
  { w with
    next := Function.update (relink w.next (w.prev r) (w.next r)) r none
    prev := Function.update (relink w.prev (w.next r) (w.prev r)) r none
    headConnectRequests :=
      Function.update w.headConnectRequests c (if w.prev r = none then w.next r else w.headConnectRequests c) }

/-- The requests of a context are linked, and in memory. -/
structure Threaded (w : World A) (lists : Context → List Request) : Prop where
  family : Family w.next w.prev (fun _ => True) w.headConnectRequests lists
  inside : ∀ c r, r ∈ lists c → r ∈ w.allocated

variable {lists : Context → List Request}

namespace Threaded

theorem unlinkRequest (threaded : Threaded w lists) (listed : r ∈ lists c) (context : w.context r = some c) (live : c ∈ w.contexts) :
    w.unlinkRequest r = w.cut c r := by
  obtain ⟨pre, post, split⟩ := List.append_of_mem listed
  have doubly := threaded.family.doubly c True.intro
  rw [split] at doubly
  obtain ⟨notPre, notPost, -⟩ := doubly.split_nodup
  have inside : ∀ x ∈ pre ++ r :: post, x ∈ w.allocated := by
    rw [← split]
    exact threaded.inside c
  have before := doubly.prev_at
  have after := doubly.next_at
  have first := doubly.head
  -- the cell behind the request is in memory, and the part before it does not write the request itself
  have afterMem : ∀ x, w.next r = some x → x ∈ w.allocated := by
    intro x same
    rw [after] at same
    exact inside x (List.mem_append_right _ (List.mem_cons_of_mem r (List.mem_of_head? same)))
  have mine : w.touch r = w := World.touch_mem (inside r (List.mem_append_right _ List.mem_cons_self))
  unfold World.unlinkRequest
  rw [context]
  dsimp only
  rw [mine]
  have unlinked : (w.unlinkBefore c r).unlinkAfter r =
      { w with
        next := relink w.next (w.prev r) (w.next r)
        prev := relink w.prev (w.next r) (w.prev r)
        headConnectRequests :=
          Function.update w.headConnectRequests c (if w.prev r = none then w.next r else w.headConnectRequests c) } := by
    unfold World.unlinkBefore
    cases previous : w.prev r with
    | none =>
      have head : w.headConnectRequests c = some r := by
        rw [previous] at before
        rw [first, List.getLast?_eq_none_iff.mp before.symm]
        rfl
      dsimp only
      rw [if_pos head, World.touchContext_mem live, if_pos rfl]
      unfold World.unlinkAfter
      dsimp only
      cases following : w.next r with
      | none => simp [relink]
      | some x => simp [World.touch, afterMem x following, relink, previous]
    | some x =>
      have member : x ∈ w.allocated := by
        rw [previous] at before
        exact inside x (List.mem_append_left _ (List.mem_of_getLast? before.symm))
      have other : r ≠ x := by
        rintro rfl
        rw [previous] at before
        exact notPre (List.mem_of_getLast? before.symm)
      dsimp only
      rw [World.touch_mem member, if_neg (by simp), Function.update_eq_self]
      unfold World.unlinkAfter
      dsimp only
      rw [Function.update_of_ne other]
      cases following : w.next r with
      | none => simp [relink]
      | some y => simp [World.touch, afterMem y following, relink, previous]
  rw [unlinked]
  rfl

theorem cut (threaded : Threaded w lists) (listed : r ∈ lists c) :
    ∃ lists', Family (w.cut c r).next (w.cut c r).prev (fun _ => True) (w.cut c r).headConnectRequests lists' ∧
      ∀ c' x, x ∈ lists' c' ↔ x ∈ lists c' ∧ x ≠ r := by
  obtain ⟨pre, post, split⟩ := List.append_of_mem listed
  have unlinked := threaded.family.unlink True.intro split
  have left : ∀ c' x, x ∈ Function.update lists c (pre ++ post) c' ↔ x ∈ lists c' ∧ x ≠ r :=
    fun c' x => threaded.family.mem_unlink split
  refine ⟨_, unlinked.scribble ?_ none none, left⟩
  intro c' inside
  exact ((left c' r).mp inside).2 rfl

end Threaded

theorem Orderly.threaded (orderly : Orderly w lists) : Threaded w lists :=
  ⟨orderly.family, fun c r listed => ((orderly.listed c r).mp listed).1.1⟩

/-- Only what is about one request is changed, and no link. -/
structure Around (w w' : World A) (r : Request) : Prop where
  others : ∀ r', r' ≠ r → Same w w' r'
  fault : w'.fault = w.fault
  allocated : w'.allocated = w.allocated
  contexts : w'.contexts = w.contexts
  next : w'.next = w.next
  prev : w'.prev = w.prev
  head : w'.headConnectRequests = w.headConnectRequests
  semi : ∀ s r' c, r' ≠ r → w'.poll s = .semi r' c → w.poll s = .semi r' c

theorem Stage.held (stage : Stage w r) (inside : r ∈ w.allocated) (attempt : w.attempt r = some s) :
    ∃ c, w.poll s = .semi r c ∨ w.poll s = .established c := by
  cases stage with
  | absent gone => exact absurd inside gone.allocated
  | freed gone => exact absurd inside gone.allocated
  | resolving c placed outstanding none_ => cases none_.symm.trans attempt
  | connecting c s' placed outstanding own poll =>
    obtain rfl := Option.some.inj (attempt.symm.trans own)
    exact ⟨c, .inl poll⟩
  | opened c s' placed outstanding own poll =>
    obtain rfl := Option.some.inj (attempt.symm.trans own)
    exact ⟨c, .inr poll⟩
  | done c s' placed outstanding own poll =>
    obtain rfl := Option.some.inj (attempt.symm.trans own)
    exact ⟨c, .inr poll⟩
  | failing c state waits placed outstanding none_ => cases none_.symm.trans attempt
  | expiring c placed outstanding none_ => cases none_.symm.trans attempt
  | timing c s' placed outstanding own poll =>
    obtain rfl := Option.some.inj (attempt.symm.trans own)
    exact ⟨c, .inl poll⟩
  | reaping allocated outstanding state none_ => cases none_.symm.trans attempt

theorem Stage.taken (stage : Stage w r) (inside : r ∈ w.allocated) (attempt : w.attempt r = some s) : w.poll s ≠ .free := by
  intro free
  obtain ⟨c, semi | established⟩ := stage.held inside attempt
  · cases free.symm.trans semi
  · cases free.symm.trans established

theorem Kept.poll_kept (kept : Kept w) (mine : r ∈ w.allocated)
    (polls : ∀ s, w'.poll s ≠ w.poll s → w.attempt r = some s ∨ w.poll s = .free) (other : r' ≠ r) (inside : r' ∈ w.allocated)
    (attempt : w.attempt r' = some s) : w'.poll s = w.poll s := by
  by_contra changed
  rcases polls s changed with own | free
  · exact other (kept.apart r' r s inside mine attempt own)
  · exact (kept.stages r').taken inside attempt free

end Uws.Connect
