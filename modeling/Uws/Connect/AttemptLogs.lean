import Uws.Connect.RequestRuns

/-! What the log of a run says about addresses and semi-sockets. -/

namespace Uws.Connect

variable {A : Type} {w w' : World A} {r r' : Request} {c : Context} {s : Socket}

def tries (log : List (Event A)) (r : Request) : List A :=
  log.filterMap fun event => match event with
    | .tried r' address => if r' = r then some address else none
    | _ => none

def addresses (log : List (Event A)) (r : Request) : List A :=
  log.flatMap fun event => match event with
    | .resolved r' results => if r' = r then results else []
    | _ => []

def Event.attempts (s : Socket) : Event A → Bool
  | .attempted s' => decide (s' = s)
  | _ => false

def Event.closes (s : Socket) : Event A → Bool
  | .closed s' => decide (s' = s)
  | _ => false

def Event.promotes (s : Socket) : Event A → Bool
  | .promoted s' => decide (s' = s)
  | _ => false

def Poll.isSemi : Poll → Bool
  | .semi _ _ => true
  | _ => false

/-- The attempts at an address of a socket have all been closed or promoted, up to the one that is a semi-socket there. -/
def Even (log : List (Event A)) (poll : Socket → Poll) : Prop :=
  ∀ s, log.countP (Event.attempts s) = log.countP (Event.closes s) + log.countP (Event.promotes s) + (poll s).isSemi.toNat

def Event.isAttempt : Event A → Bool
  | .attempted _ => true
  | .closed _ => true
  | .promoted _ => true
  | _ => false

structure Walked (w : World A) (r : Request) : Prop where
  before : w.isCreated r = false ∨ r ∈ w.allocated ∧ w.state r = .resolving → tries w.log r = [] ∧ addresses w.log r = []
  during : r ∈ w.allocated → w.state r = .connecting → tries w.log r ++ (w.cursor r).tail = addresses w.log r
  always : tries w.log r <+: addresses w.log r

def Event.walks : Event A → Bool
  | .tried _ _ => true
  | .resolved _ _ => true
  | _ => false

section Attempts

variable {log : List (Event A)} {poll : Socket → Poll}

namespace Even

theorem snoc (even : Even log poll) {event : Event A} (plain : event.isAttempt = false) : Even (log ++ [event]) poll := by
  intro s
  have before := even s
  cases event <;> first | (simp [Event.attempts, Event.closes, Event.promotes, before]; done) | cases plain

theorem attempt (even : Even log poll) (free : (poll s).isSemi = false) (r : Request) (c : Context) :
    Even (log ++ [.attempted s]) (Function.update poll s (.semi r c)) := by
  intro s'
  have before := even s'
  by_cases same : s' = s
  · subst same
    rw [free] at before
    simp [Event.attempts, Event.closes, Event.promotes, Poll.isSemi, before]
  · simp [Event.attempts, Event.closes, Event.promotes, same, Ne.symm same, before]

theorem close (even : Even log poll) (semi : (poll s).isSemi = true) : Even (log ++ [.closed s]) (Function.update poll s .closed) := by
  intro s'
  have before := even s'
  by_cases same : s' = s
  · subst same
    rw [semi] at before
    simp [Event.attempts, Event.closes, Event.promotes, Poll.isSemi, before]
    omega
  · simp [Event.attempts, Event.closes, Event.promotes, same, Ne.symm same, before]

theorem promote (even : Even log poll) (semi : (poll s).isSemi = true) (c : Context) :
    Even (log ++ [.promoted s]) (Function.update poll s (.established c)) := by
  intro s'
  have before := even s'
  by_cases same : s' = s
  · subst same
    rw [semi] at before
    simp [Event.attempts, Event.closes, Event.promotes, Poll.isSemi, before]
    omega
  · simp [Event.attempts, Event.closes, Event.promotes, same, Ne.symm same, before]

theorem congr (even : Even log poll) {poll' : Socket → Poll} (same : ∀ s, (poll' s).isSemi = (poll s).isSemi) : Even log poll' := by
  intro s
  rw [same]
  exact even s

end Even

end Attempts

section Logs

variable {log log' log'' : List (Event A)}

@[simp] theorem tries_append (log later : List (Event A)) (r : Request) : tries (log ++ later) r = tries log r ++ tries later r :=
  List.filterMap_append ..

@[simp] theorem addresses_append (log later : List (Event A)) (r : Request) :
    addresses (log ++ later) r = addresses log r ++ addresses later r :=
  List.flatMap_append ..

/-- The log becomes longer by events that are not about addresses. -/
def Extends (log log' : List (Event A)) : Prop := ∃ later, log' = log ++ later ∧ ∀ event ∈ later, event.walks = false

namespace Extends

theorem refl (log : List (Event A)) : Extends log log := ⟨[], (List.append_nil log).symm, fun _ absent => absurd absent List.not_mem_nil⟩

theorem snoc (extends_ : Extends log log') {event : Event A} (plain : event.walks = false) : Extends log (log' ++ [event]) := by
  obtain ⟨later, rfl, all⟩ := extends_
  refine ⟨later ++ [event], List.append_assoc .., ?_⟩
  intro other inside
  rcases List.mem_append.mp inside with before | last
  · exact all other before
  · rw [List.mem_singleton.mp last]
    exact plain

theorem trans (first : Extends log log') (second : Extends log' log'') : Extends log log'' := by
  obtain ⟨later, rfl, all⟩ := first
  obtain ⟨later', rfl, all'⟩ := second
  refine ⟨later ++ later', List.append_assoc .., ?_⟩
  intro event inside
  rcases List.mem_append.mp inside with before | behind
  · exact all event before
  · exact all' event behind

theorem tries (extends_ : Extends log log') (r : Request) : tries log' r = Connect.tries log r := by
  obtain ⟨later, rfl, all⟩ := extends_
  rw [tries_append]
  have none_ : Connect.tries later r = [] := by
    apply List.filterMap_eq_nil_iff.mpr
    intro event inside
    have plain := all event inside
    cases event <;> first | rfl | cases plain
  rw [none_, List.append_nil]

theorem addresses (extends_ : Extends log log') (r : Request) : addresses log' r = Connect.addresses log r := by
  obtain ⟨later, rfl, all⟩ := extends_
  rw [addresses_append]
  have none_ : Connect.addresses later r = [] := by
    apply List.flatMap_eq_nil_iff.mpr
    intro event inside
    have plain := all event inside
    cases event <;> first | rfl | cases plain
  rw [none_, List.append_nil]

theorem created (extends_ : Extends log log') (r : Request) (new : log'.any (Event.creates r) = false) :
    log.any (Event.creates r) = false := by
  obtain ⟨later, rfl, all⟩ := extends_
  rw [List.any_append, Bool.or_eq_false_iff] at new
  exact new.1

end Extends

end Logs

/-- No address is tried or found: a request that is resolving or connecting behind the step was so before, or is new. -/
structure Calm (w w' : World A) : Prop where
  log : Extends w.log w'.log
  connecting : ∀ r, r ∈ w'.allocated → w'.state r = .connecting →
    r ∈ w.allocated ∧ w.state r = .connecting ∧ w'.cursor r = w.cursor r
  resolving : ∀ r, r ∈ w'.allocated → w'.state r = .resolving →
    r ∈ w.allocated ∧ w.state r = .resolving ∨ w.isCreated r = false

namespace Calm

theorem walked (calm : Calm w w') (walked : Walked w r) : Walked w' r := by
  refine ⟨?_, ?_, ?_⟩
  · rw [calm.log.tries, calm.log.addresses]
    intro early
    apply walked.before
    rcases early with new | ⟨inside, resolving⟩
    · exact .inl (calm.log.created r new)
    · exact (calm.resolving r inside resolving).symm
  · rw [calm.log.tries, calm.log.addresses]
    intro inside connecting
    obtain ⟨inside', connecting', cursor⟩ := calm.connecting r inside connecting
    rw [cursor]
    exact walked.during inside' connecting'
  · rw [calm.log.tries, calm.log.addresses]
    exact walked.always

theorem same (log : Extends w.log w'.log) (allocated : ∀ r, r ∈ w'.allocated → r ∈ w.allocated) (state : w'.state = w.state)
    (cursor : w'.cursor = w.cursor) : Calm w w' := by
  refine ⟨log, ?_, ?_⟩
  · intro r inside connecting
    rw [state] at connecting
    exact ⟨allocated r inside, connecting, by rw [cursor]⟩
  · intro r inside resolving
    rw [state] at resolving
    exact .inl ⟨allocated r inside, resolving⟩

theorem left (log : Extends w.log w'.log) (allocated : ∀ r, r ∈ w'.allocated → r ∈ w.allocated)
    (mine : r ∈ w'.allocated → w'.state r ≠ .connecting ∧ w'.state r ≠ .resolving)
    (others : ∀ r', r' ≠ r → w'.state r' = w.state r' ∧ w'.cursor r' = w.cursor r') : Calm w w' := by
  refine ⟨log, ?_, ?_⟩
  · intro r' inside connecting
    have other : r' ≠ r := by
      rintro rfl
      exact (mine inside).1 connecting
    obtain ⟨state, cursor⟩ := others r' other
    exact ⟨allocated r' inside, state.symm.trans connecting, cursor⟩
  · intro r' inside resolving
    have other : r' ≠ r := by
      rintro rfl
      exact (mine inside).2 resolving
    exact .inl ⟨allocated r' inside, (others r' other).1.symm.trans resolving⟩

end Calm

namespace World

theorem unlinkRequest_fields (w : World A) (r : Request) :
    (w.unlinkRequest r).allocated = w.allocated ∧ (w.unlinkRequest r).state = w.state ∧ (w.unlinkRequest r).cursor = w.cursor ∧
      (w.unlinkRequest r).log = w.log ∧ (w.unlinkRequest r).poll = w.poll := by
  unfold unlinkRequest
  split
  · exact ⟨rfl, rfl, rfl, rfl, rfl⟩
  · unfold unlinkAfter unlinkBefore
    dsimp only
    split <;> split <;> first | exact ⟨rfl, rfl, rfl, rfl, rfl⟩ | (split <;> exact ⟨rfl, rfl, rfl, rfl, rfl⟩)

theorem closeConnecting_fields (w : World A) (s : Socket) :
    (w.closeConnecting s).allocated = w.allocated ∧ (w.closeConnecting s).state = w.state ∧
      (w.closeConnecting s).cursor = w.cursor ∧ Extends w.log (w.closeConnecting s).log := by
  unfold closeConnecting
  dsimp only
  split
  · exact ⟨rfl, rfl, rfl, .refl _⟩
  · unfold touchContextOf
    split <;> exact ⟨rfl, rfl, rfl, (Extends.refl _).snoc rfl⟩

theorem closeAttempt_fields (w : World A) (r : Request) :
    (w.closeAttempt r).allocated = w.allocated ∧ (w.closeAttempt r).state = w.state ∧ (w.closeAttempt r).cursor = w.cursor ∧
      Extends w.log (w.closeAttempt r).log := by
  unfold closeAttempt
  split
  · exact w.closeConnecting_fields _
  · exact ⟨rfl, rfl, rfl, .refl _⟩

@[simp] theorem unlinkRequest_allocated (w : World A) (r : Request) : (w.unlinkRequest r).allocated = w.allocated :=
  (w.unlinkRequest_fields r).1

@[simp] theorem unlinkRequest_state (w : World A) (r : Request) : (w.unlinkRequest r).state = w.state :=
  (w.unlinkRequest_fields r).2.1

@[simp] theorem unlinkRequest_cursor (w : World A) (r : Request) : (w.unlinkRequest r).cursor = w.cursor :=
  (w.unlinkRequest_fields r).2.2.1

@[simp] theorem unlinkRequest_log (w : World A) (r : Request) : (w.unlinkRequest r).log = w.log :=
  (w.unlinkRequest_fields r).2.2.2.1

@[simp] theorem unlinkRequest_poll (w : World A) (r : Request) : (w.unlinkRequest r).poll = w.poll :=
  (w.unlinkRequest_fields r).2.2.2.2

@[simp] theorem closeAttempt_allocated (w : World A) (r : Request) : (w.closeAttempt r).allocated = w.allocated :=
  (w.closeAttempt_fields r).1

@[simp] theorem closeAttempt_state (w : World A) (r : Request) : (w.closeAttempt r).state = w.state :=
  (w.closeAttempt_fields r).2.1

@[simp] theorem closeAttempt_cursor (w : World A) (r : Request) : (w.closeAttempt r).cursor = w.cursor :=
  (w.closeAttempt_fields r).2.2.1

theorem closeAttempt_log (w : World A) (r : Request) : Extends w.log (w.closeAttempt r).log :=
  (w.closeAttempt_fields r).2.2.2

end World

section Teardown

theorem calm_afterError (memory : w.allocated.Nodup) (r : Request) (after : AfterError) : Calm w (w.afterError r after) := by
  cases after with
  | fail =>
    refine .left (r := r) ?_ ?_ ?_ ?_
    · simp only [World.afterError, World.requestFree, World.touch, World.requestDropResults, World.requestCloseTimer,
        World.unlinkRequest_log]
      exact (Extends.refl _).snoc rfl
    · intro r' inside
      simp only [World.afterError, World.requestFree, World.touch, World.requestDropResults, World.requestCloseTimer,
        World.unlinkRequest_allocated] at inside
      exact List.mem_of_mem_erase inside
    · intro inside
      simp only [World.afterError, World.requestFree, World.touch, World.requestDropResults, World.requestCloseTimer,
        World.unlinkRequest_allocated] at inside
      exact absurd inside memory.not_mem_erase
    · intro r' other
      simp [World.afterError, World.requestFree, World.touch, World.requestDropResults, World.requestCloseTimer, other]
  | timer gaiPending =>
    have closed := ((w.touch r).requestCloseTimer r).closeAttempt_log r
    cases gaiPending with
    | true =>
      refine .left (r := r) ?_ ?_ ?_ ?_
      · simp only [World.afterError, World.requestDropResults, World.unlinkRequest_log, if_true]
        exact closed
      · intro r' inside
        simpa [World.afterError, World.requestDropResults, World.requestCloseTimer, World.touch] using inside
      · intro inside
        simp [World.afterError]
      · intro r' other
        simp [World.afterError, World.requestDropResults, World.requestCloseTimer, World.touch, other]
    | false =>
      refine .left (r := r) ?_ ?_ ?_ ?_
      · simp only [World.afterError, World.requestDropResults, World.requestFree, World.touch, World.unlinkRequest_log, Bool.false_eq_true,
          if_false]
        exact closed.snoc rfl
      · intro r' inside
        simp only [World.afterError, World.requestDropResults, World.requestFree, World.touch, World.requestCloseTimer, Bool.false_eq_true,
          if_false, World.unlinkRequest_allocated, World.closeAttempt_allocated] at inside
        exact List.mem_of_mem_erase inside
      · intro inside
        simp only [World.afterError, World.requestDropResults, World.requestFree, World.touch, World.requestCloseTimer, Bool.false_eq_true,
          if_false, World.unlinkRequest_allocated, World.closeAttempt_allocated] at inside
        exact absurd inside memory.not_mem_erase
      · intro r' other
        simp [World.afterError, World.requestDropResults, World.requestFree, World.requestCloseTimer, World.touch, other]

theorem calm_emitConnectError (memory : w.allocated.Nodup) (r : Request) (code : Int) (after : AfterError) :
    Calm w (w.emitConnectError r code after) := by
  unfold World.emitConnectError
  split
  · exact calm_afterError memory r after
  · exact .same ((Extends.refl _).snoc rfl) (fun _ inside => inside) rfl rfl

theorem Calm.trans {w'' : World A} (calm : Calm w w') (later : Calm w' w'') : Calm w w'' := by
  refine ⟨calm.log.trans later.log, ?_, ?_⟩
  · intro r inside connecting
    obtain ⟨inside', connecting', cursor⟩ := later.connecting r inside connecting
    obtain ⟨inside'', connecting'', cursor'⟩ := calm.connecting r inside' connecting'
    exact ⟨inside'', connecting'', cursor.trans cursor'⟩
  · intro r inside resolving
    rcases later.resolving r inside resolving with ⟨inside', resolving'⟩ | new
    · exact calm.resolving r inside' resolving'
    · exact .inr (calm.log.created r new)

theorem calm_closeAttempt (w : World A) (r : Request) : Calm w (w.closeAttempt r) :=
  .same (w.closeAttempt_log r) (fun r' inside => by simpa using inside) (by simp) (by simp)

theorem calm_connectFail (memory : w.allocated.Nodup) (r : Request) (code : Int) : Calm w (w.connectFail r code) := by
  have touched : Calm w (w.touch r) := .same (.refl _) (fun _ inside => inside) rfl rfl
  apply (touched.trans (calm_closeAttempt _ r)).trans (calm_emitConnectError _ r code .fail)
  rw [World.closeAttempt_allocated]
  exact memory

theorem calm_requestFree (w : World A) (r : Request) : Calm w (w.requestFree r) :=
  .same ((Extends.refl _).snoc rfl) (fun _ inside => List.mem_of_mem_erase inside) rfl rfl

theorem calm_cancel (memory : w.allocated.Nodup) (r : Request) : Calm w (w.requestCancel r) := by
  have closed := ((w.touch r).requestCloseTimer r).closeAttempt_log r
  unfold World.requestCancel
  dsimp only
  split
  · refine .left (r := r) ?_ ?_ ?_ ?_
    · rw [World.unlinkRequest_log]
      exact closed.snoc rfl
    · intro r' inside
      simpa [World.requestCloseTimer, World.touch] using inside
    · intro inside
      simp
    · intro r' other
      simp [World.requestCloseTimer, World.touch, other]
  · refine .left (r := r) ?_ ?_ ?_ ?_
    · simp only [World.requestFree, World.touch, World.requestDropResults, World.unlinkRequest_log]
      exact (closed.snoc rfl).snoc rfl
    · intro r' inside
      simp only [World.requestFree, World.touch, World.requestDropResults, World.requestCloseTimer, World.unlinkRequest_allocated,
        World.closeAttempt_allocated] at inside
      exact List.mem_of_mem_erase inside
    · intro inside
      simp only [World.requestFree, World.touch, World.requestDropResults, World.requestCloseTimer, World.unlinkRequest_allocated,
        World.closeAttempt_allocated] at inside
      exact absurd inside memory.not_mem_erase
    · intro r' other
      simp [World.requestFree, World.requestDropResults, World.requestCloseTimer, World.touch, other]

theorem calm_release (memory : w.allocated.Nodup) (r : Request) : Calm w (w.requestRelease r) := by
  refine .left (r := r) ?_ ?_ ?_ ?_
  · simp only [World.requestRelease, World.requestFree, World.touch, World.requestDropResults, World.requestCloseTimer,
      World.unlinkRequest_log]
    exact (Extends.refl _).snoc rfl
  · intro r' inside
    simp only [World.requestRelease, World.requestFree, World.touch, World.requestDropResults, World.requestCloseTimer,
      World.unlinkRequest_allocated] at inside
    exact List.mem_of_mem_erase inside
  · intro inside
    simp only [World.requestRelease, World.requestFree, World.touch, World.requestDropResults, World.requestCloseTimer,
      World.unlinkRequest_allocated] at inside
    exact absurd inside memory.not_mem_erase
  · intro r' other
    simp [World.requestRelease, World.requestFree, World.requestDropResults, World.requestCloseTimer, World.touch, other]

theorem calm_close (memory : w.allocated.Nodup) (r : Request) : Calm w (w.closeOpened r) := by
  unfold World.closeOpened
  split
  · exact calm_release memory r
  · next s own =>
    have first : Calm w { (w.touchSocket s).touchContextOf s with poll := Function.update ((w.touchSocket s).touchContextOf s).poll s .closed } := by
      unfold World.touchContextOf
      split <;> exact .same (.refl _) (fun _ inside => inside) rfl rfl
    refine first.trans (calm_release ?_ r)
    unfold World.touchContextOf
    split <;> exact memory

theorem calm_orphan (memory : w.allocated.Nodup) (r : Request) : Calm w (w.requestOrphan r) := by
  unfold World.requestOrphan
  dsimp only
  generalize told : (if ((w.touch r).requestCloseTimer r).handle r = .pending then ((w.touch r).requestCloseTimer r).note (.orphaned r)
    else (w.touch r).requestCloseTimer r) = v
  have fields : v.allocated = w.allocated ∧ v.state = w.state ∧ v.cursor = w.cursor ∧ Extends w.log v.log := by
    rw [← told]
    split
    · exact ⟨rfl, rfl, rfl, (Extends.refl _).snoc rfl⟩
    · exact ⟨rfl, rfl, rfl, .refl _⟩
  obtain ⟨allocated, state, cursor, log⟩ := fields
  split
  · refine .left (r := r) log ?_ ?_ ?_
    · exact fun r' inside => allocated ▸ inside
    · intro inside
      simp
    · intro r' other
      simp [other, state, cursor]
  · split
    · refine .left (r := r) ?_ ?_ ?_ ?_
      · have closed := World.closeAttempt_log { v with handle := Function.update v.handle r .none } r
        exact (log.trans closed).snoc rfl
      · intro r' inside
        simp only [World.requestFree, World.touch, World.requestDropResults, World.closeAttempt_allocated, allocated] at inside
        exact List.mem_of_mem_erase inside
      · intro inside
        simp only [World.requestFree, World.touch, World.requestDropResults, World.closeAttempt_allocated, allocated] at inside
        exact absurd inside memory.not_mem_erase
      · intro r' other
        simp [World.requestFree, World.touch, World.requestDropResults, other, state, cursor]
    · refine .left (r := r) ?_ ?_ ?_ ?_
      · exact log.snoc rfl
      · intro r' inside
        simp only [World.requestFree, World.touch, World.requestDropResults, allocated] at inside
        exact List.mem_of_mem_erase inside
      · intro inside
        simp only [World.requestFree, World.touch, World.requestDropResults, allocated] at inside
        exact absurd inside memory.not_mem_erase
      · intro r' other
        simp [World.requestFree, World.touch, World.requestDropResults, other, state, cursor]

end Teardown

end Uws.Connect
