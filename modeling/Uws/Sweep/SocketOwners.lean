import Uws.Sweep.TimerSweep

/-! The context that a socket names, and the one that it was last given to. -/

namespace Uws.Sweep

namespace Machine

variable {m : Machine} {context s : Address} {rest : List Address} {stage : Stage}

/-- Every socket names the context that it was last given to. -/
def Owned (m : Machine) : Prop := ∀ s ∈ m.loop.allocated, m.loop.context s = m.owner s

/-- A socket in the low-priority queue is adopted by no other context than its own. -/
def KeepsContext (m : Machine) : Action → Prop
  | .operation (.adopt context s s') =>
    m.phase.Yields → (Operation.adopt context s s').Possible m.loop → ¬ m.loop.isClosed s →
      m.loop.lowPrioState s = 1 → m.loop.context s = context
  | _ => True

section Fields

variable (loop : Loop)

@[simp] theorem unlinkSocket_context (context s : Address) : (loop.unlinkSocket context s).context = loop.context := by
  unfold Loop.unlinkSocket
  dsimp only
  split <;> split <;> rfl

@[simp] theorem unlinkSocket_allocated (context s : Address) :
    (loop.unlinkSocket context s).allocated = loop.allocated := by
  unfold Loop.unlinkSocket
  dsimp only
  split <;> split <;> rfl

@[simp] theorem close_context (s : Address) : (loop.close s).context = loop.context := by
  unfold Loop.close
  split
  · rfl
  · split <;> simp [Loop.linkClosed, Loop.leaveLowPriority]

@[simp] theorem close_allocated (s : Address) : (loop.close s).allocated = loop.allocated := by
  unfold Loop.close
  split
  · rfl
  · split <;> simp [Loop.linkClosed, Loop.leaveLowPriority]

@[simp] theorem closeConnecting_context (s : Address) : (loop.closeConnecting s).context = loop.context := by
  unfold Loop.closeConnecting
  split
  · rfl
  · simp [Loop.linkClosed]

@[simp] theorem closeConnecting_allocated (s : Address) : (loop.closeConnecting s).allocated = loop.allocated := by
  unfold Loop.closeConnecting
  split
  · rfl
  · simp [Loop.linkClosed]

@[simp] theorem readable_context (s : Address) (lowPrio : Bool) : (loop.readable s lowPrio).context = loop.context := by
  unfold Loop.readable
  repeat' split
  all_goals simp [Loop.linkLowPriority]

@[simp] theorem readable_allocated (s : Address) (lowPrio : Bool) :
    (loop.readable s lowPrio).allocated = loop.allocated := by
  unfold Loop.readable
  repeat' split
  all_goals simp [Loop.linkLowPriority]

theorem unparks_context (budget : Nat) (loop : Loop) :
    (Loop.unparks budget loop).context = loop.context ∧ (Loop.unparks budget loop).allocated = loop.allocated := by
  induction budget generalizing loop with
  | zero => exact ⟨rfl, rfl⟩
  | succ budget ih =>
    unfold Loop.unparks
    split
    · rename_i s _
      obtain ⟨context, allocated⟩ := ih { loop.unpark s with lowPrioBudget := budget }
      rw [context, allocated]
      exact ⟨by simp [Loop.unpark, Loop.linkSocket], rfl⟩
    · exact ⟨rfl, rfl⟩

theorem adoptSocket_owned {owner : Address → Address} {s s' context : Address}
    (owned : ∀ x ∈ loop.allocated, loop.context x = owner x)
    (kept : ¬ loop.isClosed s → loop.lowPrioState s = 1 → loop.context s = context) :
    ∀ x ∈ (loop.adoptSocket context s s').allocated,
      (loop.adoptSocket context s s').context x =
        if loop.isClosed s then owner x else Function.update owner s' context x := by
  intro x member
  unfold Loop.adoptSocket at member ⊢
  split at member
  · rename_i closed
    simp only [if_pos closed]
    exact owned x member
  · rename_i opened
    simp only [if_neg opened]
    have old : x ≠ s' → x ∈ s' :: loop.allocated.filter (· ≠ s) → loop.context x = owner x := by
      intro ne inside
      rcases List.mem_cons.mp inside with rfl | inside
      · exact absurd rfl ne
      · exact owned x (List.mem_filter.mp inside).1
    split at member
    · rename_i parked
      simp only [if_pos parked]
      by_cases same : x = s'
      · subst same
        simp [Loop.relinkLowPriority, Loop.forgetTimeouts, Loop.resize, kept opened parked]
      · simpa [Loop.relinkLowPriority, Loop.forgetTimeouts, Loop.resize, same] using old same member
    · rename_i free
      simp only [if_neg free]
      by_cases same : x = s'
      · subst same
        simp [Loop.linkSocket]
      · simp only [Loop.linkSocket, Loop.forgetTimeouts, Loop.resize, unlinkSocket_allocated] at member
        simpa [Loop.linkSocket, Loop.forgetTimeouts, Loop.resize, same] using old same member

end Fields

theorem operation_owned (owned : Owned m) (operation : Operation) (kept : KeepsContext m (.operation operation)) :
    Owned (m.step (.operation operation)) := by
  unfold Machine.step
  dsimp only
  split
  · rename_i taken
    have possible := taken.2
    unfold Owned Loop.apply
    rw [if_pos possible]
    have allocated : ∀ context s established,
        ∀ x ∈ ((m.loop.allocate context s established).linkSocket context s).allocated,
        ((m.loop.allocate context s established).linkSocket context s).context x =
          Function.update m.owner s context x := by
      intro context s established x member
      by_cases same : x = s
      · subst same
        simp [Loop.linkSocket]
      · have inside : x ∈ m.loop.allocated := by simpa [Loop.linkSocket, Loop.allocate, same] using member
        simpa [Loop.linkSocket, Loop.allocate, same] using owned x inside
    cases operation with
    | createContext context => exact owned
    | accept context s => exact allocated context s true
    | connect context s => exact allocated context s false
    | promote s => exact owned
    | timeout s seconds => exact owned
    | longTimeout s minutes => exact owned
    | close s => simpa [Operation.run, Operation.owners, Owned] using owned
    | closeConnecting s => simpa [Operation.run, Operation.owners, Owned] using owned
    | adopt context s s' =>
      intro x member
      rw [show (Operation.run m.loop (.adopt context s s')).context x = _ from
        adoptSocket_owned m.loop owned (kept taken.1 possible) x member]
      by_cases closed : m.loop.isClosed s <;> simp [Operation.owners, closed]
    | readable s lowPrio => simpa [Operation.run, Operation.owners, Owned] using owned
    | handleLowPrioritySockets =>
      obtain ⟨context, allocated⟩ := unparks_context Loop.maxLowPrioSocketsPerLoopIteration
        { m.loop with lowPrioBudget := Loop.maxLowPrioSocketsPerLoopIteration }
      intro x member
      simp only [Operation.run, Loop.handleLowPrioritySockets, context, allocated] at member ⊢
      exact owned x member
    | freeClosedSockets =>
      intro x member
      exact owned x (List.mem_filter.mp member).1
  · exact owned

theorem examine_owned (owned : Owned m) : Owned (m.examine context rest s) := by
  unfold examine
  repeat' split
  all_goals exact owned

theorem emit_owned (owned : Owned m) : Owned (m.emit context rest s stage) := by
  cases stage <;> simp only [emit]
  · exact owned
  · split
    · exact owned
    · exact owned
  · exact owned
  · exact owned

theorem step_owned (owned : Owned m) (action : Action) (kept : KeepsContext m action) : Owned (m.step action) := by
  cases action with
  | operation operation => exact operation_owned owned operation kept
  | sweep =>
    unfold step
    dsimp only
    split
    · exact owned
    · exact owned
  | proceed =>
    change Owned m.proceed
    unfold proceed
    split
    · exact owned
    · exact owned
    · exact owned
    · exact owned
    · exact examine_owned owned
    · exact emit_owned owned

end Machine

end Uws.Sweep
