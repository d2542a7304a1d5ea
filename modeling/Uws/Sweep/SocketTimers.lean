import Uws.Sweep.SocketOwners
import Uws.Sweep.SweepInvariant

/-! The two timers of a socket, and the operations that leave one of them armed. -/

namespace Uws.Sweep

open Uws.LinkedList

/-- `timeout` is the short one, and `long_timeout` the long one. -/
inductive Timer where
  | short
  | long
  deriving DecidableEq, Repr

namespace Timer

def operation : Timer → Address → Nat → Operation
  | .short => .timeout
  | .long => .longTimeout

def event : Timer → Address → Event
  | .short => .socketTimeout
  | .long => .socketLongTimeout

def deadline : Timer → Loop → Address → Nat
  | .short, loop => loop.timeout
  | .long, loop => loop.longTimeout

def stamp : Timer → Loop → Address → Nat
  | .short, loop => loop.timestamp
  | .long, loop => loop.longTimestamp

/-- The timestamp of a context whose `global_tick` is given. -/
def stampAt : Timer → Nat → Nat
  | .short, tick => tick % 240
  | .long, tick => tick / 15 % 240

end Timer

/-- The timer is not armed again, and the socket is neither closed nor moved. -/
def Operation.Leaves (timer : Timer) (s : Address) : Operation → Prop
  | .timeout x _ => timer = .short → x ≠ s
  | .longTimeout x _ => timer = .long → x ≠ s
  | .close x => x ≠ s
  | .closeConnecting x => x ≠ s
  | .adopt _ x _ => x ≠ s
  | _ => True

instance (timer : Timer) (s : Address) : (operation : Operation) → Decidable (operation.Leaves timer s)
  | .createContext _ => inferInstanceAs (Decidable True)
  | .accept _ _ => inferInstanceAs (Decidable True)
  | .connect _ _ => inferInstanceAs (Decidable True)
  | .promote _ => inferInstanceAs (Decidable True)
  | .timeout x _ => inferInstanceAs (Decidable (timer = .short → x ≠ s))
  | .longTimeout x _ => inferInstanceAs (Decidable (timer = .long → x ≠ s))
  | .close x => inferInstanceAs (Decidable (x ≠ s))
  | .closeConnecting x => inferInstanceAs (Decidable (x ≠ s))
  | .adopt _ x _ => inferInstanceAs (Decidable (x ≠ s))
  | .readable _ _ => inferInstanceAs (Decidable True)
  | .handleLowPrioritySockets => inferInstanceAs (Decidable True)
  | .freeClosedSockets => inferInstanceAs (Decidable True)

section Neighbours

/-- What `prev` of an open socket is: null, or a socket. -/
def IsNeighbour : Option Address → Prop
  | some a => a.IsSocket
  | none => True

variable {prev : Address → Option Address} {x s : Address} {loop : Loop} {lists : Place → List Address}

theorem update_neighbour {value : Option Address} (own : IsNeighbour (prev x)) (given : IsNeighbour value) :
    IsNeighbour (Function.update prev s value x) := by
  by_cases same : x = s
  · rwa [same, Function.update_self]
  · rwa [Function.update_of_ne same]

theorem relink_neighbour {at_ value : Option Address} (own : IsNeighbour (prev x)) (given : IsNeighbour value) :
    IsNeighbour (relink prev at_ value x) := by
  cases at_ with
  | none => exact own
  | some cell => exact update_neighbour own given

theorem unlinkSocket_neighbour (context : Address) (own : IsNeighbour (loop.prev x)) (other : IsNeighbour (loop.prev s)) :
    IsNeighbour ((loop.unlinkSocket context s).prev x) := by
  have relinked : IsNeighbour (relink loop.prev (loop.next s) (loop.prev s) x) := relink_neighbour own other
  unfold Loop.unlinkSocket
  dsimp only
  split <;> split
  · exact own
  · exact relinked
  · exact own
  · exact relinked

theorem linkSocket_neighbour (context : Address) (own : IsNeighbour (loop.prev x)) (socket : s.IsSocket) :
    IsNeighbour ((loop.linkSocket context s).prev x) :=
  relink_neighbour (update_neighbour own True.intro) socket

theorem linkClosed_neighbour (own : IsNeighbour (loop.prev x)) (other : s ≠ x) :
    IsNeighbour ((loop.linkClosed s).prev x) := by
  unfold Loop.linkClosed
  dsimp only
  rwa [Function.update_of_ne (Ne.symm other)]

theorem leaveLowPriority_neighbour (own : IsNeighbour (loop.prev x)) (other : IsNeighbour (loop.prev s)) :
    IsNeighbour ((loop.leaveLowPriority s).prev x) :=
  update_neighbour (relink_neighbour own other) True.intro

theorem linkLowPriority_neighbour (own : IsNeighbour (loop.prev x)) (socket : s.IsSocket) :
    IsNeighbour ((loop.linkLowPriority s).prev x) :=
  relink_neighbour (update_neighbour own True.intro) socket

theorem opened_iff (threaded : Threaded loop lists none) (member : s ∈ loop.allocated) :
    ¬ loop.isClosed s ↔ IsNeighbour (loop.prev s) := by
  constructor
  · intro opened
    cases before : loop.prev s with
    | none => exact True.intro
    | some a =>
      obtain ⟨place, listed⟩ := threaded.listed member
      have there : place ≠ .closed := by
        rintro rfl
        exact opened ((threaded.isClosed_iff member).mpr listed)
      obtain ⟨pre, post, split⟩ := List.append_of_mem listed
      exact (threaded.kinds a (threaded.member (threaded.family.prev_mem there split before))).1
  · intro neighbour closed
    rw [show loop.prev s = some (loop.context s) from closed] at neighbour
    exact threaded.contexts _ (threaded.kinds s member).2 neighbour

theorem close_neighbour (own : IsNeighbour (loop.prev x)) (other : s ≠ x)
    (neighbour : ¬ loop.isClosed s → IsNeighbour (loop.prev s)) : IsNeighbour ((loop.close s).prev x) := by
  unfold Loop.close
  split
  · exact own
  · rename_i opened
    split
    · exact linkClosed_neighbour (leaveLowPriority_neighbour own (neighbour opened)) other
    · exact linkClosed_neighbour (unlinkSocket_neighbour _ own (neighbour opened)) other

theorem closeConnecting_neighbour (own : IsNeighbour (loop.prev x)) (other : s ≠ x)
    (neighbour : ¬ loop.isClosed s → IsNeighbour (loop.prev s)) : IsNeighbour ((loop.closeConnecting s).prev x) := by
  unfold Loop.closeConnecting
  split
  · exact own
  · rename_i opened
    exact linkClosed_neighbour (unlinkSocket_neighbour _ own (neighbour opened)) other

theorem adoptSocket_neighbour {s' : Address} (context : Address) (own : IsNeighbour (loop.prev x)) (away : s' ≠ x)
    (socket : s'.IsSocket) (neighbour : ¬ loop.isClosed s → IsNeighbour (loop.prev s)) :
    IsNeighbour ((loop.adoptSocket context s s').prev x) := by
  unfold Loop.adoptSocket
  split
  · exact own
  · rename_i opened
    split
    · have resized : IsNeighbour (Function.update loop.prev s' (loop.prev s) x) :=
        update_neighbour own (neighbour opened)
      unfold Loop.relinkLowPriority Loop.forgetTimeouts Loop.resize
      exact relink_neighbour resized socket
    · apply linkSocket_neighbour _ _ socket
      have unlinked := unlinkSocket_neighbour (loop.context s) own (neighbour opened)
      unfold Loop.forgetTimeouts Loop.resize
      dsimp only
      rwa [Function.update_of_ne (Ne.symm away)]

theorem readable_neighbour {lowPrio : Bool} (own : IsNeighbour (loop.prev x)) (socket : s.IsSocket)
    (neighbour : IsNeighbour (loop.prev s)) : IsNeighbour ((loop.readable s lowPrio).prev x) := by
  unfold Loop.readable
  repeat' split
  · exact own
  · exact own
  · exact linkLowPriority_neighbour (unlinkSocket_neighbour _ own neighbour) socket
  · exact own

theorem unparks_neighbour (threaded : Threaded loop lists none) (budget : Nat) (own : IsNeighbour (loop.prev x)) :
    IsNeighbour ((Loop.unparks budget loop).prev x) := by
  induction budget generalizing loop lists with
  | zero => exact own
  | succ budget ih =>
    unfold Loop.unparks
    split
    · rename_i s first
      have head := (threaded.family.linked .queue).head
      simp only [Loop.heads] at head
      rw [first] at head
      obtain ⟨post, split⟩ := List.head?_eq_some_iff.mp head.symm
      have inside : s ∈ lists .queue := by simp [split]
      have socket := (threaded.kinds s (threaded.member inside)).1
      have unparked := threaded.unpark split
      have budgeted : Threaded { loop.unpark s with lowPrioBudget := budget } _ none :=
        ⟨unparked.family, unparked.allocated, unparked.out, unparked.sockets, unparked.queued, unparked.closed,
          unparked.kinds, unparked.contexts⟩
      apply ih budgeted
      unfold Loop.unpark
      exact linkSocket_neighbour _ (relink_neighbour own True.intro) socket
    · exact own

end Neighbours

section Fields

variable (loop : Loop)

def Loop.clocks (loop : Loop) : (Address → Nat) × (Address → Nat) × (Address → Nat) × (Address → Nat) × (Address → Nat) :=
  (loop.timeout, loop.longTimeout, loop.globalTick, loop.timestamp, loop.longTimestamp)

@[simp] theorem unlinkSocket_clocks (context s : Address) : (loop.unlinkSocket context s).clocks = loop.clocks := by
  unfold Loop.unlinkSocket
  dsimp only
  split <;> split <;> rfl

@[simp] theorem linkSocket_clocks (context s : Address) : (loop.linkSocket context s).clocks = loop.clocks := rfl

@[simp] theorem linkClosed_clocks (s : Address) : (loop.linkClosed s).clocks = loop.clocks := rfl

theorem close_clocks (s : Address) : (loop.close s).clocks = loop.clocks := by
  unfold Loop.close
  split
  · rfl
  · split
    · rfl
    · simp

theorem closeConnecting_clocks (s : Address) : (loop.closeConnecting s).clocks = loop.clocks := by
  unfold Loop.closeConnecting
  split
  · rfl
  · simp

theorem readable_clocks (s : Address) (lowPrio : Bool) : (loop.readable s lowPrio).clocks = loop.clocks := by
  unfold Loop.readable
  repeat' split
  · rfl
  · rfl
  · exact unlinkSocket_clocks loop (loop.context s) s
  · rfl

theorem unparks_clocks (budget : Nat) (loop : Loop) : (Loop.unparks budget loop).clocks = loop.clocks := by
  induction budget generalizing loop with
  | zero => rfl
  | succ budget ih =>
    unfold Loop.unparks
    split
    · rw [ih]
      rfl
    · rfl

theorem handleLowPrioritySockets_clocks : loop.handleLowPrioritySockets.clocks = loop.clocks :=
  unparks_clocks Loop.maxLowPrioSocketsPerLoopIteration
    { loop with lowPrioBudget := Loop.maxLowPrioSocketsPerLoopIteration }

theorem adoptSocket_clocks (context s s' : Address) :
    (loop.adoptSocket context s s').clocks = loop.clocks ∨
      (loop.adoptSocket context s s').clocks = (loop.forgetTimeouts s').clocks := by
  unfold Loop.adoptSocket
  split
  · exact .inl rfl
  · split
    · apply Or.inr
      simp [Loop.clocks, Loop.relinkLowPriority, Loop.forgetTimeouts, Loop.resize]
    · apply Or.inr
      have unlinked := unlinkSocket_clocks loop (loop.context s) s
      simp only [Loop.clocks, Prod.mk.injEq] at unlinked
      obtain ⟨short, long, tick, stamp, longStamp⟩ := unlinked
      simp [Loop.clocks, Loop.linkSocket, Loop.forgetTimeouts, Loop.resize, short, long, tick, stamp, longStamp]

structure Loop.Stamped (loop : Loop) : Prop where
  short : ∀ context, loop.timestamp context = loop.globalTick context % 240
  long : ∀ context, loop.longTimestamp context = loop.globalTick context / 15 % 240

variable {loop} {loop' : Loop}

theorem Loop.Stamped.congr (stamped : loop.Stamped) (same : loop'.clocks = loop.clocks) : loop'.Stamped := by
  simp only [Loop.clocks, Prod.mk.injEq] at same
  obtain ⟨-, -, tick, stamp, longStamp⟩ := same
  constructor
  · rw [tick, stamp]
    exact stamped.short
  · rw [tick, longStamp]
    exact stamped.long

theorem Loop.Stamped.stamp (stamped : loop.Stamped) (timer : Timer) (context : Address) :
    timer.stamp loop context = timer.stampAt (loop.globalTick context) := by
  cases timer
  · exact stamped.short context
  · exact stamped.long context

theorem Timer.deadline_congr (timer : Timer) (same : loop'.clocks = loop.clocks) :
    timer.deadline loop' = timer.deadline loop := by
  simp only [Loop.clocks, Prod.mk.injEq] at same
  cases timer
  · exact same.1
  · exact same.2.1

end Fields

section Leaves

variable {timer : Timer} {loop loop' : Loop} {lists : Place → List Address} {x s : Address}

/-- The timer of an open socket is still armed as it was, and no tick of its context has passed. -/
structure LeftAlone (timer : Timer) (s : Address) (loop loop' : Loop) : Prop where
  allocated : s ∈ loop'.allocated
  opened : ¬ loop'.isClosed s
  context : loop'.context s = loop.context s
  deadline : timer.deadline loop' s = timer.deadline loop s
  tick : loop'.globalTick (loop.context s) = loop.globalTick (loop.context s)

theorem Loop.Stamped.apply (stamped : loop.Stamped) (operation : Operation) : (loop.apply operation).Stamped := by
  unfold Loop.apply
  split
  · cases operation with
    | createContext context =>
      constructor
      · intro c
        have stamps := stamped.short c
        by_cases same : c = context <;> simp [Operation.run, Loop.createContext, same, stamps]
      · intro c
        have stamps := stamped.long c
        by_cases same : c = context <;> simp [Operation.run, Loop.createContext, same, stamps]
    | accept context s => exact ⟨stamped.short, stamped.long⟩
    | connect context s => exact ⟨stamped.short, stamped.long⟩
    | promote s => exact ⟨stamped.short, stamped.long⟩
    | timeout s seconds => exact ⟨stamped.short, stamped.long⟩
    | longTimeout s minutes => exact ⟨stamped.short, stamped.long⟩
    | close s => exact stamped.congr (close_clocks loop s)
    | closeConnecting s => exact stamped.congr (closeConnecting_clocks loop s)
    | adopt context s s' =>
      rcases adoptSocket_clocks loop context s s' with same | forgotten
      · exact stamped.congr same
      · have forgets : (loop.forgetTimeouts s').Stamped := ⟨stamped.short, stamped.long⟩
        exact forgets.congr forgotten
    | readable s lowPrio => exact stamped.congr (readable_clocks loop s lowPrio)
    | handleLowPrioritySockets => exact stamped.congr (handleLowPrioritySockets_clocks loop)
    | freeClosedSockets => exact ⟨stamped.short, stamped.long⟩
  · exact stamped

theorem leaves_deadline (member : x ∈ loop.allocated) (operation : Operation) (leaves : operation.Leaves timer x) :
    timer.deadline (loop.apply operation) x = timer.deadline loop x := by
  unfold Loop.apply
  split
  · rename_i possible
    have fresh : ∀ context s established, s ∉ loop.allocated →
        timer.deadline ((loop.allocate context s established).linkSocket context s) x = timer.deadline loop x := by
      intro context s established new
      have other : x ≠ s := by
        rintro rfl
        exact new member
      cases timer <;> simp [Timer.deadline, Loop.linkSocket, Loop.allocate, other]
    cases operation with
    | createContext context => cases timer <;> rfl
    | accept context s => exact fresh context s true possible.2.2
    | connect context s => exact fresh context s false possible.2.2
    | promote s => cases timer <;> rfl
    | timeout s seconds =>
      cases timer with
      | short => exact Function.update_of_ne (Ne.symm (leaves rfl)) ..
      | long => rfl
    | longTimeout s minutes =>
      cases timer with
      | short => rfl
      | long => exact Function.update_of_ne (Ne.symm (leaves rfl)) ..
    | close s => exact congrFun (timer.deadline_congr (close_clocks loop s)) x
    | closeConnecting s => exact congrFun (timer.deadline_congr (closeConnecting_clocks loop s)) x
    | adopt context s s' =>
      have other : x ≠ s' := by
        rintro rfl
        rcases possible.2.2 with same | ⟨-, new⟩
        · exact leaves same.symm
        · exact new member
      rcases adoptSocket_clocks loop context s s' with same | forgotten
      · exact congrFun (timer.deadline_congr same) x
      · refine (congrFun (timer.deadline_congr forgotten) x).trans ?_
        cases timer <;> exact Function.update_of_ne other ..
    | readable s lowPrio => exact congrFun (timer.deadline_congr (readable_clocks loop s lowPrio)) x
    | handleLowPrioritySockets => exact congrFun (timer.deadline_congr (handleLowPrioritySockets_clocks loop)) x
    | freeClosedSockets => cases timer <;> rfl
  · rfl

theorem apply_tick {context : Address} (known : context ∈ loop.contexts) (operation : Operation) :
    (loop.apply operation).globalTick context = loop.globalTick context := by
  have congr : ∀ {loop' : Loop}, loop'.clocks = loop.clocks → loop'.globalTick context = loop.globalTick context := by
    intro loop' same
    simp only [Loop.clocks, Prod.mk.injEq] at same
    rw [same.2.2.1]
  unfold Loop.apply
  split
  · rename_i possible
    cases operation with
    | createContext new =>
      have other : context ≠ new := by
        rintro rfl
        exact possible.2 known
      exact Function.update_of_ne other ..
    | accept context s => rfl
    | connect context s => rfl
    | promote s => rfl
    | timeout s seconds => rfl
    | longTimeout s minutes => rfl
    | close s => exact congr (close_clocks loop s)
    | closeConnecting s => exact congr (closeConnecting_clocks loop s)
    | adopt context s s' =>
      rcases adoptSocket_clocks loop context s s' with same | forgotten
      · exact congr same
      · simp only [Loop.clocks, Prod.mk.injEq] at forgotten
        simp only [Operation.run]
        rw [forgotten.2.2.1]
        rfl
    | readable s lowPrio => exact congr (readable_clocks loop s lowPrio)
    | handleLowPrioritySockets => exact congr (handleLowPrioritySockets_clocks loop)
    | freeClosedSockets => rfl
  · rfl

theorem leaves_open (threaded : Threaded loop lists none) (member : x ∈ loop.allocated) (opened : ¬ loop.isClosed x)
    (operation : Operation) (leaves : operation.Leaves timer x) :
    x ∈ (loop.apply operation).allocated ∧ (loop.apply operation).context x = loop.context x ∧
      IsNeighbour ((loop.apply operation).prev x) := by
  have own := (opened_iff threaded member).mp opened
  have open_neighbour : ∀ s ∈ loop.allocated, ¬ loop.isClosed s → IsNeighbour (loop.prev s) :=
    fun s listed => (opened_iff threaded listed).mp
  unfold Loop.apply
  split
  · rename_i possible
    have fresh : ∀ context s established, s.IsSocket → s ∉ loop.allocated →
        x ∈ ((loop.allocate context s established).linkSocket context s).allocated ∧
          ((loop.allocate context s established).linkSocket context s).context x = loop.context x ∧
          IsNeighbour (((loop.allocate context s established).linkSocket context s).prev x) := by
      intro context s established socket new
      have other : x ≠ s := by
        rintro rfl
        exact new member
      refine ⟨List.mem_cons_of_mem _ member, ?_, linkSocket_neighbour context own socket⟩
      simp [Loop.linkSocket, Loop.allocate, other]
    cases operation with
    | createContext context => exact ⟨member, rfl, own⟩
    | accept context s => exact fresh context s true possible.2.1 possible.2.2
    | connect context s => exact fresh context s false possible.2.1 possible.2.2
    | promote s => exact ⟨member, rfl, own⟩
    | timeout s seconds => exact ⟨member, rfl, own⟩
    | longTimeout s minutes => exact ⟨member, rfl, own⟩
    | close s =>
      refine ⟨?_, ?_, close_neighbour own leaves (open_neighbour s possible)⟩
      · rwa [Operation.run, Machine.close_allocated]
      · rw [Operation.run, Machine.close_context]
    | closeConnecting s =>
      refine ⟨?_, ?_, closeConnecting_neighbour own leaves (open_neighbour s possible.1)⟩
      · rwa [Operation.run, Machine.closeConnecting_allocated]
      · rw [Operation.run, Machine.closeConnecting_context]
    | adopt context s s' =>
      obtain ⟨listed, known, address⟩ := possible
      have away : s' ≠ x := by
        rintro rfl
        rcases address with same | ⟨-, new⟩
        · exact leaves same.symm
        · exact new member
      have socket : s'.IsSocket := by
        rcases address with same | ⟨socket, -⟩
        · rw [same]
          exact (threaded.kinds s listed).1
        · exact socket
      have left : x ≠ s := Ne.symm leaves
      refine ⟨?_, ?_, adoptSocket_neighbour context own away socket (open_neighbour s listed)⟩
      · simp only [Operation.run]
        unfold Loop.adoptSocket
        split
        · exact member
        · split <;> simp [Loop.relinkLowPriority, Loop.linkSocket, Loop.forgetTimeouts, Loop.resize, member, left]
      · simp only [Operation.run]
        unfold Loop.adoptSocket
        split
        · rfl
        · split <;> simp [Loop.relinkLowPriority, Loop.linkSocket, Loop.forgetTimeouts, Loop.resize, Ne.symm away]
    | readable s lowPrio =>
      have socket := (threaded.kinds s possible.1).1
      refine ⟨?_, ?_, readable_neighbour own socket (open_neighbour s possible.1 possible.2.1)⟩
      · rwa [Operation.run, Machine.readable_allocated]
      · rw [Operation.run, Machine.readable_context]
    | handleLowPrioritySockets =>
      have budgeted : Threaded { loop with lowPrioBudget := Loop.maxLowPrioSocketsPerLoopIteration } lists none :=
        ⟨threaded.family, threaded.allocated, threaded.out, threaded.sockets, threaded.queued, threaded.closed,
          threaded.kinds, threaded.contexts⟩
      obtain ⟨context, allocated⟩ := Machine.unparks_context Loop.maxLowPrioSocketsPerLoopIteration
        { loop with lowPrioBudget := Loop.maxLowPrioSocketsPerLoopIteration }
      refine ⟨?_, ?_, unparks_neighbour budgeted _ own⟩
      · rw [Operation.run, Loop.handleLowPrioritySockets, allocated]
        exact member
      · rw [Operation.run, Loop.handleLowPrioritySockets, context]
    | freeClosedSockets =>
      refine ⟨?_, rfl, own⟩
      rw [Operation.run, Loop.freeClosedSockets, threaded.walk_closed]
      apply List.mem_filter.mpr
      refine ⟨member, ?_⟩
      have out : x ∉ lists .closed := fun inside => opened ((threaded.isClosed_iff member).mpr inside)
      simpa using out
  · exact ⟨member, rfl, own⟩

theorem apply_leaves (threaded : Threaded loop lists none) (member : x ∈ loop.allocated) (opened : ¬ loop.isClosed x)
    (operation : Operation) (leaves : operation.Leaves timer x) : LeftAlone timer x loop (loop.apply operation) := by
  obtain ⟨allocated, context, neighbour⟩ := leaves_open threaded member opened operation leaves
  obtain ⟨among, outcome⟩ := apply_outcome threaded operation
  have known := (threaded.kinds x member).2
  exact ⟨allocated, (opened_iff outcome.threaded allocated).mpr neighbour, context,
    leaves_deadline member operation leaves, apply_tick known operation⟩

end Leaves

end Uws.Sweep
