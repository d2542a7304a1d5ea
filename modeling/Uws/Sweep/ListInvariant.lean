import Uws.Sweep.SocketLists

/-! What holds of the lists between two operations, and between the parts of one. -/

namespace Uws.Sweep

open Uws.LinkedList

inductive Place where
  | sockets (context : Address)
  | queue
  | closed
  deriving DecidableEq

def Loop.heads (loop : Loop) : Place → Option Address
  | .sockets context => loop.headSockets context
  | .queue => loop.lowPrioHead
  | .closed => loop.closedHead

/-- The sockets of `lists` are all that are allocated but for `loose`, which is on its way from one list to another. -/
structure Threaded (loop : Loop) (lists : Place → List Address) (loose : Option Address) : Prop where
  family : Family loop.next loop.prev (· ≠ .closed) loop.heads lists
  allocated : ∀ s, s ∈ loop.allocated ↔ (∃ place, s ∈ lists place) ∨ loose = some s
  out : ∀ s, loose = some s → ∀ place, s ∉ lists place
  sockets : ∀ context, ∀ s ∈ lists (.sockets context), loop.context s = context ∧ loop.lowPrioState s ≠ 1
  queued : ∀ s ∈ lists .queue, loop.lowPrioState s = 1 ∧ loop.established s = true
  closed : ∀ s ∈ lists .closed, loop.prev s = some (loop.context s)
  kinds : ∀ s ∈ loop.allocated, s.IsSocket ∧ loop.context s ∈ loop.contexts
  contexts : ∀ context ∈ loop.contexts, ¬ context.IsSocket

variable {loop loop' : Loop} {lists : Place → List Address} {s s' context : Address} {pre post : List Address}

section Heads

variable {back : Place → Prop} {first : Option Address}

theorem family_sockets
    (family : Family loop'.next loop'.prev back (Function.update loop.heads (.sockets context) first) lists)
    (sockets : loop'.headSockets = Function.update loop.headSockets context first)
    (queue : loop'.lowPrioHead = loop.lowPrioHead) (closed : loop'.closedHead = loop.closedHead) :
    Family loop'.next loop'.prev back loop'.heads lists := by
  have heads : loop'.heads = Function.update loop.heads (.sockets context) first := by
    funext place
    cases place with
    | sockets other => by_cases same : other = context <;> simp [Loop.heads, sockets, same]
    | queue => simpa [Loop.heads] using queue
    | closed => simpa [Loop.heads] using closed
  rw [heads]
  exact family

theorem family_queue (family : Family loop'.next loop'.prev back (Function.update loop.heads .queue first) lists)
    (sockets : loop'.headSockets = loop.headSockets) (queue : loop'.lowPrioHead = first)
    (closed : loop'.closedHead = loop.closedHead) : Family loop'.next loop'.prev back loop'.heads lists := by
  have heads : loop'.heads = Function.update loop.heads .queue first := by
    funext place
    cases place with
    | sockets other => simp [Loop.heads, sockets]
    | queue => simpa [Loop.heads] using queue
    | closed => simpa [Loop.heads] using closed
  rw [heads]
  exact family

theorem family_closed (family : Family loop'.next loop'.prev back (Function.update loop.heads .closed first) lists)
    (sockets : loop'.headSockets = loop.headSockets) (queue : loop'.lowPrioHead = loop.lowPrioHead)
    (closed : loop'.closedHead = first) : Family loop'.next loop'.prev back loop'.heads lists := by
  have heads : loop'.heads = Function.update loop.heads .closed first := by
    funext place
    cases place with
    | sockets other => simp [Loop.heads, sockets]
    | queue => simpa [Loop.heads] using queue
    | closed => simpa [Loop.heads] using closed
  rw [heads]
  exact family

end Heads

namespace Threaded

theorem place_unique (threaded : Threaded loop lists none) {here there : Place} (left : s ∈ lists here)
    (right : s ∈ lists there) : here = there :=
  threaded.family.apart here there s left right

theorem listed (threaded : Threaded loop lists none) (member : s ∈ loop.allocated) : ∃ place, s ∈ lists place := by
  rcases (threaded.allocated s).mp member with listed | loose
  · exact listed
  · cases loose

theorem member {place : Place} {loose : Option Address} (threaded : Threaded loop lists loose) (member : s ∈ lists place) :
    s ∈ loop.allocated :=
  (threaded.allocated s).mpr (.inl ⟨place, member⟩)

theorem isClosed_iff (threaded : Threaded loop lists none) (member : s ∈ loop.allocated) :
    loop.isClosed s ↔ s ∈ lists .closed := by
  constructor
  · intro closed
    obtain ⟨place, listed⟩ := threaded.listed member
    by_cases there : place = .closed
    · exact there ▸ listed
    · obtain ⟨pre, post, split⟩ := List.append_of_mem listed
      have neighbour := threaded.family.prev_mem there split closed
      have socket := (threaded.kinds _ (threaded.member neighbour)).1
      exact absurd socket (threaded.contexts _ (threaded.kinds s member).2)
  · exact threaded.closed s

theorem open_place (threaded : Threaded loop lists none) (member : s ∈ loop.allocated) (opened : ¬ loop.isClosed s) :
    (s ∈ lists .queue ∧ loop.lowPrioState s = 1) ∨
      (s ∈ lists (.sockets (loop.context s)) ∧ loop.lowPrioState s ≠ 1) := by
  obtain ⟨place, listed⟩ := threaded.listed member
  cases place with
  | sockets context =>
    obtain ⟨own, state⟩ := threaded.sockets context s listed
    subst own
    exact .inr ⟨listed, state⟩
  | queue => exact .inl ⟨listed, (threaded.queued s listed).1⟩
  | closed => exact absurd (threaded.closed s listed) opened

theorem in_sockets (threaded : Threaded loop lists none) (member : s ∈ loop.allocated) (opened : ¬ loop.isClosed s)
    (state : loop.lowPrioState s ≠ 1) : s ∈ lists (.sockets (loop.context s)) := by
  rcases threaded.open_place member opened with ⟨-, parked⟩ | ⟨listed, -⟩
  · exact absurd parked state
  · exact listed

theorem in_queue (threaded : Threaded loop lists none) (member : s ∈ loop.allocated) (opened : ¬ loop.isClosed s)
    (state : loop.lowPrioState s = 1) : s ∈ lists .queue := by
  rcases threaded.open_place member opened with ⟨listed, -⟩ | ⟨-, free⟩
  · exact listed
  · exact absurd state free

end Threaded

/-- In a list the test of the source for a single socket does not change what unlinking does. -/
theorem unlinkSocket_eq (family : Family loop.next loop.prev (· ≠ .closed) loop.heads lists)
    (split : lists (.sockets context) = pre ++ s :: post) :
    loop.unlinkSocket context s =
      { loop with
        iterator :=
          if loop.iterator context = some s then Function.update loop.iterator context (loop.next s)
          else loop.iterator
        next := relink loop.next (loop.prev s) (loop.next s)
        headSockets :=
          Function.update loop.headSockets context
            (if loop.prev s = none then loop.next s else loop.headSockets context)
        prev := relink loop.prev (loop.next s) (loop.prev s) } := by
  have doubly := family.doubly (.sockets context) (by simp)
  rw [split] at doubly
  have plain : loop.unlinkSocket context s =
      if loop.prev s = loop.next s then
        { loop with
          iterator :=
            if loop.iterator context = some s then Function.update loop.iterator context (loop.next s)
            else loop.iterator
          headSockets := Function.update loop.headSockets context none }
      else
        { loop with
          iterator :=
            if loop.iterator context = some s then Function.update loop.iterator context (loop.next s)
            else loop.iterator
          next := relink loop.next (loop.prev s) (loop.next s)
          headSockets :=
            if loop.prev s = none then Function.update loop.headSockets context (loop.next s) else loop.headSockets
          prev := relink loop.prev (loop.next s) (loop.prev s) } := by
    unfold Loop.unlinkSocket
    by_cases iterated : loop.iterator context = some s <;> simp [iterated]
  rw [plain]
  by_cases alone : loop.prev s = loop.next s
  · obtain ⟨rfl, rfl⟩ := doubly.alone_iff.mp alone
    have before : loop.prev s = none := doubly.prev_at
    have after : loop.next s = none := doubly.next_at
    rw [if_pos alone]
    simp [before, after]
  · rw [if_neg alone]
    by_cases first : loop.prev s = none
    · simp [first]
    · simp [first]

namespace Threaded

theorem unlinkSocket (threaded : Threaded loop lists none) (split : lists (.sockets context) = pre ++ s :: post) :
    Threaded (loop.unlinkSocket context s) (Function.update lists (.sockets context) (pre ++ post)) (some s) := by
  rw [unlinkSocket_eq threaded.family split]
  have removed : ∀ x place, x ∈ Function.update lists (.sockets context) (pre ++ post) place ↔ x ∈ lists place ∧ x ≠ s :=
    fun x place => threaded.family.mem_unlink split
  have inside : s ∈ lists (.sockets context) := by simp [split]
  refine ⟨?_, ?_, ?_, ?_, ?_, ?_, threaded.kinds, threaded.contexts⟩
  · exact family_sockets (threaded.family.unlink (by simp) split) rfl rfl rfl
  · intro x
    simp only [removed, Option.some.injEq]
    rw [threaded.allocated x]
    by_cases same : s = x
    · subst same
      simpa using ⟨_, inside⟩
    · simp [same, Ne.symm same]
  · rintro x loose place member
    cases loose
    exact ((removed s place).mp member).2 rfl
  · intro other x member
    exact threaded.sockets other x ((removed x _).mp member).1
  · intro x member
    exact threaded.queued x ((removed x _).mp member).1
  · intro x member
    have closed := ((removed x _).mp member).1
    have out : x ∉ lists (.sockets context) := fun own => by cases threaded.place_unique closed own
    exact (threaded.family.relink_next_out split _ out).trans (threaded.closed x closed)

theorem linkSocket (threaded : Threaded loop lists (some s)) (known : context ∈ loop.contexts)
    (state : loop.lowPrioState s ≠ 1) :
    Threaded (loop.linkSocket context s)
      (Function.update lists (.sockets context) (s :: lists (.sockets context))) none := by
  have out := threaded.out s rfl
  have pushed : ∀ x place, x ∈ Function.update lists (.sockets context) (s :: lists (.sockets context)) place ↔
      x ∈ lists place ∨ place = .sockets context ∧ x = s := fun x place => Family.mem_push
  have ne : ∀ place, ∀ x ∈ lists place, x ≠ s := by
    rintro place x member rfl
    exact out place member
  unfold Loop.linkSocket
  refine ⟨?_, ?_, ?_, ?_, ?_, ?_, ?_, threaded.contexts⟩
  · exact family_sockets (threaded.family.push (.sockets context) (by simp) out) rfl rfl rfl
  · intro x
    simp only [pushed, reduceCtorEq, or_false]
    rw [threaded.allocated x]
    constructor
    · rintro (⟨place, member⟩ | loose)
      · exact ⟨place, .inl member⟩
      · cases loose
        exact ⟨.sockets context, .inr ⟨rfl, rfl⟩⟩
    · rintro ⟨place, member | ⟨-, rfl⟩⟩
      · exact .inl ⟨place, member⟩
      · exact .inr rfl
  · intro x loose
    cases loose
  · intro other x member
    rcases (pushed x _).mp member with old | ⟨own, rfl⟩
    · simp only [Function.update_of_ne (ne _ x old)]
      exact threaded.sockets other x old
    · cases own
      exact ⟨Function.update_self .., state⟩
  · intro x member
    rcases (pushed x _).mp member with old | ⟨own, -⟩
    · exact threaded.queued x old
    · cases own
  · intro x member
    rcases (pushed x _).mp member with old | ⟨own, -⟩
    · have away : loop.headSockets context ≠ some x := by
        intro first
        have head := (threaded.family.linked (.sockets context)).head
        simp only [Loop.heads] at head
        rw [head] at first
        cases threaded.family.apart _ _ x old (List.mem_of_head? first)
      simp only [Function.update_of_ne (ne _ x old)]
      rw [relink_ne _ _ away, Function.update_of_ne (ne _ x old)]
      exact threaded.closed x old
    · cases own
  · intro x member
    obtain ⟨socket, owned⟩ := threaded.kinds x member
    refine ⟨socket, ?_⟩
    by_cases same : x = s
    · subst same
      simpa using known
    · simpa [same] using owned

theorem linkClosed (threaded : Threaded loop lists (some s)) :
    Threaded (loop.linkClosed s) (Function.update lists .closed (s :: lists .closed)) none := by
  have out := threaded.out s rfl
  have pushed : ∀ x place, x ∈ Function.update lists .closed (s :: lists .closed) place ↔
      x ∈ lists place ∨ place = .closed ∧ x = s := fun x place => Family.mem_push
  unfold Loop.linkClosed
  refine ⟨?_, ?_, ?_, ?_, ?_, ?_, threaded.kinds, threaded.contexts⟩
  · exact family_closed (threaded.family.stack .closed (by simp) out _) rfl rfl rfl
  · intro x
    simp only [pushed, reduceCtorEq, or_false]
    rw [threaded.allocated x]
    constructor
    · rintro (⟨place, member⟩ | loose)
      · exact ⟨place, .inl member⟩
      · cases loose
        exact ⟨.closed, .inr ⟨rfl, rfl⟩⟩
    · rintro ⟨place, member | ⟨-, rfl⟩⟩
      · exact .inl ⟨place, member⟩
      · exact .inr rfl
  · intro x loose
    cases loose
  · intro other x member
    rcases (pushed x _).mp member with old | ⟨own, -⟩
    · exact threaded.sockets other x old
    · cases own
  · intro x member
    rcases (pushed x _).mp member with old | ⟨own, -⟩
    · exact threaded.queued x old
    · cases own
  · intro x member
    rcases (pushed x _).mp member with old | ⟨-, rfl⟩
    · have ne : x ≠ s := by
        rintro rfl
        exact out _ old
      simp only [Function.update_of_ne ne]
      exact threaded.closed x old
    · exact Function.update_self ..

theorem linkLowPriority (threaded : Threaded loop lists (some s)) (established : loop.established s = true) :
    Threaded (loop.linkLowPriority s) (Function.update lists .queue (s :: lists .queue)) none := by
  have out := threaded.out s rfl
  have pushed : ∀ x place, x ∈ Function.update lists .queue (s :: lists .queue) place ↔
      x ∈ lists place ∨ place = .queue ∧ x = s := fun x place => Family.mem_push
  have ne : ∀ place, ∀ x ∈ lists place, x ≠ s := by
    rintro place x member rfl
    exact out place member
  unfold Loop.linkLowPriority
  refine ⟨?_, ?_, ?_, ?_, ?_, ?_, threaded.kinds, threaded.contexts⟩
  · exact family_queue (threaded.family.push .queue (by simp) out) rfl rfl rfl
  · intro x
    simp only [pushed, reduceCtorEq, or_false]
    rw [threaded.allocated x]
    constructor
    · rintro (⟨place, member⟩ | loose)
      · exact ⟨place, .inl member⟩
      · cases loose
        exact ⟨.queue, .inr ⟨rfl, rfl⟩⟩
    · rintro ⟨place, member | ⟨-, rfl⟩⟩
      · exact .inl ⟨place, member⟩
      · exact .inr rfl
  · intro x loose
    cases loose
  · intro other x member
    rcases (pushed x _).mp member with old | ⟨own, -⟩
    · simp only [Function.update_of_ne (ne _ x old)]
      exact threaded.sockets other x old
    · cases own
  · intro x member
    rcases (pushed x _).mp member with old | ⟨-, rfl⟩
    · simp only [Function.update_of_ne (ne _ x old)]
      exact threaded.queued x old
    · exact ⟨Function.update_self .., established⟩
  · intro x member
    rcases (pushed x _).mp member with old | ⟨own, -⟩
    · have away : loop.lowPrioHead ≠ some x := by
        intro first
        have head := (threaded.family.linked .queue).head
        simp only [Loop.heads] at head
        rw [head] at first
        cases threaded.family.apart _ _ x old (List.mem_of_head? first)
      exact (relink_ne _ _ away).trans ((Function.update_of_ne (ne _ x old) ..).trans (threaded.closed x old))
    · cases own

theorem leaveLowPriority (threaded : Threaded loop lists none) (split : lists .queue = pre ++ s :: post) :
    Threaded (loop.leaveLowPriority s) (Function.update lists .queue (pre ++ post)) (some s) := by
  have removed : ∀ x place, x ∈ Function.update lists .queue (pre ++ post) place ↔ x ∈ lists place ∧ x ≠ s :=
    fun x place => threaded.family.mem_unlink split
  have inside : s ∈ lists .queue := by simp [split]
  have out : ∀ place, s ∉ Function.update lists .queue (pre ++ post) place :=
    fun place member => ((removed s place).mp member).2 rfl
  unfold Loop.leaveLowPriority
  refine ⟨?_, ?_, ?_, ?_, ?_, ?_, threaded.kinds, threaded.contexts⟩
  · exact family_queue ((threaded.family.unlink (by simp) split).scribble out none none) rfl rfl rfl
  · intro x
    simp only [removed, Option.some.injEq]
    rw [threaded.allocated x]
    by_cases same : s = x
    · subst same
      simpa using ⟨_, inside⟩
    · simp [same, Ne.symm same]
  · rintro x loose place member
    cases loose
    exact out place member
  · intro other x member
    obtain ⟨old, ne⟩ := (removed x _).mp member
    simp only [Function.update_of_ne ne]
    exact threaded.sockets other x old
  · intro x member
    obtain ⟨old, ne⟩ := (removed x _).mp member
    simp only [Function.update_of_ne ne]
    exact threaded.queued x old
  · intro x member
    obtain ⟨old, ne⟩ := (removed x _).mp member
    have away : x ∉ lists .queue := fun own => by cases threaded.place_unique old own
    simp only [Function.update_of_ne ne]
    exact (threaded.family.relink_next_out split _ away).trans (threaded.closed x old)

end Threaded

end Uws.Sweep
