import Uws.Sweep.ListInvariant

namespace Uws.Sweep

open Uws.LinkedList

variable {loop : Loop} {lists : Place → List Address} {s s' context : Address} {pre post : List Address}

theorem Loop.walk_linked {next : Address → Option Address} {head : Option Address} {l : List Address} {length : Nat}
    (linked : Linked next head l) (long : l.length ≤ length) : Loop.walk next length head = l := by
  induction l generalizing head length with
  | nil =>
    have first := linked.head
    subst first
    cases length <;> rfl
  | cons a rest ih =>
    have first := linked.head
    subst first
    cases length with
    | zero => simp at long
    | succ length =>
      obtain ⟨after, same, behind⟩ := linked.tail
      cases same
      simp only [List.head?_cons, Loop.walk]
      rw [ih behind (by simpa using long)]

namespace Threaded

theorem allocate (threaded : Threaded loop lists none) (established : Bool) (known : context ∈ loop.contexts)
    (socket : s.IsSocket) (new : s ∉ loop.allocated) :
    Threaded (loop.allocate context s established) lists (some s) := by
  have ne : ∀ x ∈ loop.allocated, x ≠ s := by
    rintro x member rfl
    exact new member
  have out : ∀ place, s ∉ lists place := fun place member => new (threaded.member member)
  unfold Loop.allocate
  refine ⟨threaded.family, ?_, ?_, ?_, ?_, ?_, ?_, threaded.contexts⟩
  · intro x
    simp only [List.mem_cons, Option.some.injEq]
    rw [threaded.allocated x, or_comm]
    simp [eq_comm]
  · rintro x loose
    cases loose
    exact out
  · intro other x member
    have away := ne x (threaded.member member)
    simp only [Function.update_of_ne away]
    exact threaded.sockets other x member
  · intro x member
    have away := ne x (threaded.member member)
    simp only [Function.update_of_ne away]
    exact threaded.queued x member
  · intro x member
    have away := ne x (threaded.member member)
    simp only [Function.update_of_ne away]
    exact threaded.closed x member
  · intro x member
    rcases List.mem_cons.mp member with rfl | member
    · simpa using ⟨socket, known⟩
    · simp only [Function.update_of_ne (ne x member)]
      exact threaded.kinds x member

theorem resize (threaded : Threaded loop lists (some s))
    (new : s' = s ∨ s'.IsSocket ∧ s' ∉ loop.allocated) : Threaded (loop.resize s s') lists (some s') := by
  have out : ∀ place, s' ∉ lists place := by
    rcases new with rfl | ⟨-, fresh⟩
    · exact threaded.out s' rfl
    · exact fun place member => fresh (threaded.member member)
  have ne : ∀ place, ∀ x ∈ lists place, x ≠ s' := by
    rintro place x member rfl
    exact out place member
  have own := (threaded.allocated s).mpr (.inr rfl)
  unfold Loop.resize
  refine ⟨threaded.family.scribble out _ _, ?_, ?_, ?_, ?_, ?_, ?_, threaded.contexts⟩
  · intro x
    simp only [List.mem_cons, List.mem_filter, decide_eq_true_eq, Option.some.injEq]
    rw [threaded.allocated x]
    constructor
    · rintro (rfl | ⟨listed | loose, ne⟩)
      · exact .inr rfl
      · exact .inl listed
      · cases loose
        exact absurd rfl ne
    · rintro (⟨place, member⟩ | rfl)
      · refine .inr ⟨.inl ⟨place, member⟩, ?_⟩
        rintro rfl
        exact threaded.out x rfl place member
      · exact .inl rfl
  · rintro x loose
    cases loose
    exact out
  · intro other x member
    simp only [Function.update_of_ne (ne _ x member)]
    exact threaded.sockets other x member
  · intro x member
    simp only [Function.update_of_ne (ne _ x member)]
    exact threaded.queued x member
  · intro x member
    simp only [Function.update_of_ne (ne _ x member)]
    exact threaded.closed x member
  · intro x member
    by_cases same : x = s'
    · subst same
      have owned := threaded.kinds s own
      simp only [Function.update_self]
      refine ⟨?_, owned.2⟩
      rcases new with rfl | ⟨socket, -⟩
      · exact owned.1
      · exact socket
    · rcases List.mem_cons.mp member with rfl | member
      · exact absurd rfl same
      · simp only [Function.update_of_ne same]
        exact threaded.kinds x (List.mem_filter.mp member).1

theorem forgetTimeouts {loose : Option Address} (threaded : Threaded loop lists loose) (s : Address) :
    Threaded (loop.forgetTimeouts s) lists loose :=
  ⟨threaded.family, threaded.allocated, threaded.out, threaded.sockets, threaded.queued, threaded.closed,
    threaded.kinds, threaded.contexts⟩

theorem resize_queued (threaded : Threaded loop lists none) (split : lists .queue = pre ++ s :: post)
    (new : s' = s ∨ s'.IsSocket ∧ s' ∉ loop.allocated) :
    Threaded (((loop.resize s s').forgetTimeouts s').relinkLowPriority s')
      (Function.update lists .queue (pre ++ s' :: post)) none := by
  have inside : s ∈ lists .queue := by simp [split]
  have fresh : s' = s ∨ ∀ place, s' ∉ lists place := by
    rcases new with same | ⟨-, fresh⟩
    · exact .inl same
    · exact .inr fun place member => fresh (threaded.member member)
  have replaced : ∀ x place, x ∈ Function.update lists .queue (pre ++ s' :: post) place ↔
      x ∈ lists place ∧ x ≠ s ∨ place = .queue ∧ x = s' := by
    intro x place
    rw [Family.mem_replace split, threaded.family.mem_unlink split]
  have ne : ∀ place, ∀ x ∈ lists place, x ≠ s → x ≠ s' := by
    rintro place x member other rfl
    rcases fresh with same | out
    · exact other same
    · exact out place member
  unfold Loop.relinkLowPriority Loop.forgetTimeouts Loop.resize
  simp only [Function.update_self]
  refine ⟨?_, ?_, ?_, ?_, ?_, ?_, ?_, threaded.contexts⟩
  · exact family_queue (threaded.family.replace (by simp) split fresh) rfl rfl rfl
  · intro x
    simp only [replaced, List.mem_cons, List.mem_filter, decide_eq_true_eq, reduceCtorEq, or_false]
    rw [threaded.allocated x]
    constructor
    · rintro (rfl | ⟨⟨place, member⟩ | loose, other⟩)
      · exact ⟨.queue, .inr ⟨rfl, rfl⟩⟩
      · exact ⟨place, .inl ⟨member, other⟩⟩
      · cases loose
    · rintro ⟨place, ⟨member, other⟩ | ⟨-, rfl⟩⟩
      · exact .inr ⟨.inl ⟨place, member⟩, other⟩
      · exact .inl rfl
  · intro x loose
    cases loose
  · intro other x member
    rcases (replaced x _).mp member with ⟨old, away⟩ | ⟨own, -⟩
    · simp only [Function.update_of_ne (ne _ x old away)]
      exact threaded.sockets other x old
    · cases own
  · intro x member
    rcases (replaced x _).mp member with ⟨old, away⟩ | ⟨-, rfl⟩
    · simp only [Function.update_of_ne (ne _ x old away)]
      exact threaded.queued x old
    · simp only [Function.update_self]
      exact threaded.queued s inside
  · intro x member
    rcases (replaced x _).mp member with ⟨old, away⟩ | ⟨own, -⟩
    · have notAfter : loop.next s ≠ some x := by
        intro after
        cases threaded.place_unique old (threaded.family.next_mem split after)
      simp only [Function.update_of_ne (ne _ x old away)]
      exact (relink_ne _ _ notAfter).trans
        ((Function.update_of_ne (ne _ x old away) ..).trans (threaded.closed x old))
    · cases own
  · intro x member
    rcases List.mem_cons.mp member with rfl | member
    · simp only [Function.update_self]
      have owned := threaded.kinds s (threaded.member inside)
      refine ⟨?_, owned.2⟩
      rcases new with rfl | ⟨socket, -⟩
      · exact owned.1
      · exact socket
    · obtain ⟨old, other⟩ := List.mem_filter.mp member
      obtain ⟨place, listed⟩ := threaded.listed old
      have away := ne place x listed (by simpa using other)
      simp only [Function.update_of_ne away]
      exact threaded.kinds x old

theorem markUnparked (threaded : Threaded loop lists (some s)) :
    Threaded { loop with lowPrioState := Function.update loop.lowPrioState s 2 } lists (some s) := by
  have ne : ∀ place, ∀ x ∈ lists place, x ≠ s := by
    rintro place x member rfl
    exact threaded.out x rfl place member
  refine ⟨threaded.family, threaded.allocated, threaded.out, ?_, ?_, threaded.closed, threaded.kinds,
    threaded.contexts⟩
  · intro other x member
    simp only [Function.update_of_ne (ne _ x member)]
    exact threaded.sockets other x member
  · intro x member
    simp only [Function.update_of_ne (ne _ x member)]
    exact threaded.queued x member

theorem unpark_eq (first : loop.prev s = none) :
    loop.unpark s =
      Loop.linkSocket
        { loop.leaveLowPriority s with
          lowPrioState := Function.update (loop.leaveLowPriority s).lowPrioState s 2 } (loop.context s) s := by
  simp [Loop.unpark, Loop.leaveLowPriority, Loop.linkSocket, first, Function.update_idem]

theorem unpark (threaded : Threaded loop lists none) (split : lists .queue = s :: post) :
    Threaded (loop.unpark s)
      (Function.update (Function.update lists .queue post) (.sockets (loop.context s))
        (s :: lists (.sockets (loop.context s)))) none := by
  have inside : s ∈ lists .queue := by simp [split]
  have first : loop.prev s = none := (threaded.family.doubly .queue (by simp)).prev [] s post split
  have bare : lists .queue = [] ++ s :: post := by simpa using split
  have left := (threaded.leaveLowPriority bare).markUnparked
  have linked := left.linkSocket (threaded.kinds s (threaded.member inside)).2 (by simp)
  rw [unpark_eq first]
  simpa using linked

theorem walk_suffix (threaded : Threaded loop lists none) {place : Place} {todo : List Address}
    (suffix : todo <:+ lists place) : Loop.walk loop.next loop.allocated.length todo.head? = todo := by
  have linked := (threaded.family.linked place).suffix suffix
  apply Loop.walk_linked linked
  exact (linked.nodup.subperm fun x member => threaded.member (suffix.subset member)).length_le

theorem walk_closed (threaded : Threaded loop lists none) :
    Loop.walk loop.next loop.allocated.length loop.closedHead = lists .closed := by
  have head : loop.closedHead = (lists .closed).head? := (threaded.family.linked .closed).head
  rw [head]
  exact threaded.walk_suffix (List.suffix_refl _)

theorem freeClosedSockets (threaded : Threaded loop lists none) :
    Threaded loop.freeClosedSockets (Function.update lists .closed []) none := by
  have walked := threaded.walk_closed
  have kept : ∀ x place, x ∈ Function.update lists .closed [] place ↔ x ∈ lists place ∧ place ≠ .closed := by
    intro x place
    by_cases same : place = .closed <;> simp [same]
  unfold Loop.freeClosedSockets
  rw [walked]
  refine ⟨?_, ?_, ?_, ?_, ?_, ?_, ?_, threaded.contexts⟩
  · exact family_closed (threaded.family.clear .closed) rfl rfl rfl
  · intro x
    simp only [kept, List.mem_filter, decide_eq_true_eq, reduceCtorEq, or_false]
    rw [threaded.allocated x]
    constructor
    · rintro ⟨⟨place, member⟩ | loose, out⟩
      · refine ⟨place, member, ?_⟩
        rintro rfl
        exact out member
      · cases loose
    · rintro ⟨place, member, other⟩
      refine ⟨.inl ⟨place, member⟩, ?_⟩
      intro closed
      exact other (threaded.place_unique member closed)
  · intro x loose
    cases loose
  · intro other x member
    exact threaded.sockets other x ((kept x _).mp member).1
  · intro x member
    exact threaded.queued x ((kept x _).mp member).1
  · intro x member
    exact absurd rfl ((kept x _).mp member).2
  · intro x member
    exact threaded.kinds x (List.mem_filter.mp member).1

theorem createContext (threaded : Threaded loop lists none) (kind : ¬ context.IsSocket) (new : context ∉ loop.contexts) :
    Threaded (loop.createContext context) lists none := by
  have empty : lists (.sockets context) = [] := by
    apply List.eq_nil_iff_forall_not_mem.mpr
    intro x member
    have owned := (threaded.kinds x (threaded.member member)).2
    rw [(threaded.sockets context x member).1] at owned
    exact new owned
  have unchanged : Function.update lists (.sockets context) [] = lists := by
    rw [← empty]
    exact Function.update_eq_self ..
  unfold Loop.createContext
  refine ⟨?_, threaded.allocated, threaded.out, threaded.sockets, threaded.queued, threaded.closed, ?_, ?_⟩
  · have cleared := threaded.family.clear (.sockets context)
    rw [unchanged] at cleared
    exact family_sockets cleared rfl rfl rfl
  · intro x member
    exact ⟨(threaded.kinds x member).1, List.mem_cons_of_mem _ (threaded.kinds x member).2⟩
  · intro other member
    rcases List.mem_cons.mp member with rfl | member
    · exact kind
    · exact threaded.contexts other member

end Threaded

end Uws.Sweep
