import Uws.Sweep.ListSteps
import Uws.Sweep.TimerSweep

namespace Uws.Sweep

open Uws.LinkedList

/-- The sockets that the sweep of a context has yet to look at. -/
def Phase.pending : Phase → List Address → List Address
  | .idle, _ => []
  | .contexts _, _ => []
  | .seek _ _ _, todo => todo
  | .emit _ _ _ s, todo => todo.filter (· ≠ s)

/-- The sweep stands before `todo`, the end of the list of the context that it is at. -/
def Standing (loop : Loop) (lists : Place → List Address) : Phase → List Address → Prop
  | .idle, _ => True
  | .contexts rest, _ => rest ⊆ loop.contexts
  | .seek context rest cursor, todo =>
    context ∈ loop.contexts ∧ rest ⊆ loop.contexts ∧ cursor = todo.head? ∧ todo <:+ lists (.sockets context)
  | .emit _ context rest s, todo =>
    context ∈ loop.contexts ∧ rest ⊆ loop.contexts ∧ Ahead loop lists context todo ∧ (s ∈ todo → todo.head? = some s)

structure Invariant (m : Machine) (lists : Place → List Address) (todo : List Address) : Prop where
  threaded : Threaded m.loop lists none
  standing : Standing m.loop lists m.phase todo

variable {m : Machine} {lists : Place → List Address} {todo left : List Address} {context s : Address}
  {rest : List Address} {cursor : Option Address} {stage : Stage}

theorem initial_invariant : Invariant {} (fun _ => []) [] := by
  refine ⟨⟨⟨?_, ?_, ?_⟩, ?_, ?_, ?_, ?_, ?_, ?_, ?_⟩, True.intro⟩
  · intro place
    cases place <;> exact Linked.nil
  · intro place _
    cases place <;> exact DoublyLinked.nil
  all_goals simp

namespace Threaded

theorem setIterator (threaded : Threaded m.loop lists none) (context : Address) (at_ : Option Address) :
    Threaded (m.loop.setIterator context at_) lists none :=
  ⟨threaded.family, threaded.allocated, threaded.out, threaded.sockets, threaded.queued, threaded.closed,
    threaded.kinds, threaded.contexts⟩

theorem tick (threaded : Threaded m.loop lists none) (context : Address) : Threaded (m.loop.tick context) lists none :=
  ⟨threaded.family, threaded.allocated, threaded.out, threaded.sockets, threaded.queued, threaded.closed,
    threaded.kinds, threaded.contexts⟩

theorem forgetTimeout {loop : Loop} (threaded : Threaded loop lists none) (s : Address) :
    Threaded (loop.forgetTimeout s) lists none :=
  ⟨threaded.family, threaded.allocated, threaded.out, threaded.sockets, threaded.queued, threaded.closed,
    threaded.kinds, threaded.contexts⟩

theorem forgetLongTimeout (threaded : Threaded m.loop lists none) (s : Address) :
    Threaded (m.loop.forgetLongTimeout s) lists none :=
  ⟨threaded.family, threaded.allocated, threaded.out, threaded.sockets, threaded.queued, threaded.closed,
    threaded.kinds, threaded.contexts⟩

theorem suffix_nodup {loop : Loop} (threaded : Threaded loop lists none) (suffix : todo <:+ lists (.sockets context)) :
    todo.Nodup :=
  suffix.sublist.nodup (threaded.family.linked (.sockets context)).nodup

theorem next_of_suffix {loop : Loop} (threaded : Threaded loop lists none)
    (suffix : s :: left <:+ lists (.sockets context)) : loop.next s = left.head? := by
  obtain ⟨passed, whole⟩ := suffix
  exact (threaded.family.linked (.sockets context)).next passed s left whole.symm

end Threaded

theorem filter_self {l : List Address} (nodup : (s :: l).Nodup) : (s :: l).filter (· ≠ s) = l := by
  have out := (List.nodup_cons.mp nodup).1
  rw [List.filter_cons_of_neg (by simp)]
  apply List.filter_eq_self.mpr
  intro x member
  have ne : x ≠ s := by
    rintro rfl
    exact out member
  simpa using ne

theorem filter_absent {l : List Address} (absent : s ∉ l) : l.filter (· ≠ s) = l := by
  apply List.filter_eq_self.mpr
  intro x member
  have ne : x ≠ s := by
    rintro rfl
    exact absent member
  simpa using ne

theorem tick_invariant (inv : Invariant m lists todo) (phase : m.phase = .contexts (context :: rest)) :
    Invariant m.proceed lists (lists (.sockets context)) ∧
      m.proceed.phase = .seek context rest (m.loop.headSockets context) ∧
      m.proceed.log = m.log ++ [.tick context] := by
  have standing := inv.standing
  rw [phase] at standing
  have next : m.proceed =
      { m with
        loop := m.loop.tick context
        phase := .seek context rest (m.loop.headSockets context)
        log := m.log ++ [.tick context] } := by
    unfold Machine.proceed
    rw [phase]
  rw [next]
  refine ⟨⟨inv.threaded.tick context, ?_⟩, rfl, rfl⟩
  have head := (inv.threaded.family.linked (.sockets context)).head
  exact ⟨standing (by simp), fun c member => standing (by simp [member]), head, List.suffix_refl _⟩

theorem swept_invariant (inv : Invariant m lists todo) (phase : m.phase = .seek context rest none) :
    Invariant m.proceed lists [] ∧ m.proceed.phase = .contexts rest ∧ m.proceed.log = m.log ++ [.swept context] ∧
      todo = [] := by
  have standing := inv.standing
  rw [phase] at standing
  have next : m.proceed =
      { m with
        loop := m.loop.setIterator context none
        phase := .contexts rest
        log := m.log ++ [.swept context] } := by
    unfold Machine.proceed
    rw [phase]
  rw [next]
  exact ⟨⟨inv.threaded.setIterator context none, standing.2.1⟩, rfl, rfl, List.head?_eq_none_iff.mp standing.2.2.1.symm⟩

theorem examine_invariant (inv : Invariant m lists todo) (phase : m.phase = .seek context rest (some s)) :
    ∃ left todo', todo = s :: left ∧ Invariant (m.examine context rest s) lists todo' ∧
      (m.examine context rest s).phase.pending todo' = left := by
  have standing := inv.standing
  rw [phase] at standing
  obtain ⟨known, others, first, suffix⟩ := standing
  obtain ⟨left, rfl⟩ := List.head?_eq_some_iff.mp first.symm
  have nodup := inv.threaded.suffix_nodup suffix
  refine ⟨left, ?_⟩
  unfold Machine.examine
  split
  · refine ⟨s :: left, rfl, ⟨(inv.threaded.setIterator context _).forgetTimeout s, ?_⟩, filter_self nodup⟩
    exact ⟨known, others, ⟨Function.update_self .., suffix⟩, fun _ => rfl⟩
  · split
    · refine ⟨s :: left, rfl, ⟨inv.threaded.setIterator context _, ?_⟩, filter_self nodup⟩
      exact ⟨known, others, ⟨Function.update_self .., suffix⟩, fun _ => rfl⟩
    · refine ⟨left, rfl, ⟨inv.threaded, known, others, ?_, ?_⟩, rfl⟩
      · exact inv.threaded.next_of_suffix suffix
      · exact (List.suffix_cons s left).trans suffix

/-- After the handlers the sweep goes on behind the socket, or where the iterator was moved to. -/
theorem emit_invariant (inv : Invariant m lists todo) (phase : m.phase = .emit stage context rest s) :
    ∃ todo', Invariant (m.emit context rest s stage) lists todo' ∧
      (m.emit context rest s stage).phase.pending todo' = m.phase.pending todo := by
  have standing := inv.standing
  rw [phase] at standing ⊢
  obtain ⟨known, others, ahead, head⟩ := standing
  have nodup := inv.threaded.suffix_nodup ahead.suffix
  cases stage with
  | onSocketTimeout => exact ⟨todo, ⟨inv.threaded, known, others, ahead, head⟩, rfl⟩
  | onSocketLongTimeout => exact ⟨todo, ⟨inv.threaded, known, others, ahead, head⟩, rfl⟩
  | between =>
    simp only [Machine.emit]
    split
    · exact ⟨todo, ⟨inv.threaded.forgetLongTimeout s, known, others, ⟨ahead.iterator, ahead.suffix⟩, head⟩, rfl⟩
    · exact ⟨todo, ⟨inv.threaded, known, others, ahead, head⟩, rfl⟩
  | after =>
    simp only [Machine.emit]
    split
    · rename_i at_
      rw [ahead.iterator] at at_
      obtain ⟨left, rfl⟩ := List.head?_eq_some_iff.mp at_
      refine ⟨left, ⟨inv.threaded, known, others, ?_, ?_⟩, (filter_self nodup).symm⟩
      · exact inv.threaded.next_of_suffix ahead.suffix
      · exact (List.suffix_cons s left).trans ahead.suffix
    · rename_i moved
      refine ⟨todo, ⟨inv.threaded, known, others, ahead.iterator, ahead.suffix⟩, (filter_absent ?_).symm⟩
      intro member
      rw [ahead.iterator] at moved
      exact moved (head member)

theorem handler_invariant (inv : Invariant m lists todo) (phase : m.phase = .emit stage context rest s)
    (operation : Operation) :
    ∃ lists' left, Invariant (m.step (.operation operation)) lists' left ∧
      left.Sublist todo ∧ ∀ x ∈ todo, ¬ operation.Unlinks m.loop x → x ∈ left := by
  unfold Machine.step
  dsimp only
  split
  · obtain ⟨lists', threaded, follows, contexts⟩ := apply_outcome inv.threaded operation
    have standing := inv.standing
    rw [phase] at standing
    obtain ⟨known, others, ahead, head⟩ := standing
    obtain ⟨left, behind, sublist, kept⟩ := follows context known todo ahead
    have nodup := inv.threaded.suffix_nodup ahead.suffix
    refine ⟨lists', left, ⟨threaded, ?_⟩, sublist, kept⟩
    simp only [phase]
    refine ⟨contexts context known, fun c member => contexts c (others member), behind, ?_⟩
    intro member
    obtain ⟨after, rfl⟩ := List.head?_eq_some_iff.mp (head (sublist.subset member))
    cases sublist with
    | cons _ shorter => exact absurd (shorter.subset member) (List.nodup_cons.mp nodup).1
    | cons_cons _ _ => rfl
  · exact ⟨lists, todo, inv, List.Sublist.refl _, fun _ member _ => member⟩

theorem operation_phase (m : Machine) (operation : Operation) :
    (m.step (.operation operation)).phase = m.phase ∧ (m.step (.operation operation)).log = m.log := by
  unfold Machine.step
  dsimp only
  split <;> exact ⟨rfl, rfl⟩

theorem operation_invariant (inv : Invariant m lists todo) (operation : Operation) :
    ∃ lists' todo', Invariant (m.step (.operation operation)) lists' todo' ∧
      (m.step (.operation operation)).phase = m.phase ∧ (m.step (.operation operation)).log = m.log ∧
      (m.phase.pending todo').Sublist (m.phase.pending todo) ∧
      ∀ x ∈ m.phase.pending todo, ¬ operation.Unlinks m.loop x → x ∈ m.phase.pending todo' := by
  obtain ⟨samePhase, sameLog⟩ := operation_phase m operation
  cases phase : m.phase with
  | idle =>
    rw [phase] at samePhase
    obtain ⟨lists', threaded, -, -⟩ := apply_outcome inv.threaded operation
    have threaded' : ∃ lists', Threaded (m.step (.operation operation)).loop lists' none := by
      unfold Machine.step
      dsimp only
      split
      · exact ⟨lists', threaded⟩
      · exact ⟨lists, inv.threaded⟩
    obtain ⟨lists', threaded⟩ := threaded'
    refine ⟨lists', [], ⟨threaded, ?_⟩, samePhase, sameLog, List.Sublist.refl _, by simp [Phase.pending]⟩
    rw [samePhase]
    exact True.intro
  | contexts rest =>
    have same : m.step (.operation operation) = m := if_neg (by simp [phase, Phase.Yields])
    rw [same]
    exact ⟨lists, todo, inv, phase, rfl, List.Sublist.refl _, fun _ member _ => member⟩
  | seek context rest cursor =>
    have same : m.step (.operation operation) = m := if_neg (by simp [phase, Phase.Yields])
    rw [same]
    exact ⟨lists, todo, inv, phase, rfl, List.Sublist.refl _, fun _ member _ => member⟩
  | emit stage context rest s =>
    obtain ⟨lists', left, kept, sublist, remains⟩ := handler_invariant inv phase operation
    refine ⟨lists', left, kept, samePhase.trans phase, sameLog, sublist.filter _, ?_⟩
    intro x member stays
    simp only [Phase.pending, List.mem_filter] at member ⊢
    exact ⟨remains x member.1 stays, member.2⟩

theorem sweep_invariant (inv : Invariant m lists todo) : Invariant (m.step .sweep) lists todo := by
  unfold Machine.step
  dsimp only
  split
  · exact ⟨inv.threaded, fun _ member => member⟩
  · exact inv

theorem step_invariant (inv : Invariant m lists todo) (action : Action) :
    ∃ lists' todo', Invariant (m.step action) lists' todo' := by
  cases action with
  | operation operation =>
    obtain ⟨lists', todo', kept, -⟩ := operation_invariant inv operation
    exact ⟨lists', todo', kept⟩
  | sweep => exact ⟨lists, todo, sweep_invariant inv⟩
  | proceed =>
    change ∃ lists' todo', Invariant m.proceed lists' todo'
    rcases phase : m.phase with _ | rest | ⟨context, rest, cursor⟩ | ⟨stage, context, rest, s⟩
    · have same : m.proceed = m := by
        unfold Machine.proceed
        rw [phase]
      rw [same]
      exact ⟨lists, todo, inv⟩
    · cases rest with
      | nil =>
        have next : m.proceed = { m with phase := .idle } := by
          unfold Machine.proceed
          rw [phase]
        rw [next]
        exact ⟨lists, todo, inv.threaded, True.intro⟩
      | cons context rest => exact ⟨lists, _, (tick_invariant inv phase).1⟩
    · cases cursor with
      | none => exact ⟨lists, _, (swept_invariant inv phase).1⟩
      | some s =>
        obtain ⟨-, todo', -, kept, -⟩ := examine_invariant inv phase
        have next : m.proceed = m.examine context rest s := by
          unfold Machine.proceed
          rw [phase]
        rw [next]
        exact ⟨lists, todo', kept⟩
    · obtain ⟨todo', kept, -⟩ := emit_invariant inv phase
      have next : m.proceed = m.emit context rest s stage := by
        unfold Machine.proceed
        rw [phase]
      rw [next]
      exact ⟨lists, todo', kept⟩

end Uws.Sweep
