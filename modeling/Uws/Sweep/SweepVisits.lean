import Uws.Sweep.SweepRuns

namespace Uws.Sweep

open Uws.LinkedList

variable {m : Machine} {lists : Place → List Address} {todo : List Address} {context s x : Address}
  {rest : List Address} {cursor : Option Address} {stage : Stage} {base mid : List Event}

/-- The sweep is at the context, or in a handler that it called there. -/
def Phase.At (context : Address) (rest : List Address) : Phase → Prop
  | .idle => False
  | .contexts _ => False
  | .seek here others _ => here = context ∧ others = rest
  | .emit _ here others _ => here = context ∧ others = rest

theorem examine_log (m : Machine) (context : Address) (rest : List Address) (s : Address) :
    ∃ events, (m.examine context rest s).log = m.log ++ events ∧ .swept context ∉ events ∧
      (∀ x, events.count (.examined x) = if x = s then 1 else 0) ∧
      (m.examine context rest s).phase.At context rest := by
  have counts : ∀ x, (Event.examined s == .examined x) = decide (x = s) := by
    intro x
    by_cases same : x = s
    · simp [same]
    · simp [same, Ne.symm same]
  unfold Machine.examine
  split
  · refine ⟨_, rfl, by simp, ?_, rfl, rfl⟩
    intro x
    simp [List.count_cons, counts]
  · split
    · refine ⟨_, rfl, by simp, ?_, rfl, rfl⟩
      intro x
      simp [List.count_cons, counts]
    · refine ⟨_, rfl, by simp, ?_, rfl, rfl⟩
      intro x
      simp [List.count_cons, counts]

theorem emit_log (m : Machine) (context : Address) (rest : List Address) (s : Address) (stage : Stage) :
    ∃ events, (m.emit context rest s stage).log = m.log ++ events ∧ .swept context ∉ events ∧
      (∀ x, events.count (.examined x) = 0) ∧ (m.emit context rest s stage).phase.At context rest := by
  cases stage with
  | onSocketTimeout => exact ⟨[], by simp [Machine.emit], by simp, by simp, rfl, rfl⟩
  | onSocketLongTimeout => exact ⟨[], by simp [Machine.emit], by simp, by simp, rfl, rfl⟩
  | between =>
    simp only [Machine.emit]
    split
    · exact ⟨_, rfl, by simp, by simp, rfl, rfl⟩
    · exact ⟨[], by simp, by simp, by simp, rfl, rfl⟩
  | after => exact ⟨[], by simp [Machine.emit], by simp, by simp, rfl, rfl⟩

theorem step_log (m : Machine) (action : Action) : ∃ events, (m.step action).log = m.log ++ events := by
  cases action with
  | operation operation =>
    unfold Machine.step
    dsimp only
    split <;> exact ⟨[], by simp⟩
  | sweep =>
    unfold Machine.step
    dsimp only
    split <;> exact ⟨[], by simp⟩
  | proceed =>
    change ∃ events, m.proceed.log = m.log ++ events
    unfold Machine.proceed
    split
    · exact ⟨[], by simp⟩
    · exact ⟨[], by simp⟩
    · exact ⟨_, rfl⟩
    · exact ⟨_, rfl⟩
    · rename_i context rest s _
      obtain ⟨events, grown, -⟩ := examine_log m context rest s
      exact ⟨events, grown⟩
    · rename_i stage context rest s _
      obtain ⟨events, grown, -⟩ := emit_log m context rest s stage
      exact ⟨events, grown⟩

/-- Where the sweep of one context has got to, as far as one of its sockets goes: the socket is either looked at already
    or still before the sweep. -/
inductive Visiting (context : Address) (rest : List Address) (base : List Event) (x : Address) (m : Machine) : Prop where
  | before (lists : Place → List Address) (todo : List Address) (inv : Invariant m lists todo)
      (phase : m.phase = .contexts (context :: rest)) (log : m.log = base) (listed : x ∈ lists (.sockets context))
  | during (lists : Place → List Address) (todo : List Address) (mid : List Event) (inv : Invariant m lists todo)
      (phase : m.phase.At context rest) (log : m.log = base ++ .tick context :: mid) (unswept : .swept context ∉ mid)
      (once : mid.count (.examined x) + (m.phase.pending todo).count x = 1)
  | past (mid more : List Event) (log : m.log = base ++ .tick context :: (mid ++ .swept context :: more))
      (unswept : .swept context ∉ mid) (once : mid.count (.examined x) = 1)

/-- The operations of handlers do not take the socket out of its list. -/
def Stays (x : Address) (m : Machine) (action : Action) : Prop :=
  ∀ operation, action = .operation operation → ¬ operation.Unlinks m.loop x

namespace Visiting

theorem seek_step (inv : Invariant m lists todo) (phase : m.phase = .seek context rest cursor)
    (log : m.log = base ++ .tick context :: mid) (unswept : .swept context ∉ mid)
    (once : mid.count (.examined x) + (m.phase.pending todo).count x = 1) :
    Visiting context rest base x m.proceed := by
  cases cursor with
  | none =>
    obtain ⟨-, -, grown, empty⟩ := swept_invariant inv phase
    rw [phase] at once
    subst empty
    apply Visiting.past mid [] _ unswept (by simpa [Phase.pending] using once)
    rw [grown, log]
    simp
  | some s =>
    obtain ⟨left, todo', rfl, kept, pending⟩ := examine_invariant inv phase
    obtain ⟨events, grown, notSwept, counts, at_⟩ := examine_log m context rest s
    have next : m.proceed = m.examine context rest s := by
      unfold Machine.proceed
      rw [phase]
    rw [next]
    apply Visiting.during lists todo' (mid ++ events) kept at_
    · rw [grown, log]
      simp
    · simpa using ⟨unswept, notSwept⟩
    · rw [phase] at once
      rw [List.count_append, counts x, pending]
      simp only [Phase.pending, List.count_cons] at once
      by_cases same : x = s
      · simp only [same, beq_self_eq_true, if_true] at once ⊢
        omega
      · have other : (s == x) = false := by simpa using Ne.symm same
        simp only [same, if_false, other, Bool.false_eq_true] at once ⊢
        omega

theorem emit_step (inv : Invariant m lists todo) (phase : m.phase = .emit stage context rest s)
    (log : m.log = base ++ .tick context :: mid) (unswept : .swept context ∉ mid)
    (once : mid.count (.examined x) + (m.phase.pending todo).count x = 1) :
    Visiting context rest base x m.proceed := by
  obtain ⟨todo', kept, pending⟩ := emit_invariant inv phase
  obtain ⟨events, grown, notSwept, counts, at_⟩ := emit_log m context rest s stage
  have next : m.proceed = m.emit context rest s stage := by
    unfold Machine.proceed
    rw [phase]
  rw [next]
  apply Visiting.during lists todo' (mid ++ events) kept at_
  · rw [grown, log]
    simp
  · simpa using ⟨unswept, notSwept⟩
  · rw [List.count_append, counts x, pending]
    omega

theorem operation_step {operation : Operation} (inv : Invariant m lists todo) (phase : m.phase.At context rest)
    (log : m.log = base ++ .tick context :: mid) (unswept : .swept context ∉ mid)
    (once : mid.count (.examined x) + (m.phase.pending todo).count x = 1) (stays : ¬ operation.Unlinks m.loop x) :
    Visiting context rest base x (m.step (.operation operation)) := by
  obtain ⟨lists', todo', kept, same, grown, sublist, remains⟩ := operation_invariant inv operation
  apply Visiting.during lists' todo' mid kept _ _ unswept
  · rw [same]
    have fewer := sublist.count_le x
    by_cases member : x ∈ m.phase.pending todo
    · have still := List.count_pos_iff.mpr (remains x member stays)
      have some_ := List.count_pos_iff.mpr member
      omega
    · have none_ := List.count_eq_zero.mpr member
      omega
  · rwa [same]
  · rwa [grown]

theorem step (visiting : Visiting context rest base x m) (action : Action) (stays : Stays x m action) :
    Visiting context rest base x (m.step action) := by
  cases visiting with
  | before lists todo inv phase log listed =>
    have waits : ∀ action, action ≠ .proceed → m.step action = m := by
      intro action other
      unfold Machine.step
      cases action with
      | operation operation =>
        dsimp only
        rw [phase, if_neg]
        exact fun taken => taken.1
      | sweep => simp [phase]
      | proceed => exact absurd rfl other
    by_cases proceeds : action = .proceed
    · subst proceeds
      obtain ⟨kept, next, grown⟩ := tick_invariant inv phase
      have nodup := (inv.threaded.family.linked (.sockets context)).nodup
      apply Visiting.during lists (lists (.sockets context)) [] kept
      · exact next ▸ ⟨rfl, rfl⟩
      · exact log ▸ grown
      · simp
      · have pending : m.proceed.phase.pending (lists (.sockets context)) = lists (.sockets context) := by
          rw [next]
          rfl
        rw [pending]
        simpa using List.count_eq_one_of_mem nodup listed
    · rw [waits action proceeds]
      exact Visiting.before lists todo inv phase log listed
  | during lists todo mid inv phase log unswept once =>
    cases action with
    | operation operation => exact operation_step inv phase log unswept once (stays operation rfl)
    | sweep =>
      have same : m.step .sweep = m := by
        unfold Machine.step
        dsimp only
        rw [if_neg]
        intro idle
        rw [idle] at phase
        exact phase
      rw [same]
      exact Visiting.during lists todo mid inv phase log unswept once
    | proceed =>
      change Visiting context rest base x m.proceed
      rcases here : m.phase with _ | others | ⟨context', rest', cursor⟩ | ⟨stage, context', rest', s⟩
      · rw [here] at phase
        exact absurd phase id
      · rw [here] at phase
        exact absurd phase id
      · rw [here] at phase
        obtain ⟨rfl, rfl⟩ := phase
        exact seek_step inv here log unswept once
      · rw [here] at phase
        obtain ⟨rfl, rfl⟩ := phase
        exact emit_step inv here log unswept once
  | past mid more log unswept once =>
    obtain ⟨events, grown⟩ := step_log m action
    apply Visiting.past mid (more ++ events) _ unswept once
    rw [grown, log]
    simp

end Visiting

theorem swept_once (inv : Invariant m lists todo) (phase : m.phase = .contexts (context :: rest))
    (listed : s ∈ lists (.sockets context)) {during : List Action} (stays : Machine.Along (Stays s) m during)
    (swept : (m.run during).log = m.log ++ .tick context :: mid ++ [.swept context])
    (once : .swept context ∉ mid) : mid.count (.examined s) = 1 := by
  have visiting : Visiting context rest m.log s (m.run during) :=
    Machine.run_induction (fun _ action visiting kept => visiting.step action kept)
      (Visiting.before lists todo inv phase rfl listed) stays
  have cut : ∀ {other : List Event}, m.log ++ .tick context :: other = m.log ++ .tick context :: mid ++ [.swept context] →
      other = mid ++ [.swept context] := by
    intro other whole
    simpa using whole
  cases visiting with
  | before lists' todo' inv' phase' log' listed' =>
    rw [log'] at swept
    have short := congrArg List.length swept
    simp at short
  | during lists' todo' mid' inv' phase' log' unswept' once' =>
    have same := cut (log'.symm.trans swept)
    exact absurd (by simp [same]) unswept'
  | past mid' more' log' unswept' once' =>
    have same := cut (log'.symm.trans swept)
    rcases List.append_eq_append_iff.mp same with ⟨gap, whole, ending⟩ | ⟨gap, whole, ending⟩
    · cases gap with
      | nil => simpa [whole] using once'
      | cons event gap =>
        simp only [List.cons_append, List.cons.injEq] at ending
        exact absurd (by simp [whole, ← ending.1]) once
    · have long := congrArg List.length ending
      simp only [List.length_append, List.length_cons, List.length_nil] at long
      have empty := List.eq_nil_of_length_eq_zero (by omega : gap.length = 0)
      simpa [whole, empty] using once'

theorem run_inv {actions : List Action} (kept : Machine.Along Machine.KeepsContext {} actions) :
    (∃ lists todo, Invariant (Machine.run {} actions) lists todo) ∧ (Machine.run {} actions).Owned := by
  have start : (∃ lists todo, Invariant {} lists todo) ∧ Machine.Owned {} :=
    ⟨⟨_, _, initial_invariant⟩, fun s member => by simp at member⟩
  have keeps : ∀ (m : Machine) action, ((∃ lists todo, Invariant m lists todo) ∧ m.Owned) → m.KeepsContext action →
      (∃ lists todo, Invariant (m.step action) lists todo) ∧ (m.step action).Owned := by
    rintro m action ⟨⟨lists, todo, inv⟩, owned⟩ keeps
    exact ⟨step_invariant inv action, Machine.step_owned owned action keeps⟩
  exact Machine.run_induction keeps start kept

/-- What is to hold of a state: the lists are right, a sweep ends, and it looks once at every socket that stays in the
    list of the context that it comes to. -/
structure Machine.Sound (m : Machine) : Prop where
  lists : ∃ lists, ListsSound m.loop m.owner lists
  ends : ∀ schedule, Returns schedule → ∃ n, (m.under schedule n).phase = .idle
  once : ∀ context rest s during mid, m.phase = .contexts (context :: rest) → InList m.loop context s →
    Machine.Along (Stays s) m during → (m.run during).log = m.log ++ .tick context :: mid ++ [.swept context] →
    .swept context ∉ mid → mid.count (.examined s) = 1

/-- All of it holds as long as no socket in the low-priority queue is adopted by another context. -/
theorem socket_lists_sound (actions : List Action) (kept : Machine.Along Machine.KeepsContext {} actions) :
    (Machine.run {} actions).Sound := by
  obtain ⟨⟨lists, todo, inv⟩, owned⟩ := run_inv kept
  refine ⟨⟨lists, inv.sound owned⟩, fun schedule returns => sweep_terminates inv returns, ?_⟩
  intro context rest s during mid phase listed stays swept once
  exact swept_once inv phase (inv.in_list listed) stays swept once

/-- Two contexts, and six sockets of the first that are in the middle of a handshake when they become readable: the last
    of them is put into the low-priority queue. -/
def handshakes : List Action :=
  [.createContext (.context 0), .createContext (.context 1),
    .accept (.context 0) (.socket 1), .accept (.context 0) (.socket 2), .accept (.context 0) (.socket 3),
    .accept (.context 0) (.socket 4), .accept (.context 0) (.socket 5), .accept (.context 0) (.socket 6),
    .handleLowPrioritySockets,
    .readable (.socket 1) true, .readable (.socket 2) true, .readable (.socket 3) true,
    .readable (.socket 4) true, .readable (.socket 5) true, .readable (.socket 6) true].map .operation

/-- A socket that has left the queue again is adopted by the other context. -/
theorem adopted_sound :
    (Machine.run {}
      (handshakes ++ [.operation .handleLowPrioritySockets,
        .operation (.adopt (.context 1) (.socket 6) (.socket 7)), .sweep, .proceed])).Sound := by
  apply socket_lists_sound
  have free : (Machine.run {} (handshakes ++ [.operation .handleLowPrioritySockets])).loop.lowPrioState (.socket 6) ≠ 1 := by
    decide
  simp only [handshakes, List.map_cons, List.map_nil, List.cons_append, List.nil_append, Machine.Along,
    Machine.KeepsContext, true_and, and_true]
  exact fun _ _ _ parked => absurd parked free

/-- A socket in the queue that is adopted keeps the context that it had, and goes back to its list. -/
theorem queued_adoption_unsound :
    ¬ ∀ actions, (Machine.run {} actions).Sound := by
  intro allSound
  obtain ⟨lists, sound⟩ :=
    (allSound (handshakes ++ [.operation (.adopt (.context 1) (.socket 6) (.socket 7))])).lists
  have owned := (sound.owned (.socket 7) (by decide)).1
  revert owned
  decide

end Uws.Sweep
