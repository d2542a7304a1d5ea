import Uws.Sweep.SocketTimers

/-! What one step of a sweep does about a timer of a socket. -/

namespace Uws.Sweep

open Uws.LinkedList

variable {timer : Timer} {m : Machine} {lists : Place → List Address} {todo : List Address}
  {context s x : Address} {rest : List Address} {cursor : Option Address} {stage : Stage}

/-- The sockets whose timer the sweep has yet to look at. The long timer of a socket is looked at after the handler of its
    short one. -/
def Phase.unchecked (timer : Timer) : Phase → List Address → List Address
  | .idle, _ => []
  | .contexts _, _ => []
  | .seek _ _ _, todo => todo
  | .emit stage _ _ s, todo =>
    if timer = .long ∧ (stage = .onSocketTimeout ∨ stage = .between) then todo else todo.filter (· ≠ s)

def Phase.at_ : Phase → Option Address
  | .idle => none
  | .contexts _ => none
  | .seek context _ _ => some context
  | .emit _ context _ _ => some context

theorem Phase.unchecked_subset (phase : Phase) (todo : List Address) : phase.unchecked timer todo ⊆ todo := by
  cases phase with
  | idle => exact List.nil_subset _
  | contexts rest => exact List.nil_subset _
  | seek context rest cursor => exact List.Subset.refl _
  | emit stage context rest s =>
    simp only [Phase.unchecked]
    split
    · exact List.Subset.refl _
    · exact fun x member => List.mem_of_mem_filter member

namespace Invariant

theorem todo_listed (inv : Invariant m lists todo) (at_ : m.phase.at_ = some context) :
    todo <:+ lists (.sockets context) := by
  have standing := inv.standing
  cases phase : m.phase with
  | idle => simp [phase, Phase.at_] at at_
  | contexts rest => simp [phase, Phase.at_] at at_
  | seek here rest cursor =>
    simp only [phase, Phase.at_, Option.some.injEq] at at_
    rw [phase] at standing
    exact at_ ▸ standing.2.2.2
  | emit stage here rest s =>
    simp only [phase, Phase.at_, Option.some.injEq] at at_
    rw [phase] at standing
    exact at_ ▸ standing.2.2.1.suffix

theorem unchecked_at (inv : Invariant m lists todo) (member : x ∈ m.phase.unchecked timer todo) :
    m.phase.at_ = some (m.loop.context x) := by
  have inside := Phase.unchecked_subset m.phase todo member
  have own : ∀ context, m.phase.at_ = some context → m.phase.at_ = some (m.loop.context x) := by
    intro context at_
    have listed := (inv.todo_listed at_).subset inside
    rw [at_, (inv.threaded.sockets context x listed).1]
  cases phase : m.phase with
  | idle => simp [phase, Phase.unchecked] at member
  | contexts rest => simp [phase, Phase.unchecked] at member
  | seek context rest cursor => exact phase ▸ own context (by rw [phase]; rfl)
  | emit stage context rest s => exact phase ▸ own context (by rw [phase]; rfl)

end Invariant

/-- What a step of the sweep does about the timer of `x`: nothing yet, or it is looked at, and emitted where it is due. -/
inductive Checked (timer : Timer) (x : Address) (m m' : Machine) (before after : List Address) : Prop where
  | passed (events : List Event) (log : m'.log = m.log ++ events) (silent : timer.event x ∉ events)
      (same : x ∈ after → x ∈ before) (still : x ∈ before → x ∈ after ∨ timer.stamp m.loop (m.loop.context x) ≠ timer.deadline m.loop x)
      (unticked : .tick (m.loop.context x) ∉ events) (deadline : timer.deadline m'.loop x = timer.deadline m.loop x)
  | fired (events : List Event) (log : m'.log = m.log ++ (events ++ [timer.event x])) (silent : timer.event x ∉ events)
      (unticked : .tick (m.loop.context x) ∉ events) (member : x ∈ before)
      (due : timer.stamp m.loop (m.loop.context x) = timer.deadline m.loop x) (deadline : timer.deadline m'.loop x = 255)

section Steps

theorem event_examined (timer : Timer) (x y : Address) : timer.event x ≠ .examined y := by
  cases timer <;> simp [Timer.event]

theorem examine_checked (inv : Invariant m lists todo) (phase : m.phase = .seek context rest (some s)) (timer : Timer)
    (x : Address) :
    ∃ todo', Invariant (m.examine context rest s) lists todo' ∧
      Checked timer x m (m.examine context rest s) (m.phase.unchecked timer todo)
        ((m.examine context rest s).phase.unchecked timer todo') := by
  have standing := inv.standing
  rw [phase] at standing
  obtain ⟨known, others, first, suffix⟩ := standing
  obtain ⟨left, rfl⟩ := List.head?_eq_some_iff.mp first.symm
  have nodup := inv.threaded.suffix_nodup suffix
  have own : m.loop.context s = context := (inv.threaded.sockets context s (suffix.subset (by simp))).1
  have out := (List.nodup_cons.mp nodup).1
  rw [phase]
  unfold Machine.examine
  split
  · rename_i due
    refine ⟨s :: left, ⟨(inv.threaded.setIterator context _).forgetTimeout s, ?_⟩, ?_⟩
    · exact ⟨known, others, ⟨Function.update_self .., suffix⟩, fun _ => rfl⟩
    · cases timer with
      | short =>
        by_cases same : x = s
        · subst same
          apply Checked.fired [.examined x] (by simp [Timer.event]) (by simp [Timer.event]) (by simp)
            (by simp [Phase.unchecked])
          · rw [own]
            exact due
          · exact Function.update_self ..
        · apply Checked.passed _ rfl
          · simp [Timer.event, same]
          · simp only [Phase.unchecked, filter_self nodup]
            intro member
            simpa [Phase.unchecked, same] using member
          · intro member
            apply Or.inl
            simpa [Phase.unchecked, same] using member
          · simp
          · exact Function.update_of_ne same ..
      | long =>
        apply Checked.passed _ rfl
        · simp [Timer.event]
        · intro member
          simpa [Phase.unchecked] using member
        · intro member
          apply Or.inl
          simpa [Phase.unchecked] using member
        · simp
        · rfl
  · split
    · rename_i due longDue
      refine ⟨s :: left, ⟨inv.threaded.setIterator context _, ?_⟩, ?_⟩
      · exact ⟨known, others, ⟨Function.update_self .., suffix⟩, fun _ => rfl⟩
      · apply Checked.passed _ rfl
        · simp [event_examined]
        · intro member
          exact Phase.unchecked_subset _ _ member
        · intro member
          cases timer with
          | long =>
            apply Or.inl
            simpa [Phase.unchecked] using member
          | short =>
            by_cases same : x = s
            · apply Or.inr
              rw [same, own]
              exact due
            · apply Or.inl
              simpa [Phase.unchecked, same] using member
        · simp
        · cases timer <;> rfl
    · rename_i due longDue
      refine ⟨left, ⟨inv.threaded, known, others, inv.threaded.next_of_suffix suffix, ?_⟩, ?_⟩
      · exact (List.suffix_cons s left).trans suffix
      · apply Checked.passed _ rfl
        · simp [event_examined]
        · intro member
          exact List.mem_cons_of_mem _ member
        · intro member
          rcases List.mem_cons.mp member with same | behind
          · apply Or.inr
            rw [same, own]
            cases timer with
            | short => exact due
            | long => exact longDue
          · exact Or.inl behind
        · simp
        · rfl

theorem emit_checked (inv : Invariant m lists todo) (phase : m.phase = .emit stage context rest s) (timer : Timer)
    (x : Address) :
    ∃ todo', Invariant (m.emit context rest s stage) lists todo' ∧
      Checked timer x m (m.emit context rest s stage) (m.phase.unchecked timer todo)
        ((m.emit context rest s stage).phase.unchecked timer todo') := by
  have standing := inv.standing
  rw [phase] at standing
  obtain ⟨known, others, ahead, head⟩ := standing
  have nodup := inv.threaded.suffix_nodup ahead.suffix
  cases stage with
  | onSocketTimeout =>
    refine ⟨todo, ⟨inv.threaded, known, others, ahead, head⟩, ?_⟩
    rw [phase]
    apply Checked.passed [] (by simp [Machine.emit]) (by simp) _ _ (by simp)
    · rfl
    · cases timer <;> exact id
    · cases timer <;> exact Or.inl
  | onSocketLongTimeout =>
    refine ⟨todo, ⟨inv.threaded, known, others, ahead, head⟩, ?_⟩
    rw [phase]
    apply Checked.passed [] (by simp [Machine.emit]) (by simp) _ _ (by simp)
    · rfl
    · cases timer <;> exact id
    · cases timer <;> exact Or.inl
  | between =>
    rw [phase]
    simp only [Machine.emit]
    split
    · rename_i due
      refine ⟨todo, ⟨inv.threaded.forgetLongTimeout s, known, others, ⟨ahead.iterator, ahead.suffix⟩, head⟩, ?_⟩
      cases timer with
      | short =>
        apply Checked.passed _ rfl (by simp [Timer.event]) _ _ (by simp)
        · rfl
        · exact id
        · exact Or.inl
      | long =>
        by_cases same : x = s
        · subst same
          have first := due.1
          rw [ahead.iterator] at first
          have inside : x ∈ todo := List.mem_of_mem_head? first
          have own : m.loop.context x = context := (inv.threaded.sockets context x (ahead.suffix.subset inside)).1
          apply Checked.fired [] (by simp [Timer.event]) (by simp) (by simp)
          · simpa [Phase.unchecked] using inside
          · rw [own]
            exact due.2
          · exact Function.update_self ..
        · apply Checked.passed _ rfl (by simp [Timer.event, same]) _ _ (by simp)
          · exact Function.update_of_ne same ..
          · intro member
            have inside : x ∈ todo ∧ ¬ x = s := by simpa [Phase.unchecked] using member
            simpa [Phase.unchecked] using inside.1
          · intro member
            apply Or.inl
            simpa [Phase.unchecked, same] using member
    · rename_i due
      refine ⟨todo, ⟨inv.threaded, known, others, ahead, head⟩, ?_⟩
      apply Checked.passed [] (by simp) (by simp) _ _ (by simp)
      · rfl
      · intro member
        cases timer with
        | short => exact member
        | long =>
          have inside : x ∈ todo ∧ ¬ x = s := by simpa [Phase.unchecked] using member
          simpa [Phase.unchecked] using inside.1
      · intro member
        cases timer with
        | short => exact Or.inl member
        | long =>
          have inside : x ∈ todo := by simpa [Phase.unchecked] using member
          by_cases same : x = s
          · subst same
            have own : m.loop.context x = context := (inv.threaded.sockets context x (ahead.suffix.subset inside)).1
            have at_ : m.loop.iterator context = some x := ahead.iterator.trans (head inside)
            apply Or.inr
            rw [own]
            exact fun longDue => due ⟨at_, longDue⟩
          · apply Or.inl
            simpa [Phase.unchecked, same] using inside
  | after =>
    obtain ⟨todo', kept, pending⟩ := emit_invariant inv phase
    refine ⟨todo', kept, ?_⟩
    rw [phase] at pending ⊢
    have before : ∀ timer, (Phase.emit .after context rest s).unchecked timer todo = todo.filter (· ≠ s) := by
      intro timer
      simp [Phase.unchecked]
    simp only [Machine.emit, Phase.pending] at pending ⊢
    rw [before timer]
    apply Checked.passed [] (by simp) (by simp) _ _ (by simp)
    · rfl
    · rw [← pending]
      exact id
    · rw [← pending]
      exact Or.inl

end Steps

section Watched

/-- An open socket of the context, in a state with sound lists. -/
structure Watched (context s : Address) (m : Machine) (lists : Place → List Address) (todo : List Address) : Prop where
  inv : Invariant m lists todo
  stamped : m.loop.Stamped
  member : s ∈ m.loop.allocated
  opened : ¬ m.loop.isClosed s
  own : m.loop.context s = context

/-- The timer is not armed again, and the socket is neither closed nor moved. -/
def LeavesAlone (timer : Timer) (s : Address) : Machine → Action → Prop
  | _, .operation operation => operation.Leaves timer s
  | _, _ => True

instance (timer : Timer) (s : Address) (m : Machine) : (action : Action) → Decidable (LeavesAlone timer s m action)
  | .operation operation => inferInstanceAs (Decidable (operation.Leaves timer s))
  | .sweep => inferInstanceAs (Decidable True)
  | .proceed => inferInstanceAs (Decidable True)

/-- Where the sweep comes to the context of a socket whose timer is armed, the tick does not wrap round, and the socket
    is not in the low-priority queue when the timer is due. -/
def Phase.TickFits (timer : Timer) (s : Address) (loop : Loop) : Phase → Prop
  | .contexts (context :: _) =>
    context = loop.context s → timer.deadline loop s ≠ 255 →
      loop.globalTick context + 1 < 2 ^ 32 ∧
        (timer.stampAt (loop.globalTick context + 1) = timer.deadline loop s → loop.lowPrioState s ≠ 1)
  | _ => True

instance (timer : Timer) (s : Address) (loop : Loop) : (phase : Phase) → Decidable (phase.TickFits timer s loop)
  | .idle => inferInstanceAs (Decidable True)
  | .contexts [] => inferInstanceAs (Decidable True)
  | .contexts (context :: _) =>
    inferInstanceAs (Decidable (context = loop.context s → timer.deadline loop s ≠ 255 →
      loop.globalTick context + 1 < 2 ^ 32 ∧
        (timer.stampAt (loop.globalTick context + 1) = timer.deadline loop s → loop.lowPrioState s ≠ 1)))
  | .seek _ _ _ => inferInstanceAs (Decidable True)
  | .emit _ _ _ _ => inferInstanceAs (Decidable True)

/-- The sweep finds the socket in its list: at the tick, and up to where it is looked at. -/
def Turns (timer : Timer) (s : Address) (m : Machine) : Action → Prop
  | .operation operation => operation.Unlinks m.loop s → m.phase = .idle
  | .sweep => True
  | .proceed => m.phase.TickFits timer s m.loop

instance (timer : Timer) (s : Address) (m : Machine) : (action : Action) → Decidable (Turns timer s m action)
  | .operation operation => inferInstanceAs (Decidable (operation.Unlinks m.loop s → m.phase = .idle))
  | .sweep => inferInstanceAs (Decidable True)
  | .proceed => inferInstanceAs (Decidable (m.phase.TickFits timer s m.loop))

/-- A step of the machine, as far as the timer of one socket goes. -/
inductive Turned (timer : Timer) (context s : Address) (m m' : Machine) (before after : List Address) : Prop where
  | checked (checked : Checked timer s m m' before after)
      (tick : m'.loop.globalTick context = m.loop.globalTick context)
  | ticked (log : m'.log = m.log ++ [.tick context]) (deadline : timer.deadline m'.loop s = timer.deadline m.loop s)
      (tick : timer.deadline m.loop s ≠ 255 → m'.loop.globalTick context = m.loop.globalTick context + 1)
      (listed : timer.stampAt (m'.loop.globalTick context) = timer.deadline m.loop s → timer.deadline m.loop s ≠ 255 →
        s ∈ after)
      (unchecked : before = [])

theorem passed_same {m' : Machine} {before after : List Address} (log : m'.log = m.log)
    (deadline : timer.deadline m'.loop x = timer.deadline m.loop x) (same : x ∈ after ↔ x ∈ before) :
    Checked timer x m m' before after :=
  .passed [] (by rw [log, List.append_nil]) (by simp) same.mp (fun member => .inl (same.mpr member)) (by simp) deadline

theorem proceed_still (between : ∀ c rest, m.phase ≠ .contexts (c :: rest)) :
    m.proceed.loop.allocated = m.loop.allocated ∧ m.proceed.loop.prev = m.loop.prev ∧
      m.proceed.loop.context = m.loop.context ∧ m.proceed.loop.globalTick = m.loop.globalTick ∧
      (m.loop.Stamped → m.proceed.loop.Stamped) := by
  have still : ∀ {loop : Loop}, loop.allocated = m.loop.allocated → loop.prev = m.loop.prev → loop.context = m.loop.context →
      loop.globalTick = m.loop.globalTick → loop.timestamp = m.loop.timestamp →
      loop.longTimestamp = m.loop.longTimestamp →
      loop.allocated = m.loop.allocated ∧ loop.prev = m.loop.prev ∧ loop.context = m.loop.context ∧
        loop.globalTick = m.loop.globalTick ∧ (m.loop.Stamped → loop.Stamped) := by
    intro loop allocated prev own tick stamp longStamp
    refine ⟨allocated, prev, own, tick, fun stamped => ⟨?_, ?_⟩⟩
    · rw [tick, stamp]
      exact stamped.short
    · rw [tick, longStamp]
      exact stamped.long
  unfold Machine.proceed
  rcases phase : m.phase with _ | others | ⟨here, others, cursor⟩ | ⟨stage, here, others, current⟩
  · exact still rfl rfl rfl rfl rfl rfl
  · cases others with
    | nil => exact still rfl rfl rfl rfl rfl rfl
    | cons c rest => exact absurd phase (between c rest)
  · cases cursor with
    | none => exact still rfl rfl rfl rfl rfl rfl
    | some current =>
      simp only
      unfold Machine.examine
      split
      · exact still rfl rfl rfl rfl rfl rfl
      · split <;> exact still rfl rfl rfl rfl rfl rfl
  · cases stage with
    | onSocketTimeout => exact still rfl rfl rfl rfl rfl rfl
    | onSocketLongTimeout => exact still rfl rfl rfl rfl rfl rfl
    | after => exact still rfl rfl rfl rfl rfl rfl
    | between =>
      simp only [Machine.emit]
      split <;> exact still rfl rfl rfl rfl rfl rfl

theorem tick_stamped (stamped : m.loop.Stamped) (context : Address) : (m.loop.tick context).Stamped := by
  constructor
  · intro other
    have stamps := stamped.short other
    by_cases same : other = context <;> simp [Loop.tick, same, stamps]
  · intro other
    have stamps := stamped.long other
    by_cases same : other = context <;> simp [Loop.tick, same, stamps]

theorem step_stamped (stamped : m.loop.Stamped) (action : Action) : (m.step action).loop.Stamped := by
  cases action with
  | operation operation =>
    unfold Machine.step
    dsimp only
    split
    · exact stamped.apply operation
    · exact stamped
  | sweep =>
    unfold Machine.step
    dsimp only
    split <;> exact stamped
  | proceed =>
    change m.proceed.loop.Stamped
    by_cases between : ∀ c rest, m.phase ≠ .contexts (c :: rest)
    · exact (proceed_still between).2.2.2.2 stamped
    · simp only [not_forall, not_not] at between
      obtain ⟨c, rest, phase⟩ := between
      have moved : m.proceed.loop = m.loop.tick c := by
        unfold Machine.proceed
        rw [phase]
      rw [moved]
      exact tick_stamped stamped c

theorem operation_turned (watched : Watched context s m lists todo) (operation : Operation)
    (leaves : operation.Leaves timer s) (turns : operation.Unlinks m.loop s → m.phase = .idle) :
    ∃ lists' todo', Watched context s (m.step (.operation operation)) lists' todo' ∧
      Turned timer context s m (m.step (.operation operation)) (m.phase.unchecked timer todo)
        ((m.step (.operation operation)).phase.unchecked timer todo') := by
  obtain ⟨samePhase, sameLog⟩ := operation_phase m operation
  have left : LeftAlone timer s m.loop (m.step (.operation operation)).loop := by
    unfold Machine.step
    dsimp only
    split
    · exact apply_leaves watched.inv.threaded watched.member watched.opened operation leaves
    · exact ⟨watched.member, watched.opened, rfl, rfl, rfl⟩
  have stamped := step_stamped watched.stamped (.operation operation)
  have tick : (m.step (.operation operation)).loop.globalTick context = m.loop.globalTick context :=
    watched.own ▸ left.tick
  have own : (m.step (.operation operation)).loop.context s = context := left.context.trans watched.own
  rw [samePhase]
  rcases phase : m.phase with _ | others | ⟨here, others, cursor⟩ | ⟨stage, here, others, current⟩
  · obtain ⟨lists', todo', kept, -⟩ := operation_invariant watched.inv operation
    exact ⟨lists', todo', ⟨kept, stamped, left.allocated, left.opened, own⟩,
      .checked (passed_same sameLog left.deadline Iff.rfl) tick⟩
  · obtain ⟨lists', todo', kept, -⟩ := operation_invariant watched.inv operation
    exact ⟨lists', todo', ⟨kept, stamped, left.allocated, left.opened, own⟩,
      .checked (passed_same sameLog left.deadline Iff.rfl) tick⟩
  · -- no operation takes place between two handlers
    have same : m.step (.operation operation) = m := if_neg (by simp [phase, Phase.Yields])
    rw [same]
    exact ⟨lists, todo, watched, .checked (passed_same rfl rfl Iff.rfl) rfl⟩
  · obtain ⟨lists', todo', kept, sublist, remains⟩ := handler_invariant watched.inv phase operation
    have stays : ¬ operation.Unlinks m.loop s := by
      intro unlinks
      have idle := turns unlinks
      rw [phase] at idle
      cases idle
    have same : s ∈ todo' ↔ s ∈ todo := ⟨fun member => sublist.subset member, fun member => remains s member stays⟩
    refine ⟨lists', todo', ⟨kept, stamped, left.allocated, left.opened, own⟩,
      .checked (passed_same sameLog left.deadline ?_) tick⟩
    simp only [Phase.unchecked]
    split
    · exact same
    · simp only [List.mem_filter, same]

theorem Watched.proceed {todo' : List Address} (watched : Watched context s m lists todo)
    (between : ∀ c rest, m.phase ≠ .contexts (c :: rest)) (inv : Invariant m.proceed lists todo') :
    Watched context s m.proceed lists todo' := by
  obtain ⟨allocated, prev, own, -, stamped⟩ := proceed_still between
  refine ⟨inv, stamped watched.stamped, ?_, ?_, ?_⟩
  · rw [allocated]
    exact watched.member
  · unfold Loop.isClosed
    rw [prev, own]
    exact watched.opened
  · rw [own]
    exact watched.own

theorem tick_turned (watched : Watched context s m lists todo) {c : Address} (phase : m.phase = .contexts (c :: rest))
    (turns : m.phase.TickFits timer s m.loop) :
    ∃ todo', Watched context s m.proceed lists todo' ∧
      Turned timer context s m m.proceed (m.phase.unchecked timer todo) (m.proceed.phase.unchecked timer todo') := by
  obtain ⟨kept, samePhase, log⟩ := tick_invariant watched.inv phase
  have moved : m.proceed.loop = m.loop.tick c := by
    unfold Machine.proceed
    rw [phase]
  have stamped : m.proceed.loop.Stamped := by
    rw [moved]
    exact tick_stamped watched.stamped c
  have deadline : timer.deadline m.proceed.loop s = timer.deadline m.loop s := by
    rw [moved]
    cases timer <;> rfl
  refine ⟨_, ⟨kept, stamped, ?_, ?_, ?_⟩, ?_⟩
  · rw [moved]
    exact watched.member
  · rw [moved]
    exact watched.opened
  · rw [moved]
    exact watched.own
  · rw [samePhase, phase]
    by_cases same : c = context
    · subst same
      rw [phase] at turns
      have fits := turns watched.own.symm
      have ticked : timer.deadline m.loop s ≠ 255 → m.proceed.loop.globalTick c = m.loop.globalTick c + 1 := by
        intro armed
        rw [moved]
        simp only [Loop.tick, Function.update_self]
        exact Nat.mod_eq_of_lt (fits armed).1
      apply Turned.ticked log deadline ticked _ rfl
      intro due armed
      rw [ticked armed] at due
      have free := (fits armed).2 due
      rcases watched.inv.threaded.open_place watched.member watched.opened with ⟨-, parked⟩ | ⟨listed, -⟩
      · exact absurd parked free
      · rw [watched.own] at listed
        exact listed
    · apply Turned.checked
      · apply Checked.passed _ log
        · cases timer <;> simp [Timer.event]
        · intro listed
          exact absurd ((watched.inv.threaded.sockets c s listed).1.symm.trans watched.own) same
        · intro none_
          simp [Phase.unchecked] at none_
        · simp [watched.own, Ne.symm same]
        · exact deadline
      · rw [moved]
        exact Function.update_of_ne (Ne.symm same) ..

theorem step_turned (watched : Watched context s m lists todo) (action : Action) (leaves : LeavesAlone timer s m action)
    (turns : Turns timer s m action) :
    ∃ lists' todo', Watched context s (m.step action) lists' todo' ∧
      Turned timer context s m (m.step action) (m.phase.unchecked timer todo)
        ((m.step action).phase.unchecked timer todo') := by
  cases action with
  | operation operation => exact operation_turned watched operation leaves turns
  | sweep =>
    refine ⟨lists, todo, ⟨sweep_invariant watched.inv, step_stamped watched.stamped .sweep, ?_, ?_, ?_⟩, .checked (passed_same ?_ ?_ ?_) ?_⟩
    all_goals
      unfold Machine.step
      dsimp only
      split
    · exact watched.member
    · exact watched.member
    · exact watched.opened
    · exact watched.opened
    · exact watched.own
    · exact watched.own
    · rfl
    · rfl
    · rfl
    · rfl
    · rename_i idle
      rw [idle]
      exact Iff.rfl
    · exact Iff.rfl
    · rfl
    · rfl
  | proceed =>
    change ∃ lists' todo', Watched context s m.proceed lists' todo' ∧
      Turned timer context s m m.proceed (m.phase.unchecked timer todo) (m.proceed.phase.unchecked timer todo')
    rcases phase : m.phase with _ | others | ⟨here, others, cursor⟩ | ⟨stage, here, others, current⟩
    · have same : m.proceed = m := by
        unfold Machine.proceed
        rw [phase]
      rw [same, ← phase]
      exact ⟨lists, todo, watched, .checked (passed_same rfl rfl Iff.rfl) rfl⟩
    · cases others with
      | nil =>
        have next : m.proceed = { m with phase := .idle } := by
          unfold Machine.proceed
          rw [phase]
        have between : ∀ c rest, m.phase ≠ .contexts (c :: rest) := by simp [phase]
        refine ⟨lists, todo, watched.proceed between ?_, ?_⟩
        · rw [next]
          exact ⟨watched.inv.threaded, True.intro⟩
        · rw [next]
          exact .checked (passed_same rfl rfl Iff.rfl) rfl
      | cons c rest =>
        obtain ⟨todo', kept, turned⟩ := tick_turned watched phase turns
        rw [phase] at turned
        exact ⟨lists, todo', kept, turned⟩
    · have between : ∀ c rest, m.phase ≠ .contexts (c :: rest) := by simp [phase]
      have tick := congrFun (proceed_still between).2.2.2.1 context
      cases cursor with
      | none =>
        obtain ⟨kept, samePhase, log, rfl⟩ := swept_invariant watched.inv phase
        refine ⟨lists, [], watched.proceed between kept, .checked (.passed _ log ?_ ?_ ?_ ?_ ?_) tick⟩
        · cases timer <;> simp [Timer.event]
        · simp [samePhase, Phase.unchecked]
        · simp [Phase.unchecked]
        · simp
        · unfold Machine.proceed
          rw [phase]
          cases timer <;> rfl
      | some current =>
        have next : m.proceed = m.examine here others current := by
          unfold Machine.proceed
          rw [phase]
        obtain ⟨todo', kept, checked⟩ := examine_checked watched.inv phase timer s
        rw [← next] at kept checked
        rw [phase] at checked
        exact ⟨lists, todo', watched.proceed between kept, .checked checked tick⟩
    · have between : ∀ c rest, m.phase ≠ .contexts (c :: rest) := by simp [phase]
      have tick := congrFun (proceed_still between).2.2.2.1 context
      have next : m.proceed = m.emit here others current stage := by
        unfold Machine.proceed
        rw [phase]
      obtain ⟨todo', kept, checked⟩ := emit_checked watched.inv phase timer s
      rw [← next] at kept checked
      rw [phase] at checked
      exact ⟨lists, todo', watched.proceed between kept, .checked checked tick⟩

end Watched

end Uws.Sweep
