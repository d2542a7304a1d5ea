import Uws.Sweep.TimerWheel

/-! When a timer that is armed is emitted, counted in the sweeps of its context. -/

namespace Uws.Sweep

namespace Timer

/-- The longest time that a timer is armed for, in seconds and in minutes. -/
def most : Timer → Nat
  | .short => 960
  | .long => 240

/-- The sweep that a timer is emitted in is no earlier and no later one than these. -/
def earliest : Timer → Nat → Nat
  | .short, seconds => (seconds + 3) / 4
  | .long, minutes => 15 * (minutes - 1) + 1

def latest : Timer → Nat → Nat
  | .short, seconds => (seconds + 3) / 4
  | .long, minutes => 15 * minutes

end Timer

namespace Machine

/-- A timer is armed where code runs, for a socket that is open. -/
structure Arms (m : Machine) (timer : Timer) (s : Address) (amount : Nat) : Prop where
  yields : m.phase.Yields
  member : s ∈ m.loop.allocated
  opened : ¬ m.loop.isClosed s
  positive : 1 ≤ amount
  bounded : amount ≤ timer.most

def Reached (m : Machine) : Prop := ∃ actions, m = Machine.run {} actions

def arm (m : Machine) (timer : Timer) (s : Address) (amount : Nat) : Machine := m.step (.operation (timer.operation s amount))

/-- The sweep that called the handler still looks at the timer of the socket: the socket is behind the iterator, or it is
    the long timer of the one whose short timer was emitted. -/
def StillChecks (m : Machine) (timer : Timer) (s : Address) : Prop :=
  match m.phase with
  | .emit stage context _ current =>
    s ∈ Loop.walk m.loop.next m.loop.allocated.length (m.loop.iterator context) ∧
      (s = current → timer = .long ∧ stage = .onSocketTimeout)
  | _ => False

/-- A deadline of all 240 ticks is the timestamp of now: it is right only where the sweep does not look at the timer before
    the timestamp moves on. -/
def Fits (m : Machine) (s : Address) (amount : Nat) : Timer → Prop
  | .short => (amount + 3) / 4 = 240 → ¬ m.StillChecks .short s
  | .long => amount = 240 → m.loop.globalTick (m.loop.context s) % 15 = 14 ∧ ¬ m.StillChecks .long s

end Machine

/-- What is to hold of a state, for a timer that was armed before the events `since`: it is emitted once at most, in none
    but the sweeps of `earliest` to `latest`, and it is emitted when the last of these is over. -/
structure OnTime (timer : Timer) (context s : Address) (amount : Nat) (m : Machine) (since : List Event) : Prop where
  within : ∀ before after, since = before ++ timer.event s :: after →
    timer.earliest amount ≤ before.count (.tick context) ∧ before.count (.tick context) ≤ timer.latest amount
  once : since.count (timer.event s) ≤ 1
  emitted : timer.latest amount ≤ since.count (.tick context) → m.phase.at_ ≠ some context → timer.event s ∈ since

/-- The deadline is the timestamp of the sweep `due`, and of none before it but for the one that the timer was armed in. -/
structure Wheel (timer : Timer) (start due target : Nat) : Prop where
  bound : target < 240
  positive : 0 < due
  early : ∀ n, 0 < n → n < due → timer.stampAt (start + n) ≠ target
  due : timer.stampAt (start + due) = target

inductive Standing.Armed (timer : Timer) (context s : Address) (start due target : Nat) (base : List Event) (m : Machine)
    (todo : List Address) : Prop where
  | waiting (since : List Event) (log : m.log = base ++ since) (silent : timer.event s ∉ since)
      (armed : timer.deadline m.loop s = target)
      (tick : m.loop.globalTick context = start + since.count (.tick context))
      (ahead : (since.count (.tick context) < due ∧
          (s ∈ m.phase.unchecked timer todo → timer.stampAt (start + since.count (.tick context)) ≠ target)) ∨
        (since.count (.tick context) = due ∧ s ∈ m.phase.unchecked timer todo))
  | emitted (front back : List Event) (log : m.log = base ++ (front ++ timer.event s :: back))
      (first : timer.event s ∉ front) (last : timer.event s ∉ back) (counted : front.count (.tick context) = due)
      (disarmed : timer.deadline m.loop s = 255)

section Runs

variable {timer : Timer} {m m' : Machine} {lists : Place → List Address} {todo todo' : List Address} {context s : Address}
  {start due target amount : Nat} {base since : List Event}

theorem stampAt_lt (timer : Timer) (tick : Nat) : timer.stampAt tick < 240 := by
  cases timer <;> exact Nat.mod_lt _ (by decide)

theorem event_tick (timer : Timer) (s context : Address) : timer.event s ≠ .tick context := by
  cases timer <;> simp [Timer.event]

theorem armed_step (wheel : Wheel timer start due target) (watched : Watched context s m lists todo)
    (turned : Turned timer context s m m' (m.phase.unchecked timer todo) (m'.phase.unchecked timer todo'))
    (armed : Standing.Armed timer context s start due target base m todo) :
    Standing.Armed timer context s start due target base m' todo' := by
  have stamp : timer.stamp m.loop (m.loop.context s) = timer.stampAt (m.loop.globalTick context) := by
    rw [watched.own]
    exact watched.stamped.stamp timer context
  have bound := wheel.bound
  cases armed with
  | waiting since log silent armed tick ahead =>
    cases turned with
    | checked checked sameTick =>
      cases checked with
      | passed events grown quiet same still unticked deadline =>
        rw [watched.own] at unticked
        have count : (since ++ events).count (.tick context) = since.count (.tick context) := by
          rw [List.count_append, List.count_eq_zero.mpr unticked, Nat.add_zero]
        apply Standing.Armed.waiting (since ++ events)
        · rw [grown, log, List.append_assoc]
        · simpa using ⟨silent, quiet⟩
        · rw [deadline, armed]
        · rw [sameTick, tick, count]
        · rw [count]
          rcases ahead with ⟨early, away⟩ | ⟨now, member⟩
          · exact .inl ⟨early, fun later => away (same later)⟩
          · refine .inr ⟨now, ?_⟩
            rcases still member with stays | other
            · exact stays
            · rw [stamp, tick, now, wheel.due, armed] at other
              exact absurd rfl other
      | fired events grown quiet unticked member reached deadline =>
        rw [watched.own] at unticked
        rw [stamp, tick, armed] at reached
        rcases ahead with ⟨-, away⟩ | ⟨now, -⟩
        · exact absurd reached (away member)
        · apply Standing.Armed.emitted (since ++ events) [] _ _ (by simp) _ deadline
          · rw [grown, log]
            simp
          · simpa using ⟨silent, quiet⟩
          · rw [List.count_append, List.count_eq_zero.mpr unticked, Nat.add_zero, now]
    | ticked grown deadline moves listed unchecked =>
      have set_ : timer.deadline m.loop s ≠ 255 := by omega
      have count : (since ++ [Event.tick context]).count (.tick context) = since.count (.tick context) + 1 := by simp
      rcases ahead with ⟨early, -⟩ | ⟨-, member⟩
      · apply Standing.Armed.waiting (since ++ [.tick context])
        · rw [grown, log, List.append_assoc]
        · simpa [event_tick] using silent
        · rw [deadline, armed]
        · rw [moves set_, tick, count, Nat.add_assoc]
        · rw [count]
          by_cases last : since.count (.tick context) + 1 = due
          · refine .inr ⟨last, listed ?_ set_⟩
            rw [moves set_, tick, Nat.add_assoc, last, wheel.due, armed]
          · exact .inl ⟨by omega, fun _ => wheel.early _ (by omega) (by omega)⟩
      · rw [unchecked] at member
        cases member
  | emitted front back log first last counted disarmed =>
    cases turned with
    | checked checked sameTick =>
      cases checked with
      | passed events grown quiet same still unticked deadline =>
        apply Standing.Armed.emitted front (back ++ events) _ first _ counted
        · rw [deadline, disarmed]
        · rw [grown, log]
          simp
        · simpa using ⟨last, quiet⟩
      | fired events grown quiet unticked member reached deadline =>
        have small := stampAt_lt timer (m.loop.globalTick context)
        rw [stamp, disarmed] at reached
        omega
    | ticked grown deadline moves listed unchecked =>
      apply Standing.Armed.emitted front (back ++ [.tick context]) _ first _ counted
      · rw [deadline, disarmed]
      · rw [grown, log]
        simp
      · simpa [event_tick] using last

theorem armed_run (wheel : Wheel timer start due target) (watched : Watched context s m lists todo)
    (armed : Standing.Armed timer context s start due target base m todo) {actions : List Action}
    (leaves : Machine.Along (LeavesAlone timer s) m actions) (turns : Machine.Along (Turns timer s) m actions) :
    ∃ lists' todo', Watched context s (m.run actions) lists' todo' ∧
      Standing.Armed timer context s start due target base (m.run actions) todo' := by
  induction actions generalizing m lists todo with
  | nil => exact ⟨lists, todo, watched, armed⟩
  | cons action actions ih =>
    obtain ⟨lists', todo', next, turned⟩ := step_turned watched action leaves.1 turns.1
    exact ih next (armed_step wheel watched turned armed) leaves.2 turns.2

theorem armed_onTime (watched : Watched context s m lists todo)
    (armed : Standing.Armed timer context s start due target base m todo) (log : m.log = base ++ since)
    (earliest : timer.earliest amount ≤ due) (latest : due ≤ timer.latest amount) :
    OnTime timer context s amount m since := by
  cases armed with
  | waiting since' log' silent armed tick ahead =>
    have same : since = since' := List.append_cancel_left (log.symm.trans log')
    subst same
    refine ⟨?_, ?_, ?_⟩
    · intro before after split
      exact absurd (by simp [split]) silent
    · rw [List.count_eq_zero.mpr silent]
      exact Nat.zero_le 1
    · intro past away
      rcases ahead with ⟨early, -⟩ | ⟨-, member⟩
      · omega
      · have here := watched.inv.unchecked_at member
        rw [watched.own] at here
        exact absurd here away
  | emitted front back log' first last counted disarmed =>
    have same : since = front ++ timer.event s :: back := List.append_cancel_left (log.symm.trans log')
    subst same
    refine ⟨?_, ?_, ?_⟩
    · intro before after split
      obtain ⟨rfl, -, -⟩ := (List.append_cons_inj_of_notMem first last).mp split
      omega
    · rw [List.count_append, List.count_cons_self, List.count_eq_zero.mpr first, List.count_eq_zero.mpr last]
    · intro past away
      simp

/-- A socket that the sweep has yet to look at inside of a handler is behind the iterator. -/
theorem unchecked_stillChecks (inv : Invariant m lists todo) (yields : m.phase.Yields)
    (member : s ∈ m.phase.unchecked timer todo) : m.StillChecks timer s := by
  have standing := inv.standing
  unfold Machine.StillChecks
  rcases phase : m.phase with _ | others | ⟨here, others, cursor⟩ | ⟨stage, here, others, current⟩
  · simp [phase, Phase.unchecked] at member
  · simp [phase, Phase.unchecked] at member
  · rw [phase] at yields
    exact absurd yields id
  · rw [phase] at standing yields member
    obtain ⟨-, -, ahead, -⟩ := standing
    have inside := Phase.unchecked_subset _ _ member
    refine ⟨?_, ?_⟩
    · rw [ahead.iterator, inv.threaded.walk_suffix ahead.suffix]
      exact inside
    · intro same
      subst same
      simp only [Phase.unchecked] at member
      split at member
      · rename_i later
        refine ⟨later.1, ?_⟩
        rcases yields with first | second
        · exact first
        · rcases later.2 with first | between
          · exact first
          · rw [second] at between
            cases between
      · simp at member

theorem reachable (actions : List Action) :
    (∃ lists todo, Invariant (Machine.run {} actions) lists todo) ∧ (Machine.run {} actions).loop.Stamped := by
  have keeps : ∀ (m : Machine) action, ((∃ lists todo, Invariant m lists todo) ∧ m.loop.Stamped) → True →
      (∃ lists todo, Invariant (m.step action) lists todo) ∧ (m.step action).loop.Stamped := by
    rintro m action ⟨⟨lists, todo, inv⟩, stamped⟩ -
    exact ⟨step_invariant inv action, step_stamped stamped action⟩
  have start : (∃ lists todo, Invariant {} lists todo) ∧ Loop.Stamped {} :=
    ⟨⟨_, _, initial_invariant⟩, ⟨fun _ => rfl, fun _ => show (0 : Nat) = 0 / 15 % 240 by decide⟩⟩
  have all : ∀ (m : Machine) actions, Machine.Along (fun _ _ => True) m actions := by
    intro m actions
    induction actions generalizing m with
    | nil => exact True.intro
    | cons action actions ih => exact ⟨True.intro, ih _⟩
  exact Machine.run_induction keeps start (all {} actions)

theorem short_deadline (start : Nat) {seconds : Nat} (bounded : seconds ≤ 960) :
    (start % 240 + (seconds + 3) % 2 ^ 32 / 4) % 2 ^ 32 = start % 240 + (seconds + 3) / 4 := by
  omega

theorem long_deadline (start : Nat) {minutes : Nat} (bounded : minutes ≤ 240) :
    (start / 15 % 240 + minutes) % 2 ^ 32 = start / 15 % 240 + minutes := by
  omega

theorem short_wheel (start seconds : Nat) (positive : 1 ≤ seconds) (bounded : seconds ≤ 960) :
    Wheel .short start ((seconds + 3) / 4) ((start % 240 + (seconds + 3) % 2 ^ 32 / 4) % 2 ^ 32 % 240) := by
  rw [short_deadline start bounded]
  refine ⟨Nat.mod_lt _ (by decide), by omega, ?_, ?_⟩
  · intro n later sooner
    simp only [Timer.stampAt]
    omega
  · simp only [Timer.stampAt]
    omega

theorem long_wheel (start minutes : Nat) (positive : 1 ≤ minutes) (bounded : minutes ≤ 240)
    (fits : minutes = 240 → start % 15 = 14) :
    Wheel .long start (15 * minutes - start % 15) ((start / 15 % 240 + minutes) % 2 ^ 32 % 240) := by
  rw [long_deadline start bounded]
  refine ⟨Nat.mod_lt _ (by decide), by omega, ?_, ?_⟩
  · intro n later sooner
    simp only [Timer.stampAt]
    omega
  · have turn : (start + (15 * minutes - start % 15)) / 15 = start / 15 + minutes := by omega
    simp only [Timer.stampAt]
    rw [turn]
    omega

theorem arm_watched (arms : m.Arms timer s amount) (inv : Invariant m lists todo) (stamped : m.loop.Stamped) :
    (m.arm timer s amount).phase = m.phase ∧ (m.arm timer s amount).log = m.log ∧
      (m.arm timer s amount).loop.globalTick = m.loop.globalTick ∧
      Watched (m.loop.context s) s (m.arm timer s amount) lists todo := by
  have possible : (timer.operation s amount).Possible m.loop := by
    cases timer <;> exact arms.member
  have moved : m.arm timer s amount =
      { m with loop := (timer.operation s amount).run m.loop, owner := (timer.operation s amount).owners m.loop m.owner } := by
    unfold Machine.arm Machine.step Loop.apply
    dsimp only
    rw [if_pos ⟨arms.yields, possible⟩, if_pos possible]
  rw [moved]
  have threaded := inv.threaded
  have standing := inv.standing
  refine ⟨rfl, rfl, ?_, ⟨?_, ?_⟩, ?_, ?_, ?_, ?_⟩
  · cases timer <;> rfl
  · cases timer <;>
      exact ⟨threaded.family, threaded.allocated, threaded.out, threaded.sockets, threaded.queued, threaded.closed,
        threaded.kinds, threaded.contexts⟩
  · simp only
    cases phase : m.phase with
    | idle => exact True.intro
    | contexts rest =>
      rw [phase] at standing
      cases timer <;> exact standing
    | seek here rest cursor =>
      rw [phase] at standing
      cases timer <;> exact standing
    | emit stage here rest current =>
      rw [phase] at standing
      obtain ⟨known, others, ahead, head⟩ := standing
      cases timer <;> exact ⟨known, others, ⟨ahead.iterator, ahead.suffix⟩, head⟩
  · cases timer <;> exact ⟨stamped.short, stamped.long⟩
  · cases timer <;> exact arms.member
  · cases timer <;> exact arms.opened
  · cases timer <;> rfl

theorem arm_wheel (arms : m.Arms timer s amount) (stamped : m.loop.Stamped) (fits : m.Fits s amount timer) :
    ∃ due, timer.earliest amount ≤ due ∧ due ≤ timer.latest amount ∧
      Wheel timer (m.loop.globalTick (m.loop.context s)) due (timer.deadline (m.arm timer s amount).loop s) ∧
      (m.StillChecks timer s →
        timer.stampAt (m.loop.globalTick (m.loop.context s)) ≠ timer.deadline (m.arm timer s amount).loop s) := by
  have positive := arms.positive
  have bounded := arms.bounded
  have some_ : amount ≠ 0 := by omega
  generalize begun : m.loop.globalTick (m.loop.context s) = start
  have armed : (m.arm timer s amount).loop = (timer.operation s amount).run m.loop := by
    have possible : (timer.operation s amount).Possible m.loop := by
      cases timer <;> exact arms.member
    unfold Machine.arm Machine.step Loop.apply
    dsimp only
    rw [if_pos ⟨arms.yields, possible⟩, if_pos possible]
  rw [armed]
  cases timer with
  | short =>
    have short : amount ≤ 960 := bounded
    have deadline : Timer.short.deadline ((Timer.short.operation s amount).run m.loop) s =
        (start % 240 + (amount + 3) % 2 ^ 32 / 4) % 2 ^ 32 % 240 := by
      simp [Timer.deadline, Timer.operation, Operation.run, Loop.socketTimeout, stamped.short, begun, some_]
    rw [deadline]
    refine ⟨(amount + 3) / 4, le_refl _, le_refl _, short_wheel start amount positive short, ?_⟩
    intro checks
    have away : (amount + 3) / 4 ≠ 240 := fun all => fits all checks
    simp only [Timer.stampAt]
    rw [short_deadline start short]
    omega
  | long =>
    have long : amount ≤ 240 := bounded
    have deadline : Timer.long.deadline ((Timer.long.operation s amount).run m.loop) s =
        (start / 15 % 240 + amount) % 2 ^ 32 % 240 := by
      simp [Timer.deadline, Timer.operation, Operation.run, Loop.socketLongTimeout, stamped.long, begun, some_]
    rw [deadline]
    have turned : amount = 240 → start % 15 = 14 := by
      intro all
      have fit := (fits all).1
      rwa [begun] at fit
    refine ⟨15 * amount - start % 15, ?_, Nat.sub_le .., long_wheel start amount positive long turned, ?_⟩
    · simp only [Timer.earliest]
      omega
    · intro checks
      have away : amount ≠ 240 := fun all => (fits all).2 checks
      simp only [Timer.stampAt]
      rw [long_deadline start long]
      omega

def oneSocket : List Action := [.createContext (.context 0), .accept (.context 0) (.socket 1)].map .operation

/-- A sweep of that context, up to where it has looked at the socket and gone through its handlers. -/
def oneSweep (steps : Nat) : List Action := .sweep :: List.replicate steps .proceed

end Runs

end Uws.Sweep
