import Uws.Sweep.SweepInvariant
import Uws.Sweep.SocketOwners

/-! Whole runs: the lists at every state, the end of a sweep, and what one sweep looks at. -/

namespace Uws.Sweep

open Uws.LinkedList

/-- Everything that the lists of a loop are to be: they are well formed, an open socket is in exactly one of them, which
    is the queue or the list of its owner, and a closed one is in the close-list once. -/
structure ListsSound (loop : Loop) (owner : Address → Address) (lists : Place → List Address) : Prop where
  sockets : ∀ context ∈ loop.contexts,
    DoublyLinked loop.next loop.prev (loop.headSockets context) (lists (.sockets context))
  queue : DoublyLinked loop.next loop.prev loop.lowPrioHead (lists .queue)
  closed : Linked loop.next loop.closedHead (lists .closed)
  allocated : ∀ place, ∀ s ∈ lists place, s ∈ loop.allocated
  open_once : ∀ s ∈ loop.allocated, ¬ loop.isClosed s →
    (s ∈ lists .queue ∨ s ∈ lists (.sockets (owner s))) ∧ ∃! place, s ∈ lists place
  owned : ∀ s ∈ loop.allocated, loop.context s = owner s ∧ owner s ∈ loop.contexts
  closed_once : ∀ s ∈ loop.allocated, loop.isClosed s → (lists .closed).count s = 1

def InList (loop : Loop) (context s : Address) : Prop :=
  ∃ sockets, DoublyLinked loop.next loop.prev (loop.headSockets context) sockets ∧ s ∈ sockets

def Stage.rank : Stage → Nat
  | .onSocketTimeout => 3
  | .between => 2
  | .onSocketLongTimeout => 1
  | .after => 0

def Phase.rank : Phase → List Address → ℕ ×ₗ ℕ ×ₗ ℕ
  | .idle, _ => toLex (0, toLex (0, 0))
  | .contexts rest, _ => toLex (2 * rest.length + 1, toLex (0, 0))
  | .seek _ rest _, todo => toLex (2 * rest.length + 2, toLex (todo.length, 4))
  | .emit stage _ rest s, todo => toLex (2 * rest.length + 2, toLex ((todo.filter (· ≠ s)).length + 1, stage.rank))

variable {m : Machine} {lists : Place → List Address} {todo todo' : List Address} {context s x : Address}
  {rest : List Address} {cursor : Option Address} {stage : Stage} {base mid : List Event}

namespace Invariant

theorem sound (inv : Invariant m lists todo) (owned : m.Owned) : ListsSound m.loop m.owner lists := by
  have threaded := inv.threaded
  refine ⟨?_, threaded.family.doubly .queue (by simp), threaded.family.linked .closed, ?_, ?_, ?_, ?_⟩
  · intro context _
    exact threaded.family.doubly (.sockets context) (by simp)
  · exact fun place s member => threaded.member member
  · intro s member opened
    rcases threaded.open_place member opened with ⟨listed, -⟩ | ⟨listed, -⟩
    · exact ⟨.inl listed, .queue, listed, fun place other => threaded.place_unique other listed⟩
    · have named := owned s member
      refine ⟨.inr (named ▸ listed), _, listed, fun place other => threaded.place_unique other listed⟩
  · intro s member
    have named := owned s member
    exact ⟨named, named ▸ (threaded.kinds s member).2⟩
  · intro s member closed
    exact List.count_eq_one_of_mem (threaded.family.linked .closed).nodup ((threaded.isClosed_iff member).mp closed)

theorem in_list (inv : Invariant m lists todo) (listed : InList m.loop context s) : s ∈ lists (.sockets context) := by
  obtain ⟨sockets, doubly, member⟩ := listed
  rw [← doubly.toLinked.unique (inv.threaded.family.linked (.sockets context))]
  exact member

end Invariant

section Termination

theorem rank_lt {a b c a' b' c' : ℕ} :
    (toLex (a, toLex (b, c)) : ℕ ×ₗ ℕ ×ₗ ℕ) < toLex (a', toLex (b', c')) ↔
      a < a' ∨ a = a' ∧ (b < b' ∨ b = b' ∧ c < c') := by
  rw [Prod.Lex.toLex_lt_toLex, Prod.Lex.toLex_lt_toLex]

theorem rank_le {a b c a' b' c' : ℕ} :
    (toLex (a, toLex (b, c)) : ℕ ×ₗ ℕ ×ₗ ℕ) ≤ toLex (a', toLex (b', c')) ↔
      a < a' ∨ a = a' ∧ (b < b' ∨ b = b' ∧ c ≤ c') := by
  rw [Prod.Lex.toLex_le_toLex, Prod.Lex.toLex_le_toLex]

theorem examine_rank (inv : Invariant m lists todo) (phase : m.phase = .seek context rest (some s)) :
    ∃ todo', Invariant (m.examine context rest s) lists todo' ∧
      (m.examine context rest s).phase.rank todo' < m.phase.rank todo := by
  obtain ⟨left, todo', rfl, kept, pending⟩ := examine_invariant inv phase
  refine ⟨todo', kept, ?_⟩
  have same := congrArg List.length pending
  rw [phase]
  unfold Machine.examine at same ⊢
  split at same
  · rename_i due
    simp only [if_pos due, Phase.rank, rank_lt, true_and, Phase.pending, Stage.rank, List.length_cons] at same ⊢
    omega
  · rename_i due
    simp only [if_neg due]
    split at same
    · rename_i longDue
      simp only [if_pos longDue, Phase.rank, rank_lt, true_and, Phase.pending, Stage.rank,
        List.length_cons] at same ⊢
      omega
    · rename_i longDue
      simp only [if_neg longDue, Phase.rank, rank_lt, true_and, Phase.pending, List.length_cons] at same ⊢
      omega

theorem emit_rank (inv : Invariant m lists todo) (phase : m.phase = .emit stage context rest s) :
    ∃ todo', Invariant (m.emit context rest s stage) lists todo' ∧
      (m.emit context rest s stage).phase.rank todo' < m.phase.rank todo := by
  obtain ⟨todo', kept, pending⟩ := emit_invariant inv phase
  refine ⟨todo', kept, ?_⟩
  have same := congrArg List.length pending
  rw [phase] at same ⊢
  cases stage with
  | onSocketTimeout =>
    simp only [Machine.emit, Phase.rank, rank_lt, true_and, Phase.pending, Stage.rank] at same ⊢
    omega
  | onSocketLongTimeout =>
    simp only [Machine.emit, Phase.rank, rank_lt, true_and, Phase.pending, Stage.rank] at same ⊢
    omega
  | between =>
    simp only [Machine.emit] at same ⊢
    split at same
    · rename_i due
      simp only [if_pos due, Phase.rank, rank_lt, true_and, Phase.pending, Stage.rank] at same ⊢
      omega
    · rename_i due
      simp only [if_neg due, Phase.rank, rank_lt, true_and, Phase.pending, Stage.rank] at same ⊢
      omega
  | after =>
    simp only [Machine.emit, Phase.rank, rank_lt, true_and, Phase.pending] at same ⊢
    omega

theorem step_rank (inv : Invariant m lists todo) (busy : m.phase ≠ .idle) (action : Action) :
    ∃ lists' todo', Invariant (m.step action) lists' todo' ∧
      ((m.step action).phase.rank todo' < m.phase.rank todo ∨
        action ≠ .proceed ∧ (m.step action).phase ≠ .idle ∧ (m.step action).phase.rank todo' ≤ m.phase.rank todo) := by
  cases action with
  | operation operation =>
    obtain ⟨lists', todo', kept, phase, -, sublist, -⟩ := operation_invariant inv operation
    refine ⟨lists', todo', kept, .inr ⟨by simp, by rwa [phase], ?_⟩⟩
    rw [phase]
    have shorter := sublist.length_le
    cases here : m.phase with
    | idle => exact le_refl _
    | contexts rest => exact le_refl _
    | seek context rest cursor =>
      rw [here] at shorter
      simp only [Phase.pending] at shorter
      simp only [Phase.rank, rank_le, true_and]
      omega
    | emit stage context rest s =>
      rw [here] at shorter
      simp only [Phase.pending] at shorter
      simp only [Phase.rank, rank_le, true_and]
      omega
  | sweep =>
    have same : m.step .sweep = m := by
      unfold Machine.step
      dsimp only
      rw [if_neg busy]
    rw [same]
    exact ⟨lists, todo, inv, .inr ⟨by simp, busy, le_refl _⟩⟩
  | proceed =>
    change ∃ lists' todo', Invariant m.proceed lists' todo' ∧ (m.proceed.phase.rank todo' < m.phase.rank todo ∨ _)
    rcases phase : m.phase with _ | rest | ⟨context, rest, cursor⟩ | ⟨stage, context, rest, s⟩
    · exact absurd phase busy
    · cases rest with
      | nil =>
        have next : m.proceed = { m with phase := .idle } := by
          unfold Machine.proceed
          rw [phase]
        rw [next]
        exact ⟨lists, todo, ⟨inv.threaded, True.intro⟩, .inl (by simp [Phase.rank, rank_lt])⟩
      | cons context rest =>
        obtain ⟨kept, next, -⟩ := tick_invariant inv phase
        refine ⟨lists, _, kept, .inl ?_⟩
        rw [next]
        simp only [Phase.rank, rank_lt, List.length_cons]
        omega
    · cases cursor with
      | none =>
        obtain ⟨kept, next, -, -⟩ := swept_invariant inv phase
        refine ⟨lists, _, kept, .inl ?_⟩
        rw [next]
        simp [Phase.rank, rank_lt]
      | some s =>
        obtain ⟨todo', kept, less⟩ := examine_rank inv phase
        have next : m.proceed = m.examine context rest s := by
          unfold Machine.proceed
          rw [phase]
        rw [next, ← phase]
        exact ⟨lists, todo', kept, .inl less⟩
    · obtain ⟨todo', kept, less⟩ := emit_rank inv phase
      have next : m.proceed = m.emit context rest s stage := by
        unfold Machine.proceed
        rw [phase]
      rw [next, ← phase]
      exact ⟨lists, todo', kept, .inl less⟩

def Machine.under (m : Machine) (schedule : Nat → Action) : Nat → Machine
  | 0 => m
  | n + 1 => (m.step (schedule 0)).under (fun k => schedule (k + 1)) n

/-- No handler keeps the sweep from going on for ever. -/
def Returns (schedule : Nat → Action) : Prop := ∀ n, ∃ k, n ≤ k ∧ schedule k = .proceed

theorem Returns.tail {schedule : Nat → Action} (returns : Returns schedule) : Returns fun k => schedule (k + 1) := by
  intro n
  obtain ⟨k, after, proceeds⟩ := returns (n + 1)
  cases k with
  | zero => omega
  | succ k => exact ⟨k, by omega, proceeds⟩

theorem sweep_terminates {schedule : Nat → Action} (inv : Invariant m lists todo) (returns : Returns schedule) :
    ∃ n, (m.under schedule n).phase = .idle := by
  generalize measured : m.phase.rank todo = rank
  induction rank using WellFoundedLT.induction generalizing m lists todo schedule with
  | ind rank ih =>
    -- the first step of the sweep itself, with what the handlers do before it
    obtain ⟨k, -, proceeds⟩ := returns 0
    subst measured
    suffices waits : ∀ k, ∀ (m' : Machine) (lists' : Place → List Address) (todo' : List Address)
        (schedule' : Nat → Action), Invariant m' lists' todo' → Returns schedule' →
        m'.phase.rank todo' ≤ m.phase.rank todo → schedule' k = .proceed →
        ∃ n, (m'.under schedule' n).phase = .idle from
      waits k m lists todo schedule inv returns (le_refl _) proceeds
    intro k
    induction k with
    | zero =>
      intro m' lists' todo' schedule' inv' returns' below proceeds'
      by_cases idle : m'.phase = .idle
      · exact ⟨0, idle⟩
      · obtain ⟨next, left, kept, less | ⟨other, -⟩⟩ := step_rank inv' idle (schedule' 0)
        · obtain ⟨n, done⟩ := ih _ (less.trans_le below) kept returns'.tail rfl
          exact ⟨n + 1, done⟩
        · exact absurd proceeds' other
    | succ k wait =>
      intro m' lists' todo' schedule' inv' returns' below proceeds'
      by_cases idle : m'.phase = .idle
      · exact ⟨0, idle⟩
      · obtain ⟨next, left, kept, less | ⟨-, -, notMore⟩⟩ := step_rank inv' idle (schedule' 0)
        · obtain ⟨n, done⟩ := ih _ (less.trans_le below) kept returns'.tail rfl
          exact ⟨n + 1, done⟩
        · obtain ⟨n, done⟩ := wait _ _ _ (fun k => schedule' (k + 1)) kept returns'.tail (notMore.trans below) proceeds'
          exact ⟨n + 1, done⟩

end Termination

end Uws.Sweep
