import Uws.Client.ClientQueue

/-! What holds of every run of a client app. -/

namespace Uws.Client

variable {w : App} {k : Nat}

theorem orderly_close (orderly : Orderly w) : Orderly w.close := by
  unfold App.close
  split
  · next alive =>
    refine { orderly with
      covered := ?_, lively := fun opened => ?_, parted := ?_, dead := fun _ => rfl
      finished := ?_, destroying := ?_, looping := fun _ _ => rfl, inside := ?_ }
    · exact fun _ j member _ => .inr ⟨_, List.mem_cons_self, member⟩
    · cases opened
    · intro j created absent
      have parted := orderly.parted j created absent
      exact ⟨parted.frees, parted.socket, parted.request, parted.data, parted.calls, parted.waits⟩
    · exact fun dead => (orderly.finished dead).imp_right fun ⟨rest, stacked⟩ => ⟨rest, List.mem_cons_of_mem _ stacked⟩
    · intro rest stacked
      rcases List.mem_cons.mp stacked with same | before
      · cases same
      · exact orderly.destroying rest before
    · intro frame stacked j listed
      rcases List.mem_cons.mp stacked with rfl | before
      · exact listed
      · exact orderly.inside frame before j listed
  · exact orderly

theorem orderly_destroy (orderly : Orderly w) (empty : w.stack = []) (alive : w.alive = true) :
    Orderly w.destroy := by
  have live : w.gone = false := by
    cases gone : w.gone with
    | false => rfl
    | true => cases (orderly.gone gone).2.symm.trans alive
  have calls : ∀ j, callsOf w.stack j = [] := by
    intro j
    rw [empty]
    rfl
  unfold App.destroy
  refine { orderly with
    stages := ?_, covered := ?_, lively := fun opened => ?_, fresh := ?_, parted := ?_
    gone := fun gone => ?_, finished := fun _ => .inr ⟨_, List.mem_singleton.mpr rfl⟩, dead := fun _ => rfl, bottomed := rfl
    destroying := fun _ _ => ⟨rfl, live⟩, looping := fun _ _ => rfl, inside := ?_, scheduled := fun absurd => ?_ }
  · intro j created _
    have stage := orderly.stages j created id
    rw [calls] at stage
    exact stage
  · intro _ j member _
    cases closed : w.closed with
    | true =>
      refine .inl ?_
      rcases orderly.covered closed j member id with settled | ⟨frame, stacked, listed⟩
      · exact settled
      · rw [empty] at stacked
        exact absurd stacked List.not_mem_nil
    | false => exact .inr ⟨_, List.mem_singleton.mpr rfl, member⟩
  · cases opened
  · intro j new
    obtain ⟨slot, -, waiting⟩ := orderly.fresh j new
    exact ⟨slot, rfl, waiting⟩
  · intro j created absent
    have parted := orderly.parted j created absent
    exact ⟨parted.frees, parted.socket, parted.request, parted.data, rfl, fun _ => parted.waits alive⟩
  · cases live.symm.trans gone
  · intro frame stacked j listed
    obtain rfl := List.mem_singleton.mp stacked
    cases closed : w.closed with
    | true =>
      have listed : j ∈ (if w.closed then [] else w.slots) := listed
      rw [closed] at listed
      exact absurd listed List.not_mem_nil
    | false =>
      have listed : j ∈ (if w.closed then [] else w.slots) := listed
      rw [closed] at listed
      exact listed
  · cases absurd

theorem orderly_proceed (orderly : Orderly w) : Orderly w.proceed := by
  unfold App.proceed
  split
  · exact orderly
  · next stack => exact orderly_returned orderly stack
  · next stack => exact orderly_closed orderly stack
  · next stack => exact orderly_closing orderly stack
  · next stack => exact orderly_destroyed orderly stack
  · next stack => exact orderly_destroying orderly stack

theorem orderly_step (orderly : Orderly w) (action : Action) : Orderly (w.step action) := by
  cases action with
  | connect wantsTls userData failedHandler starts =>
    unfold App.step
    dsimp only
    split
    · exact orderly_connect orderly wantsTls userData failedHandler starts
    · exact orderly
  | close =>
    unfold App.step
    dsimp only
    split
    · exact orderly_close orderly
    · exact orderly
  | destroy =>
    unfold App.step
    dsimp only
    split
    · next possible => exact orderly_destroy orderly possible.1 possible.2
    · exact orderly
  | proceed => exact orderly_proceed orderly
  | tick =>
    unfold App.step
    dsimp only
    split
    · next empty => exact orderly_tick orderly empty
    · exact orderly
  | closeSocket k =>
    unfold App.step
    dsimp only
    split
    · next isShuttingDown socket =>
      split
      · have opened : (w.slot k).socket ≠ .none := by
          rw [socket]
          exact Socket.noConfusion
        have inside := orderly.member (.inr opened)
        have stage := orderly.stage inside
        exact orderly.apply inside (moves_closeSocket stage (orderly.held k inside)) (lively_closeSocket stage opened)
      · exact orderly
    · exact orderly
  | endSocket k =>
    unfold App.step
    dsimp only
    split
    · next socket =>
      split
      · have inside := orderly.member (.inr (by rw [socket]; exact Socket.noConfusion))
        exact orderly.apply inside (moves_end (orderly.stage inside) (orderly.held k inside) socket) (.inr (.inl Socket.noConfusion))
      · exact orderly
    · exact orderly
  | connectError k =>
    unfold App.step
    dsimp only
    split
    · next possible =>
      obtain ⟨empty, pending⟩ := possible
      have inside := orderly.member (.inl (by rw [pending]; exact Request.noConfusion))
      have moves := moves_connectError (orderly.idle inside empty) (orderly.held k inside) pending
      have calls : callsOf w.stack k = [] := by
        rw [empty]
        rfl
      rw [← calls] at moves
      refine orderly.apply inside moves ?_
      have stage := moves.stage
      rw [calls] at stage ⊢
      exact lively_connectError (orderly.idle inside empty) pending
    · exact orderly
  | opened k =>
    unfold App.step
    dsimp only
    split
    · next possible =>
      obtain ⟨empty, pending⟩ := possible
      have inside := orderly.member (.inl (by rw [pending]; exact Request.noConfusion))
      have moves := moves_onOpen (orderly.idle inside empty) (orderly.held k inside) pending
      have calls : callsOf w.stack k = [] := by
        rw [empty]
        rfl
      rw [← calls] at moves
      exact orderly.apply inside moves (.inl Request.noConfusion)
    · exact orderly
  | tunnel k =>
    unfold App.step
    dsimp only
    split
    · next request user socket =>
      split
      · next possible =>
        have inside := orderly.member (.inr (by rw [socket]; exact Socket.noConfusion))
        have moves := moves_proxyStartTls (orderly.idle inside possible.1) (orderly.held k inside) socket
        have calls : callsOf w.stack k = [] := by
          rw [possible.1]
          rfl
        rw [← calls] at moves
        exact orderly.apply inside moves (.inr (.inl Socket.noConfusion))
      · exact orderly
    · exact orderly
  | upgraded k =>
    unfold App.step
    dsimp only
    split
    · next side request user socket =>
      split
      · next possible =>
        have inside := orderly.member (.inr (by rw [socket]; exact Socket.noConfusion))
        have moves := moves_adoptToFrame (orderly.idle inside possible.1) (orderly.held k inside) socket
        have calls : callsOf w.stack k = [] := by
          rw [possible.1]
          rfl
        rw [← calls] at moves
        exact orderly.apply inside moves (.inr (.inl Socket.noConfusion))
      · exact orderly
    · exact orderly
  | rejected k =>
    unfold App.step
    dsimp only
    split
    · next side request user socket =>
      split
      · next empty =>
        have inside := orderly.member (.inr (by rw [socket]; exact Socket.noConfusion))
        have stage := orderly.idle inside empty
        have moves := moves_reject stage (orderly.held k inside) socket
        have calls : callsOf w.stack k = [] := by
          rw [empty]
          rfl
        rw [← calls] at moves
        refine orderly.apply inside moves ?_
        have quiet : ((w.slot k).context side).notified = false := by
          obtain ⟨-, -, -, -, -, -, dial, peer, -⟩ := shaking stage socket
          cases side
          · exact dial
          · exact peer
        unfold Slot.reject
        rw [if_neg (by rw [quiet]; exact Bool.false_ne_true)]
        exact .inr (.inr (.inr (.inl (List.cons_ne_nil _ _))))
      · exact orderly
    · exact orderly
  | lost k =>
    unfold App.step
    dsimp only
    split
    · next possible =>
      have inside := orderly.member (.inr possible.2)
      have stage := orderly.stage inside
      exact orderly.apply inside (moves_closeSocket stage (orderly.held k inside)) (lively_closeSocket stage possible.2)
    · exact orderly

theorem orderly_start (tls : Bool) : Orderly { tls := tls } where
  stages := fun k created => absurd created (Nat.not_lt_zero k)
  covered := fun _ k absent => absurd absent List.not_mem_nil
  lively := fun _ k absent => absurd absent List.not_mem_nil
  fresh := fun _ _ => ⟨rfl, rfl, rfl⟩
  family := fun k absent => absurd absent List.not_mem_nil
  distinct := List.nodup_nil
  held := fun k absent => absurd absent List.not_mem_nil
  parted := fun k created => absurd created (Nat.not_lt_zero k)
  fault := rfl
  gone := fun absurd => by cases absurd
  finished := fun absurd => by cases absurd
  dead := fun absurd => by cases absurd
  bottomed := trivial
  destroying := fun rest absent => absurd absent List.not_mem_nil
  looping := fun rest absent => absurd absent List.not_mem_nil
  inside := fun frame absent => absurd absent List.not_mem_nil
  swept := fun k absent => absurd absent List.not_mem_nil
  scheduled := fun _ absurd => by cases absurd

theorem orderly_run (tls : Bool) (actions : List Action) : Orderly (App.run { tls := tls } actions) := by
  have keeps : ∀ (w : App), Orderly w → Orderly (App.run w actions) := by
    induction actions with
    | nil => exact fun w orderly => orderly
    | cons action actions ih => exact fun w orderly => ih (w.step action) (orderly_step orderly action)
  exact keeps _ (orderly_start tls)

/-- The user data of a connect that is over has been used, unless its failure waits in the queue. -/
theorem Stage.used {s : Slot} (stage : Stage s [] []) (settled : s.Settled) (dial : s.dial.user = false) :
    s.users = s.userData.toNat := by
  cases stage with
  | cancelled _ _ _ data =>
    rw [dial] at data
    exact data
  | ended _ _ _ data => exact congrArg (·.1) data
  | pending _ _ place => exact absurd (congrArg (·.1) place) settled.2.1
  | handshaking _ _ _ place => exact absurd (congrArg (·.1) place) settled.2.2
  | opened _ _ _ place => cases (congrArg (·.2.1) place).symm.trans settled.1
  | refused _ waiting => cases waiting
  | refusing running => cases running
  | reporting running => cases running
  | rejecting _ running => cases running
  | rejected _ _ running => cases running
  | closing _ running => cases running

/-- A connect that goes on by itself, without a handler or a callback in the queue: it connects, has a socket, or is retired. -/
theorem Stage.underway {s : Slot} (stage : Stage s [] []) (lively : Lively s [] []) :
    s.request = .pending ∨ s.socket ≠ .none ∨ s.done = true := by
  cases stage with
  | pending _ _ place => exact .inl (congrArg (·.1) place)
  | cancelled _ _ place =>
    simp only [Slot.place, Prod.mk.injEq] at place
    simp [Lively, place] at lively
  | handshaking side _ _ place =>
    refine .inr (.inl ?_)
    rw [show s.socket = _ from congrArg (·.2.1) place]
    exact Socket.noConfusion
  | opened isShuttingDown _ _ place =>
    refine .inr (.inl ?_)
    rw [show s.socket = _ from congrArg (·.2.1) place]
    exact Socket.noConfusion
  | ended _ _ place => exact .inr (.inr (congrArg (·.2.2.2) place))
  | refused _ waiting => cases waiting
  | refusing running => cases running
  | reporting running => cases running
  | rejecting _ running => cases running
  | rejected _ _ running => cases running
  | closing _ running => cases running

/-- In every run, a connect fails at most once or opens at most once, and its user data is used at most once. -/
theorem one_result_run (tls : Bool) (actions : List Action) (k : Nat) :
    ((App.run { tls := tls } actions).slot k).failures + ((App.run { tls := tls } actions).slot k).opens ≤ 1 ∧
      ((App.run { tls := tls } actions).slot k).users ≤ ((App.run { tls := tls } actions).slot k).userData.toNat := by
  have orderly := orderly_run tls actions
  rcases Nat.lt_or_ge k (App.run { tls := tls } actions).created with created | new
  · exact (orderly.stages k created id).result
  · rw [(orderly.fresh k new).1]
    exact ⟨Nat.zero_le _, Nat.zero_le _⟩

/-- In every run nothing that is freed is used. Contexts are freed once, when no socket, request or handler of their connect is
left, and its user data has then been used, or waits with the report of the failure. -/
theorem contexts_freed_run (tls : Bool) (actions : List Action) (k : Nat) :
    (App.run { tls := tls } actions).fault = false ∧ ((App.run { tls := tls } actions).slot k).frees ≤ 1 ∧
      (((App.run { tls := tls } actions).slot k).frees = 1 →
        ((App.run { tls := tls } actions).slot k).socket = .none ∧ ((App.run { tls := tls } actions).slot k).request = .none ∧
          callsOf (App.run { tls := tls } actions).stack k = [] ∧
          (waitsOf (App.run { tls := tls } actions).deferred k = [] →
            ((App.run { tls := tls } actions).slot k).users = ((App.run { tls := tls } actions).slot k).userData.toNat)) := by
  have orderly := orderly_run tls actions
  generalize App.run { tls := tls } actions = w at *
  rcases Nat.lt_or_ge k w.created with created | new
  · by_cases inside : k ∈ w.slots
    · rw [orderly.held k inside]
      exact ⟨orderly.fault, Nat.zero_le _, fun once => by cases once⟩
    · have parted := orderly.parted k created inside
      refine ⟨orderly.fault, le_of_eq parted.frees, fun _ => ⟨parted.socket, parted.request, parted.calls, ?_⟩⟩
      intro waiting
      have stage := orderly.stages k created id
      rw [parted.calls, waiting] at stage
      have settled : (w.slot k).Settled := by
        refine ⟨parted.socket, ?_, ?_⟩ <;> rw [parted.request] <;> exact Request.noConfusion
      exact stage.used settled parted.data.1
  · rw [(orderly.fresh k new).1]
    exact ⟨orderly.fault, Nat.zero_le _, fun once => by cases once⟩

/-- In every run, when nothing is running and the queue is empty, a client that is not closed has the contexts only of connects
that are under way or have an open socket; one that is destroyed has none. -/
theorem slots_bounded_run {tls : Bool} {actions : List Action} {k : Nat}
    (created : k < (App.run { tls := tls } actions).created) (idle : (App.run { tls := tls } actions).stack = [])
    (drained : (App.run { tls := tls } actions).deferred = []) (held : ((App.run { tls := tls } actions).slot k).frees ≠ 1) :
    (App.run { tls := tls } actions).alive = true ∧ ((App.run { tls := tls } actions).closed = true ∨
      ((App.run { tls := tls } actions).slot k).request = .pending ∨
      ((App.run { tls := tls } actions).slot k).socket ≠ .none) := by
  have orderly := orderly_run tls actions
  generalize App.run { tls := tls } actions = w at *
  have inside : k ∈ w.slots := by
    by_contra absent
    exact held (orderly.parted k created absent).frees
  have alive : w.alive = true := by
    cases alive : w.alive with
    | true => rfl
    | false =>
      rcases orderly.finished alive with gone | ⟨rest, stacked⟩
      · rw [(orderly.gone gone).1] at inside
        exact absurd inside List.not_mem_nil
      · rw [idle] at stacked
        exact absurd stacked List.not_mem_nil
  refine ⟨alive, ?_⟩
  cases closed : w.closed with
  | true => exact .inl rfl
  | false =>
    have stage := orderly.stage inside
    have lively := orderly.lively closed k inside id
    rw [idle, drained] at stage lively
    refine .inr ((stage.underway lively).imp_right fun open_ => open_.resolve_right ?_)
    intro done
    have queued := orderly.scheduled alive (orderly.swept k inside done)
    rw [drained] at queued
    exact absurd queued List.not_mem_nil

theorem slots_bounded_run_open :
    (App.run { tls := false } [.connect false true true true, .opened 0]).alive = true ∧
      ((App.run { tls := false } [.connect false true true true, .opened 0]).closed = true ∨
        ((App.run { tls := false } [.connect false true true true, .opened 0]).slot 0).request = .pending ∨
        ((App.run { tls := false } [.connect false true true true, .opened 0]).slot 0).socket ≠ .none) :=
  slots_bounded_run (by decide) (by decide) (by decide) (by decide)

end Uws.Client
