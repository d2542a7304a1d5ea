import Uws.Client.ClientRuns

/-! The steps of the app: its stack, its queue, the sweep and the destructor. -/

namespace Uws.Client

variable {w : App} {k : Nat}

theorem Frame.rest_call {k j : Nat} {call : Call} : j ∉ (Frame.call k call).rest := List.not_mem_nil

namespace Orderly

theorem restack (orderly : Orderly w) {skip : Nat → Prop} {stack : List Frame} (skips : ∀ j, skip j → j ∈ w.slots)
    (calls : ∀ j, ¬ skip j → callsOf stack j = callsOf w.stack j)
    (rests : ∀ j, ¬ skip j → (∃ frame ∈ w.stack, j ∈ frame.rest) → ∃ frame ∈ stack, j ∈ frame.rest)
    (inside : ∀ frame ∈ stack, ∀ j ∈ frame.rest, j ∈ w.slots) (bottomed : Bottomed stack)
    (destroying : ∀ rest, .destroying rest ∈ stack → w.alive = false ∧ w.gone = false)
    (looping : ∀ rest, .closing rest ∈ stack → w.closed = true)
    (finished : (∃ rest, .destroying rest ∈ w.stack) → ∃ rest, .destroying rest ∈ stack) : Kept { w with stack := stack } skip := by
  have kept := Kept.skipped orderly skip
  refine { kept with
    stages := ?_, covered := ?_, lively := ?_, fresh := ?_, parted := ?_, bottomed := bottomed, destroying := destroying,
    looping := looping, inside := inside, finished := fun dead => (kept.finished dead).imp_right finished }
  · intro j created other
    show Stage (w.slot j) (callsOf stack j) (waitsOf w.deferred j)
    rw [calls j other]
    exact kept.stages j created other
  · intro closed j member other
    exact (kept.covered closed j member other).imp_right (rests j other)
  · intro closed j member other
    show Lively (w.slot j) (callsOf stack j) (waitsOf w.deferred j)
    rw [calls j other]
    exact kept.lively closed j member other
  · intro j new
    have other : ¬ skip j := fun skipped => absurd (kept.family j (skips j skipped)) (Nat.not_lt.mpr new)
    obtain ⟨slot, none_, waits⟩ := kept.fresh j new
    exact ⟨slot, (calls j other).trans none_, waits⟩
  · intro j created absent
    have parted := kept.parted j created absent
    exact ⟨parted.frees, parted.socket, parted.request, parted.data,
      (calls j fun skipped => absent (skips j skipped)).trans parted.calls, parted.waits⟩

theorem member_of_calls (orderly : Orderly w) (running : callsOf w.stack k ≠ []) : k ∈ w.slots := by
  by_contra absent
  rcases Nat.lt_or_ge k w.created with created | new
  · exact running (orderly.parted k created absent).calls
  · exact running (orderly.fresh k new).2.1

end Orderly

theorem callsOf_call (k : Nat) (call : Call) (below : List Frame) (j : Nat) :
    callsOf (.call k call :: below) j = if k = j then call :: callsOf below j else callsOf below j := by
  by_cases same : k = j <;> simp [callsOf, same]

theorem orderly_returned (orderly : Orderly w) {call : Call} {below : List Frame} (stack : w.stack = .call k call :: below) :
    Orderly ({ w with stack := below }.apply k ((w.slot k).returned call)) := by
  have calls : callsOf w.stack k = call :: callsOf below k := by rw [stack, callsOf_call, if_pos rfl]
  have inside : k ∈ w.slots := orderly.member_of_calls (by rw [calls]; exact List.cons_ne_nil _ _)
  have member : ∀ frame ∈ below, frame ∈ w.stack := fun frame stacked => by rw [stack]; exact List.mem_cons_of_mem _ stacked
  have stage := orderly.stage inside
  rw [calls] at stage
  have bottomed := orderly.bottomed
  rw [stack] at bottomed
  have held : Kept { w with stack := below } (· = k) := by
    refine orderly.restack ?_ ?_ ?_ ?_ bottomed ?_ ?_ ?_
    · rintro j rfl
      exact inside
    · intro j other
      rw [stack, callsOf_call, if_neg (Ne.symm other)]
    · intro j other ⟨frame, stacked, rest⟩
      rw [stack] at stacked
      rcases List.mem_cons.mp stacked with rfl | before
      · exact absurd rest Frame.rest_call
      · exact ⟨frame, before, rest⟩
    · exact fun frame stacked => orderly.inside frame (member frame stacked)
    · exact fun rest stacked => orderly.destroying rest (member _ stacked)
    · exact fun rest stacked => orderly.looping rest (member _ stacked)
    · intro ⟨rest, stacked⟩
      rw [stack] at stacked
      rcases List.mem_cons.mp stacked with same | before
      · cases same
      · exact ⟨rest, before⟩
  refine held.moved inside (moves_returned stage (orderly.held k inside)) ?_ fun _ => lively_returned stage
  intro closed
  refine (orderly.covered closed k inside id).imp_right ?_
  intro ⟨frame, stacked, rest⟩
  rw [stack] at stacked
  rcases List.mem_cons.mp stacked with rfl | before
  · exact absurd rest Frame.rest_call
  · exact ⟨frame, before, rest⟩

theorem orderly_closeSlot (kept : Kept w (· = k)) (inside : k ∈ w.slots) (closed : w.closed = true)
    (stage : Stage (w.slot k) (callsOf w.stack k) (waitsOf w.deferred k)) : Orderly (w.closeSlot k) := by
  unfold App.closeSlot
  dsimp only
  have cancels := moves_cancel stage (kept.held k inside)
  have plain : (w.slot k).cancel.retires = false ∧ (w.slot k).cancel.calls = [] := by
    unfold Slot.cancel
    split <;> exact ⟨rfl, rfl⟩
  have applied := w.applied k (w.slot k).cancel
  have cancelled := kept.apply inside cancels.fault cancels.frees cancels.done
  have mine : (w.apply k (w.slot k).cancel).slot k = (w.slot k).cancel.slot := by
    rw [applied.slot, Function.update_self, Outcome.result, plain.1, if_neg Bool.false_ne_true]
  have calls : callsOf (w.apply k (w.slot k).cancel).stack k = callsOf w.stack k := by
    rw [applied.stack, plain.2]
    rfl
  have result : (w.slot k).cancel.result = (w.slot k).cancel.slot := by rw [Outcome.result, plain.1, if_neg Bool.false_ne_true]
  have stage' : Stage ((w.apply k (w.slot k).cancel).slot k) (callsOf (w.apply k (w.slot k).cancel).stack k)
      (waitsOf (w.apply k (w.slot k).cancel).deferred k) := by
    rw [mine, calls, applied.waits, ← result]
    have moved := cancels.stage
    rw [plain.2] at moved
    exact moved
  have inside' : k ∈ (w.apply k (w.slot k).cancel).slots := by
    rw [applied.slots]
    exact inside
  have closes := moves_closeContexts stage' (cancelled.held k inside')
  have settled := settled_closeSlot stage
  generalize w.apply k (w.slot k).cancel = w₁ at *
  have applied' := w₁.applied k (w₁.slot k).closeContexts
  have mine' : (w₁.apply k (w₁.slot k).closeContexts).slot k = (w₁.slot k).closeContexts.result := by
    rw [applied'.slot, Function.update_self]
  refine (cancelled.apply inside' closes.fault closes.frees closes.done).rejoin ?_ ?_ ?_
  · intro _
    rw [mine', applied'.waits, applied'.stack, callsOf_calls, if_pos rfl]
    exact closes.stage
  · intro _
    rw [mine', Outcome.result_settled, mine]
    exact .inl settled
  · intro opened
    rw [applied'.closed, applied.closed, closed] at opened
    cases opened

theorem orderly_closing (orderly : Orderly w) {rest : List Nat} {below : List Frame}
    (stack : w.stack = .closing (k :: rest) :: below) : Orderly ({ w with stack := .closing rest :: below }.closeSlot k) := by
  have top : Frame.closing (k :: rest) ∈ w.stack := by
    rw [stack]
    exact List.mem_cons_self
  have member : ∀ frame ∈ below, frame ∈ w.stack := fun frame stacked => by rw [stack]; exact List.mem_cons_of_mem _ stacked
  have closed := orderly.looping _ top
  have inside : k ∈ w.slots := orderly.inside _ top k List.mem_cons_self
  have calls : ∀ j, callsOf (.closing rest :: below) j = callsOf w.stack j := by
    intro j
    rw [stack]
    rfl
  have bottomed := orderly.bottomed
  rw [stack] at bottomed
  have kept : Kept { w with stack := .closing rest :: below } (· = k) := by
    refine orderly.restack ?_ (fun j _ => calls j) ?_ ?_ bottomed ?_ (fun _ _ => closed) ?_
    · rintro j rfl
      exact inside
    · intro j other ⟨frame, stacked, listed⟩
      rw [stack] at stacked
      rcases List.mem_cons.mp stacked with rfl | before
      · exact ⟨_, List.mem_cons_self, List.mem_of_ne_of_mem other listed⟩
      · exact ⟨frame, List.mem_cons_of_mem _ before, listed⟩
    · intro frame stacked j listed
      rcases List.mem_cons.mp stacked with rfl | before
      · exact orderly.inside _ top j (List.mem_cons_of_mem _ listed)
      · exact orderly.inside frame (member frame before) j listed
    · intro rest' stacked
      rcases List.mem_cons.mp stacked with same | before
      · cases same
      · exact orderly.destroying rest' (member _ before)
    · intro ⟨rest', stacked⟩
      rw [stack] at stacked
      rcases List.mem_cons.mp stacked with same | before
      · cases same
      · exact ⟨rest', List.mem_cons_of_mem _ before⟩
  refine orderly_closeSlot kept inside closed ?_
  show Stage (w.slot k) (callsOf (.closing rest :: below) k) (waitsOf w.deferred k)
  rw [calls]
  exact orderly.stage inside

theorem orderly_destroying (orderly : Orderly w) {rest : List Nat} {below : List Frame}
    (stack : w.stack = .destroying (k :: rest) :: below) : Orderly ({ w with stack := .destroying rest :: below }.closeSlot k) := by
  have top : Frame.destroying (k :: rest) ∈ w.stack := by
    rw [stack]
    exact List.mem_cons_self
  have dying := orderly.destroying _ top
  have inside : k ∈ w.slots := orderly.inside _ top k List.mem_cons_self
  have bottom : below = [] := by
    have bottomed := orderly.bottomed
    rw [stack] at bottomed
    exact bottomed
  subst bottom
  have calls : ∀ j, callsOf [.destroying rest] j = callsOf w.stack j := by
    intro j
    rw [stack]
    rfl
  have kept : Kept { w with stack := [.destroying rest] } (· = k) := by
    refine orderly.restack ?_ (fun j _ => calls j) ?_ ?_ rfl (fun _ _ => dying)
      (fun _ _ => orderly.dead dying.1) (fun _ => ⟨rest, List.mem_singleton.mpr rfl⟩)
    · rintro j rfl
      exact inside
    · intro j other ⟨frame, stacked, listed⟩
      rw [stack, List.mem_singleton] at stacked
      subst stacked
      exact ⟨_, List.mem_cons_self, List.mem_of_ne_of_mem other listed⟩
    · intro frame stacked j listed
      obtain rfl := List.mem_singleton.mp stacked
      exact orderly.inside _ top j (List.mem_cons_of_mem _ listed)
  refine orderly_closeSlot kept inside (orderly.dead dying.1) ?_
  show Stage (w.slot k) (callsOf [.destroying rest] k) (waitsOf w.deferred k)
  rw [calls]
  exact orderly.stage inside

theorem orderly_closed (orderly : Orderly w) {below : List Frame} (stack : w.stack = .closing [] :: below) :
    Orderly { w with stack := below } := by
  have member : ∀ frame ∈ below, frame ∈ w.stack := fun frame stacked => by rw [stack]; exact List.mem_cons_of_mem _ stacked
  have bottomed := orderly.bottomed
  rw [stack] at bottomed
  refine orderly.restack (fun _ absurd => absurd.elim) ?_ ?_ ?_ bottomed ?_ ?_ ?_
  · intro j _
    rw [stack]
    rfl
  · intro j _ ⟨frame, stacked, listed⟩
    rw [stack] at stacked
    rcases List.mem_cons.mp stacked with rfl | before
    · exact absurd listed List.not_mem_nil
    · exact ⟨frame, before, listed⟩
  · exact fun frame stacked => orderly.inside frame (member frame stacked)
  · exact fun rest stacked => orderly.destroying rest (member _ stacked)
  · exact fun rest stacked => orderly.looping rest (member _ stacked)
  · intro ⟨rest, stacked⟩
    rw [stack] at stacked
    rcases List.mem_cons.mp stacked with same | before
    · cases same
    · exact ⟨rest, before⟩

theorem foldl_freeContexts (ks : List Nat) (distinct : ks.Nodup) (w : App) (fault : w.fault = false)
    (quiet : ∀ k ∈ ks, (w.slot k).freeContexts.fault = false) :
    ks.foldl (fun w k => w.apply k (w.slot k).freeContexts) w =
      { w with slot := fun j => if j ∈ ks then (w.slot j).freeContexts.slot else w.slot j } := by
  induction ks generalizing w with
  | nil => simp
  | cons k ks ih =>
    have first : w.apply k (w.slot k).freeContexts = { w with slot := Function.update w.slot k (w.slot k).freeContexts.slot } := by
      unfold App.apply
      dsimp only
      rw [quiet k List.mem_cons_self, fault]
      simp [Slot.freeContexts]
    have others : ∀ j ∈ ks, Function.update w.slot k (w.slot k).freeContexts.slot j = w.slot j := by
      intro j member
      apply Function.update_of_ne
      rintro rfl
      exact (List.nodup_cons.mp distinct).1 member
    rw [List.foldl_cons, first, ih (List.nodup_cons.mp distinct).2 { w with slot := Function.update w.slot k (w.slot k).freeContexts.slot } fault]
    · dsimp only
      congr 1
      funext j
      by_cases same : j = k
      · subst same
        rw [if_neg (List.nodup_cons.mp distinct).1, if_pos List.mem_cons_self, Function.update_self]
      · rw [Function.update_of_ne same]
        simp only [List.mem_cons, same, false_or]
    · intro j member
      show (Function.update w.slot k (w.slot k).freeContexts.slot j).freeContexts.fault = false
      rw [others j member]
      exact quiet j (List.mem_cons_of_mem _ member)

/-- Contexts that may be freed: none of their connects has a handler, a socket or a request. -/
theorem Orderly.free (orderly : Orderly w) (empty : ∀ j, callsOf w.stack j = []) (inside : k ∈ w.slots)
    (settled : (w.slot k).Settled) :
    Stage (w.slot k).freeContexts.slot [] (waitsOf w.deferred k) ∧ (w.slot k).freeContexts.fault = false := by
  have stage := orderly.stage inside
  rw [empty] at stage
  exact stage_freeContexts stage settled (orderly.held k inside)

theorem Stage.request {s : Slot} {waits : List Bool} (stage : Stage s [] waits) (settled : s.Settled) : s.request = .none := by
  cases stage with
  | refused _ _ place | cancelled _ _ place | opened _ _ _ place | ended _ _ place => exact congrArg (·.1) place
  | pending _ _ place => exact absurd (congrArg (·.1) place) settled.2.1
  | handshaking _ _ _ place => exact absurd (congrArg (·.1) place) settled.2.2
  | refusing running => cases running
  | reporting running => cases running
  | rejecting _ running => cases running
  | rejected _ _ running => cases running
  | closing _ running => cases running

theorem Stage.done {s : Slot} {calls : List Call} {waits : List Bool} (stage : Stage s calls waits) (done : s.done = true) :
    waits = [] ∧ s.Settled := by
  cases stage with
  | ended light waiting place =>
    simp only [Slot.place, Prod.mk.injEq] at place
    refine ⟨waiting, place.2.1, ?_, ?_⟩ <;> simp [place]
  | refused _ _ place | refusing _ _ place | pending _ _ place | cancelled _ _ place | reporting _ _ place
  | rejected _ _ _ _ _ place | handshaking _ _ _ place | rejecting _ _ _ place | closing _ _ _ _ place | opened _ _ _ place =>
    cases (congrArg (·.2.2.2) place).symm.trans done

theorem orderly_destroyed (orderly : Orderly w) {below : List Frame} (stack : w.stack = .destroying [] :: below) :
    Orderly { w with stack := below }.destroyed := by
  have dying := orderly.destroying [] (by rw [stack]; exact List.mem_cons_self)
  have closed := orderly.dead dying.1
  have bottom : below = [] := by
    have bottomed := orderly.bottomed
    rw [stack] at bottomed
    exact bottomed
  subst bottom
  have empty : ∀ j, callsOf w.stack j = [] := by
    intro j
    rw [stack]
    rfl
  have settled : ∀ j ∈ w.slots, (w.slot j).Settled := by
    intro j inside
    rcases orderly.covered closed j inside id with settled | ⟨frame, stacked, listed⟩
    · exact settled
    · rw [stack, List.mem_singleton] at stacked
      subst stacked
      exact absurd listed List.not_mem_nil
  unfold App.destroyed
  dsimp only
  rw [foldl_freeContexts w.slots orderly.distinct { w with stack := [] } orderly.fault fun j inside => (orderly.free empty inside (settled j inside)).2]
  refine ⟨?_, ?_, ?_, ?_, ?_, ?_, ?_, ?_, orderly.fault, ?_, ?_, orderly.dead, trivial, ?_, ?_, ?_, ?_, ?_⟩
  · intro j created _
    show Stage (if j ∈ w.slots then (w.slot j).freeContexts.slot else w.slot j) [] (waitsOf w.deferred j)
    split
    · next inside => exact (orderly.free empty inside (settled j inside)).1
    · have stage := orderly.stages j created id
      rw [empty] at stage
      exact stage
  · exact fun _ j absent => absurd absent List.not_mem_nil
  · exact fun _ j absent => absurd absent List.not_mem_nil
  · intro j new
    have absent : j ∉ w.slots := fun inside => absurd (orderly.family j inside) (Nat.not_lt.mpr new)
    obtain ⟨slot, -, waits⟩ := orderly.fresh j new
    exact ⟨(if_neg absent).trans slot, rfl, waits⟩
  · exact fun j absent => absurd absent List.not_mem_nil
  · exact List.nodup_nil
  · exact fun j absent => absurd absent List.not_mem_nil
  · intro j created _
    by_cases inside : j ∈ w.slots
    · have slot : (if j ∈ w.slots then (w.slot j).freeContexts.slot else w.slot j) = (w.slot j).freeContexts.slot := if_pos inside
      have stage := orderly.stage inside
      rw [empty] at stage
      refine ⟨?_, ?_, ?_, ?_, rfl, fun alive => ?_⟩
      · show (if j ∈ w.slots then (w.slot j).freeContexts.slot else w.slot j).frees = 1
        rw [slot]
        show (w.slot j).frees + 1 = 1
        rw [orderly.held j inside]
      · show (if j ∈ w.slots then (w.slot j).freeContexts.slot else w.slot j).socket = .none
        rw [slot]
        exact (settled j inside).1
      · show (if j ∈ w.slots then (w.slot j).freeContexts.slot else w.slot j).request = .none
        rw [slot]
        exact stage.request (settled j inside)
      · show (if j ∈ w.slots then (w.slot j).freeContexts.slot else w.slot j).dial.user = false ∧
          (if j ∈ w.slots then (w.slot j).freeContexts.slot else w.slot j).peer.user = false
        rw [slot]
        exact ⟨rfl, rfl⟩
      · cases dying.1.symm.trans alive
    · have slot : (if j ∈ w.slots then (w.slot j).freeContexts.slot else w.slot j) = w.slot j := if_neg inside
      have parted := orderly.parted j created inside
      exact ⟨(congrArg _ slot).trans parted.frees, (congrArg _ slot).trans parted.socket, (congrArg _ slot).trans parted.request,
        ⟨(congrArg (·.dial.user) slot).trans parted.data.1, (congrArg (·.peer.user) slot).trans parted.data.2⟩, rfl, parted.waits⟩
  · exact fun _ => ⟨rfl, dying.1⟩
  · exact fun _ => .inl rfl
  · exact fun rest absent => absurd absent List.not_mem_nil
  · exact fun rest absent => absurd absent List.not_mem_nil
  · exact fun frame absent => absurd absent List.not_mem_nil
  · exact fun j absent => absurd absent List.not_mem_nil
  · intro alive
    cases dying.1.symm.trans alive

end Uws.Client
