import Uws.Client.ClientSteps

/-! The queue of the loop, and the slots of new connects. -/

namespace Uws.Client

variable {w : App} {k : Nat}

theorem orderly_sweep (orderly : Orderly w) (empty : w.stack = []) {rest : List Deferred} (queue : w.deferred = .sweep :: rest)
    (alive : w.alive = true) : Orderly { w with deferred := rest }.sweep := by
  have calls : ∀ j, callsOf w.stack j = [] := by
    intro j
    rw [empty]
    rfl
  have waits : ∀ j, waitsOf rest j = waitsOf w.deferred j := by
    intro j
    rw [queue]
    rfl
  have live : w.gone = false := by
    cases gone : w.gone with
    | false => rfl
    | true => cases (orderly.gone gone).2.symm.trans alive
  have ended : ∀ j ∈ w.slots, (w.slot j).done = true → waitsOf w.deferred j = [] ∧ (w.slot j).Settled :=
    fun j inside done => (orderly.stage inside).done done
  let retired := w.slots.filter fun j => (w.slot j).done
  have inRetired : ∀ j, j ∈ retired ↔ j ∈ w.slots ∧ (w.slot j).done = true := fun j => List.mem_filter
  have quiet : ∀ j ∈ retired, (w.slot j).freeContexts.fault = false := by
    intro j member
    obtain ⟨inside, done⟩ := (inRetired j).mp member
    exact (orderly.free calls inside (ended j inside done).2).2
  unfold App.sweep
  dsimp only
  rw [foldl_freeContexts retired (orderly.distinct.filter _) { w with deferred := rest, sweepScheduled := false } orderly.fault quiet]
  let slot := fun j => if j ∈ retired then (w.slot j).freeContexts.slot else w.slot j
  let slots := w.slots.filter fun j => !(slot j).done
  have marks : ∀ j, (slot j).done = (w.slot j).done := by
    intro j
    show (if j ∈ retired then (w.slot j).freeContexts.slot else w.slot j).done = _
    split <;> rfl
  have inSlots : ∀ j, j ∈ slots ↔ j ∈ w.slots ∧ (w.slot j).done = false := by
    intro j
    rw [List.mem_filter, marks, Bool.not_eq_true']
  have stays : ∀ j, j ∈ slots → slot j = w.slot j := by
    intro j member
    apply if_neg
    intro gone
    cases ((inSlots j).mp member).2.symm.trans ((inRetired j).mp gone).2
  show Orderly { w with deferred := rest, sweepScheduled := false, slot := slot, slots := slots }
  refine ⟨?_, ?_, ?_, ?_, ?_, ?_, ?_, ?_, orderly.fault, ?_, ?_, orderly.dead, orderly.bottomed, orderly.destroying,
    orderly.looping, ?_, ?_, ?_⟩
  · intro j created _
    show Stage (slot j) (callsOf w.stack j) (waitsOf rest j)
    rw [waits]
    by_cases member : j ∈ retired
    · obtain ⟨inside, done⟩ := (inRetired j).mp member
      rw [show slot j = (w.slot j).freeContexts.slot from if_pos member, calls]
      exact (orderly.free calls inside (ended j inside done).2).1
    · rw [show slot j = w.slot j from if_neg member]
      exact orderly.stages j created id
  · intro closed j member _
    show (slot j).Settled ∨ _
    rw [stays j member]
    exact orderly.covered closed j ((inSlots j).mp member).1 id
  · intro closed j member _
    show Lively (slot j) (callsOf w.stack j) (waitsOf rest j)
    rw [stays j member, waits]
    exact orderly.lively closed j ((inSlots j).mp member).1 id
  · intro j new
    have outside : j ∉ retired := fun member => absurd (orderly.family j ((inRetired j).mp member).1) (Nat.not_lt.mpr new)
    obtain ⟨fresh, running, waiting⟩ := orderly.fresh j new
    exact ⟨(if_neg outside).trans fresh, running, (waits j).trans waiting⟩
  · exact fun j member => orderly.family j ((inSlots j).mp member).1
  · exact orderly.distinct.filter _
  · intro j member
    show (slot j).frees = 0
    rw [stays j member]
    exact orderly.held j ((inSlots j).mp member).1
  · intro j created absent
    by_cases inside : j ∈ w.slots
    · have done : (w.slot j).done = true := by
        cases done : (w.slot j).done with
        | true => rfl
        | false => exact absurd ((inSlots j).mpr ⟨inside, done⟩) absent
      have slotted : slot j = (w.slot j).freeContexts.slot := if_pos ((inRetired j).mpr ⟨inside, done⟩)
      obtain ⟨waiting, settled⟩ := ended j inside done
      have stage := orderly.stage inside
      rw [calls] at stage
      refine ⟨?_, ?_, ?_, ?_, calls j, fun _ => (waits j).trans waiting⟩
      · show (slot j).frees = 1
        rw [slotted]
        show (w.slot j).frees + 1 = 1
        rw [orderly.held j inside]
      · exact (congrArg _ slotted).trans settled.1
      · exact (congrArg _ slotted).trans (stage.request settled)
      · exact ⟨congrArg (·.dial.user) slotted, congrArg (·.peer.user) slotted⟩
    · have slotted : slot j = w.slot j := if_neg fun member => inside ((inRetired j).mp member).1
      have parted := orderly.parted j created inside
      exact ⟨(congrArg _ slotted).trans parted.frees, (congrArg _ slotted).trans parted.socket,
        (congrArg _ slotted).trans parted.request,
        ⟨(congrArg (·.dial.user) slotted).trans parted.data.1, (congrArg (·.peer.user) slotted).trans parted.data.2⟩, parted.calls,
        fun alive => (waits j).trans (parted.waits alive)⟩
  · intro gone
    cases live.symm.trans gone
  · exact orderly.finished
  · intro frame stacked
    have stacked : frame ∈ w.stack := stacked
    rw [empty] at stacked
    exact absurd stacked List.not_mem_nil
  · intro j member done
    cases ((inSlots j).mp member).2.symm.trans ((marks j).symm.trans done)
  · intro _ scheduled
    cases scheduled

theorem waitsOf_refused (k : Nat) (user : Bool) (rest : List Deferred) (j : Nat) :
    waitsOf (.refused k user :: rest) j = if k = j then user :: waitsOf rest j else waitsOf rest j := by
  by_cases same : k = j <;> simp [waitsOf, same]

theorem orderly_refused (orderly : Orderly w) {user : Bool} {rest : List Deferred} (queue : w.deferred = .refused k user :: rest)
    (alive : w.alive = true) :
    Orderly ({ w with deferred := rest }.apply k
      { slot := { w.slot k with failures := (w.slot k).failures + (w.slot k).dial.failedHandler.toNat }, calls := [.refused user]
        fault := (w.slot k).freed }) := by
  have mine : waitsOf w.deferred k = user :: waitsOf rest k := by rw [queue, waitsOf_refused, if_pos rfl]
  have others : ∀ j, j ≠ k → waitsOf rest j = waitsOf w.deferred j := by
    intro j other
    rw [queue, waitsOf_refused, if_neg (Ne.symm other)]
  have inside : k ∈ w.slots := by
    by_contra absent
    rcases Nat.lt_or_ge k w.created with created | new
    · cases mine.symm.trans ((orderly.parted k created absent).waits alive)
    · cases mine.symm.trans (orderly.fresh k new).2.2
  have held := orderly.held k inside
  have kept : Kept { w with deferred := rest } (· = k) := by
    have before := Kept.skipped orderly (· = k)
    refine { before with stages := ?_, lively := ?_, fresh := ?_, parted := ?_, scheduled := ?_ }
    · intro j created other
      show Stage (w.slot j) (callsOf w.stack j) (waitsOf rest j)
      rw [others j other]
      exact orderly.stages j created id
    · intro closed j member other
      show Lively (w.slot j) (callsOf w.stack j) (waitsOf rest j)
      rw [others j other]
      exact orderly.lively closed j member id
    · intro j new
      have other : j ≠ k := by
        rintro rfl
        exact absurd (orderly.family j inside) (Nat.not_lt.mpr new)
      obtain ⟨slot, running, waiting⟩ := orderly.fresh j new
      exact ⟨slot, running, (others j other).trans waiting⟩
    · intro j created absent
      have other : j ≠ k := by
        rintro rfl
        exact absent inside
      have parted := orderly.parted j created absent
      exact ⟨parted.frees, parted.socket, parted.request, parted.data, parted.calls, fun alive =>
        (others j other).trans (parted.waits alive)⟩
    · intro alive scheduled
      have queued := orderly.scheduled alive scheduled
      rw [queue] at queued
      rcases List.mem_cons.mp queued with same | later
      · cases same
      · exact later
  have stage := orderly.stage inside
  rw [mine] at stage
  refine kept.moved inside ⟨stage_refusing stage, not_freed held, held, rfl, fun settled => settled⟩ ?_ ?_
  · exact fun closed => orderly.covered closed k inside id
  · exact fun _ => .inr (.inr (.inr (.inl (List.cons_ne_nil _ _))))

theorem orderly_forgotten (orderly : Orderly w) (empty : w.stack = []) {user : Bool} {rest : List Deferred}
    (queue : w.deferred = .refused k user :: rest) (dead : w.alive = false) :
    Orderly ({ w with deferred := rest }.apply k { slot := { w.slot k with users := (w.slot k).users + user.toNat } }) := by
  have gone : w.gone = true := by
    rcases orderly.finished dead with gone | ⟨frames, stacked⟩
    · exact gone
    · rw [empty] at stacked
      exact absurd stacked List.not_mem_nil
  have none_ := (orderly.gone gone).1
  have mine : waitsOf w.deferred k = user :: waitsOf rest k := by rw [queue, waitsOf_refused, if_pos rfl]
  have others : ∀ j, j ≠ k → waitsOf rest j = waitsOf w.deferred j := by
    intro j other
    rw [queue, waitsOf_refused, if_neg (Ne.symm other)]
  have created : k < w.created := by
    by_contra new
    cases mine.symm.trans (orderly.fresh k (Nat.not_lt.mp new)).2.2
  let slot := Function.update w.slot k { w.slot k with users := (w.slot k).users + user.toNat }
  have same : { w with deferred := rest }.apply k { slot := { w.slot k with users := (w.slot k).users + user.toNat } } =
      { w with deferred := rest, slot := slot } := by
    simp [App.apply, slot]
  have absent : ∀ {j}, j ∉ w.slots := by
    intro j
    rw [none_]
    exact List.not_mem_nil
  rw [same]
  refine { orderly with
    stages := ?_, covered := ?_, lively := ?_, fresh := ?_, held := ?_, parted := ?_, swept := ?_, scheduled := ?_ }
  · intro j created' _
    by_cases other : j = k
    · subst other
      have stage := orderly.stages j created id
      rw [mine] at stage
      show Stage (slot j) (callsOf w.stack j) (waitsOf rest j)
      rw [show slot j = _ from Function.update_self ..]
      exact stage_forgotten stage
    · show Stage (slot j) (callsOf w.stack j) (waitsOf rest j)
      rw [show slot j = w.slot j from Function.update_of_ne other .., others j other]
      exact orderly.stages j created' id
  · exact fun _ j member => absurd member absent
  · exact fun _ j member => absurd member absent
  · intro j new
    have other : j ≠ k := by
      rintro rfl
      exact absurd created (Nat.not_lt.mpr new)
    obtain ⟨fresh, running, waiting⟩ := orderly.fresh j new
    exact ⟨(Function.update_of_ne other ..).trans fresh, running, (others j other).trans waiting⟩
  · exact fun j member => absurd member absent
  · intro j created' _
    have parted := orderly.parted j created' absent
    by_cases other : j = k
    · subst other
      have slotted : slot j = { w.slot j with users := (w.slot j).users + user.toNat } := Function.update_self ..
      exact ⟨(congrArg _ slotted).trans parted.frees, (congrArg _ slotted).trans parted.socket,
        (congrArg _ slotted).trans parted.request,
        ⟨(congrArg (·.dial.user) slotted).trans parted.data.1, (congrArg (·.peer.user) slotted).trans parted.data.2⟩, parted.calls,
        fun alive => by cases dead.symm.trans alive⟩
    · have slotted : slot j = w.slot j := Function.update_of_ne other ..
      exact ⟨(congrArg _ slotted).trans parted.frees, (congrArg _ slotted).trans parted.socket,
        (congrArg _ slotted).trans parted.request,
        ⟨(congrArg (·.dial.user) slotted).trans parted.data.1, (congrArg (·.peer.user) slotted).trans parted.data.2⟩, parted.calls,
        fun alive => by cases dead.symm.trans alive⟩
  · exact fun j member => absurd member absent
  · intro alive
    cases dead.symm.trans alive

theorem orderly_tick (orderly : Orderly w) (empty : w.stack = []) : Orderly w.tick := by
  unfold App.tick
  split
  · exact orderly
  · next rest queue =>
    split
    · next alive => exact orderly_sweep orderly empty queue alive
    · next dead =>
      refine { orderly with
        stages := ?_, lively := ?_, fresh := ?_, parted := ?_, scheduled := fun alive => absurd alive dead }
      · have kept := orderly.stages
        rw [queue] at kept
        exact kept
      · have kept := orderly.lively
        rw [queue] at kept
        exact kept
      · have kept := orderly.fresh
        rw [queue] at kept
        exact kept
      · intro j created absent
        have parted := orderly.parted j created absent
        exact ⟨parted.frees, parted.socket, parted.request, parted.data, parted.calls, fun alive => absurd alive dead⟩
  · next k user rest queue =>
    dsimp only
    split
    · next alive => exact orderly_refused orderly queue alive
    · next dead => exact orderly_forgotten orderly empty queue (Bool.eq_false_iff.mpr dead)

theorem orderly_connect (orderly : Orderly w) (wantsTls userData failedHandler starts : Bool) :
    Orderly (w.connect wantsTls userData failedHandler starts) := by
  unfold App.connect
  split
  · exact orderly
  · next open_ =>
    rw [Bool.or_eq_true, Bool.not_eq_true', not_or, Bool.not_eq_false, Bool.not_eq_true] at open_
    obtain ⟨alive, opened⟩ := open_
    have live : w.gone = false := by
      cases gone : w.gone with
      | false => rfl
      | true => cases (orderly.gone gone).2.symm.trans alive
    dsimp only
    obtain ⟨-, running, waiting⟩ := orderly.fresh w.created (Nat.le_refl _)
    let new : Slot :=
      { userData := userData, wantsTls := wantsTls && w.tls
        dial := { request := starts, user := userData && starts, failedHandler := failedHandler }
        request := if starts then .pending else .none }
    let slot := Function.update w.slot w.created new
    let deferred := if starts then w.deferred else w.deferred ++ [.refused w.created userData]
    have mine : slot w.created = new := Function.update_self ..
    have other : ∀ j, j ≠ w.created → slot j = w.slot j := fun j other => Function.update_of_ne other ..
    have waits : ∀ j, j ≠ w.created → waitsOf deferred j = waitsOf w.deferred j := by
      intro j other
      show waitsOf (if starts then w.deferred else w.deferred ++ [.refused w.created userData]) j = _
      split
      · rfl
      · simp [waitsOf, Ne.symm other]
    have waitsNew : waitsOf deferred w.created = if starts then [] else [userData] := by
      show waitsOf (if starts then w.deferred else w.deferred ++ [.refused w.created userData]) w.created = _
      split
      · exact waiting
      · unfold waitsOf at waiting ⊢
        rw [List.filterMap_append, waiting]
        simp
    have before : ∀ j ∈ w.slots, j ≠ w.created := fun j member same => absurd (orderly.family j member) (by omega)
    have member : ∀ j, j ∈ w.slots ++ [w.created] → j ∈ w.slots ∨ j = w.created := by
      intro j inside
      exact (List.mem_append.mp inside).imp_right List.mem_singleton.mp
    show Orderly { w with created := w.created + 1, slots := w.slots ++ [w.created], slot := slot, deferred := deferred }
    refine ⟨?_, ?_, ?_, ?_, ?_, ?_, ?_, ?_, orderly.fault, ?_, ?_, orderly.dead, orderly.bottomed, orderly.destroying,
    orderly.looping, ?_, ?_, ?_⟩
    · intro j created _
      show Stage (slot j) (callsOf w.stack j) (waitsOf deferred j)
      by_cases same : j = w.created
      · subst same
        rw [mine, waitsNew, running]
        cases starts with
        | true => exact .pending rfl rfl rfl (by simp [new, Slot.data, Slot.dataAt]) rfl rfl rfl rfl
        | false => exact .refused rfl rfl rfl (by simp [new, Slot.data]) rfl rfl
      · rw [other j same, waits j same]
        exact orderly.stages j (Nat.lt_of_le_of_ne (Nat.lt_succ_iff.mp created) same) id
    · intro closed
      cases opened.symm.trans closed
    · intro closed j inside _
      show Lively (slot j) (callsOf w.stack j) (waitsOf deferred j)
      rcases member j inside with old | rfl
      · rw [other j (before j old), waits j (before j old)]
        exact orderly.lively closed j old id
      · rw [mine, waitsNew]
        cases starts <;> simp [Lively, new]
    · intro j later
      have later : w.created + 1 ≤ j := later
      have apart : j ≠ w.created := by omega
      obtain ⟨slot, running, waiting⟩ := orderly.fresh j (by omega)
      exact ⟨(other j apart).trans slot, running, (waits j apart).trans waiting⟩
    · intro j inside
      show j < w.created + 1
      rcases member j inside with old | rfl
      · exact Nat.lt_succ_of_lt (orderly.family j old)
      · exact Nat.lt_succ_self _
    · show (w.slots ++ [w.created]).Nodup
      exact List.nodup_append.mpr ⟨orderly.distinct, List.nodup_singleton _, fun j old j' new same =>
        before j old (same.trans (List.mem_singleton.mp new))⟩
    · intro j inside
      show (slot j).frees = 0
      rcases member j inside with old | rfl
      · rw [other j (before j old)]
        exact orderly.held j old
      · rw [mine]
    · intro j created absent
      have created : j < w.created + 1 := created
      have apart : j ≠ w.created := by
        rintro rfl
        exact absent (List.mem_append_right _ (List.mem_singleton.mpr rfl))
      have parted := orderly.parted j (by omega) fun old => absent (List.mem_append_left _ old)
      have slotted := other j apart
      exact ⟨(congrArg _ slotted).trans parted.frees, (congrArg _ slotted).trans parted.socket,
        (congrArg _ slotted).trans parted.request,
        ⟨(congrArg (·.dial.user) slotted).trans parted.data.1, (congrArg (·.peer.user) slotted).trans parted.data.2⟩, parted.calls,
        fun alive => (waits j apart).trans (parted.waits alive)⟩
    · intro gone
      cases live.symm.trans gone
    · exact orderly.finished
    · exact fun frame stacked j listed => List.mem_append_left _ (orderly.inside frame stacked j listed)
    · intro j inside done
      rcases member j inside with old | rfl
      · have done : (slot j).done = true := done
        rw [other j (before j old)] at done
        exact orderly.swept j old done
      · have done : (slot w.created).done = true := done
        rw [mine] at done
        cases done
    · intro alive scheduled
      show .sweep ∈ (if starts then w.deferred else w.deferred ++ [.refused w.created userData])
      have queued := orderly.scheduled alive scheduled
      split
      · exact queued
      · exact List.mem_append_left _ queued

end Uws.Client
