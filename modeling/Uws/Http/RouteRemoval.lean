import Uws.Http.RouteOrder

namespace Uws.Http

open Node

variable {η : Type}

/-- A handler of the tree: the method and the segments it is under, its priority, and the function that its index
    leads to. -/
structure Stored (η : Type) where
  path : List (Bytes × Bool)
  priority : Priority
  handler : Option η
deriving DecidableEq

namespace Stored

def ofEntry (handlers : List η) (e : Entry) : Stored η := ⟨e.1, e.2.priority, handlers[e.2.index]?⟩

def isAt (s : Stored η) (method pattern : Bytes) (priority : Priority) : Prop :=
  s.path = routePath method pattern priority ∧ s.priority = priority

end Stored

def HttpRouter.stored (router : HttpRouter η) : List (Stored η) :=
  (childEntries router.root).map (Stored.ofEntry router.handlers)

def Route.stored (route : Route η) : Stored η := ⟨route.path, route.priority, some route.handler⟩

/-- The segments by which a route is told from others: as many as are kept, with no names of parameters. -/
def keptSegments (pattern : Bytes) : List Bytes := ((urlSegments pattern).take maxUrlSegments).map strippedSegment

theorem routePath_eq_iff {method pattern method' pattern' : Bytes} {priority : Priority} :
    routePath method pattern priority = routePath method' pattern' priority ↔
      method = method' ∧ keptSegments pattern = keptSegments pattern' := by
  unfold routePath keptSegments
  rw [patternSegments_eq, patternSegments_eq, List.cons.injEq, Prod.mk.injEq]
  constructor
  · rintro ⟨⟨same, -⟩, labels⟩
    refine ⟨same, ?_⟩
    have names := congrArg (List.map Prod.fst) labels
    unfold segmentLabels at names
    rw [List.map_map, List.map_map] at names
    exact names
  · rintro ⟨same, segments⟩
    refine ⟨⟨same, rfl⟩, ?_⟩
    have labels := congrArg (List.map fun name => (name, priority == .high)) segments
    rw [List.map_map, List.map_map] at labels
    exact labels

theorem occupies_iff {route : Route η} {method pattern : Bytes} {priority : Priority} :
    route.occupies method pattern priority = true ↔
      route.method = method ∧ route.priority = priority ∧ keptSegments route.pattern = keptSegments pattern := by
  unfold Route.occupies Route.path
  rw [decide_eq_true_eq]
  constructor
  · rintro ⟨path, rfl⟩
    obtain ⟨same, segments⟩ := routePath_eq_iff.mp path
    exact ⟨same, rfl, segments⟩
  · rintro ⟨same, rfl, segments⟩
    exact ⟨routePath_eq_iff.mpr ⟨same, segments⟩, rfl⟩

namespace Represents

variable {router : HttpRouter η} {routes : List (Route η)}

theorem entry_stored (represents : Represents router routes) {e : Entry} (member : e ∈ childEntries router.root) :
    ∃ route, routes[e.2.index]? = some route ∧ Stored.ofEntry router.handlers e = route.stored := by
  obtain ⟨route, there, path, priority⟩ := (represents.listed e.1 e.2).mp member
  refine ⟨route, there, ?_⟩
  unfold Stored.ofEntry Route.stored
  rw [represents.handlers, List.getElem?_map, there, path, priority]
  rfl

theorem stored_inj (represents : Represents router routes) {d e : Entry} (first : d ∈ childEntries router.root)
    (second : e ∈ childEntries router.root) (path : d.1 = e.1) (priority : d.2.priority = e.2.priority) : d = e := by
  obtain ⟨a, there_a, path_a, priority_a⟩ := (represents.listed d.1 d.2).mp first
  obtain ⟨b, there_b, path_b, priority_b⟩ := (represents.listed e.1 e.2).mp second
  have index := represents.index_unique there_a there_b (path_a.trans (path.trans path_b.symm))
    (priority_a.trans (priority.trans priority_b.symm))
  exact Prod.ext path (congrArg₂ HandlerId.mk priority index)

theorem stored_registered (represents : Represents router routes) :
    router.stored.Perm (routes.map Route.stored) := by
  have left : router.stored.Nodup := by
    unfold HttpRouter.stored
    apply represents.once.map_on
    intro d first e second same
    have fields := Stored.mk.inj same
    exact represents.stored_inj first second fields.1 fields.2.1
  have right : (routes.map Route.stored).Nodup := by
    rw [List.Nodup, List.pairwise_map]
    refine represents.distinct.imp ?_
    intro a b apart same
    have fields := Stored.mk.inj same
    exact apart ⟨fields.1, fields.2.1⟩
  apply (List.perm_ext_iff_of_nodup left right).mpr
  intro s
  unfold HttpRouter.stored
  rw [List.mem_map, List.mem_map]
  constructor
  · rintro ⟨e, member, rfl⟩
    obtain ⟨route, there, same⟩ := represents.entry_stored member
    exact ⟨route, List.mem_of_getElem? there, same.symm⟩
  · rintro ⟨route, member, rfl⟩
    obtain ⟨i, there⟩ := List.mem_iff_getElem?.mp member
    have listed := (represents.listed route.path ⟨route.priority, i⟩).mpr ⟨route, there, rfl, rfl⟩
    refine ⟨_, listed, ?_⟩
    obtain ⟨own, found, same⟩ := represents.entry_stored listed
    rw [there] at found
    obtain rfl := Option.some.inj found
    exact same

theorem shifted_stored (represents : Represents router routes) {handler : HandlerId} {gone : Route η}
    (found : routes[handler.index]? = some gone) (own : gone.priority = handler.priority) {e : Entry}
    (member : e ∈ childEntries router.root) (other : e.2 ≠ handler) :
    (shiftEntry handler e).map (Stored.ofEntry (router.handlers.eraseIdx handler.index)) =
      some (Stored.ofEntry router.handlers e) := by
  have apart : e.2.index ≠ handler.index := fun index => other (represents.id_unique member found own index)
  unfold shiftEntry shiftId Stored.ofEntry
  split
  · rename_i above
    have lowered : e.2.index - 1 + 1 = e.2.index := by omega
    simp only [Option.map_some]
    rw [List.getElem?_eraseIdx_of_ge (by omega), lowered]
  · rename_i above
    have below : e.2.index < handler.index := by omega
    simp only [Option.map_some]
    rw [List.getElem?_eraseIdx_of_lt below]

theorem remove_stored (represents : Represents router routes) (method pattern : Bytes) (priority : Priority)
    {handler : HandlerId} (found : router.findHandler method pattern priority = some handler) :
    ∃ front gone back, router.stored = front ++ gone :: back ∧ gone.isAt method pattern priority ∧
      (∀ s ∈ front ++ back, ¬ s.isAt method pattern priority) ∧
      (router.remove method pattern priority).1.stored = front ++ back := by
  obtain ⟨member, own⟩ := (represents.findHandler_listed method pattern priority).1 handler found
  obtain ⟨route, there, path, same⟩ := (represents.listed _ handler).mp member
  obtain ⟨front, back, split⟩ := List.append_of_mem member
  have once := represents.once
  rw [split] at once
  have outside : ∀ e ∈ front ++ back, e ∈ childEntries router.root ∧ e ≠ (routePath method pattern priority, handler) := by
    intro e beside
    have apart := (List.nodup_middle.mp once)
    rw [List.nodup_cons] at apart
    refine ⟨?_, fun equal => apart.1 (equal ▸ beside)⟩
    rw [split]
    rcases List.mem_append.mp beside with left | right
    · exact List.mem_append_left _ left
    · exact List.mem_append_right _ (List.mem_cons_of_mem _ right)
  have kept : ∀ entries : List Entry, (∀ e ∈ entries, e ∈ front ++ back) →
      (entries.filterMap (shiftEntry handler)).map (Stored.ofEntry (router.handlers.eraseIdx handler.index)) =
        entries.map (Stored.ofEntry router.handlers) := by
    intro entries within
    rw [List.map_filterMap, ← List.filterMap_eq_map]
    apply filterMap_congr_mem
    intro e inside
    obtain ⟨listed, apart⟩ := outside e (within e inside)
    refine represents.shifted_stored there same listed fun equal => apart ?_
    exact represents.stored_inj listed member (by
      obtain ⟨own_route, found', own_path, -⟩ := (represents.listed e.1 e.2).mp listed
      rw [equal, there] at found'
      obtain rfl := Option.some.inj found'
      exact own_path.symm.trans path) (congrArg HandlerId.priority equal)
  refine ⟨front.map (Stored.ofEntry router.handlers), Stored.ofEntry router.handlers (routePath method pattern priority, handler),
    back.map (Stored.ofEntry router.handlers), ?_, ⟨rfl, own⟩, ?_, ?_⟩
  · unfold HttpRouter.stored
    rw [split, List.map_append, List.map_cons]
  · intro s beside
    rw [← List.map_append] at beside
    obtain ⟨e, inside, rfl⟩ := List.mem_map.mp beside
    obtain ⟨listed, apart⟩ := outside e inside
    rintro ⟨path', priority'⟩
    exact apart (represents.stored_inj listed member path' (priority'.trans own.symm))
  · unfold HttpRouter.remove HttpRouter.stored
    rw [found]
    have dropped : shiftEntry handler (routePath method pattern priority, handler) = none := by
      rw [shiftEntry, shiftId, if_neg (Nat.lt_irrefl _), if_pos rfl]
      rfl
    simp only
    rw [cullChildren_entries, split, List.filterMap_append, List.filterMap_cons_none dropped, List.map_append,
      kept front fun e inside => List.mem_append_left _ inside, kept back fun e inside => List.mem_append_right _ inside]

theorem add_stored (represents : Represents router routes) (route : Route η) :
    (router.add route.method route.pattern route.handler route.priority).stored.Perm
      (route.stored :: (router.remove route.method route.pattern route.priority).1.stored) := by
  have removed := (represents.remove route.method route.pattern route.priority).stored_registered
  have added := (represents.add route).stored_registered
  rw [List.map_append] at added
  exact (added.trans List.perm_append_comm).trans (removed.symm.cons _)

end Represents

/-- A removal finds what is registered under the method, the priority and the kept segments; then it takes out this
    one entry and leaves the others, each with its function, where they are. An added route is alone in its place. -/
theorem removes_one (calls : List (RouterCall η)) (method pattern : Bytes) (priority : Priority) :
    ((HttpRouter.runCalls calls).stored.Perm ((registered calls).map Route.stored)) ∧
    (((HttpRouter.runCalls calls).remove method pattern priority).2 = true ↔
      ∃ route ∈ registered calls, route.method = method ∧ route.priority = priority ∧
        keptSegments route.pattern = keptSegments pattern) ∧
    (((HttpRouter.runCalls calls).remove method pattern priority).2 = true →
      ∃ front gone back, (HttpRouter.runCalls calls).stored = front ++ gone :: back ∧ gone.isAt method pattern priority ∧
        (∀ s ∈ front ++ back, ¬ s.isAt method pattern priority) ∧
        ((HttpRouter.runCalls calls).remove method pattern priority).1.stored = front ++ back) ∧
    (((HttpRouter.runCalls calls).remove method pattern priority).2 = false →
      ((HttpRouter.runCalls calls).remove method pattern priority).1 = HttpRouter.runCalls calls ∧
        ∀ s ∈ (HttpRouter.runCalls calls).stored, ¬ s.isAt method pattern priority) ∧
    ∀ handler, ((HttpRouter.runCalls calls).add method pattern handler priority).stored.Perm
      (⟨routePath method pattern priority, priority, some handler⟩ ::
        ((HttpRouter.runCalls calls).remove method pattern priority).1.stored) := by
  have represents := runCalls_represents calls
  generalize HttpRouter.runCalls calls = router at represents ⊢
  generalize registered calls = routes at represents ⊢
  obtain ⟨some_, none_⟩ := represents.findHandler_routes method pattern priority
  refine ⟨represents.stored_registered, ?_, ?_, ?_, fun handler => represents.add_stored ⟨method, pattern, priority, handler⟩⟩
  · simp only [← occupies_iff]
    unfold HttpRouter.remove
    cases found : router.findHandler method pattern priority with
    | none =>
      constructor
      · intro removed
        cases removed
      · rintro ⟨route, member, occupies⟩
        rw [none_ found route member] at occupies
        cases occupies
    | some handler =>
      obtain ⟨route, there, occupies, -⟩ := some_ handler found
      exact ⟨fun _ => ⟨route, List.mem_of_getElem? there, occupies⟩, fun _ => rfl⟩
  · intro removed
    cases found : router.findHandler method pattern priority with
    | none =>
      rw [HttpRouter.remove, found] at removed
      cases removed
    | some handler => exact represents.remove_stored method pattern priority found
  · intro missed
    cases found : router.findHandler method pattern priority with
    | none =>
      refine ⟨by rw [HttpRouter.remove, found], ?_⟩
      rintro s stored ⟨path, own⟩
      obtain ⟨route, member, rfl⟩ := List.mem_map.mp (represents.stored_registered.mem_iff.mp stored)
      have free := of_decide_eq_false (none_ found route member)
      exact free ⟨path, own⟩
    | some handler =>
      rw [HttpRouter.remove, found] at missed
      cases missed

/-- A pattern that differs behind the kept segments removes the route. -/
theorem longer_pattern_removes :
    ¬ ∀ (calls : List (RouterCall Nat)) (method pattern : Bytes) (priority : Priority),
      ((HttpRouter.runCalls calls).remove method pattern priority).2 = true ↔
        ∃ route ∈ registered calls, route.method = method ∧ route.priority = priority ∧
          route.segments.map strippedSegment = (urlSegments pattern).map strippedSegment := by
  intro exact_
  have removedExactly := exact_ longCalls (ascii "GET") (repeated 100 ++ ascii "/c") .medium
  have removed : ((HttpRouter.runCalls longCalls).remove (ascii "GET") (repeated 100 ++ ascii "/c") .medium).2 = true := by
    decide +kernel
  obtain ⟨route, member, -, -, same⟩ := removedExactly.mp removed
  have apart : ∀ route ∈ registered longCalls,
      route.segments.map strippedSegment ≠ (urlSegments (repeated 100 ++ ascii "/c")).map strippedSegment := by
    decide +kernel
  exact apart route member same

end Uws.Http
