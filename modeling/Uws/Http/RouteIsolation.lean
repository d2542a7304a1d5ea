import Uws.Http.RouteMatching

namespace Uws.Http

open Node HttpRouter

variable {η : Type}

namespace HttpRouter

def nodeTried (router : HttpRouter η) (url : Bytes) (node : Option Node) : List (η × List Bytes) :=
  match node with
  | none => []
  | some p => lookupMatches router.handlers (nodeMatches p ((urlSegments url).take maxUrlSegments) [])

def tried (router : HttpRouter η) (method url : Bytes) : List (η × List Bytes) :=
  if maxUrlSegments < url.count slash then router.nodeTried url router.root.getLast?
  else router.nodeTried url (router.root.find? (·.name == method)) ++ router.nodeTried url router.root.getLast?

theorem executeLast_ran (answers : Answers η) (router : HttpRouter η) (url : Bytes) (routing : Routing η)
    (cached : Cached ((urlSegments url).take maxUrlSegments) 0 routing.cache) (none : routing.routeParameters = []) :
    Ran answers (router.nodeTried url router.root.getLast?) ((urlSegments url).take maxUrlSegments) 0 routing
      (executeLast answers router routing) := by
  unfold executeLast nodeTried
  cases router.root.getLast? with
  | none => exact ⟨rfl, cached, fun _ => rfl⟩
  | some p =>
    have ran := executeHandlers_ran answers router.handlers p 0 routing cached
    rwa [none] at ran

theorem route_ran (answers : Answers η) (router : HttpRouter η) (method url : Bytes) :
    ((router.route answers method url).1.ran, (router.route answers method url).2) =
      runUntilDone answers [] (router.tried method url) := by
  have cached := setUrl_cached url
  unfold HttpRouter.route tried
  by_cases tooLong : maxUrlSegments < url.count slash
  · have flag : (setUrl url).urlTooLong = true := decide_eq_true tooLong
    rw [if_pos tooLong, if_pos flag]
    exact (executeLast_ran answers router url
      { cache := { setUrl url with urlTooLong := false } } cached rfl).ran
  · have flag : (setUrl url).urlTooLong = false := decide_eq_false tooLong
    have whole : ({ setUrl url with urlTooLong := false } : UrlCache) = setUrl url := by rw [← flag]
    rw [whole] at cached
    rw [if_neg tooLong, if_neg (by rw [flag]; exact Bool.false_ne_true)]
    have own : Ran answers (router.nodeTried url (router.root.find? (·.name == method)))
        ((urlSegments url).take maxUrlSegments) 0 { cache := setUrl url }
        (match router.root.find? (·.name == method) with
          | none => ({ cache := setUrl url }, false)
          | some node => executeHandlers answers router.handlers node 0 { cache := setUrl url }) := by
      unfold nodeTried
      cases router.root.find? (·.name == method) with
      | none => exact ⟨rfl, cached, fun _ => rfl⟩
      | some p => exact executeHandlers_ran answers router.handlers p 0 { cache := setUrl url } cached
    exact (own.then answers (executeLast answers router) fun later same cached =>
      executeLast_ran answers router url later cached same).ran

end HttpRouter

theorem mem_lookupMatches {handlers : List η} {found : List Match} {handler : η} {params : List Bytes} :
    (handler, params) ∈ lookupMatches handlers found ↔
      ∃ id, (id, params) ∈ found ∧ handlers[id.index]? = some handler := by
  rw [lookupMatches, List.mem_filterMap]
  constructor
  · rintro ⟨⟨id, own⟩, member, found⟩
    obtain ⟨handler', there, same⟩ := Option.map_eq_some_iff.mp found
    obtain ⟨rfl, rfl⟩ := Prod.ext_iff.mp same
    exact ⟨id, member, there⟩
  · rintro ⟨id, member, there⟩
    exact ⟨(id, params), member, by rw [there]; rfl⟩

mutual

theorem nodeMatches_entries (p : Node) (segments params : List Bytes) (m : Match)
    (member : m ∈ nodeMatches p segments params) : ∃ path, (path, m.1) ∈ p.entries := by
  match p, segments with
  | .mk name children ids high, [] =>
    obtain ⟨id, own, rfl⟩ := List.mem_map.mp member
    exact ⟨[], mem_entries_nil.mpr own⟩
  | .mk name children ids high, segment :: segments =>
    obtain ⟨path, below⟩ := childMatches_entries children segment segments params m member
    exact ⟨path, List.mem_append_right _ below⟩

theorem childMatches_entries (children : List Node) (segment : Bytes) (segments params : List Bytes) (m : Match)
    (member : m ∈ childMatches children segment segments params) : ∃ path, (path, m.1) ∈ childEntries children := by
  match children with
  | [] => cases member
  | p :: rest =>
    have here : ∀ path, (path, m.1) ∈ p.entries → ∃ path, (path, m.1) ∈ childEntries (p :: rest) := fun path inside =>
      ⟨p.label :: path, mem_childEntries_cons.mpr ⟨p, List.mem_cons_self, rfl, inside⟩⟩
    rw [childMatches, List.mem_append] at member
    rcases member with own | others
    · split at own
      · obtain ⟨id, handled, rfl⟩ := List.mem_map.mp own
        exact here [] (mem_entries_nil.mpr handled)
      · split at own
        · obtain ⟨path, inside⟩ := nodeMatches_entries p segments _ m own
          exact here path inside
        · split at own
          · obtain ⟨path, inside⟩ := nodeMatches_entries p segments _ m own
            exact here path inside
          · cases own
    · obtain ⟨path, below⟩ := childMatches_entries rest segment segments params m others
      exact ⟨path, List.mem_append_right _ below⟩

end

namespace Represents

variable {router : HttpRouter η} {routes : List (Route η)}

theorem nodeTried_method (represents : Represents router routes) {p : Node} (member : p ∈ router.root) {url : Bytes}
    {handler : η} {params : List Bytes} (tried : (handler, params) ∈ router.nodeTried url (some p)) :
    ∃ route ∈ routes, route.handler = handler ∧ route.method = p.name := by
  obtain ⟨id, matched, there⟩ := mem_lookupMatches.mp tried
  obtain ⟨path, inside⟩ := nodeMatches_entries p _ _ _ matched
  obtain ⟨route, own, labels, -⟩ := (represents.listed _ id).mp (mem_childEntries_cons.mpr ⟨p, member, rfl, inside⟩)
  rw [represents.handlers, List.getElem?_map, own] at there
  exact ⟨route, List.mem_of_getElem? own, Option.some.inj there,
    congrArg Prod.fst (List.cons.inj labels).1⟩

theorem last_any (represents : Represents router routes) (any : (anyMethodToken, false) ∈ router.root.map label)
    {p : Node} (last : router.root.getLast? = some p) : p.name = anyMethodToken := by
  obtain ⟨front, split⟩ := List.getLast?_eq_some_iff.mp last
  obtain ⟨q, member, same⟩ := List.mem_map.mp any
  have name : q.name = anyMethodToken := congrArg Prod.fst same
  rw [split, List.mem_append, List.mem_singleton] at member
  rcases member with earlier | rfl
  · have apart := represents.methods
    rw [split, List.map_append, List.pairwise_append] at apart
    have differ := apart.2.2 q.label (List.mem_map_of_mem earlier) p.label (List.mem_map_of_mem List.mem_cons_self)
    exact absurd name differ.2
  · exact name

theorem tried_method (represents : Represents router routes) (any : (anyMethodToken, false) ∈ router.root.map label)
    {method url : Bytes} {handler : η} {params : List Bytes} (tried : (handler, params) ∈ router.tried method url) :
    ∃ route ∈ routes, route.handler = handler ∧ (route.method = method ∨ route.method = anyMethodToken) := by
  have last : (handler, params) ∈ router.nodeTried url router.root.getLast? →
      ∃ route ∈ routes, route.handler = handler ∧ (route.method = method ∨ route.method = anyMethodToken) := by
    intro tried
    cases found : router.root.getLast? with
    | none =>
      rw [found] at tried
      cases tried
    | some p =>
      rw [found] at tried
      obtain ⟨route, member, own, name⟩ := represents.nodeTried_method (List.mem_of_getLast? found) tried
      exact ⟨route, member, own, .inr (name.trans (represents.last_any any found))⟩
  unfold HttpRouter.tried at tried
  split at tried
  · exact last tried
  · rcases List.mem_append.mp tried with own | fallback
    · cases found : router.root.find? (·.name == method) with
      | none =>
        rw [found] at own
        cases own
      | some p =>
        rw [found] at own
        obtain ⟨member, same⟩ := (represents.findMethod method).mp found
        obtain ⟨route, registered, handled, name⟩ := represents.nodeTried_method member own
        exact ⟨route, registered, handled, .inl (name.trans (congrArg Prod.fst same))⟩
    · exact last fallback

theorem any_of_route (represents : Represents router routes) {route : Route η} (member : route ∈ routes)
    (any : route.method = anyMethodToken) : (anyMethodToken, false) ∈ router.root.map label := by
  obtain ⟨i, there⟩ := List.mem_iff_getElem?.mp member
  have listed := (represents.listed route.path ⟨route.priority, i⟩).mpr ⟨route, there, rfl, rfl⟩
  rw [Route.path, routePath, mem_childEntries_cons, any] at listed
  obtain ⟨p, own, same, -⟩ := listed
  exact List.mem_map.mpr ⟨p, own, same⟩

end Represents

def RouterCall.finds (routes : List (Route η)) : RouterCall η → Bool
  | .add route => routes.any (·.occupies route.method route.pattern route.priority)
  | .remove method pattern priority => routes.any (·.occupies method pattern priority)

def Untouched : List (Route η) → List (RouterCall η) → Prop
  | _, [] => True
  | routes, call :: calls => call.finds routes = false ∧ Untouched (call.register routes) calls

/-- A route for ANY is registered, or no route was removed yet, also not for one that is registered again. -/
def KeepsAny (calls : List (RouterCall η)) : Prop :=
  (∃ route ∈ registered calls, route.method = anyMethodToken) ∨ Untouched [] calls

namespace Represents

variable {router : HttpRouter η} {routes : List (Route η)}

theorem remove_untouched (represents : Represents router routes) {method pattern : Bytes} {priority : Priority}
    (untouched : routes.any (·.occupies method pattern priority) = false) :
    (router.remove method pattern priority).1 = router := by
  unfold HttpRouter.remove
  cases found : router.findHandler method pattern priority with
  | none => rfl
  | some id =>
    obtain ⟨route, there, occupies, -⟩ := (represents.findHandler_routes method pattern priority).1 id found
    have none := List.any_eq_false.mp untouched route (List.mem_of_getElem? there)
    exact absurd occupies none

theorem runCall_any (represents : Represents router routes) (any : (anyMethodToken, false) ∈ router.root.map label)
    (call : RouterCall η) (untouched : call.finds routes = false) :
    (anyMethodToken, false) ∈ (router.runCall call).root.map label := by
  cases call with
  | add route =>
    rw [HttpRouter.runCall, HttpRouter.add, represents.remove_untouched untouched]
    have sorted := List.perm_insertionSort (fun a b => !methodBefore b a)
      (getNode true router.root route.method false (addSegments (route.priority == .high)
        ⟨route.priority, router.handlers.length⟩ (patternSegments route.pattern)))
    rw [(sorted.map label).mem_iff, getNode_labels (addSegments_adds _ _ _)]
    exact .inr any
  | remove method pattern priority =>
    rw [HttpRouter.runCall, represents.remove_untouched untouched]
    exact any

theorem foldl_any (represents : Represents router routes) (any : (anyMethodToken, false) ∈ router.root.map label)
    (calls : List (RouterCall η)) (untouched : Untouched routes calls) :
    (anyMethodToken, false) ∈ (calls.foldl HttpRouter.runCall router).root.map label := by
  induction calls generalizing router routes with
  | nil => exact any
  | cons call calls ih =>
    exact ih (represents.runCall call) (represents.runCall_any any call untouched.1) untouched.2

end Represents

theorem KeepsAny.node {calls : List (RouterCall η)} (keeps : KeepsAny calls) :
    (anyMethodToken, false) ∈ (HttpRouter.runCalls calls).root.map label := by
  rcases keeps with ⟨route, member, any⟩ | untouched
  · exact (runCalls_represents calls).any_of_route member any
  · exact represents_empty.foldl_any List.mem_cons_self calls untouched

/-- Every handler that is run is registered for the method of the request or for ANY. -/
theorem routes_isolated (calls : List (RouterCall η)) (keeps : KeepsAny calls) (answers : Answers η)
    (method url : Bytes) (handler : η) (params : List Bytes)
    (ran : (handler, params) ∈ ((HttpRouter.runCalls calls).route answers method url).1.ran) :
    ∃ route ∈ registered calls, route.handler = handler ∧ (route.method = method ∨ route.method = anyMethodToken) := by
  have outcome := congrArg Prod.fst ((HttpRouter.runCalls calls).route_ran answers method url)
  obtain ⟨front, begins, all⟩ := runUntilDone_ran answers [] ((HttpRouter.runCalls calls).tried method url)
  simp only at outcome
  rw [outcome, all, List.nil_append] at ran
  exact (runCalls_represents calls).tried_method keeps.node (begins.subset ran)

def siteCalls : List (RouterCall Nat) :=
  [.add ⟨ascii "GET", ascii "/a", .medium, 0⟩, .add ⟨anyMethodToken, ascii "/*", .low, 1⟩]

theorem site_isolated :
    (0, []) ∈ ((HttpRouter.runCalls siteCalls).route (fun _ => false) (ascii "GET") (ascii "/a")).1.ran ∧
      ∃ route ∈ registered siteCalls, route.handler = 0 ∧
        (route.method = ascii "GET" ∨ route.method = anyMethodToken) := by
  have ran : (0, []) ∈ ((HttpRouter.runCalls siteCalls).route (fun _ => false) (ascii "GET") (ascii "/a")).1.ran := by
    decide +kernel
  have any : ∃ route ∈ registered siteCalls, route.method = anyMethodToken :=
    ⟨⟨anyMethodToken, ascii "/*", .low, 1⟩, by decide +kernel, rfl⟩
  exact ⟨ran, routes_isolated siteCalls (.inl any) _ _ _ _ _ ran⟩

/-- One route that is registered twice. -/
def twiceCalls : List (RouterCall Nat) :=
  [.add ⟨ascii "GET", ascii "/a", .medium, 0⟩, .add ⟨ascii "GET", ascii "/a", .medium, 1⟩]

/-- The ANY node is culled when a route is registered again, and another method gets its handler. -/
theorem twice_leaks :
    ¬ ∀ (calls : List (RouterCall Nat)) (answers : Answers Nat) (method url : Bytes) (handler : Nat)
        (params : List Bytes), (handler, params) ∈ ((HttpRouter.runCalls calls).route answers method url).1.ran →
        ∃ route ∈ registered calls, route.handler = handler ∧
          (route.method = method ∨ route.method = anyMethodToken) := by
  intro isolated
  have ran : (1, []) ∈ ((HttpRouter.runCalls twiceCalls).route (fun _ => true) (ascii "POST") (ascii "/a")).1.ran := by
    decide +kernel
  obtain ⟨route, member, -, method⟩ := isolated twiceCalls _ _ _ _ _ ran
  have methods : ∀ route ∈ registered twiceCalls, route.method = ascii "GET" := by decide +kernel
  rw [methods route member] at method
  exact absurd method (by decide)

end Uws.Http
