import Uws.Http.RouterTree

namespace Uws.Http

open Node

theorem find_label {children : List Node} {l : Bytes × Bool} {test : Node → Bool}
    (distinct : (children.map label).Pairwise (· ≠ ·)) (tests : ∀ p ∈ children, test p = true ↔ p.label = l)
    {p : Node} : children.find? test = some p ↔ p ∈ children ∧ p.label = l := by
  induction children with
  | nil => simp
  | cons q rest ih =>
    rw [List.map_cons, List.pairwise_cons] at distinct
    have later := ih distinct.2 fun p member => tests p (List.mem_cons_of_mem _ member)
    by_cases here : test q = true
    · have own := (tests q List.mem_cons_self).mp here
      rw [List.find?_cons_of_pos here]
      constructor
      · rintro ⟨⟩
        exact ⟨List.mem_cons_self, own⟩
      · rintro ⟨member, same⟩
        rcases List.mem_cons.mp member with rfl | member
        · rfl
        · exact absurd (own.trans same.symm) (distinct.1 _ (List.mem_map_of_mem member))
    · rw [List.find?_cons_of_neg here, later, List.mem_cons]
      constructor
      · exact fun ⟨member, same⟩ => ⟨.inr member, same⟩
      · rintro ⟨rfl | member, same⟩
        · exact absurd ((tests _ List.mem_cons_self).mpr same) here
        · exact ⟨member, same⟩

theorem segment_test (segment : Bytes) (high : Bool) (child : Node)
    (stripped : strippedSegment child.name = child.name) :
    (((segment.head? == some colon && child.name.head? == some colon) || child.name == segment) &&
      child.isHighPriority == high) = true ↔ child.label = (strippedSegment segment, high) := by
  have names : ((segment.head? == some colon && child.name.head? == some colon) || child.name == segment) = true ↔
      child.name = strippedSegment segment := by
    simp only [Bool.or_eq_true, Bool.and_eq_true, beq_iff_eq]
    by_cases parameter : segment.head? = some colon
    · have target : strippedSegment segment = [colon] := if_pos parameter
      rw [target]
      constructor
      · intro test
        have begins : child.name.head? = some colon := by
          rcases test with ⟨-, begins⟩ | same
          · exact begins
          · rw [same]
            exact parameter
        rw [← stripped, strippedSegment, if_pos begins]
      · intro same
        left
        rw [same]
        exact ⟨parameter, rfl⟩
    · have target : strippedSegment segment = segment := if_neg parameter
      rw [target]
      exact ⟨fun test => test.resolve_left fun both => parameter both.1, .inr⟩
  rw [Bool.and_eq_true, names, beq_iff_eq]
  exact ⟨fun ⟨name, own⟩ => Prod.ext name own, fun same => ⟨congrArg Prod.fst same, congrArg Prod.snd same⟩⟩

theorem follows_ne {labels : List (Bytes × Bool)} (siblings : labels.Pairwise Follows) : labels.Pairwise (· ≠ ·) :=
  siblings.imp And.left

theorem mem_childEntries_cons {children : List Node} {l : Bytes × Bool} {path : List (Bytes × Bool)} {id : HandlerId} :
    (l :: path, id) ∈ childEntries children ↔ ∃ p ∈ children, p.label = l ∧ (path, id) ∈ p.entries := by
  rw [mem_childEntries]
  constructor
  · rintro ⟨p, member, ⟨below, own⟩, inside, same⟩
    obtain ⟨rfl, rfl⟩ := List.cons.inj (congrArg Prod.fst same)
    obtain rfl : id = own := congrArg Prod.snd same
    exact ⟨p, member, rfl, inside⟩
  · rintro ⟨p, member, rfl, inside⟩
    exact ⟨p, member, _, inside, rfl⟩

theorem childEntries_nil_path {children : List Node} {id : HandlerId} : ([], id) ∉ childEntries children := by
  rw [mem_childEntries]
  rintro ⟨p, -, below, -, same⟩
  cases congrArg Prod.fst same

theorem mem_entries_nil {p : Node} {id : HandlerId} : ([], id) ∈ p.entries ↔ id ∈ p.handlers := by
  cases p with
  | mk name children ids high =>
    rw [entries, List.mem_append, List.mem_map]
    constructor
    · rintro (⟨own, member, same⟩ | below)
      · obtain rfl : own = id := congrArg Prod.snd same
        exact member
      · exact absurd below childEntries_nil_path
    · exact fun member => .inl ⟨id, member, rfl⟩

theorem mem_entries_cons {p : Node} {l : Bytes × Bool} {path : List (Bytes × Bool)} {id : HandlerId} :
    (l :: path, id) ∈ p.entries ↔ (l :: path, id) ∈ childEntries p.children := by
  cases p with
  | mk name children ids high =>
    rw [entries, List.mem_append, List.mem_map]
    constructor
    · rintro (⟨own, -, same⟩ | below)
      · cases congrArg Prod.fst same
      · exact below
    · exact .inr

theorem Node.Proper.children {p : Node} (proper : p.Proper) :
    (p.children.map label).Pairwise Follows ∧ (∀ a ∈ p.children.map label, strippedSegment a.1 = a.1) ∧
      ∀ q ∈ p.children, q.Proper := by
  cases p with
  | mk name children ids high =>
    obtain ⟨-, siblings, stripped, below⟩ := proper
    exact ⟨siblings, stripped, allProper_iff.mp below⟩

theorem findNode_entries (high : Bool) (segments : List Bytes) (p : Node) (proper : p.Proper) (id : HandlerId) :
    (segmentLabels high segments, id) ∈ p.entries ↔ ∃ n, findNode high segments p = some n ∧ id ∈ n.handlers := by
  induction segments generalizing p with
  | nil =>
    rw [segmentLabels, List.map_nil, mem_entries_nil]
    constructor
    · exact fun member => ⟨p, rfl, member⟩
    · rintro ⟨n, ⟨⟩, member⟩
      exact member
  | cons segment segments ih =>
    obtain ⟨siblings, stripped, below⟩ := proper.children
    have found := @find_label p.children (strippedSegment segment, high) _ (follows_ne siblings) fun q member =>
      segment_test segment high q (stripped _ (List.mem_map_of_mem member))
    rw [segmentLabels, List.map_cons, mem_entries_cons, mem_childEntries_cons]
    constructor
    · rintro ⟨q, member, same, inside⟩
      obtain ⟨n, reached, own⟩ := (ih q (below q member)).mp inside
      refine ⟨n, ?_, own⟩
      rw [findNode, found.mpr ⟨member, same⟩]
      exact reached
    · rintro ⟨n, reached, own⟩
      rw [findNode] at reached
      split at reached
      · cases reached
      · rename_i q chosen
        obtain ⟨member, same⟩ := found.mp chosen
        exact ⟨q, member, same, (ih q (below q member)).mpr ⟨n, reached, own⟩⟩

structure Route (η : Type) where
  method : Bytes
  pattern : Bytes
  priority : Priority
  handler : η
deriving DecidableEq

inductive RouterCall (η : Type) where
  | add (route : Route η)
  | remove (method pattern : Bytes) (priority : Priority)

variable {η : Type}

def routePath (method pattern : Bytes) (priority : Priority) : List (Bytes × Bool) :=
  (method, false) :: segmentLabels (priority == .high) (patternSegments pattern)

namespace Route

def path (route : Route η) : List (Bytes × Bool) := routePath route.method route.pattern route.priority

/-- Parameters have no names where routes are told apart. -/
def occupies (route : Route η) (method pattern : Bytes) (priority : Priority) : Bool :=
  decide (route.path = routePath method pattern priority ∧ route.priority = priority)

end Route

def HttpRouter.runCall (router : HttpRouter η) : RouterCall η → HttpRouter η
  | .add route => router.add route.method route.pattern route.handler route.priority
  | .remove method pattern priority => (router.remove method pattern priority).1

def HttpRouter.runCalls (calls : List (RouterCall η)) : HttpRouter η := calls.foldl HttpRouter.runCall {}

def unregister (method pattern : Bytes) (priority : Priority) (routes : List (Route η)) : List (Route η) :=
  routes.filter fun route => !route.occupies method pattern priority

def RouterCall.register (routes : List (Route η)) : RouterCall η → List (Route η)
  | .add route => unregister route.method route.pattern route.priority routes ++ [route]
  | .remove method pattern priority => unregister method pattern priority routes

def registered (calls : List (RouterCall η)) : List (Route η) := calls.foldl RouterCall.register []

/-- The router holds these routes: its handlers are theirs, its tree lists each under its path and priority, and at
    the root the methods are apart and nothing is behind the ANY node. -/
structure Represents (router : HttpRouter η) (routes : List (Route η)) : Prop where
  handlers : router.handlers = routes.map Route.handler
  listed : ∀ path id, (path, id) ∈ childEntries router.root ↔
    ∃ route, routes[id.index]? = some route ∧ route.path = path ∧ route.priority = id.priority
  once : (childEntries router.root).Nodup
  distinct : routes.Pairwise fun a b => ¬ (a.path = b.path ∧ a.priority = b.priority)
  methods : (router.root.map label).Pairwise fun a b => a.1 ≠ b.1 ∧ a.1 ≠ anyMethodToken
  plain : ∀ a ∈ router.root.map label, a.2 = false
  proper : AllProper router.root

theorem represents_empty : Represents ({} : HttpRouter η) [] where
  handlers := rfl
  listed := by
    intro path id
    constructor
    · intro member
      cases member
    · rintro ⟨route, found, -⟩
      cases found
  once := List.Pairwise.nil
  distinct := List.Pairwise.nil
  methods := List.pairwise_singleton _ _
  plain := by
    intro a member
    rw [List.mem_singleton.mp member]
    rfl
  proper := ⟨⟨List.Pairwise.nil, List.Pairwise.nil, nofun, True.intro⟩, True.intro⟩

theorem eraseIdx_eq_filter {α : Type} {l : List α} {i : Nat} {x : α} {test : α → Bool} (found : l[i]? = some x)
    (holds : test x = true) (only : ∀ j y, l[j]? = some y → test y = true → j = i) :
    l.eraseIdx i = l.filter fun y => !test y := by
  induction l generalizing i with
  | nil => cases found
  | cons a l ih =>
    cases i with
    | zero =>
      obtain rfl : a = x := Option.some.inj found
      have rest : ∀ y ∈ l, (!test y) = true := by
        intro y member
        obtain ⟨j, there⟩ := List.mem_iff_getElem?.mp member
        rw [Bool.not_eq_true']
        apply Bool.eq_false_of_not_eq_true
        intro passes
        cases only (j + 1) y there passes
      rw [List.eraseIdx_zero, List.tail_cons, List.filter_cons_of_neg (by simp [holds]), List.filter_eq_self.mpr rest]
    | succ i =>
      have kept : (!test a) = true := by
        rw [Bool.not_eq_true']
        apply Bool.eq_false_of_not_eq_true
        intro passes
        cases only 0 a rfl passes
      rw [List.eraseIdx_cons_succ, List.filter_cons, if_pos kept,
        ih found fun j y there passes => Nat.succ.inj (only (j + 1) y there passes)]

namespace Represents

variable {router : HttpRouter η} {routes : List (Route η)}

theorem index_unique (represents : Represents router routes) {i j : Nat} {a b : Route η} (first : routes[i]? = some a)
    (second : routes[j]? = some b) (path : a.path = b.path) (priority : a.priority = b.priority) : i = j := by
  have pairs := List.pairwise_iff_getElem.mp represents.distinct
  obtain ⟨below₁, rfl⟩ := List.getElem?_eq_some_iff.mp first
  obtain ⟨below₂, rfl⟩ := List.getElem?_eq_some_iff.mp second
  rcases Nat.lt_trichotomy i j with less | same | more
  · exact absurd ⟨path, priority⟩ (pairs i j below₁ below₂ less)
  · exact same
  · exact absurd ⟨path.symm, priority.symm⟩ (pairs j i below₂ below₁ more)

theorem id_unique (represents : Represents router routes) {e : Entry} {handler : HandlerId} {route : Route η}
    (member : e ∈ childEntries router.root) (found : routes[handler.index]? = some route)
    (priority : route.priority = handler.priority) (index : e.2.index = handler.index) : e.2 = handler := by
  obtain ⟨own, there, -, same⟩ := (represents.listed e.1 e.2).mp member
  rw [index, found] at there
  obtain rfl := Option.some.inj there
  have bits : e.2.priority = handler.priority := same.symm.trans priority
  exact congrArg₂ HandlerId.mk bits index

theorem findMethod (represents : Represents router routes) (method : Bytes) {p : Node} :
    router.root.find? (·.name == method) = some p ↔ p ∈ router.root ∧ p.label = (method, false) := by
  apply find_label (represents.methods.imp fun apart same => apart.1 (congrArg Prod.fst same))
  intro q member
  have low := represents.plain _ (List.mem_map_of_mem member)
  rw [beq_iff_eq]
  exact ⟨fun name => Prod.ext name low, congrArg Prod.fst⟩

theorem findHandler_listed (represents : Represents router routes) (method pattern : Bytes) (priority : Priority) :
    (∀ id, router.findHandler method pattern priority = some id →
      (routePath method pattern priority, id) ∈ childEntries router.root ∧ id.priority = priority) ∧
    (router.findHandler method pattern priority = none → ∀ id, id.priority = priority →
      (routePath method pattern priority, id) ∉ childEntries router.root) := by
  have listed : ∀ id, (routePath method pattern priority, id) ∈ childEntries router.root ↔
      ∃ p, router.root.find? (·.name == method) = some p ∧
        ∃ n, findNode (priority == .high) (patternSegments pattern) p = some n ∧ id ∈ n.handlers := by
    intro id
    rw [routePath, mem_childEntries_cons]
    constructor
    · rintro ⟨p, member, same, inside⟩
      exact ⟨p, (represents.findMethod method).mpr ⟨member, same⟩,
        (findNode_entries _ _ p (allProper_iff.mp represents.proper p member) id).mp inside⟩
    · rintro ⟨p, found, reached⟩
      obtain ⟨member, same⟩ := (represents.findMethod method).mp found
      exact ⟨p, member, same, (findNode_entries _ _ p (allProper_iff.mp represents.proper p member) id).mpr reached⟩
  unfold HttpRouter.findHandler
  cases method_node : router.root.find? (·.name == method) with
  | none =>
    refine ⟨nofun, fun _ id _ member => ?_⟩
    obtain ⟨p, found, -⟩ := (listed id).mp member
    rw [method_node] at found
    cases found
  | some p =>
    cases last : findNode (priority == .high) (patternSegments pattern) p with
    | none =>
      simp only [last]
      refine ⟨nofun, fun _ id _ member => ?_⟩
      obtain ⟨q, found, n, reached, -⟩ := (listed id).mp member
      rw [method_node] at found
      obtain rfl := Option.some.inj found
      rw [last] at reached
      cases reached
    | some n =>
      simp only [last]
      constructor
      · intro id found
        refine ⟨(listed id).mpr ⟨p, method_node, n, last, List.mem_of_find?_eq_some found⟩, ?_⟩
        have test := List.find?_some found
        exact eq_of_beq test
      · intro found id own member
        obtain ⟨q, found', m, reached, inside⟩ := (listed id).mp member
        rw [method_node] at found'
        obtain rfl := Option.some.inj found'
        rw [last] at reached
        obtain rfl := Option.some.inj reached
        exact List.find?_eq_none.mp found id inside (beq_iff_eq.mpr own)

theorem findHandler_routes (represents : Represents router routes) (method pattern : Bytes) (priority : Priority) :
    (∀ id, router.findHandler method pattern priority = some id →
      ∃ route, routes[id.index]? = some route ∧ route.occupies method pattern priority = true ∧
        route.priority = id.priority) ∧
    (router.findHandler method pattern priority = none →
      ∀ route ∈ routes, route.occupies method pattern priority = false) := by
  obtain ⟨some_, none_⟩ := represents.findHandler_listed method pattern priority
  constructor
  · intro id found
    obtain ⟨member, own⟩ := some_ id found
    obtain ⟨route, there, path, same⟩ := (represents.listed _ id).mp member
    exact ⟨route, there, decide_eq_true ⟨path, same.trans own⟩, same⟩
  · intro found route member
    apply decide_eq_false
    rintro ⟨path, own⟩
    obtain ⟨i, there⟩ := List.mem_iff_getElem?.mp member
    exact none_ found ⟨priority, i⟩ rfl ((represents.listed _ _).mpr ⟨route, there, path, own⟩)

theorem cull_listed (represents : Represents router routes) {handler : HandlerId} {gone : Route η}
    (found : routes[handler.index]? = some gone) (own : gone.priority = handler.priority) (path : List (Bytes × Bool))
    (id : HandlerId) : (path, id) ∈ childEntries (cullChildren handler router.root) ↔
      ∃ route, (routes.eraseIdx handler.index)[id.index]? = some route ∧ route.path = path ∧
        route.priority = id.priority := by
  rw [cullChildren_entries, List.mem_filterMap]
  constructor
  · rintro ⟨e, member, shifted⟩
    obtain ⟨shifted_id, lowered, same⟩ := Option.map_eq_some_iff.mp shifted
    obtain ⟨route, there, own_path, priority⟩ := (represents.listed e.1 e.2).mp member
    obtain ⟨rfl, rfl⟩ := Prod.ext_iff.mp same
    refine ⟨route, ?_, own_path, ?_⟩
    · unfold shiftId at lowered
      split at lowered
      · rename_i above
        obtain rfl := Option.some.inj lowered
        rw [List.getElem?_eraseIdx_of_ge (by simp only; omega)]
        simp only
        rwa [Nat.sub_add_cancel (by omega)]
      · rename_i above
        split at lowered
        · cases lowered
        · rename_i other
          obtain rfl := Option.some.inj lowered
          have below : e.2.index ≠ handler.index := fun index => other (represents.id_unique member found own index)
          rwa [List.getElem?_eraseIdx_of_lt (show e.2.index < handler.index by omega)]
    · unfold shiftId at lowered
      split at lowered
      · obtain rfl := Option.some.inj lowered
        exact priority
      · split at lowered
        · cases lowered
        · obtain rfl := Option.some.inj lowered
          exact priority
  · rintro ⟨route, there, own_path, priority⟩
    by_cases below : id.index < handler.index
    · rw [List.getElem?_eraseIdx_of_lt below] at there
      refine ⟨(path, id), (represents.listed path id).mpr ⟨route, there, own_path, priority⟩, ?_⟩
      have other : id ≠ handler := by
        rintro rfl
        exact Nat.lt_irrefl _ below
      rw [shiftEntry, shiftId, if_neg (show ¬ handler.index < id.index by omega), if_neg other]
      rfl
    · rw [List.getElem?_eraseIdx_of_ge (by omega)] at there
      refine ⟨(path, { id with index := id.index + 1 }),
        (represents.listed path _).mpr ⟨route, there, own_path, priority⟩, ?_⟩
      rw [shiftEntry, shiftId, if_pos (by simp only; omega)]
      rfl

theorem cull_once (represents : Represents router routes) {handler : HandlerId} {gone : Route η}
    (found : routes[handler.index]? = some gone) (own : gone.priority = handler.priority) :
    (childEntries (cullChildren handler router.root)).Nodup := by
  rw [cullChildren_entries, List.Nodup, List.pairwise_filterMap]
  refine represents.once.imp_of_mem ?_
  intro a b first second differ c shifted₁ d shifted₂ same
  apply differ
  obtain ⟨id₁, lowered₁, rfl⟩ := Option.map_eq_some_iff.mp shifted₁
  obtain ⟨id₂, lowered₂, rfl⟩ := Option.map_eq_some_iff.mp shifted₂
  obtain ⟨paths, rfl⟩ := Prod.ext_iff.mp same
  refine Prod.ext paths ?_
  have origin : ∀ {e : Entry} {id : HandlerId}, e ∈ childEntries router.root → shiftId handler e.2 = some id →
      e.2 = ⟨id.priority, if handler.index ≤ id.index then id.index + 1 else id.index⟩ := by
    intro e id member lowered
    unfold shiftId at lowered
    split at lowered
    · rename_i above
      obtain rfl := Option.some.inj lowered
      rw [if_pos (by simp only; omega)]
      simp only
      rw [Nat.sub_add_cancel (by omega)]
    · rename_i above
      split at lowered
      · cases lowered
      · rename_i other
        obtain rfl := Option.some.inj lowered
        have below : e.2.index ≠ handler.index := fun index => other (represents.id_unique member found own index)
        rw [if_neg (by omega)]
  exact (origin first lowered₁).trans (origin second lowered₂).symm

theorem remove (represents : Represents router routes) (method pattern : Bytes) (priority : Priority) :
    Represents (router.remove method pattern priority).1 (unregister method pattern priority routes) := by
  obtain ⟨some_, none_⟩ := represents.findHandler_routes method pattern priority
  unfold HttpRouter.remove
  cases found : router.findHandler method pattern priority with
  | none =>
    have kept : unregister method pattern priority routes = routes := by
      apply List.filter_eq_self.mpr
      intro route member
      rw [none_ found route member]
      rfl
    rw [kept]
    exact represents
  | some handler =>
    obtain ⟨gone, there, occupied, own⟩ := some_ handler found
    have only : ∀ j route, routes[j]? = some route → route.occupies method pattern priority = true → j = handler.index := by
      intro j route at_j occupies
      obtain ⟨path₁, priority₁⟩ := of_decide_eq_true occupied
      obtain ⟨path₂, priority₂⟩ := of_decide_eq_true occupies
      exact represents.index_unique at_j there (path₂.trans path₁.symm) (priority₂.trans priority₁.symm)
    have erased := eraseIdx_eq_filter there occupied only
    have labels := cullChildren_labels handler router.root
    rw [unregister, ← erased]
    exact
      { handlers := by
          change router.handlers.eraseIdx handler.index = _
          rw [represents.handlers, List.eraseIdx_map]
        listed := represents.cull_listed there own
        once := represents.cull_once there own
        distinct := represents.distinct.sublist (List.eraseIdx_sublist routes handler.index)
        methods := represents.methods.sublist labels
        plain := fun a member => represents.plain a (labels.subset member)
        proper := cullChildren_proper handler router.root represents.proper }

end Represents

theorem methodBefore_any {b a : Node} (any : a.name = anyMethodToken) (other : b.name ≠ anyMethodToken) :
    methodBefore b a = true := by
  have differ : anyMethodToken ≠ ascii "GET" := by decide
  unfold methodBefore
  rw [any]
  by_cases get : b.name = ascii "GET"
  · rw [if_pos ⟨get, differ⟩]
  · rw [if_neg (fun both => get both.1), if_neg (fun both => differ both.1), if_neg (fun both => other both.1),
      if_pos ⟨rfl, other⟩]

theorem any_methodBefore {b a : Node} (any : b.name = anyMethodToken) (other : a.name ≠ anyMethodToken) :
    methodBefore b a = false := by
  have differ : anyMethodToken ≠ ascii "GET" := by decide
  unfold methodBefore
  rw [any, if_neg (fun both => differ both.1)]
  by_cases get : a.name = ascii "GET"
  · rw [if_pos ⟨get, differ⟩]
  · rw [if_neg (fun both => get both.1), if_pos ⟨rfl, other⟩]

theorem orderedInsert_any (a : Node) (l : List Node) (distinct : ∀ b ∈ l, b.name ≠ a.name)
    (last : l.Pairwise fun p _ => p.name ≠ anyMethodToken) :
    (l.orderedInsert (fun a b => !methodBefore b a) a).Pairwise fun p _ => p.name ≠ anyMethodToken := by
  induction l with
  | nil => exact List.pairwise_singleton _ _
  | cons b rest ih =>
    rw [List.pairwise_cons] at last
    have other := distinct b List.mem_cons_self
    rw [List.orderedInsert]
    by_cases before : methodBefore b a = true
    · rw [if_neg (by simp [before]), List.pairwise_cons]
      refine ⟨fun _ _ any => ?_, ih (fun c member => distinct c (List.mem_cons_of_mem _ member)) last.2⟩
      rw [any_methodBefore any (fun same => other (any.trans same.symm))] at before
      cases before
    · rw [if_pos (by simp [before]), List.pairwise_cons, List.pairwise_cons]
      refine ⟨fun _ _ any => ?_, last⟩
      exact before (methodBefore_any any fun same => other (same.trans any.symm))

theorem insertionSort_any (l : List Node) (distinct : l.Pairwise fun a b => a.name ≠ b.name) :
    (l.insertionSort fun a b => !methodBefore b a).Pairwise fun p _ => p.name ≠ anyMethodToken := by
  induction l with
  | nil => exact List.Pairwise.nil
  | cons a l ih =>
    rw [List.pairwise_cons] at distinct
    rw [List.insertionSort_cons]
    apply orderedInsert_any a _ _ (ih distinct.2)
    intro b member
    rw [List.mem_insertionSort] at member
    exact (distinct.1 b member).symm

namespace Represents

variable {router : HttpRouter η} {routes : List (Route η)}

theorem names_distinct (represents : Represents router routes) (method : Bytes) (id : HandlerId)
    {path : List (Bytes × Bool)} {f : Node → Node} (adds : Adds path id f) :
    (getNode true router.root method false f).Pairwise fun a b => a.name ≠ b.name := by
  have old : (router.root.map label).Pairwise fun a b => a.1 ≠ b.1 := represents.methods.imp And.left
  unfold getNode
  cases found : updateChild method false f router.root with
  | some updated =>
    have labels := (updateChild_adds adds method false router.root updated found).2.1
    rw [← labels, List.pairwise_map] at old
    exact old
  | none =>
    have missing := updateChild_none found
    have apart := List.pairwise_map.mp old
    have perm := insertSorted_perm true method false (f (.mk method [] [] false)) router.root
    simp only
    rw [perm.pairwise_iff fun differ => Ne.symm differ, List.pairwise_cons]
    refine ⟨fun p member same => missing ?_, apart⟩
    have own : (f (.mk method [] [] false)).name = method := congrArg Prod.fst (adds.label _)
    have low := represents.plain _ (List.mem_map_of_mem member)
    exact List.mem_map.mpr ⟨p, member, Prod.ext (same.symm.trans own) low⟩

theorem add (represents : Represents router routes) (route : Route η) :
    Represents (router.add route.method route.pattern route.handler route.priority)
      (unregister route.method route.pattern route.priority routes ++ [route]) := by
  have removed := represents.remove route.method route.pattern route.priority
  have absent : ∀ other ∈ unregister route.method route.pattern route.priority routes,
      other.occupies route.method route.pattern route.priority = false := by
    intro other member
    simpa using (List.mem_filter.mp member).2
  unfold HttpRouter.add
  generalize (router.remove route.method route.pattern route.priority).1 = router at removed ⊢
  generalize unregister route.method route.pattern route.priority routes = routes at removed absent ⊢
  have length : router.handlers.length = routes.length := by rw [removed.handlers, List.length_map]
  have adds := addSegments_adds (route.priority == .high) ⟨route.priority, router.handlers.length⟩
    (patternSegments route.pattern)
  have grown := getNode_entries adds true router.root route.method false
  have distinct := removed.names_distinct route.method _ adds
  have labels := getNode_labels adds true router.root route.method false
  have proper := getNode_proper adds true router.root route.method false removed.proper
  simp only
  generalize getNode true router.root route.method false _ = root at grown distinct labels proper ⊢
  have sorted := List.perm_insertionSort (fun a b => !methodBefore b a) root
  have last := insertionSort_any root distinct
  have entries := (childEntries_perm sorted).trans grown
  have listed : ∀ path id, (path, id) ∈ ((route.path, ⟨route.priority, router.handlers.length⟩) :: childEntries router.root
        : List Entry) ↔
      ∃ other, (routes ++ [route])[id.index]? = some other ∧ other.path = path ∧ other.priority = id.priority := by
    intro path id
    rw [List.mem_cons, removed.listed, length]
    constructor
    · rintro (same | ⟨other, there, kept⟩)
      · obtain ⟨rfl, rfl⟩ := Prod.ext_iff.mp same
        exact ⟨route, List.getElem?_concat_length, rfl, rfl⟩
      · obtain ⟨below, -⟩ := List.getElem?_eq_some_iff.mp there
        exact ⟨other, by rwa [List.getElem?_append_left below], kept⟩
    · rintro ⟨other, there, own, priority⟩
      by_cases below : id.index < routes.length
      · rw [List.getElem?_append_left below] at there
        exact .inr ⟨other, there, own, priority⟩
      · obtain ⟨within, -⟩ := List.getElem?_eq_some_iff.mp there
        have index : id.index = routes.length := by
          rw [List.length_append, List.length_singleton] at within
          omega
        rw [index, List.getElem?_concat_length] at there
        obtain rfl := Option.some.inj there
        exact .inl (Prod.ext own.symm (congrArg₂ HandlerId.mk priority.symm index))
  exact
    { handlers := by
        rw [removed.handlers, List.map_append]
        rfl
      listed := fun path id => by
        rw [entries.mem_iff]
        exact listed path id
      once := by
        rw [entries.nodup_iff, List.nodup_cons]
        refine ⟨fun member => ?_, removed.once⟩
        obtain ⟨other, there, -⟩ := (removed.listed _ _).mp member
        obtain ⟨below, -⟩ := List.getElem?_eq_some_iff.mp there
        simp only at below
        omega
      distinct := by
        rw [List.pairwise_append]
        refine ⟨removed.distinct, List.pairwise_singleton _ _, ?_⟩
        rintro other member new single ⟨path, priority⟩
        obtain rfl := List.mem_singleton.mp single
        exact absurd ⟨path, priority⟩ (of_decide_eq_false (absent other member))
      methods := by
        rw [List.pairwise_map]
        have apart : (root.insertionSort fun a b => !methodBefore b a).Pairwise fun a b => a.name ≠ b.name :=
          (sorted.pairwise_iff fun differ => Ne.symm differ).mpr distinct
        exact apart.and last
      plain := by
        intro a member
        rw [(sorted.map label).mem_iff, labels] at member
        rcases member with rfl | member
        · rfl
        · exact removed.plain a member
      proper := by
        rw [allProper_iff] at proper ⊢
        exact fun p member => proper p (sorted.mem_iff.mp member) }

theorem runCall (represents : Represents router routes) (call : RouterCall η) :
    Represents (router.runCall call) (call.register routes) := by
  cases call with
  | add route => exact represents.add route
  | remove method pattern priority => exact represents.remove method pattern priority

theorem foldl (represents : Represents router routes) (calls : List (RouterCall η)) :
    Represents (calls.foldl HttpRouter.runCall router) (calls.foldl RouterCall.register routes) := by
  induction calls generalizing router routes with
  | nil => exact represents
  | cons call calls ih => exact ih (represents.runCall call)

end Represents

theorem runCalls_represents (calls : List (RouterCall η)) : Represents (HttpRouter.runCalls calls) (registered calls) :=
  represents_empty.foldl calls

end Uws.Http
