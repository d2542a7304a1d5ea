import Uws.Http.RouteIsolation

namespace Uws.Http

open Node HttpRouter

variable {η : Type}

/-- Whether the segments of a pattern match those of a URL: a parameter any that is not empty, and a wildcard all that
    are left. -/
def matchesSegments : List Bytes → List Bytes → Bool
  | [], [] => true
  | p :: pattern, segment :: segments =>
    if p.head? = some asterisk then true
    else if p.head? = some colon then !segment.isEmpty && matchesSegments pattern segments
    else decide (p = segment) && matchesSegments pattern segments
  | _, _ => false

def parameterSegments : List Bytes → List Bytes → List Bytes
  | p :: pattern, segment :: segments =>
    if p.head? = some asterisk then []
    else if p.head? = some colon then segment :: parameterSegments pattern segments
    else parameterSegments pattern segments
  | _, _ => []

/-- Of two patterns, the one that is static, or a parameter before a wildcard, where they first differ. -/
def soonerSegments : List Bytes → List Bytes → Bool
  | a :: as, b :: bs =>
    if strippedSegment a = strippedSegment b then soonerSegments as bs else decide (lexicalOrder b < lexicalOrder a)
  | _, _ => false

namespace Route

def segments (route : Route η) : List Bytes := urlSegments route.pattern

/-- A pattern that stands on a slash, is within the limit of segments and has a wildcard only at its end. -/
structure Legal (route : Route η) : Prop where
  slash : route.pattern.head? = some slash
  within : route.segments.length ≤ maxUrlSegments
  wildcard : ∀ segment ∈ route.segments.dropLast, segment.head? ≠ some asterisk

def matches_ (route : Route η) (method url : Bytes) : Bool :=
  decide (route.method = method) && matchesSegments route.segments (urlSegments url)

/-- The order of two routes of a method, of which the first was registered before the second where `earlier`. -/
def Sooner (a b : Route η) (earlier : Prop) : Prop :=
  (a.priority = .high ∧ b.priority ≠ .high) ∨
    ((a.priority = .high ↔ b.priority = .high) ∧
      (soonerSegments a.segments b.segments = true ∨
        (a.segments.map strippedSegment = b.segments.map strippedSegment ∧
          (a.priority.bits < b.priority.bits ∨ (a.priority = b.priority ∧ earlier)))))

end Route

/-- The indexes of the matching routes of a method, each once and in the order of the routes. -/
structure InOrder (routes : List (Route η)) (method url : Bytes) (order : List Nat) : Prop where
  exactly : ∀ i, i ∈ order ↔ ∃ route, routes[i]? = some route ∧ route.matches_ method url = true
  once : order.Nodup
  sorted : order.Pairwise fun i j => ∀ a b, routes[i]? = some a → routes[j]? = some b → ¬ b.Sooner a (j < i)

def handlersOf (routes : List (Route η)) (url : Bytes) (order : List Nat) : List (η × List Bytes) :=
  order.filterMap fun i =>
    routes[i]?.map fun route => (route.handler, parameterSegments route.segments (urlSegments url))

/-- A request tries these routes of its method and then those of ANY, up to the first that does not yield. -/
structure Tries (calls : List (RouterCall η)) (answers : Answers η) (method url : Bytes) (own fallback : List Nat) :
    Prop where
  ofMethod : InOrder (registered calls) method url own
  ofAny : InOrder (registered calls) anyMethodToken url fallback
  ran : (((HttpRouter.runCalls calls).route answers method url).1.ran,
      ((HttpRouter.runCalls calls).route answers method url).2) =
    runUntilDone answers [] (handlersOf (registered calls) url (own ++ fallback))

section Entries

def pathNames (path : List (Bytes × Bool)) : List Bytes := path.map Prod.fst

def Tame (path : List (Bytes × Bool)) : Prop := ∀ name ∈ (pathNames path).dropLast, name.head? ≠ some asterisk

def entryMatch (segments params : List Bytes) (e : Entry) : Option Match :=
  if matchesSegments (pathNames e.1) segments then some (e.2, params ++ parameterSegments (pathNames e.1) segments)
  else none

theorem Tame.below {label : Bytes × Bool} {path : List (Bytes × Bool)} (tame : Tame (label :: path)) :
    Tame path ∧ (label.1.head? = some asterisk → path = []) := by
  cases path with
  | nil => exact ⟨nofun, fun _ => rfl⟩
  | cons next path =>
    have split : (pathNames (label :: next :: path)).dropLast = label.1 :: (pathNames (next :: path)).dropLast := rfl
    rw [Tame, split] at tame
    exact ⟨fun name member => tame name (List.mem_cons_of_mem _ member),
      fun wildcard => absurd wildcard (tame label.1 List.mem_cons_self)⟩

theorem filterMap_congr_mem {α β : Type} {f g : α → Option β} {l : List α} (same : ∀ x ∈ l, f x = g x) :
    l.filterMap f = l.filterMap g := by
  induction l with
  | nil => rfl
  | cons a l ih =>
    rw [List.filterMap_cons, List.filterMap_cons, same a List.mem_cons_self,
      ih fun x member => same x (List.mem_cons_of_mem _ member)]

theorem filterMap_none {α β : Type} {f : α → Option β} {l : List α} (none_ : ∀ x ∈ l, f x = none) : l.filterMap f = [] := by
  rw [List.filterMap_eq_nil_iff]
  exact none_

mutual

theorem nodeMatches_filter (p : Node) (segments params : List Bytes) (tame : ∀ e ∈ p.entries, Tame e.1) :
    nodeMatches p segments params = p.entries.filterMap (entryMatch segments params) := by
  match p, segments with
  | .mk name children ids high, [] =>
    have deeper : (childEntries children).filterMap (entryMatch [] params) = [] := by
      apply filterMap_none
      rintro ⟨path, id⟩ member
      cases path with
      | nil => exact absurd member childEntries_nil_path
      | cons label path => rfl
    rw [nodeMatches, entries, List.filterMap_append, deeper, List.append_nil, List.filterMap_map]
    have own : (entryMatch [] params ∘ fun id : HandlerId => (([], id) : Entry)) = fun id => some (id, params) := by
      funext id
      simp only [Function.comp, entryMatch, pathNames, List.map_nil, matchesSegments, if_true, parameterSegments,
        List.append_nil]
    rw [own, List.filterMap_eq_map']
  | .mk name children ids high, segment :: segments =>
    have own : (ids.map fun id => (([], id) : Entry)).filterMap (entryMatch (segment :: segments) params) = [] := by
      apply filterMap_none
      intro e member
      obtain ⟨id, -, rfl⟩ := List.mem_map.mp member
      rfl
    rw [nodeMatches, entries, List.filterMap_append, own, List.nil_append]
    exact childMatches_filter children segment segments params fun e member => tame e (List.mem_append_right _ member)

theorem childMatches_filter (children : List Node) (segment : Bytes) (segments params : List Bytes)
    (tame : ∀ e ∈ childEntries children, Tame e.1) :
    childMatches children segment segments params =
      (childEntries children).filterMap (entryMatch (segment :: segments) params) := by
  match children with
  | [] => rfl
  | p :: rest =>
    have others := childMatches_filter rest segment segments params fun e member => tame e (List.mem_append_right _ member)
    have below : ∀ e ∈ p.entries, Tame (p.label :: e.1) := fun e member =>
      tame (e.below p.label) (List.mem_append_left _ (List.mem_map_of_mem member))
    rw [childMatches, childEntries, List.filterMap_append, others, List.filterMap_map]
    congr 1
    have head : ∀ path : List (Bytes × Bool), pathNames (p.label :: path) = p.name :: pathNames path := fun _ => rfl
    by_cases wildcard : p.name.head? = some asterisk
    · rw [if_pos wildcard]
      have alone : p.entries = p.handlers.map fun id => ([], id) := by
        match p with
        | .mk name children ids high =>
          have none : childEntries children = [] := by
            apply List.eq_nil_iff_forall_not_mem.mpr
            rintro ⟨path, id⟩ member
            have empty := (below (path, id) (List.mem_append_right _ member)).below.2 wildcard
            simp only at empty
            subst empty
            exact childEntries_nil_path member
          rw [entries, none, List.append_nil]
          rfl
      rw [alone, List.filterMap_map, ← List.filterMap_eq_map']
      apply filterMap_congr_mem
      intro id _
      simp only [Function.comp, Entry.below, entryMatch, head, matchesSegments, if_pos wildcard, if_true, parameterSegments,
        List.append_nil]
    · rw [if_neg wildcard]
      have tame_below : ∀ e ∈ p.entries, Tame e.1 := fun e member => (below e member).below.1
      by_cases parameter : p.name.head? = some colon
      · by_cases empty : segment = []
        · have different : p.name ≠ segment := by
            rintro same
            rw [same, empty] at parameter
            cases parameter
          rw [if_neg (fun both => both.2 empty), if_neg different]
          symm
          apply filterMap_none
          intro e _
          simp only [Function.comp, Entry.below, entryMatch, head, matchesSegments, if_neg wildcard, if_pos parameter, empty,
            List.isEmpty_nil, Bool.not_true, Bool.false_and, Bool.false_eq_true, if_false]
        · rw [if_pos ⟨parameter, empty⟩, nodeMatches_filter p segments (params ++ [segment]) tame_below]
          apply filterMap_congr_mem
          intro e _
          have full : segment.isEmpty = false := by simpa using empty
          simp only [Function.comp, Entry.below, entryMatch, head, matchesSegments, if_neg wildcard, if_pos parameter, full,
            Bool.not_false, Bool.true_and, parameterSegments, List.append_assoc, List.singleton_append]
      · rw [if_neg (fun both => parameter both.1)]
        by_cases static : p.name = segment
        · rw [if_pos static, nodeMatches_filter p segments params tame_below]
          apply filterMap_congr_mem
          intro e _
          simp only [Function.comp, Entry.below, entryMatch, head, matchesSegments, if_neg wildcard, if_neg parameter,
            decide_eq_true static, Bool.true_and, parameterSegments]
        · rw [if_neg static]
          symm
          apply filterMap_none
          intro e _
          simp only [Function.comp, Entry.below, entryMatch, head, matchesSegments, if_neg wildcard, if_neg parameter,
            decide_eq_false static, Bool.false_and, Bool.false_eq_true, if_false]

end

/-- The order of labels that lead to different nodes. -/
def soonerLabels : List (Bytes × Bool) → List (Bytes × Bool) → Prop
  | a :: as, b :: bs =>
    (a = b ∧ soonerLabels as bs) ∨
      (a ≠ b ∧ ((a.2 = true ∧ b.2 = false) ∨ (a.2 = b.2 ∧ lexicalOrder b.1 < lexicalOrder a.1)))
  | _, _ => False

def Entry.Sooner (e d : Entry) : Prop := soonerLabels e.1 d.1 ∨ (e.1 = d.1 ∧ e.2.before d.2 = true)

theorem sooner_below {label : Bytes × Bool} {e d : Entry} (sooner : Entry.Sooner (e.below label) (d.below label)) :
    Entry.Sooner e d := by
  rcases sooner with (⟨-, later⟩ | ⟨differ, -⟩) | ⟨same, before⟩
  · exact .inl later
  · exact absurd rfl differ
  · exact .inr ⟨(List.cons.inj same).2, before⟩

mutual

theorem entries_sorted (p : Node) (proper : p.Proper) : p.entries.Pairwise fun e d => ¬ Entry.Sooner d e := by
  match p with
  | .mk name children ids high =>
    obtain ⟨sorted, siblings, -, below⟩ := proper
    rw [entries, List.pairwise_append]
    refine ⟨?_, childEntries_sorted children siblings below, ?_⟩
    · rw [List.pairwise_map]
      refine sorted.imp fun ordered => ?_
      rintro (labels | ⟨-, before⟩)
      · exact labels
      · rw [ordered] at before
        cases before
    · rintro e own ⟨path, id⟩ deeper
      obtain ⟨id', -, rfl⟩ := List.mem_map.mp own
      cases path with
      | nil => exact absurd deeper childEntries_nil_path
      | cons label path =>
        rintro (labels | ⟨same, -⟩)
        · exact labels
        · cases same

theorem childEntries_sorted (children : List Node) (siblings : (children.map label).Pairwise Follows)
    (proper : AllProper children) : (childEntries children).Pairwise fun e d => ¬ Entry.Sooner d e := by
  match children with
  | [] => exact List.Pairwise.nil
  | p :: rest =>
    rw [List.map_cons, List.pairwise_cons] at siblings
    rw [childEntries, List.pairwise_append]
    refine ⟨?_, childEntries_sorted rest siblings.2 proper.2, ?_⟩
    · rw [List.pairwise_map]
      exact (entries_sorted p proper.1).imp fun ordered sooner => ordered (sooner_below sooner)
    · rintro e own d other
      obtain ⟨e, -, rfl⟩ := List.mem_map.mp own
      obtain ⟨q, member, d, -, rfl⟩ := mem_childEntries.mp other
      obtain ⟨differ, high, order⟩ := siblings.1 q.label (List.mem_map_of_mem member)
      rintro ((⟨same, -⟩ | ⟨-, ⟨top, low⟩ | ⟨level, less⟩⟩) | ⟨same, -⟩)
      · exact differ same.symm
      · rw [high top] at low
        cases low
      · have most := order level.symm
        omega
      · exact differ (List.cons.inj same).1.symm

end

end Entries

theorem lexicalOrder_stripped (segment : Bytes) : lexicalOrder (strippedSegment segment) = lexicalOrder segment := by
  unfold strippedSegment
  by_cases parameter : segment.head? = some colon
  · rw [if_pos parameter]
    cases segment with
    | nil => cases parameter
    | cons c rest =>
      obtain rfl := Option.some.inj parameter
      rfl
  · rw [if_neg parameter]

theorem head_stripped (segment : Bytes) : (strippedSegment segment).head? = segment.head? := by
  unfold strippedSegment
  by_cases parameter : segment.head? = some colon
  · rw [if_pos parameter, parameter]
    rfl
  · rw [if_neg parameter]

theorem matchesSegments_stripped (pattern segments : List Bytes) :
    matchesSegments (pattern.map strippedSegment) segments = matchesSegments pattern segments := by
  induction pattern generalizing segments with
  | nil => rfl
  | cons p pattern ih =>
    cases segments with
    | nil => rfl
    | cons segment segments =>
      rw [List.map_cons, matchesSegments, matchesSegments, head_stripped, ih]
      by_cases parameter : p.head? = some colon
      · rw [if_pos parameter, if_pos parameter]
      · rw [if_neg parameter, if_neg parameter, strippedSegment, if_neg parameter]

theorem parameterSegments_stripped (pattern segments : List Bytes) :
    parameterSegments (pattern.map strippedSegment) segments = parameterSegments pattern segments := by
  induction pattern generalizing segments with
  | nil => rfl
  | cons p pattern ih =>
    cases segments with
    | nil => rfl
    | cons segment segments => rw [List.map_cons, parameterSegments, parameterSegments, head_stripped, ih]

theorem pathNames_labels (high : Bool) (segments : List Bytes) :
    pathNames (segmentLabels high segments) = segments.map strippedSegment := by
  rw [pathNames, segmentLabels, List.map_map]
  rfl

theorem soonerLabels_same (high : Bool) (a b : List Bytes) :
    soonerLabels (segmentLabels high a) (segmentLabels high b) ↔ soonerSegments a b = true := by
  induction a generalizing b with
  | nil => simp [segmentLabels, soonerLabels, soonerSegments]
  | cons p a ih =>
    cases b with
    | nil => simp [segmentLabels, soonerLabels, soonerSegments]
    | cons q b =>
      rw [segmentLabels, segmentLabels, List.map_cons, List.map_cons, soonerLabels, soonerSegments]
      by_cases same : strippedSegment p = strippedSegment q
      · rw [if_pos same, ← ih, same]
        constructor
        · rintro (⟨-, later⟩ | ⟨differ, -⟩)
          · exact later
          · exact absurd rfl differ
        · exact fun later => .inl ⟨rfl, later⟩
      · rw [if_neg same, decide_eq_true_eq, lexicalOrder_stripped, lexicalOrder_stripped]
        constructor
        · rintro (⟨equal, -⟩ | ⟨-, ⟨top, low⟩ | ⟨-, less⟩⟩)
          · exact absurd (congrArg Prod.fst equal) same
          · exact absurd (top.symm.trans low) (by decide)
          · exact less
        · exact fun less => .inr ⟨fun equal => same (congrArg Prod.fst equal), .inr ⟨rfl, less⟩⟩

theorem segmentLabels_inj {high : Bool} {a b : List Bytes} (same : a.map strippedSegment = b.map strippedSegment) :
    segmentLabels high a = segmentLabels high b := by
  have labels : ∀ l : List Bytes, segmentLabels high l = (l.map strippedSegment).map fun name => (name, high) := by
    intro l
    rw [List.map_map]
    rfl
  rw [labels, labels, same]

theorem Route.Legal.path {route : Route η} (legal : route.Legal) :
    route.path = (route.method, false) :: segmentLabels (route.priority == .high) route.segments := by
  rw [Route.path, routePath, patternSegments_eq]
  change _ :: segmentLabels _ (route.segments.take maxUrlSegments) = _
  rw [List.take_of_length_le legal.within]

theorem Route.Legal.segments_ne {route : Route η} (legal : route.Legal) : route.segments ≠ [] := by
  have slash := legal.slash
  unfold Route.segments
  cases pattern : route.pattern with
  | nil =>
    rw [pattern] at slash
    cases slash
  | cons c rest =>
    rw [urlSegments, splitSlashes_eq]
    exact List.cons_ne_nil _ _

theorem Route.Legal.tame {route : Route η} (legal : route.Legal) (high : Bool) :
    Tame (segmentLabels high route.segments) := by
  intro name member
  rw [pathNames_labels, ← List.map_dropLast, List.mem_map] at member
  obtain ⟨segment, own, rfl⟩ := member
  rw [head_stripped]
  exact legal.wildcard segment own

theorem Route.Sooner.entries {a b : Route η} {i j : Nat} (sooner : b.Sooner a (j < i)) (legal_a : a.Legal)
    (legal_b : b.Legal) :
    Entry.Sooner (segmentLabels (b.priority == .high) b.segments, ⟨b.priority, j⟩)
      (segmentLabels (a.priority == .high) a.segments, ⟨a.priority, i⟩) := by
  rcases sooner with ⟨high, low⟩ | ⟨level, order⟩
  · left
    have flag_b : (b.priority == .high) = true := beq_iff_eq.mpr high
    have flag_a : (a.priority == .high) = false := beq_eq_false_iff_ne.mpr low
    rw [flag_a, flag_b]
    obtain ⟨p, as, split_a⟩ := List.exists_cons_of_ne_nil legal_a.segments_ne
    obtain ⟨q, bs, split_b⟩ := List.exists_cons_of_ne_nil legal_b.segments_ne
    rw [split_a, split_b]
    right
    refine ⟨fun same => ?_, .inl ⟨rfl, rfl⟩⟩
    cases congrArg Prod.snd same
  · have flags : (b.priority == .high) = (a.priority == .high) := by
      rw [Bool.eq_iff_iff, beq_iff_eq, beq_iff_eq]
      exact level
    rw [flags]
    rcases order with differ | ⟨same, rank⟩
    · exact .inl ((soonerLabels_same _ _ _).mpr differ)
    · right
      refine ⟨segmentLabels_inj same, ?_⟩
      unfold HandlerId.before
      simp only [Bool.or_eq_true, decide_eq_true_eq, Bool.and_eq_true, beq_iff_eq]
      exact rank

theorem entries_sublist {p : Node} {children : List Node} (member : p ∈ children) :
    (p.entries.map (Entry.below p.label)).Sublist (childEntries children) := by
  induction children with
  | nil => cases member
  | cons q rest ih =>
    rw [childEntries]
    rcases List.mem_cons.mp member with rfl | later
    · exact List.sublist_append_left _ _
    · exact (ih later).trans (List.sublist_append_right _ _)

namespace Represents

variable {router : HttpRouter η} {routes : List (Route η)}

theorem method_entries (represents : Represents router routes) (legal : ∀ route ∈ routes, route.Legal) {p : Node}
    (member : p ∈ router.root) (e : Entry) :
    e ∈ p.entries ↔ ∃ route, routes[e.2.index]? = some route ∧ route.method = p.name ∧
      e = (segmentLabels (route.priority == .high) route.segments, ⟨route.priority, e.2.index⟩) := by
  have low := represents.plain _ (List.mem_map_of_mem member)
  constructor
  · intro inside
    obtain ⟨route, there, path, priority⟩ :=
      (represents.listed (p.label :: e.1) e.2).mp (mem_childEntries_cons.mpr ⟨p, member, rfl, inside⟩)
    rw [(legal route (List.mem_of_getElem? there)).path] at path
    obtain ⟨head, labels⟩ := List.cons.inj path
    exact ⟨route, there, congrArg Prod.fst head, Prod.ext labels.symm (congrArg₂ HandlerId.mk priority.symm rfl)⟩
  · rintro ⟨route, there, method, own⟩
    have path := (legal route (List.mem_of_getElem? there)).path
    have priority : e.2.priority = route.priority := congrArg (fun e : Entry => e.2.priority) own
    obtain ⟨q, other, same, inside⟩ := mem_childEntries_cons.mp
      (path ▸ (represents.listed route.path e.2).mpr ⟨route, there, rfl, priority.symm⟩)
    have found : router.root.find? (·.name == route.method) = some q := (represents.findMethod _).mpr ⟨other, same⟩
    have here : router.root.find? (·.name == route.method) = some p :=
      (represents.findMethod _).mpr ⟨member, Prod.ext method.symm low⟩
    obtain rfl := Option.some.inj (found.symm.trans here)
    have labels : e.1 = segmentLabels (route.priority == .high) route.segments := congrArg Prod.fst own
    rw [← labels] at inside
    exact inside

theorem nodeTried_inOrder (represents : Represents router routes) (legal : ∀ route ∈ routes, route.Legal) {p : Node}
    (member : p ∈ router.root) {url : Bytes} (short : (urlSegments url).length ≤ maxUrlSegments) :
    ∃ order, InOrder routes p.name url order ∧ router.nodeTried url (some p) = handlersOf routes url order := by
  have listed := represents.method_entries legal member
  let index : Entry → Option Nat := fun e =>
    if matchesSegments (pathNames e.1) (urlSegments url) then some e.2.index else none
  have chosen : ∀ {e : Entry} {i : Nat}, index e = some i →
      matchesSegments (pathNames e.1) (urlSegments url) = true ∧ e.2.index = i := by
    intro e i own
    by_cases matched : matchesSegments (pathNames e.1) (urlSegments url) = true
    · exact ⟨matched, Option.some.inj ((if_pos matched).symm.trans own)⟩
    · cases (if_neg matched).symm.trans own
  refine ⟨p.entries.filterMap index, ⟨?_, ?_, ?_⟩, ?_⟩
  · intro i
    rw [List.mem_filterMap]
    constructor
    · rintro ⟨e, inside, own⟩
      obtain ⟨matched, rfl⟩ := chosen own
      obtain ⟨route, there, method, same⟩ := (listed e).mp inside
      have labels : e.1 = segmentLabels (route.priority == .high) route.segments := congrArg Prod.fst same
      rw [labels, pathNames_labels, matchesSegments_stripped] at matched
      refine ⟨route, there, ?_⟩
      rw [Route.matches_, decide_eq_true method, Bool.true_and, matched]
    · rintro ⟨route, there, matched⟩
      rw [Route.matches_, Bool.and_eq_true, decide_eq_true_eq] at matched
      refine ⟨(segmentLabels (route.priority == .high) route.segments, ⟨route.priority, i⟩),
        (listed _).mpr ⟨route, there, matched.1, rfl⟩, ?_⟩
      have names : matchesSegments (pathNames (segmentLabels (route.priority == .high) route.segments))
          (urlSegments url) = true := by
        rw [pathNames_labels, matchesSegments_stripped]
        exact matched.2
      exact if_pos names
  · have once : p.entries.Nodup := List.Nodup.of_map _ (represents.once.sublist (entries_sublist member))
    rw [List.Nodup, List.pairwise_filterMap]
    refine once.imp_of_mem ?_
    intro e d first second differ i own j other same
    obtain ⟨-, rfl⟩ := chosen own
    obtain ⟨-, rfl⟩ := chosen other
    obtain ⟨a, there_a, -, same_e⟩ := (listed e).mp first
    obtain ⟨b, there_b, -, same_d⟩ := (listed d).mp second
    rw [same, there_b] at there_a
    obtain rfl := Option.some.inj there_a
    rw [same] at same_e
    exact differ (same_e.trans same_d.symm)
  · rw [List.pairwise_filterMap]
    have sorted := entries_sorted p (allProper_iff.mp represents.proper p member)
    refine sorted.imp_of_mem ?_
    intro e d first second ordered i own j other a b there_a there_b sooner
    obtain ⟨-, rfl⟩ := chosen own
    obtain ⟨-, rfl⟩ := chosen other
    obtain ⟨a', there_a', -, same_e⟩ := (listed e).mp first
    obtain ⟨b', there_b', -, same_d⟩ := (listed d).mp second
    obtain rfl := Option.some.inj (there_a'.symm.trans there_a)
    obtain rfl := Option.some.inj (there_b'.symm.trans there_b)
    apply ordered
    rw [same_e, same_d]
    exact sooner.entries (legal _ (List.mem_of_getElem? there_a)) (legal _ (List.mem_of_getElem? there_b))
  · have whole : (urlSegments url).take maxUrlSegments = urlSegments url := List.take_of_length_le short
    have tame : ∀ e ∈ p.entries, Tame e.1 := by
      intro e inside
      obtain ⟨route, there, -, same⟩ := (listed e).mp inside
      have labels : e.1 = segmentLabels (route.priority == .high) route.segments := congrArg Prod.fst same
      rw [labels]
      exact (legal route (List.mem_of_getElem? there)).tame _
    rw [nodeTried, whole, nodeMatches_filter p _ _ tame, lookupMatches, handlersOf, List.filterMap_filterMap,
      List.filterMap_filterMap]
    apply filterMap_congr_mem
    intro e inside
    obtain ⟨route, there, -, same⟩ := (listed e).mp inside
    have labels : e.1 = segmentLabels (route.priority == .high) route.segments := congrArg Prod.fst same
    have parameters : parameterSegments (pathNames e.1) (urlSegments url) =
        parameterSegments route.segments (urlSegments url) := by
      rw [labels, pathNames_labels, parameterSegments_stripped]
    simp only [entryMatch, index, List.nil_append, parameters]
    by_cases matched : matchesSegments (pathNames e.1) (urlSegments url) = true
    · rw [if_pos matched, if_pos matched, Option.bind_some, Option.bind_some, represents.handlers, List.getElem?_map, there]
      rfl
    · rw [if_neg matched, if_neg matched]
      rfl

theorem method_node (represents : Represents router routes) {route : Route η} (member : route ∈ routes) :
    ∃ p ∈ router.root, p.label = (route.method, false) := by
  obtain ⟨i, there⟩ := List.mem_iff_getElem?.mp member
  have listed := (represents.listed route.path ⟨route.priority, i⟩).mpr ⟨route, there, rfl, rfl⟩
  rw [Route.path, routePath, mem_childEntries_cons] at listed
  obtain ⟨p, own, same, -⟩ := listed
  exact ⟨p, own, same⟩

end Represents

theorem inOrder_nil {routes : List (Route η)} {method url : Bytes} (none_ : ∀ route ∈ routes, route.method ≠ method) :
    InOrder routes method url [] := by
  refine ⟨fun i => ⟨nofun, ?_⟩, List.Pairwise.nil, List.Pairwise.nil⟩
  rintro ⟨route, there, matched⟩
  rw [Route.matches_, Bool.and_eq_true, decide_eq_true_eq] at matched
  exact absurd matched.1 (none_ route (List.mem_of_getElem? there))

theorem count_segments (url : Bytes) : url.count slash ≤ (urlSegments url).length := by
  cases url with
  | nil => exact Nat.le_refl 0
  | cons c rest =>
    rw [urlSegments, splitSlashes_length, List.count_cons]
    split <;> omega

/-- A router with a route for ANY tries the matching routes of the method and then those of ANY, in their order. -/
theorem routes_in_order (calls : List (RouterCall η)) (legal : ∀ route ∈ registered calls, route.Legal)
    (any : ∃ route ∈ registered calls, route.method = anyMethodToken) (answers : Answers η) (method url : Bytes)
    (short : (urlSegments url).length ≤ maxUrlSegments) :
    ∃ own fallback, Tries calls answers method url own fallback ∧
      (method ≠ anyMethodToken → (own ++ fallback).Nodup) := by
  have represents := runCalls_represents calls
  have outcome := (HttpRouter.runCalls calls).route_ran answers method url
  have slashes := count_segments url
  rw [tried, if_neg (by omega)] at outcome
  obtain ⟨own, ofMethod, tried_own⟩ : ∃ own, InOrder (registered calls) method url own ∧
      (HttpRouter.runCalls calls).nodeTried url ((HttpRouter.runCalls calls).root.find? (·.name == method)) =
        handlersOf (registered calls) url own := by
    cases found : (HttpRouter.runCalls calls).root.find? (·.name == method) with
    | none =>
      refine ⟨[], inOrder_nil fun route member same => ?_, rfl⟩
      obtain ⟨p, inside, label⟩ := represents.method_node member
      have here := (represents.findMethod method).mpr ⟨inside, label.trans (Prod.ext same rfl)⟩
      rw [found] at here
      cases here
    | some p =>
      obtain ⟨member, label⟩ := (represents.findMethod method).mp found
      have name : p.name = method := congrArg Prod.fst label
      obtain ⟨order, inOrder, same⟩ := represents.nodeTried_inOrder legal member short
      exact ⟨order, name ▸ inOrder, same⟩
  obtain ⟨fallback, ofAny, tried_any⟩ : ∃ fallback, InOrder (registered calls) anyMethodToken url fallback ∧
      (HttpRouter.runCalls calls).nodeTried url (HttpRouter.runCalls calls).root.getLast? =
        handlersOf (registered calls) url fallback := by
    obtain ⟨route, member, own⟩ := any
    have node := represents.any_of_route member own
    have more : (HttpRouter.runCalls calls).root ≠ [] := by
      intro none
      rw [none] at node
      cases node
    have last := List.getLast?_eq_some_getLast more
    have name := represents.last_any node last
    obtain ⟨order, inOrder, same⟩ := represents.nodeTried_inOrder legal (List.getLast_mem more) short
    rw [last]
    exact ⟨order, name ▸ inOrder, same⟩
  refine ⟨own, fallback, ⟨ofMethod, ofAny, ?_⟩, fun differ => ?_⟩
  · rw [outcome, tried_own, tried_any, handlersOf, handlersOf, handlersOf, List.filterMap_append]
  · rw [List.nodup_append]
    refine ⟨ofMethod.once, ofAny.once, ?_⟩
    rintro i first j second rfl
    obtain ⟨a, there_a, matched_a⟩ := (ofMethod.exactly i).mp first
    obtain ⟨b, there_b, matched_b⟩ := (ofAny.exactly i).mp second
    obtain rfl := Option.some.inj (there_a.symm.trans there_b)
    rw [Route.matches_, Bool.and_eq_true, decide_eq_true_eq] at matched_a matched_b
    exact differ (matched_a.1.symm.trans matched_b.1)

theorem site_inOrder :
    ∃ own fallback, Tries siteCalls (fun _ => false) (ascii "GET") (ascii "/a") own fallback ∧
      (ascii "GET" ≠ anyMethodToken → (own ++ fallback).Nodup) := by
  have routes : registered siteCalls =
      [⟨ascii "GET", ascii "/a", .medium, 0⟩, ⟨anyMethodToken, ascii "/*", .low, 1⟩] := by decide +kernel
  refine routes_in_order siteCalls ?_ ?_ _ _ _ (by decide)
  · rw [routes]
    intro route member
    rcases List.mem_cons.mp member with rfl | member
    · exact ⟨rfl, by decide, by decide⟩
    · rw [List.mem_singleton.mp member]
      exact ⟨rfl, by decide, by decide⟩
  · rw [routes]
    exact ⟨_, List.mem_cons_of_mem _ List.mem_cons_self, rfl⟩

def repeated (count : Nat) : Bytes := (List.replicate count (ascii "/a")).flatten

def longCalls : List (RouterCall Nat) :=
  [.add ⟨ascii "GET", repeated 101, .medium, 0⟩, .add ⟨anyMethodToken, ascii "/b", .low, 1⟩]

def starCalls : List (RouterCall Nat) := [.add ⟨anyMethodToken, ascii "/a", .low, 0⟩]

/-- A pattern over the limit matches a shorter URL, and a request for the ANY token tries its routes twice. -/
theorem order_limits :
    (¬ ∀ (calls : List (RouterCall Nat)) (answers : Answers Nat) (method url : Bytes),
      (∀ route ∈ registered calls, route.pattern.head? = some slash ∧
        ∀ segment ∈ route.segments.dropLast, segment.head? ≠ some asterisk) →
      (∃ route ∈ registered calls, route.method = anyMethodToken) → (urlSegments url).length ≤ maxUrlSegments →
      method ≠ anyMethodToken → ∃ own fallback, Tries calls answers method url own fallback ∧ (own ++ fallback).Nodup) ∧
    ¬ ∀ (calls : List (RouterCall Nat)) (answers : Answers Nat) (method url : Bytes),
      (∀ route ∈ registered calls, route.Legal) →
      (∃ route ∈ registered calls, route.method = anyMethodToken) → (urlSegments url).length ≤ maxUrlSegments →
      ∃ own fallback, Tries calls answers method url own fallback ∧ (own ++ fallback).Nodup := by
  constructor
  · intro ordered
    have routes : registered longCalls =
        [⟨ascii "GET", repeated 101, .medium, 0⟩, ⟨anyMethodToken, ascii "/b", .low, 1⟩] := by decide +kernel
    have plain : ∀ route ∈ registered longCalls, route.pattern.head? = some slash ∧
        ∀ segment ∈ route.segments.dropLast, segment.head? ≠ some asterisk := by
      rw [routes]
      decide +kernel
    have any : ∃ route ∈ registered longCalls, route.method = anyMethodToken := by
      rw [routes]
      exact ⟨_, List.mem_cons_of_mem _ List.mem_cons_self, rfl⟩
    obtain ⟨own, fallback, tries, -⟩ := ordered longCalls (fun _ => false) (ascii "GET") (repeated 100) plain any
      (by decide +kernel) (by decide)
    have unmatched : ∀ route ∈ registered longCalls, route.matches_ (ascii "GET") (repeated 100) = false ∧
        route.matches_ anyMethodToken (repeated 100) = false := by
      rw [routes]
      decide +kernel
    have none_own : own = [] := by
      apply List.eq_nil_iff_forall_not_mem.mpr
      intro i member
      obtain ⟨route, there, matched⟩ := (tries.ofMethod.exactly i).mp member
      rw [(unmatched route (List.mem_of_getElem? there)).1] at matched
      cases matched
    have none_fallback : fallback = [] := by
      apply List.eq_nil_iff_forall_not_mem.mpr
      intro i member
      obtain ⟨route, there, matched⟩ := (tries.ofAny.exactly i).mp member
      rw [(unmatched route (List.mem_of_getElem? there)).2] at matched
      cases matched
    have ran := tries.ran
    rw [none_own, none_fallback, handlersOf, List.append_nil, List.filterMap_nil, runUntilDone] at ran
    have some_ : ((HttpRouter.runCalls longCalls).route (fun _ => false) (ascii "GET") (repeated 100)).1.ran = [(0, [])] := by
      decide +kernel
    have empty := (Prod.ext_iff.mp ran).1
    simp only at empty
    rw [some_] at empty
    cases empty
  · intro ordered
    have routes : registered starCalls = [⟨anyMethodToken, ascii "/a", .low, 0⟩] := by decide +kernel
    have legal : ∀ route ∈ registered starCalls, route.Legal := by
      rw [routes]
      intro route member
      rw [List.mem_singleton.mp member]
      exact ⟨rfl, by decide, by decide⟩
    have any : ∃ route ∈ registered starCalls, route.method = anyMethodToken := by
      rw [routes]
      exact ⟨_, List.mem_cons_self, rfl⟩
    obtain ⟨own, fallback, tries, once⟩ := ordered starCalls (fun _ => false) anyMethodToken (ascii "/a") legal any
      (by decide)
    have found : ∃ route, (registered starCalls)[0]? = some route ∧
        route.matches_ anyMethodToken (ascii "/a") = true := by
      rw [routes]
      exact ⟨_, rfl, by decide⟩
    have first := (tries.ofMethod.exactly 0).mpr found
    have second := (tries.ofAny.exactly 0).mpr found
    exact (List.nodup_append.mp once).2.2 0 first 0 second rfl

end Uws.Http
