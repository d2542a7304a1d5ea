import Mathlib.Data.List.AList
import Uws.Http.RouteOrder

namespace Uws.Http

open Node HttpRouter

variable {η : Type}

abbrev ParameterOffsets := AList fun _ : Bytes => UInt16

/-- The scan of `onHttp`: a colon anywhere begins a name, which ends at the next slash. -/
def recordOffsets : Nat → Bytes → UInt16 → ParameterOffsets → ParameterOffsets
  | 0, _, _, parameterOffsets => parameterOffsets
  | _ + 1, [], _, parameterOffsets => parameterOffsets
  | fuel + 1, c :: rest, offset, parameterOffsets =>
    if c = colon then
      let name := rest.takeWhile (· ≠ slash)
      recordOffsets fuel (rest.drop (name.length + 1)) (offset + 1) (parameterOffsets.insert name offset)
    else recordOffsets fuel rest offset parameterOffsets

def parameterOffsets (pattern : Bytes) : ParameterOffsets := recordOffsets pattern.length pattern 0 ∅

structure RouteHandler (η : Type) where
  handler : η
  parameterOffsets : ParameterOffsets

/-- A call of `onHttp`, which removes a route where there is no handler. -/
structure OnHttp (η : Type) where
  method : Bytes
  pattern : Bytes
  handler : Option η
  upgrade : Bool := false

def OnHttp.priority (call : OnHttp η) : Priority :=
  if call.method = anyMethodToken then .low else if call.upgrade then .high else .medium

def HttpRouter.onHttp (router : HttpRouter (RouteHandler η)) (call : OnHttp η) : HttpRouter (RouteHandler η) :=
  match call.handler with
  | none => (router.remove call.method call.pattern call.priority).1
  | some handler => router.add call.method call.pattern ⟨handler, parameterOffsets call.pattern⟩ call.priority

def HttpRouter.onHttps (calls : List (OnHttp η)) : HttpRouter (RouteHandler η) := calls.foldl HttpRouter.onHttp {}

structure RequestParameters where
  currentParameters : List Bytes
  currentParameterOffsets : Option ParameterOffsets := none

namespace RequestParameters

def getParameterAt (request : RequestParameters) (index : UInt16) : Option Bytes :=
  if (request.currentParameters.length : Int) - 1 < index.toNat then none
  else request.currentParameters[index.toNat]?

def getParameter (request : RequestParameters) (name : Bytes) : Option Bytes :=
  match request.currentParameterOffsets with
  | none => none
  | some offsets =>
    match offsets.lookup name with
    | none => none
    | some offset => request.getParameterAt offset

end RequestParameters

def RouteHandler.request (route : RouteHandler η) (parameters : List Bytes) : RequestParameters :=
  { currentParameters := parameters, currentParameterOffsets := some route.parameterOffsets }

def isParameter (segment : Bytes) : Bool := segment.head? == some colon

def parameterNames (segments : List Bytes) : List Bytes := (segments.filter isParameter).map List.tail

theorem parameterNames_cons (segment : Bytes) (segments : List Bytes) :
    parameterNames (segment :: segments) =
      if isParameter segment then segment.tail :: parameterNames segments else parameterNames segments := by
  unfold parameterNames
  rw [List.filter_cons]
  split <;> rfl

def placedSegments (pattern url : Bytes) : List (Bytes × Bytes) := (urlSegments pattern).zip (urlSegments url)

/-- A request answers names and indexes by what stands in the URL at the parameters of the pattern. -/
structure AnswersParameters (pattern url : Bytes) (request : RequestParameters) : Prop where
  named : ∀ name, request.getParameter name = (placedSegments pattern url).lookup (colon :: name)
  indexed : ∀ index : UInt16, request.getParameterAt index =
    (((placedSegments pattern url).filter fun placed => isParameter placed.1)[index.toNat]?).map Prod.snd

section Condition

def behindColon : Bytes → Option Bytes
  | [] => none
  | c :: rest => if c = colon then some rest else behindColon rest

def colonTexts (pattern : Bytes) : List Bytes := (splitSlashes pattern).filterMap behindColon

def keptNames (pattern : Bytes) : List Bytes := parameterNames ((urlSegments pattern).take maxUrlSegments)

def keptParameters (pattern url : Bytes) : List Bytes :=
  (((placedSegments pattern url).take maxUrlSegments).filter fun placed => isParameter placed.1).map Prod.snd

def ColonsFit (texts names : List Bytes) : Prop := names <+: texts ∧ ∀ text ∈ texts.drop names.length, text ∉ names

/-- The last place of a text. -/
def LastAt (texts : List Bytes) (k : Nat) (text : Bytes) : Prop := texts[k]? = some text ∧ text ∉ texts.drop (k + 1)

/-- With more texts than there are offsets, a name needs the offset of its own parameter or of an equal one. -/
structure OffsetsWrap (texts names parameters : List Bytes) : Prop where
  own : ∀ (j : Nat) (name : Bytes), names[j]? = some name → ∃ k, LastAt texts k name ∧ parameters[k % 2 ^ 16]? = parameters[j]?
  others : ∀ k name, LastAt texts k name → name ∉ names → parameters.length ≤ k % 2 ^ 16

/-- No parameter of the pattern lies beyond the segments that the router keeps and within the URL, and the texts behind
    colons fit the names of the parameters. -/
def OffsetsFit (pattern url : Bytes) : Prop :=
  (∀ placed ∈ (placedSegments pattern url).drop maxUrlSegments, isParameter placed.1 = false) ∧
    if (colonTexts pattern).length ≤ 2 ^ 16 then ColonsFit (colonTexts pattern) (keptNames pattern)
    else OffsetsWrap (colonTexts pattern) (keptNames pattern) (keptParameters pattern url)

end Condition

section Scan

theorem behindColon_names (segment : Bytes) (segments : List Bytes) (c : UInt8) (other : c ≠ colon) :
    ((c :: segment) :: segments).filterMap behindColon = (segment :: segments).filterMap behindColon := by
  have same : behindColon (c :: segment) = behindColon segment := by rw [behindColon, if_neg other]
  rw [List.filterMap_cons, List.filterMap_cons, same]

def recordNames : List Bytes → UInt16 → ParameterOffsets → ParameterOffsets
  | [], _, parameterOffsets => parameterOffsets
  | name :: names, offset, parameterOffsets => recordNames names (offset + 1) (parameterOffsets.insert name offset)

theorem recordOffsets_texts (fuel : Nat) (pattern : Bytes) (enough : pattern.length ≤ fuel) (offset : UInt16)
    (parameterOffsets : ParameterOffsets) :
    recordOffsets fuel pattern offset parameterOffsets = recordNames (colonTexts pattern) offset parameterOffsets := by
  induction fuel generalizing pattern offset parameterOffsets with
  | zero =>
    rw [List.eq_nil_of_length_eq_zero (Nat.le_zero.mp enough)]
    rfl
  | succ fuel ih =>
    cases pattern with
    | nil => rfl
    | cons c rest =>
      rw [List.length_cons] at enough
      rw [recordOffsets]
      by_cases start : c = colon
      · rw [if_pos start]
        have stop : c ≠ slash := by
          rw [start]
          decide
        have texts : colonTexts (c :: rest) = rest.takeWhile (· ≠ slash) ::
            colonTexts (rest.drop ((rest.takeWhile (· ≠ slash)).length + 1)) := by
          have own : behindColon (c :: rest.takeWhile (· ≠ slash)) = some (rest.takeWhile (· ≠ slash)) := by
            rw [behindColon, if_pos start]
          unfold colonTexts
          rw [splitSlashes, if_neg stop, splitSlashes_eq rest]
          simp only [List.filterMap_cons, own]
          rw [← List.drop_drop]
          cases rest.drop (rest.takeWhile (· ≠ slash)).length with
          | nil => rfl
          | cons d rest => rfl
        rw [texts]
        exact ih _ (by rw [List.length_drop]; omega) _ _
      · rw [if_neg start, ih rest (by omega)]
        congr 1
        unfold colonTexts
        rw [splitSlashes]
        by_cases stop : c = slash
        · rw [if_pos stop]
          rfl
        · rw [if_neg stop, splitSlashes_eq]
          exact (behindColon_names _ _ c start).symm

theorem parameterOffsets_eq (pattern : Bytes) : parameterOffsets pattern = recordNames (colonTexts pattern) 0 ∅ :=
  recordOffsets_texts _ pattern (Nat.le_refl _) _ _

theorem recordNames_absent {names : List Bytes} {name : Bytes} (absent : name ∉ names) (offset : UInt16)
    (parameterOffsets : ParameterOffsets) :
    (recordNames names offset parameterOffsets).lookup name = parameterOffsets.lookup name := by
  induction names generalizing offset parameterOffsets with
  | nil => rfl
  | cons other names ih =>
    rw [List.mem_cons, not_or] at absent
    rw [recordNames, ih absent.2, AList.lookup_insert_ne absent.1]

theorem recordNames_last {names : List Bytes} {k : Nat} {name : Bytes} (last : LastAt names k name) (base : Nat)
    (parameterOffsets : ParameterOffsets) :
    (recordNames names (UInt16.ofNat base) parameterOffsets).lookup name = some (UInt16.ofNat (base + k)) := by
  induction names generalizing k base parameterOffsets with
  | nil => cases last.1
  | cons other names ih =>
    have next : UInt16.ofNat base + 1 = UInt16.ofNat (base + 1) := (UInt16.ofNat_add base 1).symm
    rw [recordNames, next]
    cases k with
    | zero =>
      obtain rfl := Option.some.inj last.1
      have absent : other ∉ names := last.2
      rw [recordNames_absent absent, AList.lookup_insert]
      rfl
    | succ k =>
      rw [ih last (base + 1)]
      congr 2
      omega

theorem exists_lastAt {names : List Bytes} {name : Bytes} (member : name ∈ names) : ∃ k, LastAt names k name := by
  induction names with
  | nil => cases member
  | cons other names ih =>
    by_cases later : name ∈ names
    · obtain ⟨k, last⟩ := ih later
      exact ⟨k + 1, last⟩
    · rcases List.mem_cons.mp member with rfl | deeper
      · exact ⟨0, rfl, later⟩
      · exact absurd deeper later

end Scan

section Answers

theorem getParameterAt_eq (request : RequestParameters) (index : UInt16) :
    request.getParameterAt index = request.currentParameters[index.toNat]? := by
  unfold RequestParameters.getParameterAt
  split
  · next outside => exact (List.getElem?_eq_none (by omega)).symm
  · rfl

variable {route : RouteHandler η} {pattern : Bytes}

theorem getParameter_last (offsets : route.parameterOffsets = parameterOffsets pattern) (parameters : List Bytes) {k : Nat}
    {name : Bytes} (last : LastAt (colonTexts pattern) k name) :
    (route.request parameters).getParameter name = parameters[k % 2 ^ 16]? := by
  have found : route.parameterOffsets.lookup name = some (UInt16.ofNat k) := by
    have recorded := recordNames_last last 0 ∅
    rw [Nat.zero_add] at recorded
    rw [offsets, parameterOffsets_eq]
    exact recorded
  unfold RequestParameters.getParameter RouteHandler.request
  simp only [found]
  rw [getParameterAt_eq, UInt16.toNat_ofNat']

theorem getParameter_absent (offsets : route.parameterOffsets = parameterOffsets pattern) (parameters : List Bytes)
    {name : Bytes} (absent : name ∉ colonTexts pattern) :
    (route.request parameters).getParameter name = none := by
  have none_ : route.parameterOffsets.lookup name = none := by
    rw [offsets, parameterOffsets_eq, recordNames_absent absent]
    rfl
  unfold RequestParameters.getParameter RouteHandler.request
  simp only [none_]

end Answers

section Tried

theorem Tame.cons {label : Bytes × Bool} {path : List (Bytes × Bool)} (tame : Tame path)
    (inner : label.1.head? ≠ some asterisk) : Tame (label :: path) := by
  cases path with
  | nil => exact nofun
  | cons next path =>
    have split : (pathNames (label :: next :: path)).dropLast = label.1 :: (pathNames (next :: path)).dropLast := rfl
    rw [Tame, split]
    intro name member
    rcases List.mem_cons.mp member with rfl | deeper
    · exact inner
    · exact tame name deeper

structure Aligned (path : List (Bytes × Bool)) (segments params found : List Bytes) : Prop where
  tame : Tame path
  matched : matchesSegments (pathNames path) segments = true
  parameters : found = params ++ parameterSegments (pathNames path) segments

mutual

theorem nodeMatches_aligned (p : Node) (segments params : List Bytes) (m : Match)
    (member : m ∈ nodeMatches p segments params) : ∃ path, (path, m.1) ∈ p.entries ∧ Aligned path segments params m.2 := by
  match p, segments with
  | .mk name children ids high, [] =>
    obtain ⟨id, own, rfl⟩ := List.mem_map.mp member
    exact ⟨[], mem_entries_nil.mpr own, nofun, rfl, (List.append_nil params).symm⟩
  | .mk name children ids high, segment :: segments =>
    obtain ⟨path, below, aligned⟩ := childMatches_aligned children segment segments params m member
    exact ⟨path, List.mem_append_right _ below, aligned⟩

theorem childMatches_aligned (children : List Node) (segment : Bytes) (segments params : List Bytes) (m : Match)
    (member : m ∈ childMatches children segment segments params) :
    ∃ path, (path, m.1) ∈ childEntries children ∧ Aligned path (segment :: segments) params m.2 := by
  match children with
  | [] => cases member
  | p :: rest =>
    have here : ∀ path, (path, m.1) ∈ p.entries → (p.label :: path, m.1) ∈ childEntries (p :: rest) :=
      fun path inside => mem_childEntries_cons.mpr ⟨p, List.mem_cons_self, rfl, inside⟩
    have head : ∀ path : List (Bytes × Bool), pathNames (p.label :: path) = p.name :: pathNames path := fun _ => rfl
    rw [childMatches, List.mem_append] at member
    rcases member with own | others
    · by_cases wildcard : p.name.head? = some asterisk
      · rw [if_pos wildcard] at own
        obtain ⟨id, handled, rfl⟩ := List.mem_map.mp own
        refine ⟨[p.label], here [] (mem_entries_nil.mpr handled), nofun, ?_, ?_⟩
        · rw [head, matchesSegments, if_pos wildcard]
        · rw [head, parameterSegments, if_pos wildcard, List.append_nil]
      · rw [if_neg wildcard] at own
        by_cases parameter : p.name.head? = some colon ∧ segment ≠ []
        · rw [if_pos parameter] at own
          obtain ⟨path, inside, tame, matched, parameters⟩ := nodeMatches_aligned p segments _ m own
          have full : segment.isEmpty = false := by simpa using parameter.2
          refine ⟨p.label :: path, here path inside, tame.cons wildcard, ?_, ?_⟩
          · rw [head, matchesSegments, if_neg wildcard, if_pos parameter.1, full, matched]
            rfl
          · rw [head, parameterSegments, if_neg wildcard, if_pos parameter.1, parameters, List.append_assoc]
            rfl
        · rw [if_neg parameter] at own
          by_cases static : p.name = segment
          · rw [if_pos static] at own
            obtain ⟨path, inside, tame, matched, parameters⟩ := nodeMatches_aligned p segments _ m own
            have plain : p.name.head? ≠ some colon := by
              intro leads
              refine parameter ⟨leads, ?_⟩
              rintro rfl
              rw [static] at leads
              cases leads
            refine ⟨p.label :: path, here path inside, tame.cons wildcard, ?_, ?_⟩
            · rw [head, matchesSegments, if_neg wildcard, if_neg plain, decide_eq_true static, matched]
              rfl
            · rw [head, parameterSegments, if_neg wildcard, if_neg plain]
              exact parameters
          · rw [if_neg static] at own
            cases own
    · obtain ⟨path, below, aligned⟩ := childMatches_aligned rest segment segments params m others
      exact ⟨path, List.mem_append_right _ below, aligned⟩

end

structure TriedWith (pattern url : Bytes) (parameters : List Bytes) : Prop where
  wildcard : ∀ segment ∈ ((urlSegments pattern).take maxUrlSegments).dropLast, segment.head? ≠ some asterisk
  matched : matchesSegments ((urlSegments pattern).take maxUrlSegments) ((urlSegments url).take maxUrlSegments) = true
  parameters : parameters =
    parameterSegments ((urlSegments pattern).take maxUrlSegments) ((urlSegments url).take maxUrlSegments)

namespace Represents

variable {router : HttpRouter η} {routes : List (Route η)}

theorem nodeTried_with (represents : Represents router routes) {p : Node} (member : p ∈ router.root) {url : Bytes}
    {handler : η} {params : List Bytes} (tried : (handler, params) ∈ router.nodeTried url (some p)) :
    ∃ route ∈ routes, route.handler = handler ∧ TriedWith route.pattern url params := by
  obtain ⟨id, matched, there⟩ := mem_lookupMatches.mp tried
  obtain ⟨path, inside, tame, own, parameters⟩ := nodeMatches_aligned p _ _ _ matched
  obtain ⟨route, listed, labels, -⟩ :=
    (represents.listed _ id).mp (mem_childEntries_cons.mpr ⟨p, member, rfl, inside⟩)
  rw [represents.handlers, List.getElem?_map, listed] at there
  have names : pathNames path = ((urlSegments route.pattern).take maxUrlSegments).map strippedSegment := by
    rw [Route.path, routePath, patternSegments_eq] at labels
    rw [← (List.cons.inj labels).2, pathNames_labels]
  rw [names, matchesSegments_stripped] at own
  rw [names, parameterSegments_stripped] at parameters
  rw [Tame, names, ← List.map_dropLast] at tame
  refine ⟨route, List.mem_of_getElem? listed, Option.some.inj there, ?_, own, parameters⟩
  intro segment kept
  rw [← head_stripped]
  exact tame _ (List.mem_map_of_mem kept)

theorem tried_with (represents : Represents router routes) {method url : Bytes} {handler : η} {params : List Bytes}
    (tried : (handler, params) ∈ router.tried method url) :
    ∃ route ∈ routes, route.handler = handler ∧ TriedWith route.pattern url params := by
  have last : (handler, params) ∈ router.nodeTried url router.root.getLast? →
      ∃ route ∈ routes, route.handler = handler ∧ TriedWith route.pattern url params := by
    intro tried
    cases found : router.root.getLast? with
    | none =>
      rw [found] at tried
      cases tried
    | some p =>
      rw [found] at tried
      exact represents.nodeTried_with (List.mem_of_getLast? found) tried
  unfold HttpRouter.tried at tried
  split at tried
  · exact last tried
  · rcases List.mem_append.mp tried with own | fallback
    · cases found : router.root.find? (·.name == method) with
      | none =>
        rw [found] at own
        cases own
      | some p =>
        rw [found] at own
        exact represents.nodeTried_with (List.mem_of_find?_eq_some found) own
    · exact last fallback

end Represents

end Tried

section Placed

def parametersOf (pairs : List (Bytes × Bytes)) : List (Bytes × Bytes) := pairs.filter fun placed => isParameter placed.1

def namesOf (pairs : List (Bytes × Bytes)) : List Bytes := (parametersOf pairs).map fun placed => placed.1.tail

theorem parametersOf_cons (segment value : Bytes) (pairs : List (Bytes × Bytes)) :
    parametersOf ((segment, value) :: pairs) =
      if isParameter segment then (segment, value) :: parametersOf pairs else parametersOf pairs :=
  List.filter_cons

theorem isParameter_cons {segment : Bytes} (parameter : isParameter segment = true) : segment = colon :: segment.tail := by
  have head : segment.head? = some colon := by simpa [isParameter] using parameter
  cases segment with
  | nil => cases head
  | cons c rest =>
    obtain rfl := Option.some.inj head
    rfl

theorem placed_parameters {pattern segments : List Bytes} (matched : matchesSegments pattern segments = true)
    (wildcard : ∀ segment ∈ pattern.dropLast, segment.head? ≠ some asterisk) :
    parameterSegments pattern segments = (parametersOf (pattern.zip segments)).map Prod.snd ∧
      parameterNames pattern = namesOf (pattern.zip segments) := by
  induction pattern generalizing segments with
  | nil => exact ⟨rfl, rfl⟩
  | cons p pattern ih =>
    cases segments with
    | nil => cases matched
    | cons segment segments =>
      have below : ∀ segment ∈ pattern.dropLast, segment.head? ≠ some asterisk := by
        intro other member
        refine wildcard other ?_
        cases pattern with
        | nil => cases member
        | cons q pattern => exact List.mem_cons_of_mem _ member
      rw [matchesSegments] at matched
      rw [parameterSegments, parameterNames_cons, namesOf, List.zip_cons_cons, parametersOf_cons]
      by_cases star : p.head? = some asterisk
      · have last : pattern = [] := by
          cases pattern with
          | nil => rfl
          | cons q pattern => exact absurd star (wildcard p List.mem_cons_self)
        have plain : isParameter p = false := by
          rw [isParameter, star]
          rfl
        rw [if_pos star, plain, last]
        exact ⟨rfl, rfl⟩
      · rw [if_neg star] at matched ⊢
        by_cases leads : p.head? = some colon
        · have parameter : isParameter p = true := by
            rw [isParameter, leads]
            exact beq_self_eq_true _
          rw [if_pos leads, Bool.and_eq_true] at matched
          obtain ⟨values, deeper⟩ := ih matched.2 below
          rw [if_pos leads, if_pos parameter, if_pos parameter, values, deeper]
          exact ⟨rfl, rfl⟩
        · have plain : ¬ isParameter p = true := by
            rw [isParameter, beq_iff_eq]
            exact leads
          rw [if_neg leads, Bool.and_eq_true] at matched
          obtain ⟨values, deeper⟩ := ih matched.2 below
          rw [if_neg leads, if_neg plain, if_neg plain, values, deeper]
          exact ⟨rfl, rfl⟩

theorem lookup_own {pairs : List (Bytes × Bytes)} (distinct : (namesOf pairs).Nodup) {j : Nat} {name : Bytes}
    (own : (namesOf pairs)[j]? = some name) :
    pairs.lookup (colon :: name) = ((parametersOf pairs).map Prod.snd)[j]? := by
  induction pairs generalizing j with
  | nil => cases own
  | cons pair pairs ih =>
    obtain ⟨segment, value⟩ := pair
    rw [namesOf, parametersOf_cons] at distinct own
    rw [parametersOf_cons, List.lookup_cons]
    by_cases parameter : isParameter segment = true
    · rw [if_pos parameter] at distinct own ⊢
      rw [List.map_cons, List.nodup_cons] at distinct
      have split := isParameter_cons parameter
      cases j with
      | zero =>
        have same : segment.tail = name := Option.some.inj own
        have here : (colon :: name == segment) = true := by
          rw [beq_iff_eq, ← same, ← split]
        rw [here]
        rfl
      | succ j =>
        have later : (namesOf pairs)[j]? = some name := own
        have other : (colon :: name == segment) = false := by
          rw [beq_eq_false_iff_ne]
          intro same
          have tail : segment.tail = name := by rw [← same, List.tail_cons]
          exact distinct.1 (tail ▸ List.mem_of_getElem? later)
        rw [other, List.map_cons, List.getElem?_cons_succ]
        exact ih distinct.2 later
    · rw [if_neg parameter] at distinct own ⊢
      have other : (colon :: name == segment) = false := by
        rw [beq_eq_false_iff_ne]
        rintro rfl
        exact parameter rfl
      rw [other]
      exact ih distinct own

theorem lookup_absent {pairs : List (Bytes × Bytes)} {name : Bytes} (absent : name ∉ namesOf pairs) :
    pairs.lookup (colon :: name) = none := by
  rw [List.lookup_eq_none_iff]
  rintro ⟨segment, value⟩ member
  rw [bne_iff_ne]
  rintro rfl
  exact absent (List.mem_map.mpr ⟨_, List.mem_filter.mpr ⟨member, rfl⟩, rfl⟩)

theorem placed_take (pattern url : Bytes) (count : Nat) :
    (placedSegments pattern url).take count = ((urlSegments pattern).take count).zip ((urlSegments url).take count) :=
  List.take_zipWith

theorem parametersOf_split (pairs : List (Bytes × Bytes)) (count : Nat) :
    parametersOf pairs = parametersOf (pairs.take count) ++ parametersOf (pairs.drop count) := by
  unfold parametersOf
  rw [← List.filter_append, List.take_append_drop]

end Placed

section Fitting

theorem sublist_take {names texts : List Bytes} {name : Bytes} {k : Nat} (sublist : (names ++ [name]).Sublist texts)
    (last : LastAt texts k name) : names.Sublist (texts.take k) := by
  induction texts generalizing names k with
  | nil => cases last.1
  | cons text texts ih =>
    cases k with
    | zero =>
      obtain rfl := Option.some.inj last.1
      have absent : text ∉ texts := last.2
      cases names with
      | nil => exact List.nil_sublist _
      | cons other names =>
        rw [List.cons_append] at sublist
        cases sublist with
        | cons _ deeper => exact absurd (deeper.subset (by simp)) absent
        | cons_cons _ deeper => exact absurd (deeper.subset (by simp)) absent
    | succ k =>
      have deeper : LastAt texts k name := last
      rw [List.take_succ_cons]
      cases names with
      | nil => exact List.nil_sublist _
      | cons other names =>
        rw [List.cons_append] at sublist
        cases sublist with
        | cons _ rest => exact (ih rest deeper).cons _
        | cons_cons _ rest => exact (ih rest deeper).cons_cons _

theorem prefix_of_last {names texts : List Bytes} {name : Bytes} {k : Nat} (sublist : (names ++ [name]).Sublist texts)
    (last : LastAt texts k name) (early : k ≤ names.length) : names ++ [name] <+: texts := by
  have within := sublist_take sublist last
  have taken : (texts.take k).length ≤ names.length := by
    rw [List.length_take]
    omega
  have same : names = texts.take k := within.eq_of_length_le taken
  obtain ⟨below, here⟩ := List.getElem?_eq_some_iff.mp last.1
  refine ⟨texts.drop (k + 1), ?_⟩
  rw [same, ← here, List.append_assoc, List.singleton_append, ← List.drop_eq_getElem_cons below, List.take_append_drop]

/-- The texts behind colons hold the names of the parameters in their order; only a colon in the place of the first slash
    takes the first parameter's colon into its text. -/
def HoldsNames (texts names : List Bytes) : Prop :=
  names.Sublist texts ∨
    ∃ name rest later, names = name :: rest ∧ texts = (colon :: name) :: later ∧ rest.Sublist later

theorem names_sublist (segments : List Bytes) : (parameterNames segments).Sublist (segments.filterMap behindColon) := by
  induction segments with
  | nil => exact List.Sublist.refl _
  | cons segment segments ih =>
    rw [parameterNames_cons]
    by_cases parameter : isParameter segment = true
    · have own : behindColon segment = some segment.tail := by
        rw [isParameter_cons parameter, behindColon, if_pos rfl, List.tail_cons]
      rw [if_pos parameter, List.filterMap_cons, own]
      exact ih.cons_cons _
    · rw [if_neg parameter, List.filterMap_cons]
      cases behindColon segment with
      | none => exact ih
      | some text => exact ih.cons _

theorem names_take (segments : List Bytes) (count : Nat) :
    (parameterNames (segments.take count)).Sublist (parameterNames segments) :=
  ((List.take_sublist count segments).filter _).map _

theorem holdsNames (pattern : Bytes) : HoldsNames (colonTexts pattern) (keptNames pattern) := by
  cases pattern with
  | nil => exact .inl (List.nil_sublist _)
  | cons c rest =>
    unfold keptNames colonTexts
    rw [urlSegments, splitSlashes]
    have whole : (parameterNames ((splitSlashes rest).take maxUrlSegments)).Sublist
        ((splitSlashes rest).filterMap behindColon) := (names_take _ _).trans (names_sublist _)
    by_cases stop : c = slash
    · rw [if_pos stop]
      exact .inl whole
    · rw [if_neg stop]
      have split := splitSlashes_eq rest
      generalize rest.takeWhile (· ≠ slash) = segment at split
      generalize urlSegments _ = segments at split
      rw [split] at whole ⊢
      by_cases start : c = colon
      · have own : behindColon (c :: segment) = some segment := by rw [behindColon, if_pos start]
        rw [List.filterMap_cons, own]
        have others : (parameterNames (segments.take 99)).Sublist (segments.filterMap behindColon) :=
          (names_take _ _).trans (names_sublist _)
        have kept : (segment :: segments).take maxUrlSegments = segment :: segments.take 99 := rfl
        rw [kept, parameterNames, List.filter_cons]
        by_cases parameter : isParameter segment = true
        · rw [if_pos parameter]
          refine .inr ⟨segment.tail, _, _, rfl, ?_, others⟩
          rw [← isParameter_cons parameter]
        · rw [if_neg parameter]
          exact .inl (others.cons _)
      · exact .inl (behindColon_names segment segments c start ▸ whole)

variable {texts names parameters : List Bytes}

theorem lastAt_lt {k : Nat} {name : Bytes} (last : LastAt texts k name) : k < texts.length :=
  (List.getElem?_eq_some_iff.mp last.1).1

theorem OffsetsWrap.early (wrap : OffsetsWrap texts names parameters) (few : texts.length ≤ 2 ^ 16)
    (same : parameters.length = names.length) {name : Bytes} (member : name ∈ names) :
    ∃ k, LastAt texts k name ∧ k < names.length := by
  obtain ⟨j, own⟩ := List.mem_iff_getElem?.mp member
  obtain ⟨k, last, equal⟩ := wrap.own j name own
  obtain ⟨below, -⟩ := List.getElem?_eq_some_iff.mp own
  have small := lastAt_lt last
  have there : j < parameters.length := by omega
  rw [Nat.mod_eq_of_lt (by omega), List.getElem?_eq_getElem there] at equal
  obtain ⟨within, -⟩ := List.getElem?_eq_some_iff.mp equal
  exact ⟨k, last, by omega⟩

theorem OffsetsWrap.begins (wrap : OffsetsWrap texts names parameters) (few : texts.length ≤ 2 ^ 16)
    (same : parameters.length = names.length) (distinct : names.Nodup) (holds : HoldsNames texts names) :
    names <+: texts := by
  rcases List.eq_nil_or_concat' names with rfl | ⟨front, name, rfl⟩
  · exact List.nil_prefix
  · have ending : name ∈ front ++ [name] := List.mem_append_right _ List.mem_cons_self
    obtain ⟨k, last, early⟩ := wrap.early few same ending
    rw [List.length_append, List.length_singleton] at early
    rcases holds with sublist | ⟨first, rest, later, split, rfl, deeper⟩
    · exact prefix_of_last sublist last (by omega)
    · -- the first name has no place of its own: the others are a prefix of the rest, and it would have to be among them
      exfalso
      have beginning : first ∈ front ++ [name] := by
        rw [split]
        exact List.mem_cons_self
      obtain ⟨k', place, early'⟩ := wrap.early few same beginning
      rw [split, List.nodup_cons] at distinct
      rw [split, List.length_cons] at early'
      cases k' with
      | zero =>
        have equal : colon :: first = first := Option.some.inj place.1
        exact absurd (congrArg List.length equal) (by simp)
      | succ k' =>
        rcases List.eq_nil_or_concat' rest with rfl | ⟨middle, name', rfl⟩
        · rw [List.length_nil] at early'
          omega
        · have ends : front = first :: middle ∧ name = name' := by
            have shape : front ++ [name] = (first :: middle) ++ [name'] := split
            have parts := List.append_inj' shape rfl
            exact ⟨parts.1, List.head_eq_of_cons_eq parts.2⟩
          obtain ⟨rfl, rfl⟩ := ends
          rw [List.length_cons] at early
          have member : name ∈ later := deeper.subset (by simp)
          cases k with
          | zero => exact last.2 member
          | succ k =>
            have begins := prefix_of_last deeper last (by omega)
            obtain ⟨tail, rfl⟩ := begins
            have there : ((middle ++ [name]) ++ tail)[k']? = some first := place.1
            rw [List.length_append, List.length_singleton] at early'
            rw [List.getElem?_append_left (by simp; omega)] at there
            exact distinct.1 (List.mem_of_getElem? there)

theorem colonsFit_iff (few : texts.length ≤ 2 ^ 16) (same : parameters.length = names.length) (distinct : names.Nodup)
    (holds : HoldsNames texts names) : OffsetsWrap texts names parameters ↔ ColonsFit texts names := by
  constructor
  · intro wrap
    refine ⟨wrap.begins few same distinct holds, ?_⟩
    intro text behind member
    obtain ⟨k, last, early⟩ := wrap.early few same member
    have split : texts.drop names.length = (texts.drop (k + 1)).drop (names.length - (k + 1)) := by
      rw [List.drop_drop]
      congr 1
      omega
    rw [split] at behind
    exact last.2 (List.mem_of_mem_drop behind)
  · rintro ⟨⟨others, rfl⟩, fresh⟩
    rw [List.drop_left] at fresh
    rw [List.length_append] at few
    constructor
    · intro j name own
      obtain ⟨below, here⟩ := List.getElem?_eq_some_iff.mp own
      refine ⟨j, ⟨by rw [List.getElem?_append_left below, own], ?_⟩, by rw [Nat.mod_eq_of_lt (by omega)]⟩
      rw [List.drop_append_of_le_length below, List.mem_append, not_or]
      refine ⟨?_, fun behind => fresh name behind (List.mem_of_getElem? own)⟩
      have apart := distinct
      rw [← List.take_append_drop j names, List.drop_eq_getElem_cons below, here, List.nodup_append] at apart
      exact (List.nodup_cons.mp apart.2.1).1
    · intro k name last absent
      have small := lastAt_lt last
      rw [List.length_append] at small
      rw [Nat.mod_eq_of_lt (by omega), same]
      by_contra early
      have there := last.1
      rw [List.getElem?_append_left (by omega)] at there
      exact absent (List.mem_of_getElem? there)

end Fitting

section Theorem

variable {route : RouteHandler η} {pattern url : Bytes} {parameters : List Bytes}

theorem TriedWith.kept (tried : TriedWith pattern url parameters) :
    parameters = keptParameters pattern url ∧
      keptNames pattern = namesOf ((placedSegments pattern url).take maxUrlSegments) := by
  obtain ⟨values, names⟩ := placed_parameters tried.matched tried.wildcard
  rw [← placed_take] at values names
  exact ⟨tried.parameters.trans values, names⟩

theorem kept_lengths (tried : TriedWith pattern url parameters) : parameters.length = (keptNames pattern).length := by
  obtain ⟨values, names⟩ := tried.kept
  rw [values, names]
  unfold keptParameters namesOf parametersOf
  rw [List.length_map, List.length_map]

theorem indexed_iff (tried : TriedWith pattern url parameters) :
    (∀ index : UInt16, (route.request parameters).getParameterAt index =
        ((parametersOf (placedSegments pattern url))[index.toNat]?).map Prod.snd) ↔
      parametersOf ((placedSegments pattern url).drop maxUrlSegments) = [] := by
  obtain ⟨values, -⟩ := tried.kept
  have split := parametersOf_split (placedSegments pattern url) maxUrlSegments
  have own : parameters = (parametersOf ((placedSegments pattern url).take maxUrlSegments)).map Prod.snd := values
  constructor
  · intro indexed
    cases beyond : parametersOf ((placedSegments pattern url).drop maxUrlSegments) with
    | nil => rfl
    | cons pair more =>
      exfalso
      have count : (parametersOf ((placedSegments pattern url).take maxUrlSegments)).length ≤ 100 :=
        (List.length_filter_le _ _).trans (List.length_take_le _ _)
      have index := indexed (UInt16.ofNat (parametersOf ((placedSegments pattern url).take maxUrlSegments)).length)
      rw [getParameterAt_eq, UInt16.toNat_ofNat', Nat.mod_eq_of_lt (by omega), split, beyond,
        List.getElem?_append_right (Nat.le_refl _), Nat.sub_self] at index
      unfold RouteHandler.request at index
      simp only at index
      rw [own, List.getElem?_eq_none (by rw [List.length_map])] at index
      cases index
  · intro none_ index
    rw [getParameterAt_eq, split, none_, List.append_nil, ← List.getElem?_map, ← own]
    rfl

theorem named_iff (offsets : route.parameterOffsets = parameterOffsets pattern) (tried : TriedWith pattern url parameters)
    (distinct : (keptNames pattern).Nodup)
    (none_ : parametersOf ((placedSegments pattern url).drop maxUrlSegments) = []) :
    (∀ name, (route.request parameters).getParameter name = (placedSegments pattern url).lookup (colon :: name)) ↔
      OffsetsWrap (colonTexts pattern) (keptNames pattern) parameters := by
  obtain ⟨values, names⟩ := tried.kept
  have whole : parametersOf (placedSegments pattern url) =
      parametersOf ((placedSegments pattern url).take maxUrlSegments) := by
    rw [parametersOf_split _ maxUrlSegments, none_, List.append_nil]
  have same : namesOf (placedSegments pattern url) = keptNames pattern := by
    rw [names]
    unfold namesOf
    rw [whole]
  have held : parameters = (parametersOf (placedSegments pattern url)).map Prod.snd := by
    rw [values, whole]
    rfl
  have own : ∀ (j : Nat) (name : Bytes), (keptNames pattern)[j]? = some name →
      (placedSegments pattern url).lookup (colon :: name) = parameters[j]? := by
    intro j name there
    rw [held]
    exact lookup_own (same ▸ distinct) (same ▸ there)
  have absent : ∀ name : Bytes, name ∉ keptNames pattern →
      (placedSegments pattern url).lookup (colon :: name) = none :=
    fun name missing => lookup_absent (same ▸ missing)
  constructor
  · intro named
    constructor
    · intro j name there
      have answer := named name
      rw [own j name there] at answer
      by_cases recorded : name ∈ colonTexts pattern
      · obtain ⟨k, last⟩ := exists_lastAt recorded
        rw [getParameter_last offsets parameters last] at answer
        exact ⟨k, last, answer⟩
      · have short := kept_lengths tried
        obtain ⟨below, -⟩ := List.getElem?_eq_some_iff.mp there
        rw [getParameter_absent offsets parameters recorded, List.getElem?_eq_getElem (by omega)] at answer
        cases answer
    · intro k name last missing
      have answer := named name
      rw [absent name missing, getParameter_last offsets parameters last] at answer
      exact List.getElem?_eq_none_iff.mp answer
  · intro wrap name
    by_cases member : name ∈ keptNames pattern
    · obtain ⟨j, there⟩ := List.mem_iff_getElem?.mp member
      obtain ⟨k, last, equal⟩ := wrap.own j name there
      rw [own j name there, getParameter_last offsets parameters last, equal]
    · rw [absent name member]
      by_cases recorded : name ∈ colonTexts pattern
      · obtain ⟨k, last⟩ := exists_lastAt recorded
        rw [getParameter_last offsets parameters last, List.getElem?_eq_none_iff]
        exact wrap.others k name last member
      · exact getParameter_absent offsets parameters recorded

theorem answers_iff (offsets : route.parameterOffsets = parameterOffsets pattern) (tried : TriedWith pattern url parameters)
    (distinct : (parameterNames (urlSegments pattern)).Nodup) :
    AnswersParameters pattern url (route.request parameters) ↔ OffsetsFit pattern url := by
  have kept : (keptNames pattern).Nodup := distinct.sublist (names_take _ _)
  have within : (∀ placed ∈ (placedSegments pattern url).drop maxUrlSegments, isParameter placed.1 = false) ↔
      parametersOf ((placedSegments pattern url).drop maxUrlSegments) = [] := by
    unfold parametersOf
    rw [List.filter_eq_nil_iff]
    simp only [Bool.not_eq_true]
  have fits : parametersOf ((placedSegments pattern url).drop maxUrlSegments) = [] →
      ((∀ name, (route.request parameters).getParameter name = (placedSegments pattern url).lookup (colon :: name)) ↔
        if (colonTexts pattern).length ≤ 2 ^ 16 then ColonsFit (colonTexts pattern) (keptNames pattern)
        else OffsetsWrap (colonTexts pattern) (keptNames pattern) (keptParameters pattern url)) := by
    intro none_
    rw [named_iff offsets tried kept none_]
    by_cases few : (colonTexts pattern).length ≤ 2 ^ 16
    · rw [if_pos few]
      exact colonsFit_iff few (kept_lengths tried) kept (holdsNames pattern)
    · rw [if_neg few, tried.kept.1]
  unfold OffsetsFit
  rw [within]
  constructor
  · rintro ⟨named, indexed⟩
    have none_ := (indexed_iff tried).mp indexed
    exact ⟨none_, (fits none_).mp named⟩
  · rintro ⟨none_, fit⟩
    exact ⟨(fits none_).mpr fit, (indexed_iff tried).mpr none_⟩

def OnHttp.routerCall (call : OnHttp η) : RouterCall (RouteHandler η) :=
  match call.handler with
  | none => .remove call.method call.pattern call.priority
  | some handler => .add ⟨call.method, call.pattern, call.priority, ⟨handler, parameterOffsets call.pattern⟩⟩

theorem onHttp_runCall (router : HttpRouter (RouteHandler η)) (call : OnHttp η) :
    router.onHttp call = router.runCall call.routerCall := by
  unfold HttpRouter.onHttp OnHttp.routerCall
  cases call.handler <;> rfl

theorem onHttps_runCalls (calls : List (OnHttp η)) :
    HttpRouter.onHttps calls = HttpRouter.runCalls (calls.map OnHttp.routerCall) := by
  unfold HttpRouter.onHttps HttpRouter.runCalls
  rw [List.foldl_map]
  congr 1
  funext router call
  exact onHttp_runCall router call

theorem registered_offsets (calls : List (OnHttp η)) :
    ∀ route ∈ registered (calls.map OnHttp.routerCall), route.handler.parameterOffsets = parameterOffsets route.pattern := by
  have step : ∀ (calls : List (OnHttp η)) (routes : List (Route (RouteHandler η))),
      (∀ route ∈ routes, route.handler.parameterOffsets = parameterOffsets route.pattern) →
      ∀ route ∈ (calls.map OnHttp.routerCall).foldl RouterCall.register routes,
        route.handler.parameterOffsets = parameterOffsets route.pattern := by
    intro calls
    induction calls with
    | nil => exact fun routes held => held
    | cons call calls ih =>
      intro routes held
      refine ih _ ?_
      have filtered : ∀ route ∈ unregister call.method call.pattern call.priority routes,
          route.handler.parameterOffsets = parameterOffsets route.pattern :=
        fun route member => held route (List.mem_of_mem_filter member)
      unfold OnHttp.routerCall
      cases call.handler with
      | none => exact filtered
      | some handler =>
        intro route member
        rcases List.mem_append.mp member with earlier | new
        · exact filtered route earlier
        · rw [List.mem_singleton.mp new]
  exact step calls [] nofun

/-- A handler that runs gets its parameters by name and by index exactly where the offsets of its pattern fit. -/
theorem parameters_answered (calls : List (OnHttp η)) (answers : Answers (RouteHandler η)) (method url : Bytes)
    (handler : RouteHandler η) (parameters : List Bytes)
    (ran : (handler, parameters) ∈ ((HttpRouter.onHttps calls).route answers method url).1.ran) :
    ∃ route ∈ registered (calls.map OnHttp.routerCall), route.handler = handler ∧
      ((parameterNames (urlSegments route.pattern)).Nodup →
        (AnswersParameters route.pattern url (handler.request parameters) ↔ OffsetsFit route.pattern url)) := by
  rw [onHttps_runCalls] at ran
  have outcome := congrArg Prod.fst
    ((HttpRouter.runCalls (calls.map OnHttp.routerCall)).route_ran answers method url)
  obtain ⟨front, begins, all⟩ := runUntilDone_ran answers []
    ((HttpRouter.runCalls (calls.map OnHttp.routerCall)).tried method url)
  simp only at outcome
  rw [outcome, all, List.nil_append] at ran
  obtain ⟨route, member, rfl, tried⟩ :=
    (runCalls_represents (calls.map OnHttp.routerCall)).tried_with (begins.subset ran)
  exact ⟨route, member, rfl, answers_iff (registered_offsets calls route member) tried⟩

end Theorem

theorem behindColon_none {segment : Bytes} (none_ : colon ∉ segment) : behindColon segment = none := by
  induction segment with
  | nil => rfl
  | cons c rest ih =>
    rw [List.mem_cons, not_or] at none_
    rw [behindColon, if_neg (Ne.symm none_.1)]
    exact ih none_.2

theorem names_eq_texts {segments : List Bytes}
    (leading : ∀ segment ∈ segments, colon ∈ segment → isParameter segment = true) :
    segments.filterMap behindColon = parameterNames segments := by
  induction segments with
  | nil => rfl
  | cons segment segments ih =>
    have others := ih fun other member => leading other (List.mem_cons_of_mem _ member)
    rw [List.filterMap_cons, parameterNames_cons]
    by_cases parameter : isParameter segment = true
    · have own : behindColon segment = some segment.tail := by
        rw [isParameter_cons parameter, behindColon, if_pos rfl, List.tail_cons]
      rw [if_pos parameter, own, ← others]
    · have none_ : colon ∉ segment := fun member => parameter (leading segment List.mem_cons_self member)
      rw [if_neg parameter, behindColon_none none_]
      exact others

theorem offsetsFit_of_leading {pattern : Bytes} (stands : pattern.head? = some slash)
    (within : (urlSegments pattern).length ≤ maxUrlSegments)
    (leading : ∀ segment ∈ urlSegments pattern, colon ∈ segment → isParameter segment = true) (url : Bytes) :
    OffsetsFit pattern url := by
  have texts : colonTexts pattern = keptNames pattern := by
    unfold keptNames
    rw [List.take_of_length_le within, ← names_eq_texts leading]
    cases pattern with
    | nil => cases stands
    | cons c rest =>
      obtain rfl := Option.some.inj stands
      unfold colonTexts urlSegments
      rw [splitSlashes, if_pos rfl]
      rfl
  have few : (colonTexts pattern).length ≤ 2 ^ 16 := by
    rw [texts]
    unfold keptNames parameterNames
    rw [List.length_map]
    have short := (List.length_filter_le isParameter ((urlSegments pattern).take maxUrlSegments)).trans
      (List.length_take_le _ _)
    exact short.trans (by decide)
  constructor
  · intro placed beyond
    have none_ : (placedSegments pattern url).drop maxUrlSegments = [] := by
      apply List.drop_eq_nil_of_le
      unfold placedSegments
      rw [List.length_zip]
      omega
    rw [none_] at beyond
    cases beyond
  · rw [if_pos few, texts]
    refine ⟨List.prefix_refl _, ?_⟩
    rw [List.drop_length]
    exact List.forall_mem_nil _

def userCalls : List (OnHttp Nat) := [{ method := ascii "GET", pattern := ascii "/u/:id", handler := some 0 }]

theorem user_answered :
    ∃ ran ∈ ((HttpRouter.onHttps userCalls).route (fun _ => false) (ascii "GET") (ascii "/u/7")).1.ran,
      ran.1.handler = 0 ∧ AnswersParameters (ascii "/u/:id") (ascii "/u/7") (ran.1.request ran.2) := by
  have some_ : (((HttpRouter.onHttps userCalls).route (fun _ => false) (ascii "GET") (ascii "/u/7")).1.ran.map
      fun ran => ran.1.handler) = [0] := by
    decide +kernel
  obtain ⟨ran, member, own⟩ := List.mem_map.mp (some_ ▸ List.mem_singleton.mpr rfl : 0 ∈ List.map _ _)
  obtain ⟨route, registered_, -, fits⟩ := parameters_answered userCalls _ _ _ ran.1 ran.2 member
  have patterns : ∀ route ∈ registered (userCalls.map OnHttp.routerCall), route.pattern = ascii "/u/:id" := by
    decide +kernel
  rw [patterns route registered_] at fits
  have fit : OffsetsFit (ascii "/u/:id") (ascii "/u/7") :=
    offsetsFit_of_leading (by decide +kernel) (by decide +kernel) (by decide +kernel) _
  exact ⟨ran, member, own, (fits (by decide +kernel)).mpr fit⟩

def portCalls : List (OnHttp Nat) := [{ method := ascii "GET", pattern := ascii "/a:b/:id", handler := some 0 }]

/-- The colon in a static segment takes the offset of the parameter behind it. -/
theorem colon_shifts_parameters :
    ¬ ∀ (calls : List (OnHttp Nat)) (answers : Answers (RouteHandler Nat)) (method url : Bytes)
        (handler : RouteHandler Nat) (parameters : List Bytes),
        (handler, parameters) ∈ ((HttpRouter.onHttps calls).route answers method url).1.ran →
        ∃ route ∈ registered (calls.map OnHttp.routerCall), route.handler = handler ∧
          ((parameterNames (urlSegments route.pattern)).Nodup →
            AnswersParameters route.pattern url (handler.request parameters)) := by
  intro claimed
  have some_ : (((HttpRouter.onHttps portCalls).route (fun _ => false) (ascii "GET") (ascii "/a:b/7")).1.ran.map
      fun ran => (ran.1.request ran.2).getParameter (ascii "id")) = [none] := by
    decide +kernel
  obtain ⟨ran, member, unanswered⟩ := List.mem_map.mp (some_ ▸ List.mem_singleton.mpr rfl : none ∈ List.map _ _)
  obtain ⟨route, registered_, -, answered⟩ := claimed portCalls _ _ _ ran.1 ran.2 member
  have patterns : ∀ route ∈ registered (portCalls.map OnHttp.routerCall), route.pattern = ascii "/a:b/:id" := by
    decide +kernel
  rw [patterns route registered_] at answered
  have named := (answered (by decide +kernel)).named (ascii "id")
  rw [unanswered] at named
  have there : (placedSegments (ascii "/a:b/:id") (ascii "/a:b/7")).lookup (colon :: ascii "id") = some (ascii "7") := by
    decide +kernel
  rw [there] at named
  cases named

end Uws.Http
