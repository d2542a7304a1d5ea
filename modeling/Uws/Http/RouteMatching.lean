import Uws.Http.RouterRuns

namespace Uws.Http

open Node HttpRouter

def splitSlashes : Bytes → List Bytes
  | [] => [[]]
  | c :: rest =>
    if c = slash then [] :: splitSlashes rest
    else
      match splitSlashes rest with
      | [] => [[c]]
      | segment :: segments => (c :: segment) :: segments

def urlSegments : Bytes → List Bytes
  | [] => []
  | _ :: rest => splitSlashes rest

theorem splitSlashes_eq (rest : Bytes) :
    splitSlashes rest = rest.takeWhile (· ≠ slash) :: urlSegments (rest.drop (rest.takeWhile (· ≠ slash)).length) := by
  induction rest with
  | nil => rfl
  | cons c rest ih =>
    rw [splitSlashes]
    by_cases stop : c = slash
    · rw [if_pos stop, List.takeWhile_cons_of_neg (by simpa using stop)]
      rfl
    · rw [if_neg stop, ih, List.takeWhile_cons_of_pos (by simpa using stop)]
      rfl

theorem splitSlashes_length (rest : Bytes) : (splitSlashes rest).length = rest.count slash + 1 := by
  induction rest with
  | nil => rfl
  | cons c rest ih =>
    rw [splitSlashes]
    by_cases stop : c = slash
    · rw [if_pos stop, List.length_cons, ih, stop, List.count_cons_self]
    · rw [if_neg stop, List.count_cons_of_ne stop, ← ih, splitSlashes_eq]
      rfl

structure Cached (segments : List Bytes) (i : Nat) (cache : UrlCache) : Prop where
  parsed : cache.urlSegmentVector ++ (urlSegments cache.currentUrl).take (maxUrlSegments - cache.urlSegmentVector.length) =
    segments
  behind : i ≤ cache.urlSegmentVector.length
  within : cache.urlTooLong = false

theorem Cached.getUrlSegment {segments : List Bytes} {i : Nat} {cache : UrlCache} (cached : Cached segments i cache) :
    (cache.getUrlSegment i).2 = segments[i]? ∧ Cached segments i (cache.getUrlSegment i).1 ∧
      ((cache.getUrlSegment i).2 ≠ none → Cached segments (i + 1) (cache.getUrlSegment i).1) := by
  obtain ⟨parsed, behind, within⟩ := cached
  unfold UrlCache.getUrlSegment
  by_cases fresh : cache.urlSegmentVector.length ≤ i
  · have index : i = cache.urlSegmentVector.length := Nat.le_antisymm behind fresh
    rw [if_pos fresh]
    by_cases stop : cache.currentUrl = [] ∨ maxUrlSegments - 1 < i
    · rw [if_pos stop]
      have rest : (urlSegments cache.currentUrl).take (maxUrlSegments - cache.urlSegmentVector.length) = [] := by
        rcases stop with empty | full
        · rw [empty, urlSegments, List.take_nil]
        · have none : maxUrlSegments - cache.urlSegmentVector.length = 0 := by omega
          rw [none, List.take_zero]
      rw [rest, List.append_nil] at parsed
      refine ⟨?_, ⟨by rw [rest, List.append_nil, parsed], behind, within⟩, fun some => absurd rfl some⟩
      rw [← parsed, index, List.getElem?_eq_none (Nat.le_refl _)]
    · rw [if_neg stop]
      rw [not_or, Nat.not_lt] at stop
      have room : maxUrlSegments - cache.urlSegmentVector.length =
          maxUrlSegments - (cache.urlSegmentVector.length + 1) + 1 := by
        have : 0 < maxUrlSegments := by decide
        omega
      have split : urlSegments cache.currentUrl = (cache.currentUrl.drop 1).takeWhile (· ≠ slash) ::
          urlSegments ((cache.currentUrl.drop 1).drop ((cache.currentUrl.drop 1).takeWhile (· ≠ slash)).length) := by
        cases url : cache.currentUrl with
        | nil => exact absurd url stop.1
        | cons c rest => exact splitSlashes_eq rest
      have next : Cached segments (i + 1) { cache with
          currentUrl := (cache.currentUrl.drop 1).drop ((cache.currentUrl.drop 1).takeWhile (· ≠ slash)).length,
          urlSegmentVector := cache.urlSegmentVector ++ [(cache.currentUrl.drop 1).takeWhile (· ≠ slash)] } := by
        refine ⟨?_, by simp only [List.length_append, List.length_singleton]; omega, within⟩
        simp only [List.length_append, List.length_singleton, List.append_assoc]
        rw [split, room, List.take_succ_cons] at parsed
        exact parsed
      refine ⟨?_, ⟨next.parsed, Nat.le_of_succ_le next.behind, within⟩, fun _ => next⟩
      simp only
      rw [← next.parsed, List.append_assoc, index, List.getElem?_append_right (Nat.le_refl _), Nat.sub_self]
      rfl
  · rw [if_neg fresh]
    have same : cache.urlSegmentVector[i]? = segments[i]? := by
      rw [← parsed, List.getElem?_append_left (by omega)]
    exact ⟨same, ⟨parsed, behind, within⟩, fun _ => ⟨parsed, Nat.not_le.mp fresh, within⟩⟩

theorem setUrl_cached (url : Bytes) :
    Cached ((urlSegments url).take maxUrlSegments) 0 { setUrl url with urlTooLong := false } := ⟨rfl, Nat.zero_le _, rfl⟩

theorem collectSegments_cached (segments : List Bytes) (fuel i : Nat) (cache : UrlCache) (cached : Cached segments i cache)
    (enough : segments.length < i + fuel) : collectSegments fuel i cache = segments.drop i := by
  induction fuel generalizing i cache with
  | zero => rw [collectSegments, List.drop_eq_nil_of_le (by omega)]
  | succ fuel ih =>
    obtain ⟨value, -, next⟩ := cached.getUrlSegment
    rw [collectSegments]
    cases found : (cache.getUrlSegment i).2 with
    | none =>
      rw [found] at value
      have pair : cache.getUrlSegment i = ((cache.getUrlSegment i).1, none) := Prod.ext rfl found
      rw [pair]
      exact (List.drop_eq_nil_of_le (List.getElem?_eq_none_iff.mp value.symm)).symm
    | some segment =>
      rw [found] at value next
      have pair : cache.getUrlSegment i = ((cache.getUrlSegment i).1, some segment) := Prod.ext rfl found
      rw [pair]
      simp only
      rw [ih (i + 1) _ (next nofun) (by omega)]
      obtain ⟨below, own⟩ := List.getElem?_eq_some_iff.mp value.symm
      rw [List.drop_eq_getElem_cons below, own]

theorem collectSegments_tooLong (fuel i : Nat) (cache : UrlCache) (tooLong : Bool) :
    collectSegments fuel i { cache with urlTooLong := tooLong } = collectSegments fuel i cache := by
  induction fuel generalizing i cache with
  | zero => rfl
  | succ fuel ih =>
    have same : UrlCache.getUrlSegment { cache with urlTooLong := tooLong } i =
        ({ (cache.getUrlSegment i).1 with urlTooLong := tooLong }, (cache.getUrlSegment i).2) := by
      simp only [UrlCache.getUrlSegment]
      split
      · split <;> rfl
      · rfl
    rw [collectSegments, collectSegments, same]
    rcases cache.getUrlSegment i with ⟨next, _ | segment⟩
    · rfl
    · exact congrArg _ (ih (i + 1) next)

theorem patternSegments_eq (pattern : Bytes) : patternSegments pattern = (urlSegments pattern).take maxUrlSegments := by
  have cached := setUrl_cached pattern
  have length : ((urlSegments pattern).take maxUrlSegments).length < 0 + (maxUrlSegments + 1) := by
    rw [List.length_take]
    omega
  have collected := collectSegments_cached _ _ _ _ cached length
  rwa [collectSegments_tooLong, List.drop_zero] at collected

abbrev Match := HandlerId × List Bytes

mutual

/-- The handlers that are tried below a node while all yield, for the segments that are left. -/
def nodeMatches : Node → List Bytes → List Bytes → List Match
  | .mk _ _ ids _, [], params => ids.map fun id => (id, params)
  | .mk _ children _ _, segment :: segments, params => childMatches children segment segments params

def childMatches : List Node → Bytes → List Bytes → List Bytes → List Match
  | [], _, _, _ => []
  | p :: rest, segment, segments, params =>
    (if p.name.head? = some asterisk then p.handlers.map fun id => (id, params)
      else if p.name.head? = some colon ∧ segment ≠ [] then nodeMatches p segments (params ++ [segment])
      else if p.name = segment then nodeMatches p segments params
      else []) ++ childMatches rest segment segments params

end

variable {η : Type}

def runUntilDone (answers : Answers η) : List (η × List Bytes) → List (η × List Bytes) → List (η × List Bytes) × Bool
  | ran, [] => (ran, false)
  | ran, handler :: rest => if answers (ran ++ [handler]) then (ran ++ [handler], true)
      else runUntilDone answers (ran ++ [handler]) rest

theorem runUntilDone_append (answers : Answers η) (ran front back : List (η × List Bytes)) :
    runUntilDone answers ran (front ++ back) =
      if (runUntilDone answers ran front).2 then ((runUntilDone answers ran front).1, true)
      else runUntilDone answers (runUntilDone answers ran front).1 back := by
  induction front generalizing ran with
  | nil => rfl
  | cons handler front ih =>
    rw [List.cons_append, runUntilDone, runUntilDone]
    split
    · rfl
    · exact ih _

theorem runUntilDone_ran (answers : Answers η) (ran tried : List (η × List Bytes)) :
    ∃ front, front <+: tried ∧ (runUntilDone answers ran tried).1 = ran ++ front := by
  induction tried generalizing ran with
  | nil => exact ⟨[], List.prefix_refl _, (List.append_nil ran).symm⟩
  | cons handler tried ih =>
    rw [runUntilDone]
    split
    · exact ⟨[handler], ⟨tried, rfl⟩, rfl⟩
    · obtain ⟨front, ⟨back, rfl⟩, all⟩ := ih (ran ++ [handler])
      exact ⟨handler :: front, ⟨back, rfl⟩, by rw [all, List.append_assoc]; rfl⟩

def lookupMatches (handlers : List η) (found : List Match) : List (η × List Bytes) :=
  found.filterMap fun m => (handlers[m.1.index]?).map fun handler => (handler, m.2)

theorem lookupMatches_append (handlers : List η) (front back : List Match) :
    lookupMatches handlers (front ++ back) = lookupMatches handlers front ++ lookupMatches handlers back :=
  List.filterMap_append

/-- A routing that ran these handlers, and if none ended it is as it was but for its cache. -/
structure Ran (answers : Answers η) (tried : List (η × List Bytes)) (segments : List Bytes) (i : Nat)
    (routing : Routing η) (result : Routing η × Bool) : Prop where
  ran : (result.1.ran, result.2) = runUntilDone answers routing.ran tried
  cached : Cached segments i result.1.cache
  parameters : result.2 = false → result.1.routeParameters = routing.routeParameters

section Running

variable (answers : Answers η) (handlers : List η) {segments : List Bytes}

theorem Ran.then {tried more : List (η × List Bytes)} {i : Nat} {routing : Routing η} {first : Routing η × Bool}
    (ran : Ran answers tried segments i routing first) (go : Routing η → Routing η × Bool)
    (next : ∀ later : Routing η, later.routeParameters = routing.routeParameters → Cached segments i later.cache →
      Ran answers more segments i later (go later)) :
    Ran answers (tried ++ more) segments i routing (if first.2 then (first.1, true) else go first.1) := by
  obtain ⟨outcome, cached, parameters⟩ := ran
  have split := runUntilDone_append answers routing.ran tried more
  rw [← outcome] at split
  cases done : first.2 with
  | true =>
    rw [done] at split
    exact ⟨split.symm, cached, nofun⟩
  | false =>
    obtain ⟨later, cached', parameters'⟩ := next first.1 (parameters done) cached
    rw [done] at split
    exact ⟨later.trans split.symm, cached', fun open_ => (parameters' open_).trans (parameters done)⟩

theorem Ran.thenPopped {tried more : List (η × List Bytes)} {i : Nat} {routing : Routing η} {segment : Bytes}
    {first : Routing η × Bool}
    (ran : Ran answers tried segments i { routing with routeParameters := routing.routeParameters ++ [segment] } first)
    (go : Routing η → Routing η × Bool)
    (next : ∀ later : Routing η, later.routeParameters = routing.routeParameters → Cached segments i later.cache →
      Ran answers more segments i later (go later)) :
    Ran answers (tried ++ more) segments i routing
      (if first.2 then (first.1, true) else go { first.1 with routeParameters := first.1.routeParameters.dropLast }) := by
  have popped : first.2 = false → first.1.routeParameters.dropLast = routing.routeParameters := fun open_ => by
    rw [ran.parameters open_, List.dropLast_concat]
  have own : Ran answers tried segments i routing
      ({ first.1 with routeParameters := first.1.routeParameters.dropLast }, first.2) :=
    ⟨ran.ran, ran.cached, popped⟩
  cases done : first.2 with
  | true =>
    have split := runUntilDone_append answers routing.ran tried more
    rw [← own.ran, done] at split
    exact ⟨split.symm, ran.cached, nofun⟩
  | false =>
    have both := own.then answers go next
    rw [done] at both
    exact both

theorem runHandlers_ran (ids : List HandlerId) {i : Nat} (routing : Routing η)
    (cached : Cached segments i routing.cache) :
    Ran answers (lookupMatches handlers (ids.map fun id => (id, routing.routeParameters))) segments i routing
      (runHandlers answers handlers ids routing) := by
  induction ids generalizing routing with
  | nil => exact ⟨rfl, cached, fun _ => rfl⟩
  | cons id ids ih =>
    rw [runHandlers, List.map_cons, lookupMatches, List.filterMap_cons]
    cases found : handlers[id.index]? with
    | none => exact ih routing cached
    | some handler =>
      simp only [Option.map_some]
      obtain ⟨outcome, cached', parameters⟩ := ih { routing with ran := routing.ran ++ [(handler, routing.routeParameters)] } cached
      by_cases done : answers (routing.ran ++ [(handler, routing.routeParameters)]) = true
      · rw [if_pos done]
        exact ⟨by rw [runUntilDone, if_pos done], cached, nofun⟩
      · rw [if_neg done]
        exact ⟨by rw [runUntilDone, if_neg done]; exact outcome, cached', parameters⟩

mutual

theorem executeHandlers_ran (p : Node) (i : Nat) (routing : Routing η) (cached : Cached segments i routing.cache) :
    Ran answers (lookupMatches handlers (nodeMatches p (segments.drop i) routing.routeParameters)) segments i routing
      (executeHandlers answers handlers p i routing) := by
  match p with
  | .mk name children ids high =>
    obtain ⟨value, same, next⟩ := cached.getUrlSegment
    rw [executeHandlers, if_neg (by rw [cached.within]; exact Bool.false_ne_true)]
    cases found : (routing.cache.getUrlSegment i).2 with
    | none =>
      have pair : routing.cache.getUrlSegment i = ((routing.cache.getUrlSegment i).1, none) := Prod.ext rfl found
      rw [found] at value
      rw [List.drop_eq_nil_of_le (List.getElem?_eq_none_iff.mp value.symm), nodeMatches, pair]
      obtain ⟨outcome, cached', parameters⟩ := runHandlers_ran answers handlers ids
        { routing with cache := (routing.cache.getUrlSegment i).1 } same
      exact ⟨outcome, cached', parameters⟩
    | some segment =>
      have pair : routing.cache.getUrlSegment i = ((routing.cache.getUrlSegment i).1, some segment) := Prod.ext rfl found
      rw [found] at value next
      obtain ⟨below, own⟩ := List.getElem?_eq_some_iff.mp value.symm
      rw [List.drop_eq_getElem_cons below, own, nodeMatches, pair]
      obtain ⟨outcome, cached', parameters⟩ := executeChildren_ran children i segment
        { routing with cache := (routing.cache.getUrlSegment i).1 } (next nofun)
      exact ⟨outcome, ⟨cached'.parsed, Nat.le_of_succ_le cached'.behind, cached'.within⟩, parameters⟩

theorem executeChildren_ran (children : List Node) (i : Nat) (segment : Bytes) (routing : Routing η)
    (cached : Cached segments (i + 1) routing.cache) :
    Ran answers (lookupMatches handlers (childMatches children segment (segments.drop (i + 1)) routing.routeParameters))
      segments (i + 1) routing (executeChildren answers handlers children i segment routing) := by
  match children with
  | [] => exact ⟨rfl, cached, fun _ => rfl⟩
  | p :: rest =>
    have others : ∀ later : Routing η, later.routeParameters = routing.routeParameters →
        Cached segments (i + 1) later.cache →
        Ran answers (lookupMatches handlers (childMatches rest segment (segments.drop (i + 1)) routing.routeParameters))
          segments (i + 1) later (executeChildren answers handlers rest i segment later) := by
      intro later same cached
      rw [← same]
      exact executeChildren_ran rest i segment later cached
    rw [executeChildren, childMatches, lookupMatches_append]
    by_cases wildcard : p.name.head? = some asterisk
    · rw [if_pos wildcard, if_pos wildcard]
      exact (runHandlers_ran answers handlers p.handlers routing cached).then answers _ others
    · rw [if_neg wildcard, if_neg wildcard]
      by_cases parameter : p.name.head? = some colon ∧ segment ≠ []
      · rw [if_pos parameter, if_pos parameter]
        have inside := executeHandlers_ran p (i + 1)
          { routing with routeParameters := routing.routeParameters ++ [segment] } cached
        exact inside.thenPopped answers _ others
      · rw [if_neg parameter, if_neg parameter]
        by_cases static : p.name = segment
        · rw [if_pos static, if_pos static]
          exact (executeHandlers_ran p (i + 1) routing cached).then answers _ others
        · rw [if_neg static, if_neg static]
          exact others routing rfl cached

end

end Running

end Uws.Http
