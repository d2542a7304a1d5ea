import Uws.Http.Headers

namespace Uws.Http

def anyMethodToken : Bytes := ascii "*"
def maxUrlSegments : Nat := 100

def slash : UInt8 := 47
def asterisk : UInt8 := 42

inductive Priority where
  | high
  | medium
  | low
deriving DecidableEq, Repr

def Priority.bits : Priority → Nat
  | .high => 0xd0000000
  | .medium => 0xe0000000
  | .low => 0xf0000000

/-- A handler's id: a priority in the bits over `HANDLER_MASK`, and an index into the list of handlers below. -/
structure HandlerId where
  priority : Priority
  index : Nat
deriving DecidableEq, Repr

def HandlerId.before (a b : HandlerId) : Bool :=
  decide (a.priority.bits < b.priority.bits) || (a.priority == b.priority && decide (a.index < b.index))

inductive Node where
  | mk (name : Bytes) (children : List Node) (handlers : List HandlerId) (isHighPriority : Bool)

namespace Node

def name : Node → Bytes | mk name _ _ _ => name
def children : Node → List Node | mk _ children _ _ => children
def handlers : Node → List HandlerId | mk _ _ handlers _ => handlers
def isHighPriority : Node → Bool | mk _ _ _ isHighPriority => isHighPriority

end Node

structure UrlCache where
  currentUrl : Bytes
  urlSegmentVector : List Bytes := []
  urlTooLong : Bool := false
deriving DecidableEq, Repr

def setUrl (url : Bytes) : UrlCache :=
  { currentUrl := url, urlTooLong := decide (maxUrlSegments < url.count slash) }

/-- Lazily parsed or read from the cache; nothing where the URL or the stack ends. -/
def UrlCache.getUrlSegment (cache : UrlCache) (urlSegment : Nat) : UrlCache × Option Bytes :=
  if cache.urlSegmentVector.length ≤ urlSegment then
    if cache.currentUrl = [] ∨ maxUrlSegments - 1 < urlSegment then (cache, none)
    else
      let currentUrl := cache.currentUrl.drop 1
      let segment := currentUrl.takeWhile (· ≠ slash)
      ({ cache with
        currentUrl := currentUrl.drop segment.length, urlSegmentVector := cache.urlSegmentVector ++ [segment] },
        some segment)
  else (cache, cache.urlSegmentVector[urlSegment]?)

/-- The segments of a pattern, as the loops of `add` and `findHandler` go through them. -/
def collectSegments : Nat → Nat → UrlCache → List Bytes
  | 0, _, _ => []
  | fuel + 1, i, cache =>
    match cache.getUrlSegment i with
    | (_, none) => []
    | (cache, some segment) => segment :: collectSegments fuel (i + 1) cache

def patternSegments (pattern : Bytes) : List Bytes := collectSegments (maxUrlSegments + 1) 0 (setUrl pattern)

def lexicalOrder (name : Bytes) : Nat :=
  match name with
  | [] => 2
  | c :: _ => if c = colon then 1 else if c = asterisk then 0 else 2

def strippedSegment (segment : Bytes) : Bytes := if segment.head? = some colon then [colon] else segment

def sortsBefore (isRoot : Bool) (name : Bytes) (isHighPriority : Bool) (b : Node) : Bool :=
  if isHighPriority != b.isHighPriority then isHighPriority
  else !b.name.isEmpty && !isRoot && decide (lexicalOrder b.name < lexicalOrder name)

def updateChild (name : Bytes) (isHighPriority : Bool) (f : Node → Node) : List Node → Option (List Node)
  | [] => none
  | p :: rest =>
    if p.name = name ∧ p.isHighPriority = isHighPriority then some (f p :: rest)
    else (updateChild name isHighPriority f rest).map (p :: ·)

def insertSorted (isRoot : Bool) (name : Bytes) (isHighPriority : Bool) (new : Node) : List Node → List Node
  | [] => [new]
  | b :: rest =>
    if sortsBefore isRoot name isHighPriority b then new :: b :: rest
    else b :: insertSorted isRoot name isHighPriority new rest

/-- Advances to a child, which is added where it is missing; `f` is what is done with it there. -/
def getNode (isRoot : Bool) (children : List Node) (child : Bytes) (isHighPriority : Bool) (f : Node → Node) : List Node :=
  match updateChild child isHighPriority f children with
  | some children => children
  | none => insertSorted isRoot child isHighPriority (f (.mk child [] [] isHighPriority)) children

def insertHandler (id : HandlerId) : List HandlerId → List HandlerId
  | [] => [id]
  | b :: rest => if id.before b then id :: b :: rest else b :: insertHandler id rest

def addSegments (isHighPriority : Bool) (id : HandlerId) : List Bytes → Node → Node
  | [], .mk name children handlers high => .mk name children (insertHandler id handlers) high
  | segment :: segments, .mk name children handlers high =>
    .mk name (getNode false children (strippedSegment segment) isHighPriority (addSegments isHighPriority id segments))
      handlers high

def findNode (isHighPriority : Bool) : List Bytes → Node → Option Node
  | [], node => some node
  | segment :: segments, node =>
    match node.children.find? fun child =>
        ((segment.head? == some colon && child.name.head? == some colon) || child.name == segment) &&
          child.isHighPriority == isHighPriority with
    | none => none
    | some next => findNode isHighPriority segments next

def cullHandlers (handler : HandlerId) : List HandlerId → List HandlerId
  | [] => []
  | id :: rest =>
    if handler.index < id.index then { id with index := id.index - 1 } :: cullHandlers handler rest
    else if id = handler then cullHandlers handler rest
    else id :: cullHandlers handler rest

mutual

/-- What is left of a node; nothing where its parent removes it. -/
def cullNode (handler : HandlerId) : Node → Option Node
  | .mk name children handlers high =>
    let children := cullChildren handler children
    let handlers := cullHandlers handler handlers
    if handlers = [] ∧ children.isEmpty then none else some (.mk name children handlers high)

def cullChildren (handler : HandlerId) : List Node → List Node
  | [] => []
  | p :: rest =>
    match cullNode handler p with
    | none => cullChildren handler rest
    | some p => p :: cullChildren handler rest

end

def methodBefore (a b : Node) : Bool :=
  if a.name = ascii "GET" ∧ b.name ≠ ascii "GET" then true
  else if b.name = ascii "GET" ∧ a.name ≠ ascii "GET" then false
  else if a.name = anyMethodToken ∧ b.name ≠ anyMethodToken then false
  else if b.name = anyMethodToken ∧ a.name ≠ anyMethodToken then true
  else decide (a.name < b.name)

structure HttpRouter (η : Type) where
  handlers : List η := []
  root : List Node := getNode true [] anyMethodToken false id

/-- A request on its way through the router: the handlers that were run, with the parameters they saw. -/
structure Routing (η : Type) where
  cache : UrlCache
  routeParameters : List Bytes := []
  ran : List (η × List Bytes) := []

namespace HttpRouter

variable {η : Type}

/-- Whether a handler did not yield may depend on all that were run. -/
abbrev Answers (η : Type) := List (η × List Bytes) → Bool

def runHandlers (answers : Answers η) (handlers : List η) : List HandlerId → Routing η → Routing η × Bool
  | [], routing => (routing, false)
  | id :: rest, routing =>
    match handlers[id.index]? with
    | none => runHandlers answers handlers rest routing
    | some handler =>
      let routing := { routing with ran := routing.ran ++ [(handler, routing.routeParameters)] }
      if answers routing.ran then (routing, true) else runHandlers answers handlers rest routing

mutual

def executeHandlers (answers : Answers η) (handlers : List η) : Node → Nat → Routing η → Routing η × Bool
  | .mk _ children ids _, urlSegment, routing =>
    if routing.cache.urlTooLong then (routing, false)
    else
      match routing.cache.getUrlSegment urlSegment with
      | (cache, none) => runHandlers answers handlers ids { routing with cache }
      | (cache, some segment) => executeChildren answers handlers children urlSegment segment { routing with cache }

/-- The loop over the children: a wildcard, a parameter and a static match. -/
def executeChildren (answers : Answers η) (handlers : List η) :
    List Node → Nat → Bytes → Routing η → Routing η × Bool
  | [], _, _, routing => (routing, false)
  | p :: rest, urlSegment, segment, routing =>
    if p.name.head? = some asterisk then
      let (routing, done) := runHandlers answers handlers p.handlers routing
      if done then (routing, true) else executeChildren answers handlers rest urlSegment segment routing
    else if p.name.head? = some colon ∧ segment ≠ [] then
      let routing := { routing with routeParameters := routing.routeParameters ++ [segment] }
      let (routing, done) := executeHandlers answers handlers p (urlSegment + 1) routing
      if done then (routing, true)
      else
        let routing := { routing with routeParameters := routing.routeParameters.dropLast }
        executeChildren answers handlers rest urlSegment segment routing
    else if p.name = segment then
      let (routing, done) := executeHandlers answers handlers p (urlSegment + 1) routing
      if done then (routing, true) else executeChildren answers handlers rest urlSegment segment routing
    else executeChildren answers handlers rest urlSegment segment routing

end

/-- With no node at the root there is no fallback; a URL that is too long then reads behind an empty vector. -/
def executeLast (answers : Answers η) (router : HttpRouter η) (routing : Routing η) : Routing η × Bool :=
  match router.root.getLast? with
  | none => (routing, false)
  | some node => executeHandlers answers router.handlers node 0 routing

def route (answers : Answers η) (router : HttpRouter η) (method url : Bytes) : Routing η × Bool :=
  let routing : Routing η := { cache := setUrl url }
  if routing.cache.urlTooLong then
    executeLast answers router { routing with cache := { routing.cache with urlTooLong := false } }
  else
    let (routing, done) :=
      match router.root.find? (·.name == method) with
      | none => (routing, false)
      | some node => executeHandlers answers router.handlers node 0 routing
    if done then (routing, true) else executeLast answers router routing

def findHandler (router : HttpRouter η) (method pattern : Bytes) (priority : Priority) : Option HandlerId :=
  match router.root.find? (·.name == method) with
  | none => none
  | some node =>
    match findNode (priority == .high) (patternSegments pattern) node with
    | none => none
    | some node => node.handlers.find? (·.priority == priority)

def remove (router : HttpRouter η) (method pattern : Bytes) (priority : Priority) : HttpRouter η × Bool :=
  match router.findHandler method pattern priority with
  | none => (router, false)
  | some handler =>
    ({ handlers := router.handlers.eraseIdx handler.index, root := cullChildren handler router.root }, true)

def add (router : HttpRouter η) (method pattern : Bytes) (handler : η) (priority : Priority) : HttpRouter η :=
  let router := (router.remove method pattern priority).1
  let id := ⟨priority, router.handlers.length⟩
  let root := getNode true router.root method false (addSegments (priority == .high) id (patternSegments pattern))
  { handlers := router.handlers ++ [handler], root := root.insertionSort (fun a b => !methodBefore b a) }

end HttpRouter

end Uws.Http
