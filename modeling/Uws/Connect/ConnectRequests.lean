import Uws.Library.LinkedList

/-! The requests of outbound connections, from the resolver to the socket that their owner takes over. -/

namespace Uws.Connect

open Uws.LinkedList

/-- A pointer is the address of what it points to. The address of a request is not used again. -/
abbrev Request := Nat
abbrev Context := Nat
abbrev Socket := Nat

inductive ConnectState where
  | resolving
  | connecting
  | handshaking
  | done
  | cancelled
  deriving DecidableEq

/-- The timer of a request: closed or never made, not set or fired, or set. -/
inductive Timer where
  | closed
  | idle
  | armed
  deriving DecidableEq

/-- What is at the address of a socket. A semi-socket has its request in the ext. -/
inductive Poll where
  | free
  | semi (r : Request) (context : Context)
  | established (context : Context)
  | closed
  deriving DecidableEq

/-- The pointer that the owner keeps to a request: `pending.request_` until the socket is open, and `request_` of the
    handshake data from then on. -/
inductive Handle where
  | none
  | pending
  | opened
  deriving DecidableEq

inductive AfterError where
  | fail
  | timer (gaiPending : Bool)

inductive Callback where
  | connectError (r : Request) (context : Context) (after : AfterError)
  | opened
  | timedOut

inductive Event (A : Type) where
  | created (r : Request)
  | refused (r : Request)
  | resolved (r : Request) (results : List A)
  | tried (r : Request) (address : A)
  | attempted (s : Socket)
  | closed (s : Socket)
  | promoted (s : Socket)
  | opened (r : Request)
  | connectError (r : Request) (code : Int)
  | cancelled (r : Request)
  | orphaned (r : Request)
  | timedOut (r : Request)
  | freed (r : Request)

/-- The event is the creation of the request, the one that ends its waiting, or the release of its memory. -/
def Event.creates {A : Type} (r : Request) : Event A → Bool
  | .created r' => decide (r' = r)
  | _ => false

def Event.ends {A : Type} (r : Request) : Event A → Bool
  | .refused r' => decide (r' = r)
  | .opened r' => decide (r' = r)
  | .connectError r' _ => decide (r' = r)
  | .cancelled r' => decide (r' = r)
  | .orphaned r' => decide (r' = r)
  | _ => false

def Event.frees {A : Type} (r : Request) : Event A → Bool
  | .freed r' => decide (r' = r)
  | _ => false

/-- The fields of every request by its address, and those of contexts and sockets that requests are about. `outstanding` are
    the resolver calls that have not called back. There is a fault once something is read or written that is not there. -/
structure World (A : Type) where
  contexts : List Context := []
  headConnectRequests : Context → Option Request := fun _ => none
  allocated : List Request := []
  context : Request → Option Context := fun _ => none
  prev : Request → Option Request := fun _ => none
  next : Request → Option Request := fun _ => none
  state : Request → ConnectState := fun _ => .resolving
  results : Request → List A := fun _ => []
  cursor : Request → List A := fun _ => []
  timer : Request → Timer := fun _ => .closed
  attempt : Request → Option Socket := fun _ => none
  handshakeTimeout : Request → Bool := fun _ => false
  poll : Socket → Poll := fun _ => .free
  pendingResolves : Nat := 0
  outstanding : List Request := []
  handle : Request → Handle := fun _ => .none
  callback : Option Callback := none
  log : List (Event A) := []
  fault : Bool := false

def ECONNREFUSED : Int := 111
def ETIMEDOUT : Int := 110

variable {A : Type}

namespace World

variable (w : World A)

def note (event : Event A) : World A := { w with log := w.log ++ [event] }

def touch (r : Request) : World A := { w with fault := w.fault || decide (r ∉ w.allocated) }

def touchContext (c : Context) : World A := { w with fault := w.fault || decide (c ∉ w.contexts) }

def touchSocket (s : Socket) : World A := { w with fault := w.fault || decide (w.poll s = .free) }

/-- The context of the socket is read or written, for its list or a handler. -/
def touchContextOf (s : Socket) : World A :=
  match w.poll s with
  | .semi _ c => w.touchContext c
  | .established c => w.touchContext c
  | _ => w

def linkRequest (c : Context) (r : Request) : World A :=
  let w := w.touchContext c
  let w := match w.headConnectRequests c with
    | some first => w.touch first
    | none => w
  { w with
    context := Function.update w.context r (some c)
    next := Function.update w.next r (w.headConnectRequests c)
    prev := relink (Function.update w.prev r none) (w.headConnectRequests c) (some r)
    headConnectRequests := Function.update w.headConnectRequests c (some r) }

/-- The part of `unlink_request` that sets the cell before the request past it, or the head of the list. -/
def unlinkBefore (c : Context) (r : Request) : World A :=
  match w.prev r with
  | some before => { w.touch before with next := Function.update w.next before (w.next r) }
  | none =>
    if w.headConnectRequests c = some r then
      { w.touchContext c with headConnectRequests := Function.update w.headConnectRequests c (w.next r) }
    else w.touchContext c

def unlinkAfter (r : Request) : World A :=
  match w.next r with
  | some after => { w.touch after with prev := Function.update w.prev after (w.prev r) }
  | none => w

/-- Nothing is to be done where the request has been orphaned. -/
def unlinkRequest (r : Request) : World A :=
  match w.context r with
  | none => w.touch r
  | some c =>
    let w := ((w.touch r).unlinkBefore c r).unlinkAfter r
    { w with prev := Function.update w.prev r none, next := Function.update w.next r none }

def requestFree (r : Request) : World A :=
  let w := w.touch r
  { w with allocated := w.allocated.erase r, log := w.log ++ [.freed r] }

def requestDropResults (r : Request) : World A :=
  { w with results := Function.update w.results r [], cursor := Function.update w.cursor r [] }

def requestCloseTimer (r : Request) : World A := { w with timer := Function.update w.timer r .closed }

/-- `us_socket_close_connecting` does nothing to a socket that is closed. -/
def closeConnecting (s : Socket) : World A :=
  let w := w.touchSocket s
  match w.poll s with
  | .closed => w
  | _ =>
    let w := w.touchContextOf s
    { w with poll := Function.update w.poll s .closed, log := w.log ++ [.closed s] }

def closeAttempt (r : Request) : World A :=
  match w.attempt r with
  | some s =>
    let w := w.closeConnecting s
    { w with attempt := Function.update w.attempt r none }
  | none => w

def afterError (r : Request) : AfterError → World A
  | .fail => (((w.touch r).requestCloseTimer r).requestDropResults r |>.unlinkRequest r).requestFree r
  | .timer gaiPending =>
    let w := ((((w.touch r).requestCloseTimer r).closeAttempt r).requestDropResults r).unlinkRequest r
    if gaiPending then { w with state := Function.update w.state r .cancelled } else w.requestFree r

/-- The owner is told that the request has failed, which forgets it. -/
def emitConnectError (r : Request) (code : Int) (after : AfterError) : World A :=
  match w.context r with
  | none => w.afterError r after
  | some c =>
    let w := w.touchContext c
    { w with
      callback := some (.connectError r c after)
      handle := Function.update w.handle r .none
      log := w.log ++ [.connectError r code] }

def connectFail (r : Request) (code : Int) : World A := ((w.touch r).closeAttempt r).emitConnectError r code .fail

def startAttempt (r : Request) (s : Socket) : World A :=
  match w.context r with
  | none => { w with fault := true }
  | some c =>
    let w := w.touchContext c
    { w with
      poll := Function.update w.poll s (.semi r c)
      attempt := Function.update w.attempt r (some s)
      log := w.log ++ [.attempted s] }

/-- The loop over the addresses from the cursor on. For each there is a socket, or the error that there is none for. -/
def tryNext (r : Request) (w : World A) : Int → List A → List (Except Int Socket) → World A
  | code, [], _ => w.connectFail r code
  | code, address :: rest, outcomes =>
    let w := w.note (.tried r address)
    match outcomes with
    | .ok s :: _ => w.startAttempt r s
    | .error last :: outcomes =>
      tryNext r { w with cursor := Function.update w.cursor r rest } (if last = 0 then code else last) rest outcomes
    | [] => tryNext r { w with cursor := Function.update w.cursor r rest } code rest []

def connectGaiCb (r : Request) (status : Except Int (List A)) (outcomes : List (Except Int Socket)) : World A :=
  let w := { w with outstanding := w.outstanding.erase r, pendingResolves := w.pendingResolves - 1 }.touch r
  match w.context r with
  | none => w.requestFree r
  | some _ =>
    if w.state r = .cancelled then w.requestFree r
    else
      match status with
      | .error code => w.connectFail r code
      | .ok results =>
        let w := { w with
          results := Function.update w.results r results
          cursor := Function.update w.cursor r results
          state := Function.update w.state r .connecting
          log := w.log ++ [.resolved r results] }
        tryNext r w ECONNREFUSED results outcomes

/-- The timer is set for the handshake, or closed where that has no deadline. -/
def rearm (r : Request) : Timer :=
  match w.timer r with
  | .closed => .closed
  | _ => if w.handshakeTimeout r then .armed else .closed

def connectReady (s : Socket) (r : Request) (c : Context) (err : Int) (outcomes : List (Except Int Socket)) : World A :=
  let w := (w.touchSocket s).touch r
  if err ≠ 0 then
    let w := w.closeConnecting s
    let rest := (w.cursor r).tail
    tryNext r { w with attempt := Function.update w.attempt r none, cursor := Function.update w.cursor r rest } err rest outcomes
  else
    let w := { w with
      poll := Function.update w.poll s (.established c)
      attempt := Function.update w.attempt r (some s)
      state := Function.update w.state r .handshaking }.requestDropResults r
    let w := w.touchContext c
    { w with
      timer := Function.update w.timer r (w.rearm r)
      callback := some .opened
      handle := Function.update w.handle r .opened
      log := w.log ++ [.promoted s, .opened r] }

def connectTimerCb (r : Request) : World A :=
  let w := { w with timer := Function.update w.timer r .idle }.touch r
  if w.state r = .handshaking then
    match w.attempt r with
    | none => { w with fault := true }
    | some s =>
      let w := (w.touchSocket s).touchContextOf s
      { w with
        state := Function.update w.state r .done
        callback := some .timedOut
        log := w.log ++ [.timedOut r] }
  else w.emitConnectError r ETIMEDOUT (.timer (decide (w.state r = .resolving)))

/-- `us_internal_socket_context_connect`, with the resolver called or not. -/
def contextConnect (r : Request) (c : Context) (timeout handshakeTimeout resolves : Bool) : World A :=
  let w : World A := { w with
    allocated := r :: w.allocated
    state := Function.update w.state r .resolving
    results := Function.update w.results r []
    cursor := Function.update w.cursor r []
    attempt := Function.update w.attempt r none
    handshakeTimeout := Function.update w.handshakeTimeout r handshakeTimeout
    log := w.log ++ [.created r] }
  let w := w.linkRequest c r
  let w := { w with
    timer := Function.update w.timer r (if timeout then .armed else if handshakeTimeout then .idle else .closed) }
  if resolves then
    { w with
      outstanding := r :: w.outstanding
      pendingResolves := w.pendingResolves + 1
      handle := Function.update w.handle r .pending }
  else (((w.requestCloseTimer r).unlinkRequest r).note (.refused r)).requestFree r

def requestCancel (r : Request) : World A :=
  let w := ((w.touch r).requestCloseTimer r).closeAttempt r
  let resolving := decide (w.state r = .resolving)
  let w : World A := { w with
    state := Function.update w.state r .cancelled
    handle := Function.update w.handle r .none
    log := w.log ++ [.cancelled r] }
  if resolving then w.unlinkRequest r else ((w.requestDropResults r).unlinkRequest r).requestFree r

/-- The socket is moved to another context, and `us_connect_request_rebind` moves the request after it. -/
def requestRebind (r : Request) (s : Socket) (c : Context) : World A :=
  let w := w.touch r
  let moved := match w.attempt r with
    | some old => Function.update w.poll old .free
    | none => w.poll
  let w := { w with poll := Function.update moved s (.established c), attempt := Function.update w.attempt r (some s) }
  (w.unlinkRequest r).linkRequest c r

def requestRelease (r : Request) : World A :=
  let w := w.touch r
  let w := { w with state := Function.update w.state r .done, handle := Function.update w.handle r .none }
  (((w.requestCloseTimer r).requestDropResults r).unlinkRequest r).requestFree r

/-- The owner closes the socket, and releases the request as that is closed. -/
def closeOpened (r : Request) : World A :=
  match w.attempt r with
  | none => w.requestRelease r
  | some s =>
    let w := (w.touchSocket s).touchContextOf s
    { w with poll := Function.update w.poll s .closed }.requestRelease r

def requestOrphan (r : Request) : World A :=
  let w := (w.touch r).requestCloseTimer r
  let w := if w.handle r = .pending then w.note (.orphaned r) else w
  let w := { w with handle := Function.update w.handle r .none }
  if w.state r = .resolving then
    { w with state := Function.update w.state r .cancelled, context := Function.update w.context r none }
  else
    let w := if w.state r = .connecting then w.closeAttempt r else w
    { w.requestDropResults r with context := Function.update w.context r none }.requestFree r

/-- The loop of `us_socket_context_free` over the requests of the context. -/
def orphanRequests : Nat → Option Request → World A → World A
  | 0, _, w => w
  | _ + 1, none, w => w
  | n + 1, some r, w => orphanRequests n (w.next r) (w.requestOrphan r)

def contextFree (c : Context) : World A :=
  let w := w.touchContext c
  let w := orphanRequests w.allocated.length (w.headConnectRequests c) w
  { w with headConnectRequests := Function.update w.headConnectRequests c none, contexts := w.contexts.erase c }

def freeClosedSockets : World A := { w with poll := fun s => if w.poll s = .closed then .free else w.poll s }

def returned : World A :=
  match w.callback with
  | some (.connectError r c after) => ({ w with callback := none }.touchContext c).afterError r after
  | some .opened => { w with callback := none }
  | some .timedOut => { w with callback := none }
  | none => w

end World

/-- What the loop delivers, a call of the owner, and a return from one of its callbacks. -/
inductive Action (A : Type) where
  | resolved (r : Request) (status : Except Int (List A)) (outcomes : List (Except Int Socket))
  | ready (s : Socket) (err : Int) (outcomes : List (Except Int Socket))
  | timer (r : Request)
  | endIteration
  | createContext (c : Context)
  | connect (r : Request) (c : Context) (timeout handshakeTimeout resolves : Bool)
  | cancel (r : Request)
  | rebind (r : Request) (s : Socket) (c : Context)
  | release (r : Request)
  | close (r : Request)
  | freeContext (c : Context)
  | return_

namespace World

variable (w : World A)

/-- The sockets that are made are at addresses where nothing is. -/
def fresh (outcomes : List (Except Int Socket)) : Bool :=
  outcomes.all fun outcome => match outcome with
    | .ok s => decide (w.poll s = .free)
    | .error _ => true

def reports (c : Context) : Bool :=
  match w.callback with
  | some (.connectError _ c' _) => decide (c' = c)
  | _ => false

def isCreated (r : Request) : Bool := w.log.any (Event.creates r)

/-- What a step does. The loop calls back where no callback is running. An owner cancels a request that it keeps and has
    been told nothing of, moves and releases one that is open, and does not free a context from inside of its
    `on_connect_error`. Anything else does not take place. -/
def step : Action A → World A
  | .resolved r status outcomes =>
    if w.callback.isNone ∧ r ∈ w.outstanding ∧ w.fresh outcomes then w.connectGaiCb r status outcomes else w
  | .ready s err outcomes =>
    match w.poll s with
    | .semi r c => if w.callback.isNone ∧ w.fresh outcomes then w.connectReady s r c err outcomes else w
    | _ => w
  | .timer r => if w.callback.isNone ∧ w.timer r = .armed then w.connectTimerCb r else w
  | .endIteration => if w.callback.isNone then w.freeClosedSockets else w
  | .createContext c => if c ∉ w.contexts then { w with contexts := c :: w.contexts } else w
  | .connect r c timeout handshakeTimeout resolves =>
    if w.isCreated r = false ∧ c ∈ w.contexts then w.contextConnect r c timeout handshakeTimeout resolves else w
  | .cancel r => if w.handle r = .pending then w.requestCancel r else w
  | .rebind r s c =>
    if w.handle r = .opened ∧ c ∈ w.contexts ∧ (w.poll s = .free ∨ w.attempt r = some s) then w.requestRebind r s c else w
  | .release r => if w.handle r = .opened then w.requestRelease r else w
  | .close r => if w.handle r = .opened then w.closeOpened r else w
  | .freeContext c => if c ∈ w.contexts ∧ w.reports c = false then w.contextFree c else w
  | .return_ => w.returned

def run (w : World A) (actions : List (Action A)) : World A := actions.foldl step w

end World

end Uws.Connect
