import Uws.Library.Runs

/-! The outbound connects of one client app: handshake contexts, frame context, slots and their sweep. -/

namespace Uws.Client

/-- The handshake context of a socket: the one that dials, or the TLS one behind the proxy. -/
inductive Side where
  | dial
  | peer
deriving DecidableEq, Repr

/-- A connect request, as uSockets has it. While `on_connect_error` runs it is still there. -/
inductive Request where
  | none
  | pending
  | reporting
  | handshaking
deriving DecidableEq, Repr

/-- The open socket of a connect, with the pointers of its `HandshakeData`. -/
inductive Socket where
  | none
  | handshake (side : Side) (request user : Bool)
  | frame (isShuttingDown : Bool)
deriving DecidableEq, Repr

/-- `WebSocketClientContextData`; pointers and handlers are set or not. -/
structure ContextData where
  request : Bool := false
  user : Bool := false
  opened : Bool := false
  notified : Bool := false
  failedHandler : Bool := false
deriving DecidableEq, Repr

inductive After where
  | close
  | closed
  | unopened
  | connectError
deriving DecidableEq, Repr

inductive Call where
  | failed (side : Side) (after : After)
  | refused (user : Bool)
  | opening
  | ending
  | closing
deriving DecidableEq, Repr

/-- One `connect` with its `ConnectSlot`; the counters say what has happened. -/
structure Slot where
  userData : Bool := false
  wantsTls : Bool := false
  dial : ContextData := {}
  peer : ContextData := {}
  request : Request := .none
  socket : Socket := .none
  done : Bool := false
  failures : Nat := 0
  opens : Nat := 0
  users : Nat := 0
  frees : Nat := 0
deriving DecidableEq, Repr

/-- What a step does to a slot: handlers that it calls, a `retire`, and whether it uses what has been freed. -/
structure Outcome where
  slot : Slot
  calls : List Call := []
  retires : Bool := false
  fault : Bool := false
deriving DecidableEq, Repr

namespace Slot

variable (s : Slot)

def context : Side → ContextData
  | .dial => s.dial
  | .peer => s.peer

def setContext : Side → ContextData → Slot
  | .dial, context => { s with dial := context }
  | .peer, context => { s with peer := context }

def freed : Bool := decide (s.frees ≠ 0)

def release (pointer : Bool) : Slot × Bool :=
  if pointer then ({ s with request := .none }, s.freed || decide (s.request ≠ .handshaking)) else (s, s.freed)

def announce (side : Side) (after : After) : Outcome :=
  let context := s.context side
  { slot := { s.setContext side { context with notified := true } with failures := s.failures + context.failedHandler.toNat }
    calls := [.failed side after], fault := s.freed }

def closeSocket : Outcome :=
  match s.socket with
  | .none => { slot := s }
  | .handshake side request _ =>
    let context := s.context side
    let s := { s with socket := .none }
    if context.opened then
      let (s, fault) := s.release request
      let outcome : Outcome :=
        if context.notified then { slot := s.setContext side { context with opened := false } } else s.announce side .closed
      { outcome with fault := outcome.fault || fault }
    else
      let (s, fault) := s.release context.request
      let s := s.setContext side { context with request := false }
      let outcome : Outcome := if context.notified then { slot := s } else s.announce side .unopened
      { outcome with fault := outcome.fault || fault }
  | .frame isShuttingDown =>
    let s := { s with socket := .none }
    if isShuttingDown then { slot := s, retires := true, fault := s.freed } else { slot := s, calls := [.closing], fault := s.freed }

/-- `emitFailed` behind the handler: the user data goes, and `onTerminal` retires the slot. -/
def terminal (side : Side) : Slot :=
  let context := s.context side
  { s.setContext side { context with user := false } with users := s.users + context.user.toNat }

def finish (side : Side) : After → Outcome
  | .close => s.closeSocket
  | .closed => { slot := s.setContext side { s.context side with opened := false } }
  | .unopened => { slot := s }
  | .connectError => { slot := { s with request := .none } }

/-- `emitFailed` from a read or a timeout, and the close behind it. -/
def reject (side : Side) : Outcome := if (s.context side).notified then s.closeSocket else s.announce side .close

def connectError : Outcome :=
  let s := { s with request := .reporting, dial := { s.dial with request := false } }
  if s.dial.notified then { slot := { s with request := .none }, fault := s.freed } else s.announce .dial .connectError

def onOpen : Outcome :=
  { slot := { s with
      request := .handshaking
      socket := .handshake .dial s.dial.request s.dial.user
      dial := { s.dial with request := false, opened := true } }
    fault := s.freed }

def proxyStartTls (request user : Bool) : Outcome :=
  { slot := { s with
      socket := .handshake .peer request user
      dial := { s.dial with failedHandler := false, user := false, opened := false }
      peer := { s.peer with failedHandler := s.dial.failedHandler, user := user, opened := true } }
    fault := s.freed }

def adoptToFrame (side : Side) (request user : Bool) : Outcome :=
  let (s, fault) := s.release request
  { slot := { s.setContext side { s.context side with opened := false, user := false } with
      socket := .frame false, users := s.users + user.toNat, opens := s.opens + 1 }
    calls := [.opening], fault := fault }

def cancel : Outcome :=
  if s.dial.request then
    { slot := { s with request := .none, dial := { s.dial with request := false } }
      fault := s.freed || decide (s.request ≠ .pending) }
  else { slot := s, fault := s.freed }

/-- `us_socket_context_close` of the slot's contexts. Nobody sets their `is_low_prio`, so their sockets are never parked. -/
def closeContexts : Outcome := { s.closeSocket with fault := s.freed || s.closeSocket.fault }

/-- The `deleters`; the destructors of the contexts' data delete what user data they have left. -/
def freeContexts : Outcome :=
  { slot := { s with
      dial := { s.dial with user := false }, peer := { s.peer with user := false }
      users := s.users + s.dial.user.toNat + s.peer.user.toNat, frees := s.frees + 1 }
    fault := s.freed || decide (s.socket ≠ .none) || decide (s.request ≠ .none) }

def returned : Call → Outcome
  | .failed side after =>
    let outcome := (s.terminal side).finish side after
    { outcome with retires := true, fault := s.freed || outcome.fault }
  | .refused user => { slot := { s with users := s.users + user.toNat }, retires := true, fault := s.freed }
  | .opening => { slot := s }
  | .ending => { slot := s }
  | .closing => { slot := s, retires := true, fault := s.freed }

end Slot

/-- A callback that the loop has yet to run. -/
inductive Deferred where
  | sweep
  | refused (k : Nat) (user : Bool)
deriving DecidableEq, Repr

/-- What is on the stack: a handler, the loop of `close`, or the destructor. -/
inductive Frame where
  | call (k : Nat) (call : Call)
  | closing (rest : List Nat)
  | destroying (rest : List Nat)
deriving DecidableEq, Repr

/-- A `TemplatedClientApp`, its `ClientState`, and the loop's queue. -/
structure App where
  tls : Bool
  created : Nat := 0
  slot : Nat → Slot := fun _ => {}
  slots : List Nat := []
  sweepScheduled : Bool := false
  closed : Bool := false
  alive : Bool := true
  gone : Bool := false
  deferred : List Deferred := []
  stack : List Frame := []
  fault : Bool := false

namespace App

variable (w : App)

def retire (k : Nat) : App :=
  let w := { w with fault := w.fault || w.gone }
  if (w.slot k).done then w
  else
    let w := { w with slot := Function.update w.slot k { w.slot k with done := true } }
    if w.sweepScheduled then w else { w with sweepScheduled := true, deferred := w.deferred ++ [.sweep] }

def apply (k : Nat) (outcome : Outcome) : App :=
  let w := { w with
    slot := Function.update w.slot k outcome.slot
    stack := outcome.calls.map (.call k) ++ w.stack
    fault := w.fault || outcome.fault }
  if outcome.retires then w.retire k else w

def closeSlot (k : Nat) : App :=
  let w := w.apply k (w.slot k).cancel
  w.apply k (w.slot k).closeContexts

def destroyed : App :=
  let w := w.slots.foldl (fun w k => w.apply k (w.slot k).freeContexts) w
  { w with slots := [], gone := true }

def sweep : App :=
  let w := { w with sweepScheduled := false }
  let w := (w.slots.filter fun k => (w.slot k).done).foldl (fun w k => w.apply k (w.slot k).freeContexts) w
  { w with slots := w.slots.filter fun k => !(w.slot k).done }

def tick : App :=
  match w.deferred with
  | [] => w
  | .sweep :: rest => if w.alive then { w with deferred := rest }.sweep else { w with deferred := rest }
  | .refused k user :: rest =>
    let s := w.slot k
    if w.alive then
      { w with deferred := rest }.apply k
        { slot := { s with failures := s.failures + s.dial.failedHandler.toNat }, calls := [.refused user], fault := s.freed }
    else { w with deferred := rest }.apply k { slot := { s with users := s.users + user.toNat } }

/-- `connect` behind its checks of the URL and the headers. -/
def connect (wantsTls userData failedHandler starts : Bool) : App :=
  if !w.alive || w.closed then w
  else
    let k := w.created
    let dial : ContextData := { request := starts, user := userData && starts, failedHandler := failedHandler }
    { w with
      created := k + 1
      slots := w.slots ++ [k]
      slot := Function.update w.slot k
        { userData := userData, wantsTls := wantsTls && w.tls, dial := dial, request := if starts then .pending else .none }
      deferred := if starts then w.deferred else w.deferred ++ [.refused k userData] }

def close : App := if w.alive then { w with closed := true, stack := .closing w.slots :: w.stack } else w

def destroy : App :=
  { w with alive := false, closed := true, stack := [.destroying (if w.closed then [] else w.slots)] }

def proceed : App :=
  match w.stack with
  | [] => w
  | .call k call :: below => { w with stack := below }.apply k ((w.slot k).returned call)
  | .closing [] :: below => { w with stack := below }
  | .closing (k :: rest) :: below => { w with stack := .closing rest :: below }.closeSlot k
  | .destroying [] :: below => { w with stack := below }.destroyed
  | .destroying (k :: rest) :: below => { w with stack := .destroying rest :: below }.closeSlot k

end App

inductive Action where
  | connect (wantsTls userData failedHandler starts : Bool)
  | close
  | closeSocket (k : Nat)
  | endSocket (k : Nat)
  | destroy
  | proceed
  | tick
  | connectError (k : Nat)
  | opened (k : Nat)
  | tunnel (k : Nat)
  | upgraded (k : Nat)
  | rejected (k : Nat)
  | lost (k : Nat)
deriving DecidableEq, Repr

namespace App

variable (w : App)

def owner : Bool :=
  match w.stack with
  | [] => true
  | .call _ _ :: _ => true
  | _ => false

def step : Action → App
  | .connect wantsTls userData failedHandler starts => if w.owner then w.connect wantsTls userData failedHandler starts else w
  | .close => if w.owner then w.close else w
  | .closeSocket k =>
    match (w.slot k).socket with
    | .frame _ => if w.owner then w.apply k (w.slot k).closeSocket else w
    | _ => w
  | .endSocket k =>
    match (w.slot k).socket with
    | .frame false =>
      if w.owner then w.apply k { slot := { w.slot k with socket := .frame true }, calls := [.ending], fault := (w.slot k).freed }
      else w
    | _ => w
  | .destroy => if w.stack = [] ∧ w.alive then w.destroy else w
  | .proceed => w.proceed
  | .tick => if w.stack = [] then w.tick else w
  | .connectError k => if w.stack = [] ∧ (w.slot k).request = .pending then w.apply k (w.slot k).connectError else w
  | .opened k => if w.stack = [] ∧ (w.slot k).request = .pending then w.apply k (w.slot k).onOpen else w
  | .tunnel k =>
    match (w.slot k).socket with
    | .handshake .dial request user =>
      if w.stack = [] ∧ (w.slot k).wantsTls then w.apply k ((w.slot k).proxyStartTls request user) else w
    | _ => w
  | .upgraded k =>
    match (w.slot k).socket with
    | .handshake side request user =>
      if w.stack = [] ∧ (side = .peer ∨ !(w.slot k).wantsTls) then w.apply k ((w.slot k).adoptToFrame side request user)
      else w
    | _ => w
  | .rejected k =>
    match (w.slot k).socket with
    | .handshake side _ _ => if w.stack = [] then w.apply k ((w.slot k).reject side) else w
    | _ => w
  | .lost k => if w.stack = [] ∧ (w.slot k).socket ≠ .none then w.apply k (w.slot k).closeSocket else w

def run (w : App) (actions : List Action) : App := actions.foldl step w

end App

end Uws.Client
