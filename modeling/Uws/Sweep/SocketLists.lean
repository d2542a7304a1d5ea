import Uws.Library.LinkedList

/-! The lists that a loop keeps its sockets in, on the fields of the sockets and of their contexts. -/

namespace Uws.Sweep

open Uws.LinkedList

/-- A block that the program has allocated. A null pointer is a `none`. -/
inductive Address where
  | socket (n : Nat)
  | context (n : Nat)
  deriving DecidableEq, Repr

def Address.IsSocket : Address → Prop
  | .socket _ => True
  | .context _ => False

instance : (a : Address) → Decidable a.IsSocket
  | .socket _ => inferInstanceAs (Decidable True)
  | .context _ => inferInstanceAs (Decidable False)

/-- The fields of every socket and context by its address. The contexts stand in the order in which `context->next`
    links them. A field of a block that is not allocated says nothing. -/
structure Loop where
  contexts : List Address := []
  headSockets : Address → Option Address := fun _ => none
  iterator : Address → Option Address := fun _ => none
  globalTick : Address → Nat := fun _ => 0
  timestamp : Address → Nat := fun _ => 0
  longTimestamp : Address → Nat := fun _ => 0
  allocated : List Address := []
  next : Address → Option Address := fun _ => none
  prev : Address → Option Address := fun _ => none
  context : Address → Address := id
  timeout : Address → Nat := fun _ => 255
  longTimeout : Address → Nat := fun _ => 255
  lowPrioState : Address → Nat := fun _ => 0
  established : Address → Bool := fun _ => false
  lowPrioHead : Option Address := none
  lowPrioBudget : Nat := 0
  closedHead : Option Address := none

namespace Loop

/-- A socket is closed where `prev` is its context. -/
def isClosed (loop : Loop) (s : Address) : Prop := loop.prev s = some (loop.context s)

instance (loop : Loop) (s : Address) : Decidable (loop.isClosed s) := inferInstanceAs (Decidable (_ = _))

def unlinkSocket (loop : Loop) (context s : Address) : Loop :=
  let loop :=
    if loop.iterator context = some s then
      { loop with iterator := Function.update loop.iterator context (loop.next s) }
    else loop
  if loop.prev s = loop.next s then { loop with headSockets := Function.update loop.headSockets context none }
  else
    { loop with
      next := relink loop.next (loop.prev s) (loop.next s)
      headSockets :=
        if loop.prev s = none then Function.update loop.headSockets context (loop.next s) else loop.headSockets
      prev := relink loop.prev (loop.next s) (loop.prev s) }

/-- `us_internal_socket_context_link_socket`: always in the top. -/
def linkSocket (loop : Loop) (context s : Address) : Loop :=
  { loop with
    context := Function.update loop.context s context
    next := Function.update loop.next s (loop.headSockets context)
    prev := relink (Function.update loop.prev s none) (loop.headSockets context) (some s)
    headSockets := Function.update loop.headSockets context (some s) }

/-- The end of `us_socket_close` and of `us_socket_close_connecting`: the socket is put on the close-list. -/
def linkClosed (loop : Loop) (s : Address) : Loop :=
  { loop with
    next := Function.update loop.next s loop.closedHead
    closedHead := some s
    prev := Function.update loop.prev s (some (loop.context s)) }

def leaveLowPriority (loop : Loop) (s : Address) : Loop :=
  { loop with
    lowPrioHead := if loop.prev s = none then loop.next s else loop.lowPrioHead
    next := Function.update (relink loop.next (loop.prev s) (loop.next s)) s none
    prev := Function.update (relink loop.prev (loop.next s) (loop.prev s)) s none
    lowPrioState := Function.update loop.lowPrioState s 0 }

def close (loop : Loop) (s : Address) : Loop :=
  if loop.isClosed s then loop
  else if loop.lowPrioState s = 1 then (loop.leaveLowPriority s).linkClosed s
  else (loop.unlinkSocket (loop.context s) s).linkClosed s

def closeConnecting (loop : Loop) (s : Address) : Loop :=
  if loop.isClosed s then loop else (loop.unlinkSocket (loop.context s) s).linkClosed s

/-- `us_poll_resize`: the fields are copied to `s'`, which is `s` again where there is no memory. -/
def resize (loop : Loop) (s s' : Address) : Loop :=
  { loop with
    allocated := s' :: loop.allocated.filter (· ≠ s)
    next := Function.update loop.next s' (loop.next s)
    prev := Function.update loop.prev s' (loop.prev s)
    context := Function.update loop.context s' (loop.context s)
    timeout := Function.update loop.timeout s' (loop.timeout s)
    longTimeout := Function.update loop.longTimeout s' (loop.longTimeout s)
    lowPrioState := Function.update loop.lowPrioState s' (loop.lowPrioState s)
    established := Function.update loop.established s' (loop.established s) }

def forgetTimeouts (loop : Loop) (s : Address) : Loop :=
  { loop with
    timeout := Function.update loop.timeout s 255
    longTimeout := Function.update loop.longTimeout s 255 }

def relinkLowPriority (loop : Loop) (s : Address) : Loop :=
  { loop with
    lowPrioHead := if loop.prev s = none then some s else loop.lowPrioHead
    next := relink loop.next (loop.prev s) (some s)
    prev := relink loop.prev (loop.next s) (some s) }

/-- `us_socket_context_adopt_socket`, with the address that the socket is given. -/
def adoptSocket (loop : Loop) (context s s' : Address) : Loop :=
  if loop.isClosed s then loop
  else if loop.lowPrioState s = 1 then
    ((loop.resize s s').forgetTimeouts s').relinkLowPriority s'
  else
    (((loop.unlinkSocket (loop.context s) s).resize s s').forgetTimeouts s').linkSocket context s'

def linkLowPriority (loop : Loop) (s : Address) : Loop :=
  { loop with
    next := Function.update loop.next s loop.lowPrioHead
    prev := relink (Function.update loop.prev s none) loop.lowPrioHead (some s)
    lowPrioHead := some s
    lowPrioState := Function.update loop.lowPrioState s 1 }

/-- What a readable socket does before it is read from; `lowPrio` is the answer of `is_low_prio`. -/
def readable (loop : Loop) (s : Address) (lowPrio : Bool) : Loop :=
  if lowPrio then
    if loop.lowPrioState s = 2 then { loop with lowPrioState := Function.update loop.lowPrioState s 0 }
    else if 0 < loop.lowPrioBudget then { loop with lowPrioBudget := loop.lowPrioBudget - 1 }
    else (loop.unlinkSocket (loop.context s) s).linkLowPriority s
  else loop

def unpark (loop : Loop) (s : Address) : Loop :=
  let loop :=
    { loop with
      lowPrioHead := loop.next s
      next := Function.update loop.next s none
      prev := relink loop.prev (loop.next s) none }
  let loop := loop.linkSocket (loop.context s) s
  { loop with lowPrioState := Function.update loop.lowPrioState s 2 }

def unparks : Nat → Loop → Loop
  | 0, loop => loop
  | budget + 1, loop =>
    match loop.lowPrioHead with
    | some s => unparks budget { loop.unpark s with lowPrioBudget := budget }
    | none => loop

def maxLowPrioSocketsPerLoopIteration : Nat := 5

def handleLowPrioritySockets (loop : Loop) : Loop :=
  unparks maxLowPrioSocketsPerLoopIteration { loop with lowPrioBudget := maxLowPrioSocketsPerLoopIteration }

def walk (next : Address → Option Address) : Nat → Option Address → List Address
  | 0, _ => []
  | _ + 1, none => []
  | length + 1, some s => s :: walk next length (next s)

def freeClosedSockets (loop : Loop) : Loop :=
  { loop with
    allocated := loop.allocated.filter (· ∉ walk loop.next loop.allocated.length loop.closedHead)
    closedHead := none }

/-- A socket that `us_adopt_accepted_socket` or an attempt to connect has allocated. -/
def allocate (loop : Loop) (context s : Address) (established : Bool) : Loop :=
  { loop with
    allocated := s :: loop.allocated
    context := Function.update loop.context s context
    timeout := Function.update loop.timeout s 255
    longTimeout := Function.update loop.longTimeout s 255
    lowPrioState := Function.update loop.lowPrioState s 0
    established := Function.update loop.established s established }

/-- `us_socket_timeout`; `seconds` is an `unsigned int`. -/
def socketTimeout (loop : Loop) (s : Address) (seconds : Nat) : Loop :=
  { loop with
    timeout := Function.update loop.timeout s
      (if seconds = 0 then 255
        else (loop.timestamp (loop.context s) + (seconds + 3) % 2 ^ 32 / 4) % 2 ^ 32 % 240) }

def socketLongTimeout (loop : Loop) (s : Address) (minutes : Nat) : Loop :=
  { loop with
    longTimeout := Function.update loop.longTimeout s
      (if minutes = 0 then 255 else (loop.longTimestamp (loop.context s) + minutes) % 2 ^ 32 % 240) }

def createContext (loop : Loop) (context : Address) : Loop :=
  { loop with
    contexts := context :: loop.contexts
    headSockets := Function.update loop.headSockets context none
    iterator := Function.update loop.iterator context none
    globalTick := Function.update loop.globalTick context 0
    timestamp := Function.update loop.timestamp context 0
    longTimestamp := Function.update loop.longTimestamp context 0 }

end Loop

/-- What the code around the lists does with them, in any order and inside of any handler. A handler that is called
    at the end of one of these goes on with further ones. -/
inductive Operation where
  | createContext (context : Address)
  | accept (context s : Address)
  | connect (context s : Address)
  | promote (s : Address)
  | timeout (s : Address) (seconds : Nat)
  | longTimeout (s : Address) (minutes : Nat)
  | close (s : Address)
  | closeConnecting (s : Address)
  | adopt (context s s' : Address)
  | readable (s : Address) (lowPrio : Bool)
  | handleLowPrioritySockets
  | freeClosedSockets
  deriving DecidableEq, Repr

/-- What the callers see to: new blocks are where no block is, only a connection attempt is promoted or closed as
    one, and only a socket that polls for it is readable. -/
def Operation.Possible (loop : Loop) : Operation → Prop
  | .createContext context => ¬ context.IsSocket ∧ context ∉ loop.contexts
  | .accept context s => context ∈ loop.contexts ∧ s.IsSocket ∧ s ∉ loop.allocated
  | .connect context s => context ∈ loop.contexts ∧ s.IsSocket ∧ s ∉ loop.allocated
  | .promote s => s ∈ loop.allocated ∧ ¬ loop.isClosed s ∧ loop.established s = false
  | .timeout s _ => s ∈ loop.allocated
  | .longTimeout s _ => s ∈ loop.allocated
  | .close s => s ∈ loop.allocated
  | .closeConnecting s => s ∈ loop.allocated ∧ loop.established s = false
  | .adopt context s s' =>
    s ∈ loop.allocated ∧ context ∈ loop.contexts ∧ (s' = s ∨ s'.IsSocket ∧ s' ∉ loop.allocated)
  | .readable s _ =>
    s ∈ loop.allocated ∧ ¬ loop.isClosed s ∧ loop.lowPrioState s ≠ 1 ∧ loop.established s = true
  | .handleLowPrioritySockets => True
  | .freeClosedSockets => True

instance (loop : Loop) : (operation : Operation) → Decidable (operation.Possible loop)
  | .createContext context => inferInstanceAs (Decidable (¬ context.IsSocket ∧ context ∉ loop.contexts))
  | .accept context s => inferInstanceAs (Decidable (context ∈ loop.contexts ∧ s.IsSocket ∧ s ∉ loop.allocated))
  | .connect context s => inferInstanceAs (Decidable (context ∈ loop.contexts ∧ s.IsSocket ∧ s ∉ loop.allocated))
  | .promote s =>
    inferInstanceAs (Decidable (s ∈ loop.allocated ∧ ¬ loop.isClosed s ∧ loop.established s = false))
  | .timeout s _ => inferInstanceAs (Decidable (s ∈ loop.allocated))
  | .longTimeout s _ => inferInstanceAs (Decidable (s ∈ loop.allocated))
  | .close s => inferInstanceAs (Decidable (s ∈ loop.allocated))
  | .closeConnecting s => inferInstanceAs (Decidable (s ∈ loop.allocated ∧ loop.established s = false))
  | .adopt context s s' =>
    inferInstanceAs (Decidable
      (s ∈ loop.allocated ∧ context ∈ loop.contexts ∧ (s' = s ∨ s'.IsSocket ∧ s' ∉ loop.allocated)))
  | .readable s _ =>
    inferInstanceAs (Decidable
      (s ∈ loop.allocated ∧ ¬ loop.isClosed s ∧ loop.lowPrioState s ≠ 1 ∧ loop.established s = true))
  | .handleLowPrioritySockets => inferInstanceAs (Decidable True)
  | .freeClosedSockets => inferInstanceAs (Decidable True)

def Operation.run (loop : Loop) : Operation → Loop
  | .createContext context => loop.createContext context
  | .accept context s => (loop.allocate context s true).linkSocket context s
  | .connect context s => (loop.allocate context s false).linkSocket context s
  | .promote s => { loop with established := Function.update loop.established s true }
  | .timeout s seconds => loop.socketTimeout s seconds
  | .longTimeout s minutes => loop.socketLongTimeout s minutes
  | .close s => loop.close s
  | .closeConnecting s => loop.closeConnecting s
  | .adopt context s s' => loop.adoptSocket context s s'
  | .readable s lowPrio => loop.readable s lowPrio
  | .handleLowPrioritySockets => loop.handleLowPrioritySockets
  | .freeClosedSockets => loop.freeClosedSockets

def Loop.apply (loop : Loop) (operation : Operation) : Loop :=
  if operation.Possible loop then operation.run loop else loop

end Uws.Sweep
