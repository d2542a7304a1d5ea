import Uws.Sweep.SocketLists

/-! The timer sweep, with the handlers that it calls. -/

namespace Uws.Sweep

/-- The part of the slow path that is next, for a socket with a timeout to emit. -/
inductive Stage where
  | onSocketTimeout
  | between
  | onSocketLongTimeout
  | after
  deriving DecidableEq, Repr

/-- Where the sweep is. The contexts that it has not come to are `rest`; they are those behind the one it is at, and do
    not change meanwhile, as a new context is put before the head. -/
inductive Phase where
  | idle
  | contexts (rest : List Address)
  | seek (context : Address) (rest : List Address) (cursor : Option Address)
  | emit (stage : Stage) (context : Address) (rest : List Address) (s : Address)
  deriving DecidableEq, Repr

/-- Inside of a handler, or outside of the sweep, other code runs. -/
def Phase.Yields : Phase → Prop
  | .idle => True
  | .contexts _ => False
  | .seek _ _ _ => False
  | .emit stage _ _ _ => stage = .onSocketTimeout ∨ stage = .onSocketLongTimeout

instance : (phase : Phase) → Decidable phase.Yields
  | .idle => inferInstanceAs (Decidable True)
  | .contexts _ => inferInstanceAs (Decidable False)
  | .seek _ _ _ => inferInstanceAs (Decidable False)
  | .emit stage _ _ _ => inferInstanceAs (Decidable (stage = .onSocketTimeout ∨ stage = .onSocketLongTimeout))

inductive Event where
  | tick (context : Address)
  | examined (s : Address)
  | socketTimeout (s : Address)
  | socketLongTimeout (s : Address)
  | swept (context : Address)
  deriving DecidableEq, Repr

/-- `owner` is the context that a socket was last given to, and `log` is what the sweeps did. -/
structure Machine where
  loop : Loop := {}
  phase : Phase := .idle
  owner : Address → Address := id
  log : List Event := []

inductive Action where
  | operation (operation : Operation)
  | sweep
  | proceed
  deriving DecidableEq, Repr

def Operation.owners (loop : Loop) (owner : Address → Address) : Operation → Address → Address
  | .accept context s => Function.update owner s context
  | .connect context s => Function.update owner s context
  | .adopt context s s' => if loop.isClosed s then owner else Function.update owner s' context
  | _ => owner

namespace Loop

/-- The ticks of a context move when the sweep comes to it. -/
def tick (loop : Loop) (context : Address) : Loop :=
  let globalTick := (loop.globalTick context + 1) % 2 ^ 32
  { loop with
    globalTick := Function.update loop.globalTick context globalTick
    timestamp := Function.update loop.timestamp context (globalTick % 240)
    longTimestamp := Function.update loop.longTimestamp context (globalTick / 15 % 240) }

def setIterator (loop : Loop) (context : Address) (s : Option Address) : Loop :=
  { loop with iterator := Function.update loop.iterator context s }

def forgetTimeout (loop : Loop) (s : Address) : Loop :=
  { loop with timeout := Function.update loop.timeout s 255 }

def forgetLongTimeout (loop : Loop) (s : Address) : Loop :=
  { loop with longTimeout := Function.update loop.longTimeout s 255 }

end Loop

namespace Machine

/-- A socket is looked at: where it has a timeout to emit, the slow path begins. -/
def examine (m : Machine) (context : Address) (rest : List Address) (s : Address) : Machine :=
  if m.loop.timestamp context = m.loop.timeout s then
    { m with
      loop := (m.loop.setIterator context (some s)).forgetTimeout s
      phase := .emit .onSocketTimeout context rest s
      log := m.log ++ [.examined s, .socketTimeout s] }
  else if m.loop.longTimestamp context = m.loop.longTimeout s then
    { m with
      loop := m.loop.setIterator context (some s)
      phase := .emit .between context rest s
      log := m.log ++ [.examined s] }
  else
    { m with
      phase := .seek context rest (m.loop.next s)
      log := m.log ++ [.examined s] }

/-- The slow path goes on after the first handler, and after the second one. -/
def emit (m : Machine) (context : Address) (rest : List Address) (s : Address) : Stage → Machine
  | .onSocketTimeout => { m with phase := .emit .between context rest s }
  | .between =>
    if m.loop.iterator context = some s ∧ m.loop.longTimestamp context = m.loop.longTimeout s then
      { m with
        loop := m.loop.forgetLongTimeout s
        phase := .emit .onSocketLongTimeout context rest s
        log := m.log ++ [.socketLongTimeout s] }
    else { m with phase := .emit .after context rest s }
  | .onSocketLongTimeout => { m with phase := .emit .after context rest s }
  | .after =>
    { m with
      phase :=
        .seek context rest
          (if m.loop.iterator context = some s then m.loop.next s else m.loop.iterator context) }

def proceed (m : Machine) : Machine :=
  match m.phase with
  | .idle => m
  | .contexts [] => { m with phase := .idle }
  | .contexts (context :: rest) =>
    { m with
      loop := m.loop.tick context
      phase := .seek context rest (m.loop.headSockets context)
      log := m.log ++ [.tick context] }
  | .seek context rest none =>
    { m with
      loop := m.loop.setIterator context none
      phase := .contexts rest
      log := m.log ++ [.swept context] }
  | .seek context rest (some s) => m.examine context rest s
  | .emit stage context rest s => m.emit context rest s stage

/-- An operation waits for a handler, and the timer for the end of the sweep. -/
def step (m : Machine) : Action → Machine
  | .operation operation =>
    if m.phase.Yields ∧ operation.Possible m.loop then
      { m with
        loop := m.loop.apply operation
        owner := operation.owners m.loop m.owner }
    else m
  | .sweep => if m.phase = .idle then { m with phase := .contexts m.loop.contexts } else m
  | .proceed => m.proceed

def run (m : Machine) (actions : List Action) : Machine := actions.foldl step m

/-- What holds of every action of a run and of the state that it is taken in. -/
def Along (holds : Machine → Action → Prop) : Machine → List Action → Prop
  | _, [] => True
  | m, action :: actions => holds m action ∧ Along holds (m.step action) actions

instance instDecidableAlong (holds : Machine → Action → Prop) [∀ m action, Decidable (holds m action)] :
    (m : Machine) → (actions : List Action) → Decidable (Along holds m actions)
  | _, [] => inferInstanceAs (Decidable True)
  | m, action :: actions =>
    have : Decidable (Along holds (m.step action) actions) := instDecidableAlong holds (m.step action) actions
    inferInstanceAs (Decidable (holds m action ∧ Along holds (m.step action) actions))

@[simp] theorem run_nil (m : Machine) : m.run [] = m := rfl

@[simp] theorem run_cons (m : Machine) (action : Action) (actions : List Action) :
    m.run (action :: actions) = (m.step action).run actions := rfl

theorem run_append (m : Machine) (front back : List Action) : m.run (front ++ back) = (m.run front).run back :=
  List.foldl_append ..

theorem run_induction {holds : Machine → Action → Prop} {inv : Machine → Prop}
    (keeps : ∀ m action, inv m → holds m action → inv (m.step action)) {m : Machine} {actions : List Action}
    (start : inv m) (along : Along holds m actions) : inv (m.run actions) := by
  induction actions generalizing m with
  | nil => exact start
  | cons action actions ih => exact ih (keeps m action start along.1) along.2

end Machine

end Uws.Sweep
