import Uws.Socket.ByteStream

namespace Uws.Socket

open Uws.Http (Bytes)

variable {δ : Type}

/-- The end of `WebSocket::send`: the frame is formatted into the buffer that the socket gives for it, and drained
    or uncorked where that is needed; the flag tells that this failed. -/
def Loop.sendBuffered (loop : Loop δ) (s : Nat) (frame : Bytes) : Loop δ × Bool :=
  match loop.getSendBuffer s frame with
  | (loop, .needsNothing) => (loop, false)
  | (loop, .needsDrain) =>
    let (loop, _, failed) := loop.write s [] false 0
    (loop, failed)
  | (loop, .needsUncork) =>
    let (loop, _, failed) := loop.uncork s [] false
    (loop, failed)

/-- What the code above a socket does with it; `keep` is what it does with its own data there. -/
inductive SocketCall (δ : Type) where
  | cork
  | uncork (src : Bytes) (optionally : Bool)
  | write (src : Bytes) (optionally : Bool) (nextLength : Nat)
  | send (frame : Bytes)
  | sendLarge (header message : Bytes)
  | pause
  | resume
  | adopt
  | shutdown
  | close
  | keep (f : δ → δ)

/-- A loop, and which of its sockets were paused and not resumed. -/
structure Poller (δ : Type) where
  loop : Loop δ
  paused : Nat → Bool := fun _ => false

/-- A socket that another context adopts keeps its buffer but not the events that were saved for it. -/
def SocketCall.run (t : Nat) (p : Poller δ) : SocketCall δ → Poller δ
  | .cork => { p with loop := p.loop.cork t }
  | .uncork src optionally => { p with loop := (p.loop.uncork t src optionally).1 }
  | .write src optionally nextLength => { p with loop := (p.loop.write t src optionally nextLength).1 }
  | .send frame => { p with loop := (p.loop.sendBuffered t frame).1 }
  | .sendLarge header message => { p with loop := ((Operation.writeLarge header message).run t p.loop).1 }
  | .pause => { loop := p.loop.pause t, paused := Function.update p.paused t true }
  | .resume => { loop := p.loop.resume t, paused := Function.update p.paused t false }
  | .adopt => { p with loop := p.loop.modify t fun socket => { socket with savedEvents := .neither } }
  | .shutdown => { p with loop := p.loop.usSocketShutdown t }
  | .close => { p with loop := p.loop.usSocketClose t }
  | .keep f => { p with loop := p.loop.modify t fun socket => { socket with ext := f socket.ext } }

abbrev Calls (δ : Type) := List (Nat × SocketCall δ)

def runCall (p : Poller δ) (call : Nat × SocketCall δ) : Poller δ := call.2.run call.1 p

/-- What the context of a socket does when it is writable: one of HTTP calls the handler that was registered, or
    drains and closes where it is to; one of WebSockets drains, and then shuts down or calls the drain handler. -/
inductive Context (δ : Type) where
  | http (connectionClose : Bool) (onWritable : Option (Calls δ))
  | webSocket (isShuttingDown : Bool) (drainHandler : Calls δ)

/-- The state in which a context calls its handler, and what the handler does. -/
def Context.enter (t : Nat) (p : Poller δ) : Context δ → Poller δ × Calls δ
  | .http _ (some calls) => (p, calls)
  | .http connectionClose none =>
    let p := { p with loop := (p.loop.write t [] true 0).1 }
    if connectionClose && p.loop.getBufferedAmount t == 0 then
      ({ p with loop := (p.loop.usSocketShutdown t).usSocketClose t }, [])
    else (p, [])
  | .webSocket isShuttingDown drainHandler =>
    if (p.loop.sockets t).shutDown then (p, [])
    else
      let backpressure := p.loop.getBufferedAmount t
      let p := { p with loop := (p.loop.write t [] false 0).1 }
      if isShuttingDown then
        if p.loop.getBufferedAmount t = 0 then ({ p with loop := p.loop.usSocketShutdown t }, []) else (p, [])
      else if backpressure = 0 ∨ p.loop.getBufferedAmount t < backpressure then (p, drainHandler)
      else (p, [])

inductive PollEvent (δ : Type) where
  | call (t : Nat) (call : SocketCall δ)
  | writable (t : Nat) (context : Context δ)

namespace Poller

def startWriting (p : Poller δ) : Poller δ := { p with loop := { p.loop with lastWriteFailed := false } }

def stopWriting (t : Nat) (p : Poller δ) : Poller δ :=
  if (p.loop.sockets t).closed then p
  else if !p.loop.lastWriteFailed || (p.loop.sockets t).shutDown then
    { p with loop := p.loop.usPollChange t { (p.loop.sockets t).poll with writable := false } }
  else p

def handle (p : Poller δ) : PollEvent δ → Poller δ
  | .call t call => call.run t p
  | .writable t context =>
    let (p, calls) := context.enter t p.startWriting
    (calls.foldl runCall p).stopWriting t

def inside (p : Poller δ) : PollEvent δ → List (Poller δ)
  | .call _ _ => []
  | .writable t context =>
    let (p, calls) := context.enter t p.startWriting
    calls.scanl runCall p

def visits (p : Poller δ) : List (PollEvent δ) → List (Poller δ)
  | [] => [p]
  | event :: events => p :: p.inside event ++ (p.handle event).visits events

def fresh (kernel : List Nat) (ext : Nat → δ) : Poller δ := { loop := Loop.fresh kernel ext }

/-- A socket that is open, not shut down and not paused polls for writable while its buffer has bytes. -/
def Flowing (p : Poller δ) (t : Nat) : Prop :=
  (p.loop.sockets t).closed = false → (p.loop.sockets t).shutDown = false → p.paused t = false →
    (p.loop.sockets t).buffer.length ≠ 0 → (p.loop.sockets t).poll.writable = true

def Flows (p : Poller δ) : Prop := ∀ t, p.Flowing t

end Poller

/-- A socket is not resumed with bytes in its buffer and without the writable event among those saved for it. -/
def SocketCall.Resumes (t : Nat) (p : Poller δ) : SocketCall δ → Prop
  | .resume => (p.loop.sockets t).buffer.length = 0 ∨ (p.loop.sockets t).savedEvents.writable = true
  | _ => True

def SocketCall.Whole (p : Poller δ) : SocketCall δ → Prop
  | .sendLarge header message => header.length + message.length ≤ p.loop.kernel.headD 0
  | _ => True

def SocketCall.writes : SocketCall δ → Bool
  | .write _ _ _ => true
  | .send _ => true
  | _ => false

def SocketCall.size : SocketCall δ → Nat
  | .uncork src _ => src.length
  | .write src _ _ => src.length
  | .send frame => frame.length
  | .sendLarge header message => header.length + message.length
  | _ => 0

/-- Lengths of buffers go to the kernel as an `int`. -/
def SocketCall.Fits (t : Nat) (p : Poller δ) (call : SocketCall δ) : Prop :=
  (p.loop.sockets t).buffer.totalLength + p.loop.corkBuffer.length + call.size < 2 ^ 31

instance (t : Nat) (p : Poller δ) (call : SocketCall δ) : Decidable (call.Fits t p) := inferInstanceAs (Decidable (_ < _))

/-- The condition on what a handler does while the socket `s` is told that it is writable. -/
def MeetsInside (s : Nat) : Calls δ → Poller δ → Prop
  | [], _ => True
  | (t, call) :: calls, p =>
    call.Resumes t p ∧ call.Fits t p ∧ (t = s → call.Whole p) ∧ MeetsInside s calls (call.run t p)

/-- A handler of HTTP that is told so with bytes in the buffer writes. -/
def Context.Writes (t : Nat) (p : Poller δ) : Context δ → Prop
  | .http _ (some calls) =>
    (p.loop.sockets t).buffer.length = 0 ∨ ∃ call ∈ calls, call.1 = t ∧ call.2.writes = true
  | _ => True

def PollEvent.Meets (p : Poller δ) : PollEvent δ → Prop
  | .call t told => told.Resumes t p ∧ told.Fits t p
  | .writable t context =>
    context.Writes t p.startWriting ∧ (SocketCall.write [] false 0).Fits t p ∧
      MeetsInside t (context.enter t p.startWriting).2 (context.enter t p.startWriting).1

def Poller.Meets (p : Poller δ) : List (PollEvent δ) → Prop
  | [] => True
  | event :: events => event.Meets p ∧ (p.handle event).Meets events

end Uws.Socket
