import Uws.Http.Headers

namespace Uws.Socket

open Uws.Http (Bytes)

/-- Bytes behind `pendingRemoval` are still to be sent; the others are erased late. -/
structure BackPressure where
  buffer : Bytes := []
  pendingRemoval : Nat := 0
deriving DecidableEq, Repr

namespace BackPressure

def append (backPressure : BackPressure) (data : Bytes) : BackPressure :=
  { backPressure with buffer := backPressure.buffer ++ data }

def erase (backPressure : BackPressure) (length : Nat) : BackPressure :=
  let pendingRemoval := backPressure.pendingRemoval + length
  if backPressure.buffer.length / 32 < pendingRemoval then ⟨backPressure.buffer.drop pendingRemoval, 0⟩
  else { backPressure with pendingRemoval := pendingRemoval }

def length (backPressure : BackPressure) : Nat := backPressure.buffer.length - backPressure.pendingRemoval

def clear (_ : BackPressure) : BackPressure := ⟨[], 0⟩

def reserve (backPressure : BackPressure) (_ : Nat) : BackPressure := backPressure

def resize (backPressure : BackPressure) (length : Nat) : BackPressure :=
  let length := length + backPressure.pendingRemoval
  { backPressure with
    buffer := backPressure.buffer.take length ++ List.replicate (length - backPressure.buffer.length) 0 }

def data (backPressure : BackPressure) : Bytes := backPressure.buffer.drop backPressure.pendingRemoval

def copy (backPressure : BackPressure) (position : Nat) (source : Bytes) : BackPressure :=
  let front := backPressure.pendingRemoval + position
  { backPressure with
    buffer := backPressure.buffer.take front ++ source ++ backPressure.buffer.drop (front + source.length) }

def totalLength (backPressure : BackPressure) : Nat := backPressure.buffer.length

end BackPressure

structure Events where
  readable : Bool
  writable : Bool
deriving DecidableEq, Repr

def Events.both : Events := ⟨true, true⟩
def Events.neither : Events := ⟨false, false⟩

/-- A socket with its `AsyncSocketData`; `wire` is what the kernel has taken of it, and `ext` what the
    protocol on it keeps. -/
structure UsSocket (δ : Type) where
  wire : Bytes := []
  buffer : BackPressure := {}
  poll : Events := ⟨true, false⟩
  savedEvents : Events := .neither
  shutDown : Bool := false
  closed : Bool := false
  ext : δ

/-- A loop with its `LoopData`, the sockets on it and how much the kernel takes at each coming write. -/
structure Loop (δ : Type) where
  date : Bytes := []
  corkBuffer : Bytes := []
  corkedSocket : Option Nat := none
  lastWriteFailed : Bool := false
  terminated : Bool := false
  kernel : List Nat
  sockets : Nat → UsSocket δ

def corkBufferSize : Nat := 16 * 1024

inductive SendBufferAttribute where
  | needsNothing
  | needsDrain
  | needsUncork
deriving DecidableEq, Repr

namespace Loop

variable {δ : Type} (loop : Loop δ) (s : Nat)

def modify (f : UsSocket δ → UsSocket δ) : Loop δ :=
  { loop with sockets := Function.update loop.sockets s (f (loop.sockets s)) }

def onBuffer (f : BackPressure → BackPressure) : Loop δ :=
  loop.modify s fun socket => { socket with buffer := f socket.buffer }

def usPollChange (events : Events) : Loop δ := loop.modify s fun socket => { socket with poll := events }

/-- An error of the kernel is a write of nothing to the callers. -/
def bsdSend (data : Bytes) : Loop δ × Nat :=
  let written := min (loop.kernel.headD 0) data.length
  let sent := loop.modify s fun socket => { socket with wire := socket.wire ++ data.take written }
  ({ sent with kernel := loop.kernel.tail }, written)

def usSocketWrite (data : Bytes) : Loop δ × Nat :=
  if (loop.sockets s).closed || (loop.sockets s).shutDown then (loop, 0)
  else
    let (loop, written) := loop.bsdSend s data
    if written ≠ data.length then ({ loop with lastWriteFailed := true }.usPollChange s .both, written)
    else (loop, written)

def usSocketWrite2 (header payload : Bytes) : Loop δ × Nat :=
  if (loop.sockets s).closed || (loop.sockets s).shutDown then (loop, 0)
  else
    let (loop, written) := loop.bsdSend s (header ++ payload)
    if written ≠ header.length + payload.length then (loop.usPollChange s .both, written) else (loop, written)

def usSocketShutdown : Loop δ :=
  if (loop.sockets s).closed || (loop.sockets s).shutDown then loop
  else loop.modify s fun socket => { socket with shutDown := true, poll := ⟨socket.poll.readable, false⟩ }

def usSocketClose : Loop δ := loop.modify s fun socket => { socket with closed := true }

def isCorked : Bool := loop.corkedSocket = some s
def canCork : Bool := loop.corkedSocket = none

def cork : Loop δ :=
  if loop.corkBuffer.length ≠ 0 ∧ loop.corkedSocket ≠ some s then { loop with terminated := true }
  else { loop with corkedSocket := some s }

def uncorkWithoutSending : Loop δ := if loop.isCorked s then { loop with corkedSocket := none } else loop

def getBufferedAmount : Nat := (loop.sockets s).buffer.totalLength

def pause : Loop δ :=
  let events := (loop.sockets s).poll
  let loop := if events ≠ .neither then loop.modify s fun socket => { socket with savedEvents := events } else loop
  loop.usPollChange s .neither

def resume : Loop δ := loop.usPollChange s (loop.sockets s).savedEvents

/-- `data` is what the caller fills the buffer with. -/
def getSendBuffer (data : Bytes) : Loop δ × SendBufferAttribute :=
  let existingBackpressure := (loop.sockets s).buffer.length
  if existingBackpressure = 0 ∧ (loop.isCorked s ∨ loop.canCork) ∧
      loop.corkBuffer.length + data.length < corkBufferSize then
    if loop.isCorked s then ({ loop with corkBuffer := loop.corkBuffer ++ data }, .needsNothing)
    else
      let loop := loop.cork s
      ({ loop with corkBuffer := loop.corkBuffer ++ data }, .needsUncork)
  else
    let ours := if loop.isCorked s then loop.corkBuffer else []
    let loop := if loop.isCorked s then { loop with corkBuffer := [] } else loop
    let loop := loop.onBuffer s fun buffer =>
      ((buffer.resize (ours.length + existingBackpressure + data.length)).copy existingBackpressure ours).copy
        (ours.length + existingBackpressure) data
    (loop, .needsDrain)

/-- The first part of `write`; the socket is limited while something of its buffer is left. -/
def drainBuffer : Loop δ × Bool :=
  let buffer := (loop.sockets s).buffer
  if buffer.length ≠ 0 then
    let (loop, written) := loop.usSocketWrite s buffer.data
    if written < buffer.length then (loop.onBuffer s (·.erase written), true)
    else (loop.onBuffer s .clear, false)
  else (loop, false)

def writeOut (src : Bytes) (optionally : Bool) (nextLength : Nat) : Loop δ × Nat × Bool :=
  let (loop, written) := loop.usSocketWrite s src
  if written < src.length then
    if optionally then (loop, written, true)
    else
      let loop := loop.onBuffer s fun buffer =>
        (if nextLength ≠ 0 then buffer.reserve (buffer.length + (src.length - written + nextLength)) else buffer).append
          (src.drop written)
      (loop, src.length, true)
  else (loop, src.length, false)

/-- `write` with what it does on a corked socket left open. -/
def writeWith (onCorked : Loop δ → Loop δ × Nat × Bool) (src : Bytes) (optionally : Bool) (nextLength : Nat) :
    Loop δ × Nat × Bool :=
  if (loop.sockets s).closed then (loop, src.length, false)
  else
    let (loop, limited) := loop.drainBuffer s
    if limited then
      if optionally then (loop, 0, true) else (loop.onBuffer s (·.append src), src.length, true)
    else if src.length = 0 then (loop, src.length, false)
    else if loop.isCorked s then onCorked loop
    else loop.writeOut s src optionally nextLength

/-- `write` as `uncork` calls it: the socket is not corked any more. -/
def writeUncorked (src : Bytes) (optionally : Bool) (nextLength : Nat) : Loop δ × Nat × Bool :=
  loop.writeWith s (fun loop => (loop, 0, false)) src optionally nextLength

def uncork (src : Bytes) (optionally : Bool) : Loop δ × Nat × Bool :=
  if loop.isCorked s then
    let loop := { loop with corkedSocket := none }
    if loop.corkBuffer.length ≠ 0 then
      let (loop, _, failed) := loop.writeUncorked s loop.corkBuffer false src.length
      let loop := { loop with corkBuffer := [] }
      if failed then
        if !optionally && src.length ≠ 0 then (loop.onBuffer s (·.append src), src.length, true)
        else (loop, 0, true)
      else loop.writeUncorked s src optionally 0
    else loop.writeUncorked s src optionally 0
  else (loop, 0, false)

/-- How much of `src` is written, anywhere, and whether writing failed. -/
def write (src : Bytes) (optionally : Bool) (nextLength : Nat) : Loop δ × Nat × Bool :=
  loop.writeWith s (fun loop =>
    if src.length ≤ corkBufferSize - loop.corkBuffer.length then
      ({ loop with corkBuffer := loop.corkBuffer ++ src }, src.length, false)
    else loop.uncork s src optionally) src optionally nextLength

/-- The path of long messages in `WebSocket::send`, and whether it ends with backpressure. -/
def writeLarge (header message : Bytes) : Loop δ × Bool :=
  let (loop, written) := loop.usSocketWrite2 s header message
  if written ≠ header.length + message.length then
    let loop := loop.onBuffer s fun buffer =>
      if header.length < written then buffer.append (message.drop (written - header.length))
      else (buffer.append (header.drop written)).append message
    (loop.uncorkWithoutSending s, true)
  else (loop, false)

end Loop

end Uws.Socket
