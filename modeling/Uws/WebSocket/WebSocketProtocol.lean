import Uws.Library.Machine
import Uws.WebSocket.Masking
import Uws.WebSocket.WebSocketContext

namespace Uws.WebSocket

open Uws.Http (Bytes)

def shortMessageHeader (isServer : Bool) : Nat := if isServer then 6 else 2
def mediumMessageHeader (isServer : Bool) : Nat := if isServer then 8 else 4
def longMessageHeader (isServer : Bool) : Nat := if isServer then 14 else 10

def isFin (frame : Bytes) : Bool := frame.getD 0 0 &&& 128 != 0
def getOpCode (frame : Bytes) : Nat := (frame.getD 0 0 &&& 15).toNat
def payloadLength (frame : Bytes) : Nat := (frame.getD 1 0 &&& 127).toNat
def rsv23 (frame : Bytes) : Bool := frame.getD 0 0 &&& 48 != 0
def rsv1 (frame : Bytes) : Bool := frame.getD 0 0 &&& 64 != 0

/-- The frames a socket is in: `opStack` is -1, 0 or 1. -/
structure OpStack where
  opStack : Int := -1
  lastFin : Bool := true
  opCode : Nat × Nat := (0, 0)
  deriving DecidableEq, Repr

/-- The parser's state; the spill's length is that of `spill`. -/
structure State extends OpStack where
  wantsHead : Bool := true
  spill : Bytes := []
  remainingBytes : Nat := 0
  mask : Bytes := [0, 0, 0, 0]
  deriving DecidableEq, Repr

structure Socket (ι : Type) where
  state : State
  data : WebSocketData ι

namespace OpStack

def currentOpCode (stack : OpStack) : Nat := if stack.opStack = 1 then stack.opCode.2 else stack.opCode.1

def pushOpCode (stack : OpStack) (opCode : Nat) : OpStack :=
  if stack.opStack = -1 then { stack with opStack := 0, opCode := (opCode, stack.opCode.2) }
  else { stack with opStack := stack.opStack + 1, opCode := (stack.opCode.1, opCode) }

def popOpCode (stack : OpStack) (fin : Bool) : OpStack :=
  if fin then { stack with opStack := stack.opStack - 1 } else stack

/-- The frame begins a message or a control frame, or continues the message that is open. -/
def openFrame (src : Bytes) (stack : OpStack) : Option OpStack :=
  if getOpCode src ≠ 0 then
    if stack.opStack = 1 ∨ (!stack.lastFin ∧ getOpCode src < 2) then none else some (stack.pushOpCode (getOpCode src))
  else if stack.opStack = -1 then none
  else some stack

end OpStack

variable {ι : Type} (context : WebSocketContextData ι)

/-- A return of false is the data behind the frame, one of true is nothing. -/
def consumeMessage (messageHeader payLength : Nat) (src : Bytes) (socket : Socket ι) :
    Socket ι × List Event × Option Bytes :=
  match socket.state.openFrame src with
  | none =>
    let (data, events, _) := forceClose errProtocol socket.data
    ({ socket with data }, events, none)
  | some stack =>
    let state := { socket.state with toOpStack := { stack with lastFin := isFin src } }
    if refusePayloadLength context payLength then
      let (data, events, _) := forceClose errTooBigMessage socket.data
      ({ state, data }, events, none)
    else if payLength + messageHeader ≤ src.length then
      let fin := isFin src
      let src := if context.isServer then unmaskImpreciseCopyMask messageHeader messageHeader payLength src else src
      let payload := if context.isServer then src.take payLength else (src.drop messageHeader).take payLength
      let (data, events, broken) := handleFragment context payload 0 state.currentOpCode fin socket.data
      if broken then ({ state, data }, events, none)
      else ({ state := { state with toOpStack := state.popOpCode fin, spill := [] }, data }, events, some (src.drop (payLength + messageHeader)))
    else
      let remainingBytes := (payLength + messageHeader - src.length) % 2 ^ 32
      let mask := (src.drop (messageHeader - 4)).take 4
      let payload :=
        if context.isServer then (unmaskImprecise8 0 messageHeader (mask ++ mask) src.length src).drop messageHeader
        else src.drop messageHeader
      let rotated :=
        if context.isServer then rotateMask (4 - (src.length - messageHeader) % 4) mask else state.mask
      let state := { state with spill := [], wantsHead := false, remainingBytes, mask := rotated }
      let (data, events, _) := handleFragment context payload remainingBytes state.currentOpCode (isFin src) socket.data
      ({ state, data }, events, none)

/-- A return of true is the data behind the frame, one of false is nothing. -/
def consumeContinuation (src : Bytes) (socket : Socket ι) : Socket ι × List Event × Option Bytes :=
  let state := socket.state
  if state.remainingBytes ≤ src.length then
    let n := state.remainingBytes / 4
    let src :=
      if context.isServer then
        let src := unmaskInplace n src state.mask
        store src (n * 4) (xorChunk ((src.drop (n * 4)).take (state.remainingBytes % 4)) state.mask)
      else src
    let (data, events, broken) :=
      handleFragment context (src.take state.remainingBytes) 0 state.currentOpCode state.lastFin socket.data
    if broken then ({ state, data }, events, none)
    else
      ({ state := { state with toOpStack := state.popOpCode state.lastFin, wantsHead := true }, data }, events,
        some (src.drop state.remainingBytes))
  else
    let payload :=
      if context.isServer ∧ state.mask ≠ [0, 0, 0, 0] then
        if recvBufferLength = src.length then unmaskAll src state.mask
        else unmaskInplace (src.length / 4 + 1) src state.mask
      else src
    let remainingBytes := state.remainingBytes - src.length
    let (data, events, broken) :=
      handleFragment context payload remainingBytes state.currentOpCode state.lastFin socket.data
    let mask :=
      if !broken ∧ context.isServer ∧ src.length % 4 ≠ 0 then rotateMask (4 - src.length % 4) state.mask else state.mask
    ({ state := { state with remainingBytes, mask }, data }, events, none)

/-- Invalid reserved bits, opcodes and control frames; a client takes no masked frame. -/
def invalidHeader (src : Bytes) : Bool :=
  rsv23 src || (decide (2 < getOpCode src) && decide (getOpCode src < 8)) || decide (10 < getOpCode src) ||
    (decide (2 < getOpCode src) && (!isFin src || decide (125 < payloadLength src))) ||
    (!context.isServer && src.getD 1 0 &&& 0x80 != 0)

/-- The header checks, which set a compressed frame. -/
def checkHeader (src : Bytes) (socket : WebSocketData ι) : Bool × WebSocketData ι :=
  let (set, socket) := if rsv1 src then setCompressed socket else (true, socket)
  (!set || invalidHeader context src, socket)

/-- What is left of a read, too short for a header, is spilled. -/
def spillRest (src : Bytes) (socket : Socket ι) : Socket ι :=
  if src.length ≠ 0 then { socket with state := { socket.state with spill := src.take (src.length % 16) } } else socket

/-- The loop over the frames of a read; every round takes a header, so `fuel` need not exceed the length. -/
def parseNext : Nat → Bytes → Socket ι → Socket ι × List Event
  | 0, src, socket => (spillRest src socket, [])
  | fuel + 1, src, socket =>
    if src.length < shortMessageHeader context.isServer then (spillRest src socket, [])
    else
      let (refused, data) := checkHeader context src socket.data
      let socket := { socket with data }
      if refused then
        let (data, events, _) := forceClose errProtocol socket.data
        ({ socket with data }, events)
      else
        let consumed :=
          if payloadLength src < 126 then
            some (consumeMessage context (shortMessageHeader context.isServer) (payloadLength src) src socket)
          else if payloadLength src = 126 then
            if src.length < mediumMessageHeader context.isServer then none
            else
              some (consumeMessage context (mediumMessageHeader context.isServer) (bigEndian ((src.drop 2).take 2)) src socket)
          else if src.length < longMessageHeader context.isServer then none
          else some (consumeMessage context (longMessageHeader context.isServer) (bigEndian ((src.drop 2).take 8)) src socket)
        match consumed with
        | none => (spillRest src socket, [])
        | some (socket, events, none) => (socket, events)
        | some (socket, events, some rest) =>
          ((parseNext fuel rest socket).1, events ++ (parseNext fuel rest socket).2)

def consume (socket : Socket ι) (src : Bytes) : Socket ι × List Event :=
  let src := socket.state.spill ++ src
  if socket.state.wantsHead then parseNext context src.length src socket
  else
    match consumeContinuation context src socket with
    | (socket, events, none) => (socket, events)
    | (socket, events, some rest) =>
      ((parseNext context rest.length rest socket).1, events ++ (parseNext context rest.length rest socket).2)

/-- A read of a socket; one that is closed or shutting down takes no more. -/
def consumeRead (socket : Socket ι) (src : Bytes) : Socket ι × List Event :=
  if socket.data.isShuttingDown then (socket, []) else consume context socket src

def openSocket (perMessageDeflate : Bool) (stream : ι) : Socket ι where
  state := {}
  data := { compressionStatus := if perMessageDeflate then .enabled else .disabled, inflationStream := stream }

def readEvents (perMessageDeflate : Bool) (stream : ι) (reads : List Bytes) : List Event :=
  (Machine.reads (consumeRead context) (openSocket perMessageDeflate stream) reads).2

end Uws.WebSocket
