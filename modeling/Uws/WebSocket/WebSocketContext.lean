import Uws.Http.Headers

namespace Uws.WebSocket

open Uws.Http (Bytes ascii)

def errTooBigMessage : Bytes := ascii "Received too big message"
def errInvalidText : Bytes := ascii "Received invalid UTF-8"
def errTooBigMessageInflation : Bytes := ascii "Received too big message, or other inflation error"
def errInvalidClosePayload : Bytes := ascii "Received invalid close payload"
def errProtocol : Bytes := ascii "Received invalid WebSocket frame"

abbrev textCode : Nat := 1
abbrev binaryCode : Nat := 2
abbrev closeCode : Nat := 8
abbrev pingCode : Nat := 9
abbrev pongCode : Nat := 10

def isTail (b : UInt8) : Bool := b &&& 0xc0 == 0x80

/-- Every round of the loop takes a byte, so `fuel` need not exceed the length. -/
def isValidUtf8Loop : Nat → Bytes → Bool
  | 0, s => s.isEmpty
  | fuel + 1, s =>
    if s.isEmpty then true
    else if 16 ≤ s.length && (s.take 16).all (· < 128) then isValidUtf8Loop fuel (s.drop 16)
    else
      match s.dropWhile (· < 128) with
      | [] => true
      | a :: s =>
        if a &&& 0x60 == 0x40 then
          match s with
          | b :: s => if !isTail b || a &&& 0xfe == 0xc0 then false else isValidUtf8Loop fuel s
          | _ => false
        else if a &&& 0xf0 == 0xe0 then
          match s with
          | b :: c :: s =>
            if !isTail b || !isTail c || (a == 0xe0 && b &&& 0xe0 == 0x80) || (a == 0xed && b &&& 0xe0 == 0xa0) then false
            else isValidUtf8Loop fuel s
          | _ => false
        else if a &&& 0xf8 == 0xf0 then
          match s with
          | b :: c :: d :: s =>
            if !isTail b || !isTail c || !isTail d || (a == 0xf0 && b &&& 0xf0 == 0x80) || (a == 0xf4 && 0x8f < b) ||
                0xf4 < a then false
            else isValidUtf8Loop fuel s
          | _ => false
        else false

def isValidUtf8 (s : Bytes) : Bool := isValidUtf8Loop s.length s

def bigEndian (bytes : Bytes) : Nat := bytes.foldl (fun value b => 256 * value + b.toNat) 0

/-- The code and the message of a close frame; 1005 without a code, 1006 for an invalid one. -/
def parseClosePayload (src : Bytes) : Nat × Bytes :=
  if src.length < 2 then (1005, [])
  else
    let code := bigEndian (src.take 2)
    let message := src.drop 2
    if code < 1000 ∨ 4999 < code ∨ (1011 < code ∧ code < 4000) ∨ (1004 ≤ code ∧ code ≤ 1006) ∨ !isValidUtf8 message then
      (1006, errInvalidClosePayload)
    else (code, message)

inductive CompressionStatus where
  | disabled
  | enabled
  | compressedFrame
  deriving DecidableEq, Repr

/-- What the handlers are called with; a ping stands for its handler and the pong that is sent. -/
inductive Event where
  | message (opCode : Nat) (payload : Bytes) (compressed : Bool)
  | ping (payload : Bytes)
  | pong (payload : Bytes)
  | close (code : Nat) (reason : Bytes)
  | forceClose (reason : Bytes)
  deriving DecidableEq, Repr

/-- The settings of a context. `inflate` is what its inflation stream does with a compressed message, given
    the stream's state; the payload length comes from an `unsigned int`. -/
structure WebSocketContextData (ι : Type) where
  isServer : Bool
  maxPayloadLength : Nat
  bounded : maxPayloadLength < 2 ^ 32
  inflate : ι → Bytes → ι × Option Bytes

/-- `isShuttingDown` stands for a closed socket as well: no more reads are given to either. -/
structure WebSocketData (ι : Type) where
  fragmentBuffer : Bytes := []
  controlTipLength : Nat := 0
  compressionStatus : CompressionStatus
  inflationStream : ι
  isShuttingDown : Bool := false

variable {ι : Type} (context : WebSocketContextData ι)

def setCompressed (socket : WebSocketData ι) : Bool × WebSocketData ι :=
  if socket.compressionStatus = .enabled then (true, { socket with compressionStatus := .compressedFrame })
  else (false, socket)

def forceClose (reason : Bytes) (socket : WebSocketData ι) : WebSocketData ι × List Event × Bool :=
  ({ socket with isShuttingDown := true }, [.forceClose reason], true)

def refusePayloadLength (length : Nat) : Bool := context.maxPayloadLength < length

def emitMessage (opCode : Nat) (data : Bytes) (socket : WebSocketData ι) : WebSocketData ι × List Event × Bool :=
  let compressed := socket.compressionStatus == .compressedFrame
  let (socket, inflatedFrame) :=
    if compressed then
      let (stream, inflatedFrame) := context.inflate socket.inflationStream data
      ({ socket with compressionStatus := .enabled, inflationStream := stream }, inflatedFrame)
    else (socket, some data)
  match inflatedFrame with
  | none => forceClose errTooBigMessageInflation socket
  | some data =>
    if opCode = textCode ∧ !isValidUtf8 data then forceClose errInvalidText socket
    else (socket, [.message opCode data compressed], false)

def emitControl (opCode : Nat) (data : Bytes) (socket : WebSocketData ι) : WebSocketData ι × List Event × Bool :=
  if opCode = closeCode then
    let (code, message) := parseClosePayload data
    ({ socket with isShuttingDown := true }, [.close code message], true)
  else if opCode = pingCode then (socket, [.ping data], false)
  else if opCode = pongCode then (socket, [.pong data], false)
  else (socket, [], false)

/-- 9 bytes of padding for libdeflate, 4 for zlib. -/
def padded (socket : WebSocketData ι) : WebSocketData ι :=
  { socket with
    fragmentBuffer :=
      if socket.compressionStatus = .compressedFrame then socket.fragmentBuffer ++ ascii "123456789"
      else socket.fragmentBuffer }

def handleData (data : Bytes) (remainingBytes opCode : Nat) (fin : Bool) (socket : WebSocketData ι) :
    WebSocketData ι × List Event × Bool :=
  if remainingBytes = 0 ∧ fin ∧ socket.fragmentBuffer.length = 0 then emitMessage context opCode data socket
  else if refusePayloadLength context (data.length + socket.fragmentBuffer.length) then
    forceClose errTooBigMessage socket
  else
    let socket := { socket with fragmentBuffer := socket.fragmentBuffer ++ data }
    if remainingBytes = 0 ∧ fin then
      let (socket, events, broken) := emitMessage context opCode socket.fragmentBuffer (padded socket)
      if broken then (socket, events, true) else ({ socket with fragmentBuffer := [] }, events, false)
    else (socket, [], false)

/-- The control frames of `handleFragment`, whose bytes share the buffer with a message's fragments. -/
def handleControl (data : Bytes) (remainingBytes opCode : Nat) (fin : Bool) (socket : WebSocketData ι) :
    WebSocketData ι × List Event × Bool :=
  if remainingBytes = 0 ∧ fin ∧ socket.controlTipLength = 0 then emitControl opCode data socket
  else
    let socket := { socket with
      fragmentBuffer := socket.fragmentBuffer ++ data, controlTipLength := socket.controlTipLength + data.length }
    if remainingBytes = 0 ∧ fin then
      let start := socket.fragmentBuffer.length - socket.controlTipLength
      let (socket, events, broken) := emitControl opCode (socket.fragmentBuffer.drop start) socket
      if broken then (socket, events, true)
      else ({ socket with fragmentBuffer := socket.fragmentBuffer.take start, controlTipLength := 0 }, events, false)
    else (socket, [], false)

def handleFragment (data : Bytes) (remainingBytes opCode : Nat) (fin : Bool) (socket : WebSocketData ι) :
    WebSocketData ι × List Event × Bool :=
  if opCode < 3 then handleData context data remainingBytes opCode fin socket
  else handleControl data remainingBytes opCode fin socket

end Uws.WebSocket
