import Uws.Http.HttpParser
import Uws.Http.ResponseEnds

namespace Uws.Http

open Uws.Socket
open HttpResponse

/-- What the code of a user may do in a handler or at any other time; what is said to a response names the
    request it answers. -/
inductive Act where
  | call (request : Nat) (call : Call)
  | onData (request : Nat) (attach : Bool)
  | onWritable (request : Nat)
  | onAborted (request : Nat)
  | upgrade (request : Nat) (headers : List HeadCall)
  | upgradeOther (t : Nat)
  | close
  | shutdown
  | pause
  | resume
  | uncork
  | ambient (ambient : Ambient)

def Act.upgrades : Act → Bool
  | .upgrade _ _ => true
  | _ => false

inductive Occurrence where
  | dispatched (pending closed shutDown upgraded ended streaming : Bool)
  | refused (closed : Bool)
  | attached (ended : Bool)
  | delivered (owner current : Nat)
  | wrote (request : Nat) (bytes : Bytes)
  | failed (bytes : Bytes)
deriving DecidableEq, Repr

/-- A socket of an HTTP context with its response data, which holds its loop as well, the context's flags, and
    what the handlers of this connection are going to do when they are called; a route that is not there is
    none. The last three fields observe a run: the number of requests that were dispatched, whether the body of
    the last one is at its end, and what has happened. -/
structure Connection where
  loop : Loop HttpResponseData
  socket : Nat
  upgraded : Bool := false
  upgradedWebSocket : Option Nat := none
  isParsingHttp : Bool := false
  routes : List (Option (List Act)) := []
  dataHandlers : List (List Act) := []
  writableHandlers : List (List Act) := []
  current : Nat := 0
  ended : Bool := true
  log : List Occurrence := []

def httpErrorResponse : HttpError → Bytes
  | .httpVersionNotSupported => ascii "HTTP/1.1 505 HTTP Version Not Supported\r\nConnection: close\r\n\r\n<h1>HTTP Version Not Supported</h1><p>This server does not support HTTP/1.0.</p><hr><i>uws Server</i>"
  | .requestHeaderFieldsTooLarge => ascii "HTTP/1.1 431 Request Header Fields Too Large\r\nConnection: close\r\n\r\n<h1>Request Header Fields Too Large</h1><hr><i>uws Server</i>"
  | .badRequest => ascii "HTTP/1.1 400 Bad Request\r\nConnection: close\r\n\r\n<h1>Bad Request</h1><hr><i>uws Server</i>"

namespace Connection

variable (c : Connection)

def data : HttpResponseData := getHttpResponseData c.loop c.socket
def isClosed : Bool := (c.loop.sockets c.socket).closed
def isShutDown : Bool := (c.loop.sockets c.socket).shutDown

def update (f : HttpResponseData → HttpResponseData) : Connection :=
  { c with loop := HttpResponse.update c.loop c.socket f }

def note (occurrence : Occurrence) : Connection := { c with log := c.log ++ [occurrence] }

/-- The object that a handler is given answers no other request than its own, and none behind its end. -/
def answers (request : Nat) : Bool :=
  !c.isClosed && !c.upgraded && c.data.responsePending && c.current == request

def respond (call : Call) : Connection :=
  let loop := call.perform c.socket c.loop
  { c with loop }.note (.wrote c.current ((loop.stream c.socket).drop (c.loop.stream c.socket).length))

/-- A finished response on a connection that is to be closed closes it when nothing is left to send. -/
def closeWhenSent : Connection :=
  if c.data.connectionClose && !c.data.responsePending && c.loop.getBufferedAmount c.socket == 0 then
    { c with loop := (c.loop.usSocketShutdown c.socket).usSocketClose c.socket }
  else c

def close : Connection := { c with loop := c.loop.usSocketClose c.socket }

def uncork : Connection := { c with loop := (c.loop.uncork c.socket [] false).1 }

def upgradeCalls (headers : List HeadCall) : List Call := headers.map Call.head ++ [.endWithoutBody none false]

def upgrade (headers : List HeadCall) : Connection :=
  let c := (upgradeCalls headers).foldl (fun c call => if c.isClosed then c else c.respond call) c
  { c with
    upgraded := true,
    upgradedWebSocket := if c.isParsingHttp then some c.socket else c.upgradedWebSocket }

end Connection

def Act.perform (c : Connection) : Act → Connection
  | .call request answer => if c.answers request then c.respond answer else c
  | .onData request attach =>
    if c.answers request then
      let c := c.update fun data => { data with inStream := if attach then some request else none }
      if attach then c.note (.attached c.ended) else c
    else c
  | .onWritable request => if c.answers request then c.update fun data => { data with onWritable := true } else c
  | .onAborted request => if c.answers request then c.update fun data => { data with onAborted := true } else c
  | .upgrade request headers => if c.answers request then c.upgrade headers else c
  | .upgradeOther t => if c.isParsingHttp then { c with upgradedWebSocket := some t } else c
  | .close => c.close
  | .shutdown => { c with loop := c.loop.usSocketShutdown c.socket }
  | .pause => if c.isClosed then c else { c with loop := c.loop.pause c.socket }
  | .resume => if c.isClosed then c else { c with loop := c.loop.resume c.socket }
  | .uncork => if c.isClosed then c else c.uncork.closeWhenSent
  | .ambient event => if c.isClosed then c else { c with loop := event.run c.socket c.loop }

namespace Connection

def perform (c : Connection) (acts : List Act) : Connection := acts.foldl Act.perform c

def connectionName : Bytes := ascii "connection"
def headMethod : Bytes := ascii "HEAD"

def dispatchState (req : HttpRequest) (data : HttpResponseData) : HttpResponseData :=
  { data with
    statusCalled := false, writeCalled := false, endCalled := false, responsePending := true,
    connectionClose := ((req.getHeader connectionName).getD []).map lowercased == ascii "close",
    methodHead := req.method == headMethod }

def expectName : Bytes := ascii "expect"

/-- What a route does in front of its handler: an expectation is answered. -/
def answerExpectation (req : HttpRequest) (c : Connection) : Connection :=
  if !c.isClosed && req.getHeader expectName == some (ascii "100-continue") then c.respond .writeContinue else c

/-- The route of the request that was just dispatched; the flag tells that there is one. -/
def route (req : HttpRequest) (c : Connection) : Connection × Bool :=
  match c.routes with
  | some acts :: routes => (({ c with routes }.answerExpectation req).perform acts, true)
  | none :: routes => ({ c with routes }, false)
  | [] => (c, true)

def startRequest (req : HttpRequest) (c : Connection) : Connection :=
  let c := c.note
    (.dispatched c.data.responsePending c.isClosed c.isShutDown c.upgraded c.ended c.data.inStream.isSome)
  { c.update (dispatchState req) with current := c.current + 1, ended := false }

def dispatch (req : HttpRequest) (c : Connection) : Connection × Bool :=
  let (c, routed) := (c.startRequest req).route req
  if !routed then (c.close, false)
  else if c.upgradedWebSocket.isSome then (c, false)
  else if c.isClosed then (c, false)
  else if c.isShutDown then (c, false)
  else if !hasResponded c.loop c.socket && !c.data.onAborted then (c.close, false)
  else (c, true)

def requestHandler (req : HttpRequest) (c : Connection) : Connection × Bool :=
  if c.isClosed then (c, false)
  else
    let c := c.update fun data => { data with offset := 0 }
    if c.data.responsePending then
      let c := c.close
      (c.note (.refused c.isClosed), false)
    else c.dispatch req

def callInStream (c : Connection) (owner : Nat) : Connection :=
  let c := c.note (.delivered owner c.current)
  { c with dataHandlers := c.dataHandlers.tail }.perform (c.dataHandlers.headD [])

def dataHandler (_ : Bytes) (maxRemainingBodyLength : Nat) (c : Connection) : Connection × Bool :=
  match c.data.inStream with
  | none => ({ c with ended := c.ended || maxRemainingBodyLength == 0 }, true)
  | some owner =>
    let c := c.callInStream owner
    let c := { c with ended := c.ended || maxRemainingBodyLength == 0 }
    if c.isClosed then (c, false)
    else if c.isShutDown then (c, false)
    else if maxRemainingBodyLength = 0 then (c.update fun data => { data with inStream := none }, true)
    else (c, true)

def handlers : Handlers Connection := ⟨requestHandler, dataHandler⟩

/-- An error is told past the cork buffer and the backpressure. -/
def fail (err : HttpError) (c : Connection) : Connection :=
  let (loop, written) := c.loop.usSocketWrite c.socket (httpErrorResponse err)
  let loop := (loop.usSocketShutdown c.socket).usSocketClose c.socket
  { c with loop }.note (.failed ((httpErrorResponse err).take written))

def onWritable (c : Connection) : Connection :=
  if c.data.onWritable then
    { c with writableHandlers := c.writableHandlers.tail }.perform (c.writableHandlers.headD [])
  else { c with loop := (c.loop.write c.socket [] true 0).1 }.closeWhenSent

def dispatchReadyPoll (c : Connection) : Connection :=
  let c := { c with loop := { c.loop with lastWriteFailed := false } }.onWritable
  if c.isClosed then c
  else if !c.loop.lastWriteFailed || c.isShutDown then
    { c with loop := c.loop.usPollChange c.socket { (c.loop.sockets c.socket).poll with writable := false } }
  else c

/-- The end of a read whose socket was closed or upgraded. -/
def leave (c : Connection) : Connection :=
  match c.upgradedWebSocket with
  | some t => { c with loop := (c.loop.uncork t [] false).1, upgradedWebSocket := none }
  | none => c.uncork

end Connection

structure HttpSocket where
  parser : HttpParser
  connection : Connection

namespace HttpSocket

def onData (maxHeaderSize : Nat) (read : Bytes) (socket : HttpSocket) : HttpSocket :=
  let c := socket.connection
  if c.isShutDown then socket
  else
    let c := { c with loop := c.loop.cork c.socket, isParsingHttp := true }
    let (returned, parser, c) := consumePostPadded Connection.handlers maxHeaderSize socket.parser read c
    let c := { c with isParsingHttp := false }
    match returned with
    | .user => { parser, connection := c.uncork.closeWhenSent }
    | .other => { parser, connection := c.leave }
    | .error err => { parser, connection := (c.fail err).leave }

end HttpSocket

/-- What may happen to a connection; a timeout, an error and the end of the other side close it. -/
inductive Input where
  | read (bytes : Bytes)
  | writable
  | acts (acts : List Act)
  | close

/-- A closed socket has no events, and those of an upgraded one are of another context. -/
def HttpSocket.step (maxHeaderSize : Nat) (socket : HttpSocket) (input : Input) : HttpSocket :=
  if socket.connection.isClosed || socket.connection.upgraded then socket
  else
    match input with
    | .read bytes => socket.onData maxHeaderSize bytes
    | .writable => { socket with connection := socket.connection.dispatchReadyPoll }
    | .acts acts => { socket with connection := socket.connection.perform acts }
    | .close => { socket with connection := socket.connection.close }

def HttpSocket.run (maxHeaderSize : Nat) (socket : HttpSocket) (inputs : List Input) : HttpSocket :=
  inputs.foldl (HttpSocket.step maxHeaderSize) socket

def openConnection (kernel : List Nat) (date : Bytes) (s : Nat) (routes : List (Option (List Act)))
    (dataHandlers writableHandlers : List (List Act)) : HttpSocket where
  parser := {}
  connection :=
    { loop := { Loop.fresh kernel fun _ => {} with date := date }, socket := s, routes, dataHandlers, writableHandlers }

end Uws.Http
