import Uws.Http.ChunkRoundTrip
import Uws.Socket.ByteStream

namespace Uws.Http

open Uws.Socket

/-- The bits of `state`, and what else a response keeps on its socket; `inStream` tells for which request its
    data handler was attached. -/
structure HttpResponseData where
  statusCalled : Bool := false
  writeCalled : Bool := false
  endCalled : Bool := false
  responsePending : Bool := false
  connectionClose : Bool := false
  methodHead : Bool := false
  offset : Nat := 0
  onWritable : Bool := false
  onAborted : Bool := false
  inStream : Option Nat := none
deriving DecidableEq, Repr

def HttpResponseData.markDone (response : HttpResponseData) : HttpResponseData :=
  { response with onAborted := false, onWritable := false, responsePending := false }

def crlf : Bytes := [cr, lf]

def hexPalette (digit : Nat) : UInt8 := (ascii "0123456789abcdef").getD digit 0

def decimalPalette (digit : Nat) : UInt8 := UInt8.ofNat (digit + 48)

def writeDigits (base : Nat) (palette : Nat → UInt8) : Nat → Nat → Bytes → Bytes
  | 0, _, written => written
  | fuel + 1, value, written =>
    let written := palette (value % base) :: written
    if value / base = 0 then written else writeDigits base palette fuel (value / base) written

def unsignedHex (value : Nat) : Bytes := writeDigits 16 hexPalette (value + 1) value []

def u64toa (value : Nat) : Bytes := writeDigits 10 decimalPalette (value + 1) value []

def intMax : Nat := 2 ^ 31 - 1

def http200Ok : Bytes := ascii "200 OK"

namespace HttpResponse

variable (loop : Loop HttpResponseData) (s : Nat)

def getHttpResponseData : HttpResponseData := (loop.sockets s).ext

def update (f : HttpResponseData → HttpResponseData) : Loop HttpResponseData :=
  loop.modify s fun socket => { socket with ext := f socket.ext }

def send (src : Bytes) : Loop HttpResponseData := (loop.write s src false 0).1

def writeContinue : Loop HttpResponseData := send loop s (ascii "HTTP/1.1 100 Continue\r\n\r\n")

def writeUnsignedHex (value : Nat) : Loop HttpResponseData := send loop s (unsignedHex value)

def writeUnsigned64 (value : Nat) : Loop HttpResponseData := send loop s (u64toa value)

def writeStatus (status : Bytes) : Loop HttpResponseData :=
  if (getHttpResponseData loop s).statusCalled then loop
  else
    let loop := update loop s fun response => { response with statusCalled := true }
    let loop := send loop s (ascii "HTTP/1.1 ")
    let loop := send loop s status
    send loop s crlf

def writeHeader (key value : Bytes) : Loop HttpResponseData :=
  let loop := writeStatus loop s http200Ok
  let loop := send loop s key
  let loop := send loop s (ascii ": ")
  let loop := send loop s value
  send loop s crlf

def writeNumberHeader (key : Bytes) (value : Nat) : Loop HttpResponseData :=
  let loop := writeStatus loop s http200Ok
  let loop := send loop s key
  let loop := send loop s (ascii ": ")
  let loop := writeUnsigned64 loop s value
  send loop s crlf

def writeMark : Loop HttpResponseData := writeHeader loop s (ascii "Date") loop.date

def closeWhenDone : Loop HttpResponseData :=
  let response := getHttpResponseData loop s
  if !loop.isCorked s && response.connectionClose && !response.responsePending && loop.getBufferedAmount s == 0 then
    (loop.usSocketShutdown s).usSocketClose s
  else loop

/-- The pieces of `data`, each at most as long as an `int` can say. -/
def writePieces (optional : Bool) : Nat → Loop HttpResponseData → Bytes → Loop HttpResponseData × Nat × Bool
  | 0, loop, _ => (loop, 0, false)
  | fuel + 1, loop, data =>
    if data.length = 0 then (loop, 0, false)
    else
      let (loop, written, failed) := loop.write s (data.take intMax) optional 0
      if failed then (loop, written, true)
      else
        let (loop, more, failed) := writePieces optional fuel loop (data.drop written)
        (loop, written + more, failed)

def endChunks (data : Bytes) : Loop HttpResponseData :=
  let loop :=
    if (getHttpResponseData loop s).methodHead then send loop s crlf
    else
      let loop :=
        if data.length ≠ 0 then
          let loop := send loop s crlf
          let loop := writeUnsignedHex loop s data.length
          let loop := send loop s crlf
          send loop s data
        else loop
      send loop s (ascii "\r\n0\r\n\r\n")
  let loop := update loop s HttpResponseData.markDone
  closeWhenDone loop s

def beginEnd (totalSize : Nat) (allowContentLength : Bool) : Loop HttpResponseData :=
  if (getHttpResponseData loop s).endCalled then loop
  else
    let loop := writeMark loop s
    let loop :=
      if allowContentLength then
        let loop := send loop s (ascii "Content-Length: ")
        let loop := writeUnsigned64 loop s totalSize
        send loop s (ascii "\r\n\r\n")
      else send loop s crlf
    update loop s fun response => { response with endCalled := true }

def announceClose (closeConnection : Bool) : Loop HttpResponseData :=
  if closeConnection then
    let loop :=
      if (getHttpResponseData loop s).connectionClose then loop
      else writeHeader loop s (ascii "Connection") (ascii "close")
    update loop s fun response => { response with connectionClose := true }
  else loop

def internalEnd (data : Bytes) (totalSize : Nat) (optional allowContentLength closeConnection : Bool) :
    Loop HttpResponseData × Bool :=
  let loop := writeStatus loop s http200Ok
  let totalSize := if totalSize = 0 then data.length else totalSize
  let data := if (getHttpResponseData loop s).methodHead then [] else data
  let loop := announceClose loop s closeConnection
  if (getHttpResponseData loop s).writeCalled then (endChunks loop s data, true)
  else
    let loop := beginEnd loop s totalSize allowContentLength
    let (loop, written, failed) := writePieces s optional data.length loop data
    let loop := update loop s fun response => { response with offset := response.offset + written }
    let success := written == data.length && !failed
    if (getHttpResponseData loop s).offset = totalSize ∨ data.length = 0 then
      (closeWhenDone (update loop s HttpResponseData.markDone) s, success)
    else (loop, success)

def beginWrite : Loop HttpResponseData :=
  let loop := writeStatus loop s http200Ok
  if (getHttpResponseData loop s).writeCalled then loop
  else
    let loop := writeMark loop s
    let loop := writeHeader loop s (ascii "Transfer-Encoding") (ascii "chunked")
    update loop s fun response => { response with writeCalled := true }

def endWithoutBody (reportedContentLength : Option Nat) (closeConnection : Bool) : Loop HttpResponseData :=
  match reportedContentLength with
  | some length => (internalEnd loop s [] length false true closeConnection).1
  | none => (internalEnd loop s [] 0 false false closeConnection).1

def endResponse (data : Bytes) (closeConnection : Bool) : Loop HttpResponseData :=
  (internalEnd loop s data data.length false true closeConnection).1

def hasResponded : Bool := !(getHttpResponseData loop s).responsePending

def tryEnd (data : Bytes) (totalSize : Nat) (closeConnection : Bool) : Loop HttpResponseData × Bool × Bool :=
  let (loop, ok) := internalEnd loop s data totalSize true true closeConnection
  (loop, ok, hasResponded loop s)

def write (data : Bytes) : Loop HttpResponseData × Bool :=
  let loop := writeStatus loop s http200Ok
  if data.length = 0 then (loop, true)
  else
    let loop := beginWrite loop s
    if (getHttpResponseData loop s).methodHead then (loop, true)
    else
      let loop := send loop s crlf
      let loop := writeUnsignedHex loop s data.length
      let loop := send loop s crlf
      let (loop, _, failed) := loop.write s data false 0
      (loop, !failed)

def getWriteOffset : Nat := (getHttpResponseData loop s).offset

end HttpResponse

end Uws.Http
