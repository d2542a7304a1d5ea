import Uws.WebSocket.MessageFormat

namespace Uws.WebSocket

open Uws.Http (Bytes)

/-- What zlib does: `deflate` is given some bytes and `Z_SYNC_FLUSH`, `inflate` everything since the stream began. -/
structure Zlib where
  State : Type
  reset : State
  deflate : State → Bytes → State × Bytes
  inflate : Bytes → Option Bytes

def flushTail : Bytes := [0x00, 0x00, 0xff, 0xff]

namespace Zlib

variable (zlib : Zlib)

def deflateAll : zlib.State → List Bytes → zlib.State × Bytes
  | state, [] => (state, [])
  | state, raw :: raws =>
    let (state, output) := zlib.deflate state raw
    let (state, outputs) := deflateAll state raws
    (state, output ++ outputs)

/-- A sync flush ends its output with the tail, and the outputs of a stream inflate to its inputs. -/
structure Lawful : Prop where
  flushed : ∀ state raw, raw ≠ [] → flushTail <:+ (zlib.deflate state raw).2
  inflated : ∀ raws : List Bytes, (∀ raw ∈ raws, raw ≠ []) →
    zlib.inflate (zlib.deflateAll zlib.reset raws).2 = some raws.flatten

end Zlib

/-- Deflates and optionally resets; the flush tail is left off. -/
def DeflationStream.deflate (zlib : Zlib) (stream : zlib.State) (raw : Bytes) (reset : Bool) : zlib.State × Bytes :=
  let (stream, output) := zlib.deflate stream raw
  (if reset then zlib.reset else stream, output.take (output.length - 4))

structure DeflationStreams (zlib : Zlib) where
  dedicated : Option zlib.State
  shared : zlib.State

inductive CompressFlags where
  | noAction
  | compress
  | alreadyCompressed
deriving DecidableEq, Repr

/-- What `send` gives to `formatMessage`. -/
structure OutgoingFrame where
  message : Bytes
  opCode : Nat
  compress : Bool
  fin : Bool
deriving DecidableEq, Repr

def OutgoingFrame.format (isServer : Bool) (mask : Bytes) (frame : OutgoingFrame) : Bytes :=
  formatMessage isServer frame.message frame.opCode frame.message.length frame.compress frame.fin mask

section Sends

variable {zlib : Zlib} (streams : DeflationStreams zlib) (status : CompressionStatus)

/-- The part of `send` that transforms a message to the compressed domain, if that is requested. -/
def sendFrame (message : Bytes) (opCode : Nat) (flags : CompressFlags) (fin : Bool) :
    DeflationStreams zlib × OutgoingFrame :=
  if flags ≠ .noAction then
    if message.length ≠ 0 ∧ opCode < 3 ∧ status = .enabled then
      if flags ≠ .alreadyCompressed then
        match streams.dedicated with
        | some stream =>
          let (stream, message) := DeflationStream.deflate zlib stream message false
          ({ streams with dedicated := some stream }, ⟨message, opCode, true, fin⟩)
        | none =>
          let (stream, message) := DeflationStream.deflate zlib streams.shared message true
          ({ streams with shared := stream }, ⟨message, opCode, true, fin⟩)
      else (streams, ⟨message, opCode, true, fin⟩)
    else (streams, ⟨message, opCode, false, fin⟩)
  else (streams, ⟨message, opCode, false, fin⟩)

def compressFlag (compress : Bool) : CompressFlags := if compress then .compress else .noAction

def sendFirstFragment (message : Bytes) (opCode : Nat) (compress : Bool) : DeflationStreams zlib × OutgoingFrame :=
  sendFrame streams status message opCode (compressFlag compress) false

def sendFragment (message : Bytes) (compress : Bool) : DeflationStreams zlib × OutgoingFrame :=
  sendFrame streams status message 0 (compressFlag compress) false

def sendLastFragment (message : Bytes) (compress : Bool) : DeflationStreams zlib × OutgoingFrame :=
  sendFrame streams status message 0 (compressFlag compress) true

end Sends

/-- A fragment as it is sent on a connection that negotiated compression; a message that comes in meanwhile shows
    in its status. -/
structure Fragment where
  message : Bytes
  compress : Bool
  status : CompressionStatus
  nonempty : message ≠ []
  negotiated : status ≠ .disabled

structure FragmentedMessage where
  opCode : Nat
  first : Fragment
  middle : List Fragment
  last : Fragment
  data : opCode = textCode ∨ opCode = binaryCode

def FragmentedMessage.fragments (message : FragmentedMessage) : List Fragment :=
  message.first :: (message.middle ++ [message.last])

def sendFragments {zlib : Zlib} : List Fragment → DeflationStreams zlib → DeflationStreams zlib × List OutgoingFrame
  | [], streams => (streams, [])
  | fragment :: fragments, streams =>
    let (streams, frame) := sendFragment streams fragment.status fragment.message fragment.compress
    let (streams, frames) := sendFragments fragments streams
    (streams, frame :: frames)

def FragmentedMessage.send {zlib : Zlib} (streams : DeflationStreams zlib) (message : FragmentedMessage) :
    List OutgoingFrame :=
  let (streams, first) :=
    sendFirstFragment streams message.first.status message.first.message message.opCode message.first.compress
  let (streams, middle) := sendFragments message.middle streams
  let (_, last) := sendLastFragment streams message.last.status message.last.message message.last.compress
  first :: (middle ++ [last])

/-- What was sent before on the stream of a message: only a dedicated stream is not reset. -/
def history (dedicated : Bool) (past : List Bytes) : List Bytes := if dedicated then past else []

def DeflationStreams.after (zlib : Zlib) (dedicated : Bool) (past : List Bytes) : DeflationStreams zlib where
  dedicated := if dedicated then some (zlib.deflateAll zlib.reset past).1 else none
  shared := zlib.reset

/-- The frames are one message to the other side, whose inflater has seen the output for `past` before. -/
structure Decodable (zlib : Zlib) (past : List Bytes) (isServer : Bool) (frames : List OutgoingFrame) (data : Bytes) :
    Prop where
  continued : ∀ frame ∈ frames.tail, ∀ mask, rsv1 (frame.format isServer mask) = false
  inflates : ∀ frame ∈ frames.head?, ∀ mask, rsv1 (frame.format isServer mask) = true →
    zlib.inflate ((zlib.deflateAll zlib.reset past).2 ++ (frames.flatMap OutgoingFrame.message ++ flushTail)) =
      some (past.flatten ++ data)
  equals : ∀ frame ∈ frames.head?, ∀ mask, rsv1 (frame.format isServer mask) = false →
    frames.flatMap OutgoingFrame.message = data

/-- With every lawful zlib, a message sent behind any others is one to the other side. -/
def FragmentedMessage.Decodes (isServer dedicated : Bool) (message : FragmentedMessage) : Prop :=
  ∀ zlib : Zlib, zlib.Lawful → ∀ past : List Bytes, (∀ raw ∈ past, raw ≠ []) →
    Decodable zlib (history dedicated past) isServer (message.send (.after zlib dedicated past))
      (message.fragments.flatMap Fragment.message)

def Fragment.compressed (fragment : Fragment) : Bool := fragment.compress && fragment.status == .enabled

end Uws.WebSocket
