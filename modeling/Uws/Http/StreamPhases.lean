import Uws.Http.ChunkDecoding
import Uws.Http.HeaderScan
import Uws.Http.HttpParser

namespace Uws.Http

open Uws.Machine

/-- What the handlers of a connection are given: requests, body bytes and ends of bodies. -/
inductive StreamPart where
  | request (req : HttpRequest)
  | body (part : BodyPart)
  deriving DecidableEq, Repr

/-- The byte-wise states of a connection: in a head whose bytes are `read`, in a body with a length, in a
    chunked body, in its trailer, after an error, and where the reading depends on the cut. -/
inductive StreamPhase where
  | head (read : Bytes)
  | fixed (left : Nat)
  | chunked (phase : ChunkPhase)
  | trailer (tail : Nat)
  | error
  | irregular
  deriving DecidableEq, Repr

namespace StreamPhase

def ofChunk (tail : Nat) : ChunkPhase → StreamPhase
  | .trailer => .trailer tail
  | .error => .error
  | .irregular => .irregular
  | phase => .chunked phase

def ofRequest (req : HttpRequest) : StreamPhase × List BodyPart :=
  if req.transferEncodingString.length ≠ 0 then (.chunked (.size 0), [])
  else if req.contentLengthString.length ≠ 0 then
    let length := (toUnsignedInteger req.contentLengthString).toNat
    if length = uint64Max then (.error, [])
    else if length = 0 then (.head [], [.fin])
    else (.fixed length, [])
  else (.head [], [.fin])

def ofHeaders (maxHeaderSize : Nat) (read : Bytes) : HeadersResult → StreamPhase × List StreamPart
  | .incomplete _ => (if maxHeaderSize ≤ read.length then .error else .head read, [])
  | .failed _ => (if crTarget read then .irregular else .error, [])
  | .complete req _ =>
    if maxHeaderSize < read.length then (.error, [])
    else
      match checkHeaders req with
      | .error _ => (.error, [])
      | .ok req => ((ofRequest req).1, .request req :: (ofRequest req).2.map .body)

def step (maxHeaderSize : Nat) : StreamPhase → UInt8 → StreamPhase × List StreamPart
  | .head read, b => ofHeaders maxHeaderSize (read ++ [b]) (getHeaders (read ++ [b]))
  | .fixed left, b =>
    if left ≤ 1 then (.head [], [.body (.byte b), .body .fin]) else (.fixed (left - 1), [.body (.byte b)])
  | .chunked phase, b => (ofChunk 0 (phase.step b).1, (phase.step b).2.map .body)
  | .trailer tail, b =>
    match trailerStep tail b with
    | none => (.head [], [])
    | some tail => (.trailer tail, [])
  | .error, _ => (.error, [])
  | .irregular, _ => (.irregular, [])

/-- The parser states that stand for a phase. -/
inductive Holds (maxHeaderSize : Nat) : StreamPhase → HttpParser → Prop where
  | start (parser : HttpParser) (idle : parser.remainingStreamingBytes = 0#64) (empty : parser.fallback = []) :
      Holds maxHeaderSize (.head []) parser
  | head (read : Bytes) (parser : HttpParser) (some : read ≠ []) (small : read.length < maxHeaderSize)
      (idle : parser.remainingStreamingBytes = 0#64) (got : getHeaders read = .incomplete parser.fallback) :
      Holds maxHeaderSize (.head read) parser
  | fixed (left : Nat) (parser : HttpParser) (some : 0 < left) (bound : left < 2 ^ 60)
      (word : parser.remainingStreamingBytes = BitVec.ofNat 64 left) (empty : parser.fallback = []) :
      Holds maxHeaderSize (.fixed left) parser
  | chunked (phase : ChunkPhase) (parser : HttpParser) (going : phase.stopped = false)
      (word : phase.Holds parser.remainingStreamingBytes) (start : parser.trailerTail = 0)
      (empty : parser.fallback = []) : Holds maxHeaderSize (.chunked phase) parser
  | trailer (parser : HttpParser) (word : parser.remainingStreamingBytes = stateIsTrailer)
      (empty : parser.fallback = []) : Holds maxHeaderSize (.trailer parser.trailerTail) parser

variable (maxHeaderSize : Nat)

theorem absorbing_error : Absorbing (step maxHeaderSize) .error := fun _ => rfl

theorem absorbing_irregular : Absorbing (step maxHeaderSize) .irregular := fun _ => rfl

@[simp] theorem run_error (data : Bytes) : run (step maxHeaderSize) .error data = (.error, []) :=
  run_absorbing _ (absorbing_error maxHeaderSize) data

@[simp] theorem run_irregular (data : Bytes) : run (step maxHeaderSize) .irregular data = (.irregular, []) :=
  run_absorbing _ (absorbing_irregular maxHeaderSize) data

theorem run_ofChunk (phase : ChunkPhase) (tail : Nat) (data : Bytes) (start : phase = .trailer ∨ tail = 0) :
    run (step maxHeaderSize) (ofChunk tail phase) data =
      ((run (step maxHeaderSize) (ofChunk tail (phase.feed data).1) (phase.feed data).2.2).1,
        (phase.feed data).2.1.map .body ++
          (run (step maxHeaderSize) (ofChunk tail (phase.feed data).1) (phase.feed data).2.2).2) := by
  induction data generalizing phase with
  | nil => simp
  | cons b data ih =>
    by_cases stops : phase.stopped = true
    · rw [ChunkPhase.feed_stopped stops]
      simp
    · have going : phase.stopped = false := by simpa using stops
      have zero : tail = 0 := by
        rcases start with rfl | zero
        · simp [ChunkPhase.stopped] at going
        · exact zero
      have wrapped : ofChunk tail phase = .chunked phase := by cases phase <;> first | rfl | cases going
      rw [ChunkPhase.feed_cons going, wrapped, run_cons, step]
      subst zero
      rw [ih _ (.inr rfl)]
      simp [List.append_assoc]

end StreamPhase

end Uws.Http
