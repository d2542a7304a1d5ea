import Uws.Library.Machine
import Uws.Http.ChunkState

namespace Uws.Http

open Uws.Machine

/-- What a body is made of: its bytes and its end. -/
inductive BodyPart where
  | byte (value : UInt8)
  | fin
  deriving DecidableEq, Repr

/-- The parts a call of the data handler carries: the bytes and, for an empty chunk, the end. -/
def chunkParts (chunk : Bytes) : List BodyPart :=
  if chunk.isEmpty then [.fin] else chunk.map .byte

/-- The byte-wise states of a chunked body. `irregular` is entered where the decoder's word loses
    track: after a byte that it skips only within the read that also brought the line's CR, and at a
    size that runs into the flags. -/
inductive ChunkPhase where
  | size (value : Nat)
  | sizeCr (value : Nat)
  | extension (value : Nat)
  | data (left : Nat)
  | dataCr
  | dataLf
  | trailer
  | error
  | irregular
  deriving DecidableEq, Repr

namespace ChunkPhase

def endLine (value : Nat) : ChunkPhase × List BodyPart :=
  if 2 ^ 60 ≤ value + 2 then (.irregular, [])
  else if value = 0 then (.trailer, [.fin])
  else (.data value, [])

def step : ChunkPhase → UInt8 → ChunkPhase × List BodyPart
  | .size value, b =>
    match hexDigit b with
    | some number => (if 2 ^ 56 ≤ value then .error else .size (16 * value + number), [])
    | none =>
      if b = 59 then (.extension value, [])
      else if b = cr then (.sizeCr value, [])
      else if b = lf then endLine value
      else (.error, [])
  | .sizeCr value, b =>
    if b = lf then endLine value
    else if b = cr ∨ b = 59 then (.sizeCr value, [])
    else (.irregular, [])
  | .extension value, b => if b = lf then endLine value else (.extension value, [])
  | .data left, b => (if left ≤ 1 then .dataCr else .data (left - 1), [.byte b])
  | .dataCr, b => (if b = cr then .dataLf else .error, [])
  | .dataLf, b => (if b = lf then .size 0 else .error, [])
  | .trailer, _ => (.trailer, [])
  | .error, _ => (.error, [])
  | .irregular, _ => (.irregular, [])

theorem step_digit {b : UInt8} {number : Nat} (hex : hexDigit b = some number) (value : Nat) :
    (ChunkPhase.size value).step b = (if 2 ^ 56 ≤ value then .error else .size (16 * value + number), []) := by
  simp only [step, hex]

theorem endLine_irregular {value : Nat} (large : 2 ^ 60 ≤ value + 2) : endLine value = (.irregular, []) := by
  rw [endLine, if_pos large]

theorem endLine_data {value : Nat} (some : value ≠ 0) (small : value + 2 < 2 ^ 60) :
    endLine value = (.data value, []) := by
  rw [endLine, if_neg (Nat.not_le.mpr small), if_neg some]

/-- The state words that stand for a phase. A CR that ended the digits is not recorded in the word. -/
inductive Holds : ChunkPhase → BitVec 64 → Prop where
  | size (value : Nat) (bound : value < 2 ^ 60) : Holds (.size value) (word 4#4 value)
  | sizeCr (value : Nat) (bound : value < 2 ^ 60) : Holds (.sizeCr value) (word 4#4 value)
  | sizeCrExtension (value : Nat) (bound : value < 2 ^ 60) : Holds (.sizeCr value) (word 6#4 value)
  | extension (value : Nat) (bound : value < 2 ^ 60) : Holds (.extension value) (word 6#4 value)
  | data (left : Nat) (some : 0 < left) (bound : left + 2 < 2 ^ 60) :
      Holds (.data left) (word 12#4 (left + 2))
  | dataCr : Holds .dataCr (word 12#4 2)
  | dataLf : Holds .dataLf (word 12#4 1)
  | trailer : Holds .trailer (word 1#4 0)

/-- The phases in which the decoder leaves the rest of a read alone. -/
def stopped : ChunkPhase → Bool
  | .trailer | .error | .irregular => true
  | _ => false

/-- The phase, the parts and the rest of a read after the decoder's bytes have been taken. -/
def feed (phase : ChunkPhase) (data : Bytes) : ChunkPhase × List BodyPart × Bytes :=
  runUntil step stopped phase data

theorem Holds.valid {phase : ChunkPhase} {state : BitVec 64} (holds : phase.Holds state) :
    isParsingInvalidChunkedEncoding state = false := by
  cases holds <;> exact invalid_word _ _ (by omega) (by decide)

theorem Holds.chunked {phase : ChunkPhase} {state : BitVec 64} (holds : phase.Holds state) :
    isParsingChunkedEncoding state = true := by
  cases holds <;> simp

theorem Holds.word_trailer {state : BitVec 64} (holds : ChunkPhase.trailer.Holds state) : state = stateIsTrailer := by
  cases holds
  exact stateIsTrailer_word.symm

@[simp] theorem feed_nil (phase : ChunkPhase) : phase.feed [] = (phase, [], []) := rfl

theorem feed_stopped {phase : ChunkPhase} (stops : phase.stopped = true) (data : Bytes) :
    phase.feed data = (phase, [], data) :=
  runUntil_stopped step stopped stops data

@[simp] theorem feed_error (data : Bytes) : ChunkPhase.error.feed data = (.error, [], data) :=
  feed_stopped rfl data

@[simp] theorem feed_irregular (data : Bytes) : ChunkPhase.irregular.feed data = (.irregular, [], data) :=
  feed_stopped rfl data

@[simp] theorem feed_trailer (data : Bytes) : ChunkPhase.trailer.feed data = (.trailer, [], data) :=
  feed_stopped rfl data

theorem feed_cons {phase : ChunkPhase} (going : phase.stopped = false) (b : UInt8) (data : Bytes) :
    phase.feed (b :: data) =
      (((phase.step b).1.feed data).1, (phase.step b).2 ++ ((phase.step b).1.feed data).2.1,
        ((phase.step b).1.feed data).2.2) :=
  runUntil_cons step stopped going b data

theorem feed_append {phase next : ChunkPhase} {front : Bytes} {parts : List BodyPart}
    (whole : phase.feed front = (next, parts, [])) (back : Bytes) :
    phase.feed (front ++ back) =
      ((next.feed back).1, parts ++ (next.feed back).2.1, (next.feed back).2.2) :=
  runUntil_append step stopped whole back

/-- From `phase`, all bytes of `data` in front of `rest` lead to a phase that `state` holds. -/
def Passed (phase : ChunkPhase) (data : Bytes) (parts : List BodyPart) (rest : Bytes)
    (state : BitVec 64) : Prop :=
  ∃ used next, data = used ++ rest ∧ phase.feed used = (next, parts, []) ∧ next.Holds state

theorem Passed.feed {phase : ChunkPhase} {data rest : Bytes} {parts : List BodyPart}
    {state : BitVec 64} (passed : phase.Passed data parts rest state) :
    ∃ next : ChunkPhase, next.Holds state ∧ phase.feed data =
      ((next.feed rest).1, parts ++ (next.feed rest).2.1, (next.feed rest).2.2) := by
  obtain ⟨used, next, rfl, taken, holds⟩ := passed
  exact ⟨next, holds, feed_append taken rest⟩

end ChunkPhase

end Uws.Http
