import Mathlib

namespace Uws.Http

abbrev Bytes := List UInt8

abbrev cr : UInt8 := 13
abbrev lf : UInt8 := 10

def stateHasSize : BitVec 64 := 1#64 <<< 63
def stateIsChunked : BitVec 64 := 1#64 <<< 62
def stateIsExtension : BitVec 64 := 1#64 <<< 61
def stateIsTrailer : BitVec 64 := 1#64 <<< 60
def stateSizeMask : BitVec 64 := ~~~(0x0f#64 <<< 60)
def stateIsError : BitVec 64 := ~~~0#64
def stateSizeOverflow : BitVec 64 := 0x0f#64 <<< 56

def chunkSize (state : BitVec 64) : BitVec 64 := state &&& stateSizeMask

def hasChunkSize (state : BitVec 64) : Bool := state &&& stateHasSize != 0#64

def isParsingChunkedEncoding (state : BitVec 64) : Bool := state &&& ~~~stateSizeMask != 0#64

def isParsingInvalidChunkedEncoding (state : BitVec 64) : Bool := state == stateIsError

def decChunkSize (state : BitVec 64) (by' : Nat) : BitVec 64 :=
  (state &&& ~~~stateSizeMask) ||| (chunkSize state - BitVec.ofNat 64 by')

def hexDigit (digit : UInt8) : Option Nat :=
  if 48 ≤ digit ∧ digit ≤ 57 then some (digit.toNat - 48)
  else if 65 ≤ digit ∧ digit ≤ 70 then some (digit.toNat - 65 + 10)
  else if 97 ≤ digit ∧ digit ≤ 102 then some (digit.toNat - 97 + 10)
  else none

/-- The digit loop of `consumeHexNumber`; the flag tells that the call returned with the error state. -/
def consumeHexDigits : Bytes → BitVec 64 → Bytes × BitVec 64 × Bool
  | [], state => ([], state, false)
  | digit :: data, state =>
    match hexDigit digit with
    | some number =>
      if chunkSize state &&& stateSizeOverflow != 0#64 then (digit :: data, stateIsError, true)
      else
        consumeHexDigits data
          (((state &&& stateSizeMask) * 16#64 + BitVec.ofNat 64 number) ||| stateIsChunked)
    | none =>
      if digit = 59 then (data, state ||| stateIsExtension, false)
      else if digit = cr ∨ digit = lf then (digit :: data, state, false)
      else (digit :: data, stateIsError, true)

/-- The second half of `consumeHexNumber`: skip to the line feed and, standing on it, enable the size. -/
def finishSizeLine (data : Bytes) (state : BitVec 64) : Bytes × BitVec 64 :=
  match data.dropWhile (· ≠ lf) with
  | [] => ([], state)
  | _ :: rest =>
    (rest, ((state + 2#64) &&& ~~~stateIsExtension) ||| (stateHasSize ||| stateIsChunked))

def consumeHexNumber (data : Bytes) (state : BitVec 64) : Bytes × BitVec 64 :=
  if state &&& stateIsExtension != 0#64 then finishSizeLine data state
  else
    match consumeHexDigits data state with
    | (data, state, true) => (data, state)
    | (data, state, false) => finishSizeLine data state

/-- What one pass of the `while` loop of `getNextChunk` does with non-empty data. -/
inductive ChunkPass where
  | stop (data : Bytes) (state : BitVec 64)
  | emit (chunk data : Bytes) (state : BitVec 64)
  | again (data : Bytes) (state : BitVec 64)
  deriving DecidableEq, Repr

def completeChunk (data : Bytes) (state : BitVec 64) : ChunkPass :=
  let size := chunkSize state
  if (2#64 ≤ size ∧ data.getD (size - 2#64).toNat 0 ≠ cr) ∨ data.getD (size - 1#64).toNat 0 ≠ lf then
    .stop data stateIsError
  else if 2#64 < size then
    .emit (data.take (size - 2#64).toNat) (data.drop size.toNat) stateIsChunked
  else .again (data.drop size.toNat) stateIsChunked

/-- The pass that consumes all of `data`, which is shorter than the rest of the chunk. -/
def continueChunk (data : Bytes) (state : BitVec 64) : ChunkPass :=
  let size := chunkSize state
  if data.length = (size - 1#64).toNat ∧ data.getLastD 0 ≠ cr then .stop data stateIsError
  else
    let emitSoon := if 2#64 < size then data.take (size - 2#64).toNat else []
    let next := decChunkSize state data.length ||| stateIsChunked
    if emitSoon.length = 0 then .stop [] next else .emit emitSoon [] next

def chunkPass (data : Bytes) (state : BitVec 64) : ChunkPass :=
  if state &&& stateIsTrailer != 0#64 then .stop data state
  else if !hasChunkSize state then
    let (data, state) := consumeHexNumber data state
    if isParsingInvalidChunkedEncoding state then .stop data state
    else if hasChunkSize state ∧ chunkSize state = 2#64 then .emit [] data stateIsTrailer
    else .again data state
  else if (chunkSize state).toNat ≤ data.length then completeChunk data state
  else continueChunk data state

/-- The `while` loop; every pass that goes on has consumed a byte, so `fuel` need not exceed the length. -/
def getNextChunkLoop : Nat → Bytes → BitVec 64 → Option Bytes × Bytes × BitVec 64
  | 0, data, state => (none, data, state)
  | fuel + 1, data, state =>
    if data.isEmpty then (none, data, state)
    else
      match chunkPass data state with
      | .stop data state => (none, data, state)
      | .emit chunk data state => (some chunk, data, state)
      | .again data state => getNextChunkLoop fuel data state

/-- Returns the next chunk (empty or not), or nothing when all data was consumed. -/
def getNextChunk (data : Bytes) (state : BitVec 64) : Option Bytes × Bytes × BitVec 64 :=
  getNextChunkLoop data.length data state

def chunkIteratorLoop : Nat → Bytes → BitVec 64 → List Bytes × Bytes × BitVec 64
  | 0, data, state => ([], data, state)
  | fuel + 1, data, state =>
    match getNextChunk data state with
    | (none, data, state) => ([], data, state)
    | (some chunk, data, state) =>
      let (chunks, data, state) := chunkIteratorLoop fuel data state
      (chunk :: chunks, data, state)

def chunkIterator (data : Bytes) (state : BitVec 64) : List Bytes × Bytes × BitVec 64 :=
  chunkIteratorLoop (data.length + 1) data state

end Uws.Http
