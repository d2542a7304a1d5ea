import Uws.Http.Headers

namespace Uws.Http

/-- The request with its header accessors: the in-band list ends at the first empty key. -/
def HttpRequest.walk (req : HttpRequest) : List Header := req.headers.takeWhile fun h => !h.key.isEmpty

def HttpRequest.getHeader (req : HttpRequest) (lowerCasedHeader : Bytes) : Option Bytes :=
  if req.bf.mightHave lowerCasedHeader then (req.walk.find? (·.key == lowerCasedHeader)).map Header.value else none

def hostName : Bytes := ascii "host"
def contentLengthName : Bytes := ascii "content-length"
def transferEncodingName : Bytes := ascii "transfer-encoding"

def HttpRequest.transferEncodingString (req : HttpRequest) : Bytes := (req.getHeader transferEncodingName).getD []
def HttpRequest.contentLengthString (req : HttpRequest) : Bytes := (req.getHeader contentLengthName).getD []

/-- Adds all headers to the bloom filter; nothing if a framing header comes twice. -/
def addHeaders : List Header → HttpRequest → Option HttpRequest
  | [], req => some req
  | h :: hs, req =>
    if req.bf.mightHave h.key && (h.key == hostName || h.key == contentLengthName || h.key == transferEncodingName) &&
        (req.getHeader h.key).isSome then none
    else addHeaders hs { req with bf := req.bf.add h.key }

def checkHeaders (req : HttpRequest) : Except HttpError HttpRequest :=
  match addHeaders req.walk { req with bf := .reset } with
  | none => .error .badRequest
  | some req =>
    if (req.getHeader hostName).isNone then .error .badRequest
    else if req.transferEncodingString.length ≠ 0 ∧ req.contentLengthString.length ≠ 0 then .error .badRequest
    else .ok req

/-- The callbacks of a call; the flag tells that they returned the user they were given. -/
structure Handlers (σ : Type) where
  requestHandler : HttpRequest → σ → σ × Bool
  dataHandler : Bytes → Nat → σ → σ × Bool

/-- The lower 60 bits of `remainingStreamingBytes` hold the size, the four highest the chunked state;
    `reserved` is the connection's PROXY parser, which every call is given. -/
structure HttpParser where
  fallback : Bytes := []
  remainingStreamingBytes : BitVec 64 := 0#64
  trailerTail : Nat := 0
  reserved : ProxyParser := {}
  deriving DecidableEq, Repr

inductive Returned where
  | user
  | other
  | error (err : HttpError)
  deriving DecidableEq, Repr

/-- What a part of a call leaves: a value to return, if any, and the parser, the data and the state. -/
structure Parsed (σ : Type) where
  returned : Option Returned
  parser : HttpParser
  data : Bytes
  state : σ

def uint64Max : Nat := 2 ^ 64 - 1

def trailerStep (trailerTail : Nat) (c : UInt8) : Option Nat :=
  if trailerTail = 0 then some (if c = cr then 4 else 5)
  else if trailerTail = 4 then if c = lf then none else some (if c = cr then 1 else 5)
  else if c = cr then some (if trailerTail = 2 then 3 else 1)
  else if c = lf then if trailerTail = 3 then none else some (if trailerTail = 1 then 2 else 5)
  else some 5

def consumeChunkedTrailer (parser : HttpParser) : Bytes → HttpParser × Bytes
  | [] => (parser, [])
  | c :: data =>
    if parser.remainingStreamingBytes = stateIsTrailer then
      match trailerStep parser.trailerTail c with
      | none => ({ parser with remainingStreamingBytes := 0#64, trailerTail := 0 }, data)
      | some tail => consumeChunkedTrailer { parser with trailerTail := tail } data
    else (parser, c :: data)

def toUnsignedIntegerLoop : Bytes → BitVec 64 → BitVec 64
  | [], unsignedIntegerValue => unsignedIntegerValue
  | c :: str, unsignedIntegerValue =>
    if c < 48 ∨ 57 < c then BitVec.allOnes 64
    else toUnsignedIntegerLoop str (unsignedIntegerValue * 10#64 + BitVec.ofNat 64 (c.toNat - 48))

/-- Returns all ones on error. Maximum 999999999999999999 (18 digits) is allowed. -/
def toUnsignedInteger (str : Bytes) : BitVec 64 :=
  if 18 < str.length then BitVec.allOnes 64 else toUnsignedIntegerLoop str 0#64

variable {σ : Type} (h : Handlers σ)

/-- The loop over a `ChunkIterator`, left when the data handler returns another user. -/
def emitChunks : Nat → Bytes → BitVec 64 → σ → Bool × Bytes × BitVec 64 × σ
  | 0, data, word, state => (true, data, word, state)
  | fuel + 1, data, word, state =>
    match getNextChunk data word with
    | (none, data, word) => (true, data, word, state)
    | (some chunk, data, word) =>
      let (state, same) := h.dataHandler chunk (if chunk.length ≠ 0 then uint64Max else 0) state
      if same then emitChunks fuel data word state else (false, data, word, state)

def consumeChunked (parser : HttpParser) (data : Bytes) (state : σ) : Parsed σ :=
  let (same, data, word, state) := emitChunks h (data.length + 1) data parser.remainingStreamingBytes state
  let parser := { parser with remainingStreamingBytes := word }
  if !same then ⟨some .other, parser, data, state⟩
  else
    let (parser, data) := consumeChunkedTrailer parser data
    if isParsingInvalidChunkedEncoding parser.remainingStreamingBytes then
      ⟨some (.error .badRequest), parser, data, state⟩
    else ⟨none, parser, data, state⟩

def consumeStreamingBody (parser : HttpParser) (data : Bytes) (state : σ) : Parsed σ :=
  if isParsingChunkedEncoding parser.remainingStreamingBytes then consumeChunked h parser data state
  else
    let remaining := parser.remainingStreamingBytes.toNat
    if data.length ≤ remaining then
      let (state, same) := h.dataHandler data (remaining - data.length) state
      let parser := { parser with remainingStreamingBytes := BitVec.ofNat 64 (remaining - data.length) }
      ⟨some (if same then .user else .other), parser, [], state⟩
    else
      let (state, same) := h.dataHandler (data.take remaining) 0 state
      let parser := { parser with remainingStreamingBytes := 0#64 }
      ⟨if same then none else some .other, parser, data.drop remaining, state⟩

def startBody (consumeMinimally : Bool) (req : HttpRequest) (parser : HttpParser) (data : Bytes) (state : σ) :
    Parsed σ :=
  if req.transferEncodingString.length ≠ 0 then
    let parser := { parser with remainingStreamingBytes := stateIsChunked, trailerTail := 0 }
    if consumeMinimally then ⟨none, parser, data, state⟩ else consumeChunked h parser data state
  else if req.contentLengthString.length ≠ 0 then
    let parser := { parser with remainingStreamingBytes := toUnsignedInteger req.contentLengthString }
    let remaining := parser.remainingStreamingBytes.toNat
    if remaining = uint64Max then ⟨some (.error .badRequest), parser, data, state⟩
    else if !consumeMinimally then
      let emittable := min remaining data.length
      let (state, same) := h.dataHandler (data.take emittable) (remaining - emittable) state
      if !same then ⟨some .other, parser, data, state⟩
      else
        ⟨none, { parser with remainingStreamingBytes := BitVec.ofNat 64 (remaining - emittable) },
          data.drop emittable, state⟩
    else if remaining = 0 then
      let (state, same) := h.dataHandler [] 0 state
      ⟨if same then none else some .other, parser, data, state⟩
    else ⟨none, parser, data, state⟩
  else
    let (state, same) := h.dataHandler [] 0 state
    ⟨if same then none else some .other, parser, data, state⟩

/-- The loop over the heads in a buffer; every round consumes a byte, so `fuel` need not exceed the length. -/
def fenceLoop (consumeMinimally : Bool) (maxHeaderSize : Nat) : Nat → HttpParser → Bytes → σ → Parsed σ
  | 0, parser, data, state => ⟨none, parser, data, state⟩
  | fuel + 1, parser, data, state =>
    if data.isEmpty then ⟨none, parser, data, state⟩
    else
      let parser := { parser with reserved := (parser.reserved.parse data).1 }
      match getHeaders data with
      | .incomplete buffer => ⟨none, parser, buffer, state⟩
      | .failed err => ⟨some (.error err), parser, data, state⟩
      | .complete req rest =>
        if maxHeaderSize < data.length - rest.length then
          ⟨some (.error .requestHeaderFieldsTooLarge), parser, rest, state⟩
        else
          match checkHeaders req with
          | .error err => ⟨some (.error err), parser, rest, state⟩
          | .ok req =>
            let (state, same) := h.requestHandler req state
            if !same then ⟨some .other, parser, rest, state⟩
            else
              let body := startBody h consumeMinimally req parser rest state
              if body.returned.isSome || consumeMinimally then body
              else fenceLoop consumeMinimally maxHeaderSize fuel body.parser body.data body.state

/-- `data` is fenced by the two bytes that `getHeaders` takes for granted; where nothing is returned, the
    user is, and the data left is not consumed. -/
def fenceAndConsumePostPadded (consumeMinimally : Bool) (maxHeaderSize : Nat) (parser : HttpParser) (data : Bytes)
    (state : σ) : Parsed σ :=
  fenceLoop h consumeMinimally maxHeaderSize data.length parser data state

def consumeHeads (maxHeaderSize : Nat) (parser : HttpParser) (data : Bytes) (state : σ) : Returned × HttpParser × σ :=
  let consumed := fenceAndConsumePostPadded h false maxHeaderSize parser data state
  match consumed.returned with
  | some returned => (returned, consumed.parser, consumed.state)
  | none =>
    if consumed.data.length ≠ 0 then
      if consumed.data.length < maxHeaderSize then
        (.user, { consumed.parser with fallback := consumed.parser.fallback ++ consumed.data }, consumed.state)
      else (.error .requestHeaderFieldsTooLarge, consumed.parser, consumed.state)
    else (.user, consumed.parser, consumed.state)

def consumeBodyAndHeads (maxHeaderSize : Nat) (parser : HttpParser) (data : Bytes) (state : σ) :
    Returned × HttpParser × σ :=
  let body := consumeStreamingBody h parser data state
  match body.returned with
  | some returned => (returned, body.parser, body.state)
  | none => consumeHeads h maxHeaderSize body.parser body.data body.state

/-- A call with a head begun in the fallback: never longer than `maxHeaderSize`, and dropped when complete. -/
def consumeFallback (maxHeaderSize : Nat) (parser : HttpParser) (data : Bytes) (state : σ) :
    Returned × HttpParser × σ :=
  let had := parser.fallback.length
  let fallback := parser.fallback ++ data.take (min (maxHeaderSize - had) data.length)
  let consumed := fenceAndConsumePostPadded h true maxHeaderSize parser fallback state
  match consumed.returned with
  | some returned => (returned, { consumed.parser with fallback }, consumed.state)
  | none =>
    let first := fallback.length - consumed.data.length
    if first ≠ 0 then
      let parser := { consumed.parser with fallback := [] }
      let data := data.drop (first - had)
      if parser.remainingStreamingBytes ≠ 0#64 then consumeBodyAndHeads h maxHeaderSize parser data consumed.state
      else consumeHeads h maxHeaderSize parser data consumed.state
    else if fallback.length = maxHeaderSize then
      (.error .requestHeaderFieldsTooLarge, { consumed.parser with fallback := consumed.data }, consumed.state)
    else (.user, { consumed.parser with fallback := consumed.data }, consumed.state)

def consumePostPadded (maxHeaderSize : Nat) (parser : HttpParser) (data : Bytes) (state : σ) :
    Returned × HttpParser × σ :=
  if parser.remainingStreamingBytes ≠ 0#64 then consumeBodyAndHeads h maxHeaderSize parser data state
  else if parser.fallback.length ≠ 0 then consumeFallback h maxHeaderSize parser data state
  else consumeHeads h maxHeaderSize parser data state

/-- The reads of a connection, up to the first call that does not return the user. -/
def consumeReads (maxHeaderSize : Nat) : List Bytes → HttpParser → σ → Returned × HttpParser × σ
  | [], parser, state => (.user, parser, state)
  | read :: reads, parser, state =>
    match consumePostPadded h maxHeaderSize parser read state with
    | (.user, parser, state) => consumeReads maxHeaderSize reads parser state
    | stopped => stopped

end Uws.Http
