import Uws.Http.BloomFilter
import Uws.Http.ProxyParser

namespace Uws.Http

inductive HttpError where
  | httpVersionNotSupported
  | requestHeaderFieldsTooLarge
  | badRequest
  deriving DecidableEq, Repr

structure Header where
  key : Bytes
  value : Bytes
  deriving DecidableEq, Repr

/-- A parsed head; `headers` are the stored entries behind the request line, before the terminating one. -/
structure HttpRequest where
  method : Bytes
  target : Bytes
  headers : List Header
  bf : BloomFilter := .reset
  deriving DecidableEq, Repr

/-- The bytes a `std::string` literal of the source stands for. -/
def ascii (text : String) : Bytes := text.toList.map fun c => UInt8.ofNat c.toNat

def colon : UInt8 := 58
def space : UInt8 := 32
def tab : UInt8 := 9

def isTchar (c : UInt8) : Bool :=
  (48 ≤ c && c ≤ 57) || (65 ≤ c && c ≤ 90) || (97 ≤ c && c ≤ 122) ||
    [33, 35, 36, 37, 38, 39, 42, 43, 45, 46, 94, 95, 96, 124, 126].contains c

def versionLine : Bytes := [32, 72, 84, 84, 80, 47, 49, 46, 49, 13, 10]

def maxHeadersCount : Nat := 100

/-- Digits and 14 of the 15 non-alphanum characters (lacking hyphen). -/
def isUnlikelyFieldNameByte (c : UInt8) : Bool :=
  c == 126 || c == 124 || c == 96 || c == 95 || c == 94 || c == 46 || c == 43 || c == 42 || c == 33 ||
    (48 ≤ c && c ≤ 57) || (35 ≤ c && c ≤ 39)

def isUpper (c : UInt8) : Bool := 65 ≤ c && c ≤ 90

def isLower (c : UInt8) : Bool := 97 ≤ c && c ≤ 122

def isFieldNameByteFast (c : UInt8) : Bool := isLower c || c == 45 || isUpper c || isUnlikelyFieldNameByte c

def lowercased (c : UInt8) : UInt8 := if isUpper c then c ||| 32 else c

/-- Both loops of `consumeFieldName`: the fast path over letters and hyphens, which returns on a colon,
    and the generic one. Gives the lower-cased name and what follows it. -/
def consumeFieldName (p : Bytes) : Bytes × Bytes :=
  let fast := p.takeWhile fun c => isUpper c || isLower c || c == 45
  let p := p.dropWhile fun c => isUpper c || isLower c || c == 45
  if p.head? = some colon then (fast.map lowercased, p)
  else
    ((fast ++ p.takeWhile isFieldNameByteFast).map lowercased, p.dropWhile isFieldNameByteFast)

/-- The request line as far as it was found; `p` being empty means standing at the fence. -/
inductive RequestLine where
  | incomplete
  | failed (err : HttpError)
  | complete (method target p : Bytes)
  deriving DecidableEq, Repr

def consumeTarget (method q : Bytes) : RequestLine :=
  let target := q.takeWhile (32 < ·)
  let p := q.dropWhile (32 < ·)
  if p.length ≤ 11 then
    if versionLine.take p.length = p then .incomplete else .failed .httpVersionNotSupported
  else if p.take 11 = versionLine then .complete method target (p.drop 11)
  else if p.head? = some cr then .incomplete
  else .failed .httpVersionNotSupported

/-- The method is scanned with signed characters, so a byte from 128 on ends it. -/
def consumeRequestLine (data : Bytes) : RequestLine :=
  let method := data.takeWhile fun c => 32 < c && c < 128
  match data.dropWhile fun c => 32 < c && c < 128 with
  | [] => .incomplete
  | [_] => .incomplete
  | b :: c :: q =>
    if b = space ∧ c = 47 then consumeTarget method (c :: q)
    else if b = cr then .incomplete
    else .failed .httpVersionNotSupported

/-- The loop around `tryConsumeFieldValue`: bytes above 31 and TABs are skipped, and it ends at a CR (the
    fence's or a real one); any other byte is an error. -/
def consumeFieldValue : Bytes → Option (Bytes × Bytes)
  | [] => some ([], [])
  | c :: p =>
    if 31 < c ∨ c = tab then (consumeFieldValue p).map fun (value, rest) => (c :: value, rest)
    else if c = cr then some ([], c :: p)
    else none

def trimValue (value : Bytes) : Bytes := (value.rdropWhile (· < 33)).dropWhile (· < 33)

/-- One round of the header loop up to the stored header; names are lower-cased in place, so `line` and
    `buffer` hold what the round leaves of the bytes it read. -/
inductive HeaderLine where
  | incomplete (buffer : Bytes)
  | failed (err : HttpError)
  | stored (line : Bytes) (header : Header) (p : Bytes)
  deriving DecidableEq, Repr

def consumeHeaderLine (p : Bytes) : HeaderLine :=
  let (key, p) := consumeFieldName p
  match p with
  | [] => .incomplete key
  | c :: preliminaryValue =>
    if c ≠ colon then .failed .badRequest
    else
      match consumeFieldValue preliminaryValue with
      | none => .failed .badRequest
      | some (value, a :: b :: p) =>
        if b = lf then .stored (key ++ c :: value ++ [a, b]) ⟨key, trimValue value⟩ p
        else .incomplete (key ++ c :: preliminaryValue)
      | some (_, _) => .incomplete (key ++ c :: preliminaryValue)

inductive HeaderLines where
  | incomplete (buffer : Bytes)
  | failed (err : HttpError)
  | complete (headers : List Header) (rest : Bytes)
  deriving DecidableEq, Repr

/-- Puts a stored header, and what its round leaves of its bytes, in front of what the loop finds next. -/
def HeaderLines.push (line : Bytes) (header : Header) : HeaderLines → HeaderLines
  | .incomplete buffer => .incomplete (line ++ buffer)
  | .failed err => .failed err
  | .complete headers rest => .complete (header :: headers) rest

def headerLoop : Nat → Bytes → HeaderLines
  | 0, _ => .failed .requestHeaderFieldsTooLarge
  | slots + 1, p =>
    match consumeHeaderLine p with
    | .incomplete buffer => .incomplete buffer
    | .failed err => .failed err
    | .stored line _ [] => .incomplete line
    | .stored line header (d :: p) =>
      if d = cr then
        match p with
        | [] => .incomplete (line ++ [d])
        | e :: rest => if e = lf then .complete [header] rest else .failed .badRequest
      else (headerLoop slots (d :: p)).push line header

inductive HeadersResult where
  | incomplete (buffer : Bytes)
  | failed (err : HttpError)
  | complete (req : HttpRequest) (rest : Bytes)
  deriving DecidableEq, Repr

def requestHeaders (data : Bytes) : HeadersResult :=
  match consumeRequestLine data with
  | .incomplete => .incomplete data
  | .failed err => .failed err
  | .complete method target p =>
    match headerLoop (maxHeadersCount - 2) p with
    | .incomplete buffer => .incomplete (data.take (data.length - p.length) ++ buffer)
    | .failed err => .failed err
    | .complete headers rest => .complete { method, target, headers } rest

/-- `getHeaders` returns with the number of consumed bytes, here told by the rest, or with 0 and an error
    code or none. -/
def getHeaders (data : Bytes) : HeadersResult :=
  match ProxyParser.offset data with
  | none => .incomplete data
  | some offset =>
    match requestHeaders (data.drop offset) with
    | .incomplete buffer => .incomplete (data.take offset ++ buffer)
    | other => other

end Uws.Http
