import Uws.Http.Headers
import Uws.Library.TextSearch

namespace Uws.Http

open Uws.TextSearch

structure BodyView where
  start : Nat
  text : Bytes
  deriving DecidableEq, Repr

/-- `remove_prefix`: none where more than the view is taken off, which leaves no view of the body. -/
def BodyView.removePrefix (view : BodyView) (n : Int) : Option BodyView :=
  if 0 ≤ n ∧ n ≤ view.text.length then some ⟨view.start + n.toNat, view.text.drop n.toNat⟩ else none

namespace MessageParser

def maxHeaders : Nat := 100

def isName (c : UInt8) : Bool := c ≠ colon && 32 < c

def isSkipped (c : UInt8) : Bool := (c = colon || c < 33) && c ≠ cr

/-- What a round of the loop over the lines finds: nothing, the end of the headers, or a header and what follows it. -/
inductive Round where
  | failed
  | ended (consumed : Nat)
  | stored (name value : BodyView) (next : Bytes)
  deriving DecidableEq, Repr

def headerValue (behind : Nat) (name : BodyView) (offset : Nat) (postPaddedBuffer : Bytes) : Round :=
  let blank := postPaddedBuffer.takeWhile isSkipped
  let preliminaryValue := postPaddedBuffer.drop blank.length
  let value := (preliminaryValue.take (preliminaryValue.length - behind)).takeWhile (· ≠ cr)
  -- `memchr` finds nothing if there is no CR in front of `end`
  if value.length < preliminaryValue.length - behind ∧ preliminaryValue[value.length + 1]? = some lf then
    .stored name ⟨offset + blank.length, value⟩ (preliminaryValue.drop (value.length + 2))
  else .failed

/-- A round at `offset` of the body; the name is lower-cased in place. -/
def headerRound (behind offset : Nat) (postPaddedBuffer : Bytes) : Round :=
  let key := postPaddedBuffer.takeWhile isName
  match postPaddedBuffer.drop key.length with
  | [] => .failed
  | c :: rest =>
    if c = cr then
      if rest.length + 1 ≠ behind ∧ rest.head? = some lf then .ended (offset + key.length + 2) else .failed
    else headerValue behind ⟨offset, key.map (· ||| 32)⟩ (offset + key.length + 1) rest

/-- Returns where the headers end in the body, or none for 0. -/
def headersLoop (behind : Nat) : Nat → Nat → Bytes → Option (Nat × List (BodyView × BodyView))
  | 0, _, _ => none
  | slots + 1, offset, postPaddedBuffer =>
    match headerRound behind offset postPaddedBuffer with
    | .failed => none
    | .ended consumed => some (consumed, [])
    | .stored name value next =>
      (headersLoop behind slots (value.start + value.text.length + 2) next).map fun (consumed, headers) =>
        (consumed, (name, value) :: headers)

/-- Returns how many bytes the headers are, as an `unsigned int`, or none for the 0 of a failure. -/
def getHeaders (behind offset : Nat) (postPaddedBuffer : Bytes) : Option (UInt32 × List (BodyView × BodyView)) :=
  (headersLoop behind maxHeaders offset postPaddedBuffer).map fun (ended, headers) => (UInt32.ofNat (ended - offset), headers)

end MessageParser

/-- `offset` is where the remaining body starts in the body. -/
structure MultipartParser where
  prependedBoundary : Bytes := []
  remainingBody : Bytes := []
  offset : Nat := 0
  first : Bool := true
  deriving DecidableEq, Repr

namespace MultipartParser

def semicolon : UInt8 := 59
def quote : UInt8 := 34
def hyphen : UInt8 := 45

def isPadding (c : UInt8) : Bool := c == space || c == tab

def ofContentType (contentType : Bytes) : MultipartParser :=
  if contentType.take 10 ≠ ascii "multipart/" then {}
  else
    match splitAtFirst (ascii "boundary=") (contentType.drop 10) with
    | none => {}
    | some (_, boundary) =>
      let boundary := boundary.takeWhile (· ≠ semicolon)
      let boundary := (boundary.dropWhile isPadding).rdropWhile isPadding
      let boundary :=
        if 2 ≤ boundary.length ∧ boundary.head? = some quote ∧ boundary.getLast? = some quote then
          boundary.tail.dropLast
        else boundary
      if boundary.length = 0 ∨ 70 < boundary.length then {} else { prependedBoundary := hyphen :: hyphen :: boundary }

def isValid (parser : MultipartParser) : Bool := parser.prependedBoundary.length != 0

def setBody (parser : MultipartParser) (body : Bytes) : MultipartParser := { parser with remainingBody := body }

def takeBoundary (parser : MultipartParser) : Option (Bytes × MultipartParser) :=
  (splitAtFirst parser.prependedBoundary parser.remainingBody).map fun (before, after) =>
    (before,
      { parser with
        remainingBody := after
        offset := parser.offset + before.length + parser.prependedBoundary.length
        first := false })

/-- A delivered part: its headers and its data, or none for data that is no view of the body. -/
structure Delivered where
  headers : List (BodyView × BodyView)
  data : Option BodyView
  deriving DecidableEq, Repr

/-- Strips the headers from a part; `getNextPart` keeps their count in an `int`. -/
def stripHeaders (part : BodyView) (consumed : UInt32) (headers : List (BodyView × BodyView)) : Option Delivered :=
  let consumed := consumed.toInt32.toInt
  if consumed = 0 then none else some ⟨headers, part.removePrefix consumed⟩

/-- The part between two boundaries: `part` starts at `offset`, and `after` is from the second boundary on. -/
def parsePart (offset : Nat) (part after : Bytes) : Option Delivered :=
  if part.length < 4 then none
  else
    -- two bytes are stripped at both ends, and the first one behind the part becomes a CR
    let stripped := (part.drop 2).take (part.length - 4)
    let padded := cr :: part.drop (part.length - 1) ++ after
    match MessageParser.getHeaders padded.length (offset + 2) (stripped ++ padded) with
    | none => none
    | some (consumed, headers) => stripHeaders ⟨offset + 2, stripped⟩ consumed headers

def getNextPart (parser : MultipartParser) : Option Delivered × MultipartParser :=
  if parser.remainingBody.length < parser.prependedBoundary.length then (none, parser)
  else
    let begun := if parser.first then parser.takeBoundary.map Prod.snd else some parser
    match begun with
    | none => (none, parser)
    | some parser =>
      match parser.takeBoundary with
      | none => (none, parser)
      | some (part, next) => (parsePart parser.offset part (parser.prependedBoundary ++ next.remainingBody), next)

/-- The parts up to the first call that returns none, and whether it came before `fuel` ended. -/
def getParts : Nat → MultipartParser → List Delivered × Bool
  | 0, _ => ([], false)
  | fuel + 1, parser =>
    match parser.getNextPart with
    | (none, _) => ([], true)
    | (some part, next) => ((part :: (getParts fuel next).1), (getParts fuel next).2)

end MultipartParser

end Uws.Http
