import Uws.Library.QueryStrings
import Uws.Http.Headers

namespace Uws.Http

open Uws.QueryString

def npos : Nat := 2 ^ 64 - 1

def findByte (text : Bytes) (c : UInt8) (pos : Nat) : Nat :=
  let before := pos + ((text.drop pos).takeWhile (· ≠ c)).length
  if before < text.length then before else npos

def substr (text : Bytes) (pos count : Nat) : Bytes := (text.drop pos).take count

def decodeHex (c : UInt8) : Int :=
  if 48 ≤ c ∧ c ≤ 57 then c.toNat - 48
  else if 65 ≤ c ∧ c ≤ 70 then c.toNat - 65 + 10
  else if 97 ≤ c ∧ c ≤ 102 then c.toNat - 97 + 10
  else -1

def unsigned (n : Nat) : Nat := n % 2 ^ 32

def charAt (text : Bytes) (i : Nat) : UInt8 := text.getD i 0

/-- The loop that decodes in place: the value, and the scratch behind it; none if `fuel` ends before the loop. A null value
    is none. -/
def decodeLoop (length : Nat) : Nat → Nat → Nat → Bytes → Option (Option Bytes × Bytes)
  | 0, _, _, _ => none
  | fuel + 1, i, out, scratch =>
    if i < length ∧ charAt scratch i ≠ 0 then
      if charAt scratch i = percent then
        if length ≤ unsigned (i + 2) then some (none, scratch)
        else
          let hex1 := decodeHex (charAt scratch (unsigned (i + 1)))
          let hex2 := decodeHex (charAt scratch (unsigned (i + 2)))
          if hex1 < 0 ∨ hex2 < 0 then some (none, scratch)
          else
            decodeLoop length fuel (unsigned (i + 3)) (unsigned (out + 1))
              (scratch.set out (UInt8.ofNat (hex1 * 16 + hex2).toNat))
      else
        decodeLoop length fuel (unsigned (i + 1)) (unsigned (out + 1))
          (scratch.set out (if charAt scratch i = plus then blank else charAt scratch i))
    else some (some (scratch.take out), scratch)

def statementLoop (key : Bytes) : Nat → Bytes → Bytes → Option (Option Bytes × Bytes)
  | 0, _, _ => none
  | fuel + 1, queryString, scratch =>
    if queryString.length = 0 then some (none, scratch)
    else
      let statement := substr queryString 1 (findByte queryString ampersand 1 - 1)
      let next := fun _ : Unit => statementLoop key fuel (queryString.drop (statement.length + 1)) scratch
      if statement.length ≠ 0 ∧ statement.head? = key.head? then
        let equality := findByte statement equality 0
        if equality ≠ npos then
          let statementKey := substr statement 0 equality
          let statementValue := statement.drop (equality + 1)
          if key = statementKey then decodeLoop statementValue.length fuel 0 0 statementValue else next ()
        else next ()
      else next ()

def getDecodedQueryValue (fuel : Nat) (key rawQuery scratch : Bytes) : Option (Option Bytes × Bytes) :=
  if key.length = 0 then some (none, scratch) else statementLoop key fuel rawQuery scratch

/-- What a request keeps for its query: the target with the place of the `?` in it, and the storage of a decoded value. -/
structure QueryState where
  value : Bytes
  querySeparator : Nat
  queryValue : Bytes := []
  deriving DecidableEq, Repr

def QueryState.start (value : Bytes) : QueryState := ⟨value, (value.takeWhile (· ≠ 63)).length, []⟩

def getQuery (fuel : Nat) (req : QueryState) (key : Bytes) : Option (Option Bytes × QueryState) :=
  (getDecodedQueryValue fuel key (req.value.drop req.querySeparator) req.queryValue).map fun (value, queryValue) =>
    (value, { req with queryValue })

def lookups (fuel : Nat) : QueryState → List Bytes → Option (List (Option Bytes) × QueryState)
  | req, [] => some ([], req)
  | req, key :: keys =>
    (getQuery fuel req key).bind fun (value, req) => (lookups fuel req keys).map fun (values, req) => (value :: values, req)

end Uws.Http
