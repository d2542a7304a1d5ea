import Uws.Http.ChunkedEncoding

namespace Uws.Http

/-- The parsed-out PROXY protocol v2 header of a connection; `addr` holds the bytes of the address union. -/
structure ProxyParser where
  addr : Bytes := List.replicate 36 0
  done : Bool := false
  family : UInt8 := 0
  deriving DecidableEq, Repr

namespace ProxyParser

def signature : Bytes := [13, 10, 13, 10, 0, 13, 10, 81, 85, 73, 84, 10]

def hostLength (data : Bytes) : Nat := (data.getD 14 0).toNat * 256 + (data.getD 15 0).toNat

/-- The bytes that `parse` consumes, or nothing where it fails or wants more data. -/
def offset (data : Bytes) : Option Nat :=
  if data.length < 4 then none
  else if data.take 4 ≠ signature.take 4 then some 0
  else if data.length < 16 then none
  else if data.take 12 ≠ signature then none
  else if (data.getD 12 0 &&& 0xf0) >>> 4 ≠ 2 then none
  else if data.length < 16 + hostLength data then none
  else if 36 < hostLength data then none
  else some (16 + hostLength data)

/-- Copies the payload of a header, if none was copied before. -/
def record (pp : ProxyParser) (data : Bytes) : ProxyParser :=
  if pp.done then pp
  else
    { addr := (data.drop 16).take (hostLength data) ++ pp.addr.drop (hostLength data)
      done := true
      family := data.getD 13 0 }

def parse (pp : ProxyParser) (data : Bytes) : ProxyParser × Option Nat :=
  match offset data with
  | none => (pp, none)
  | some consumed => (if consumed = 0 then pp else pp.record data, some consumed)

end ProxyParser

end Uws.Http
