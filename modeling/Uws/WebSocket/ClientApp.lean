import Uws.WebSocket.WebSocketClientHandshake

namespace Uws.WebSocket

open Uws.Http (Bytes ascii colon space)

def splitScheme : Bytes → Option (Bytes × Bytes)
  | [] => none
  | c :: url =>
    if ascii "://" <+: c :: url then some ([], url.drop 2)
    else (splitScheme url).map fun (scheme, rest) => (c :: scheme, rest)

def endsAuthority (c : UInt8) : Bool := c == 47 || c == 63

/-- The authority ends at the first slash or question mark. -/
def authorityOf (rest : Bytes) : Bytes := rest.takeWhile fun c => !endsAuthority c
def pathOf (rest : Bytes) : Bytes := rest.dropWhile fun c => !endsAuthority c

/-- The host and what stands for its port; none where a bracket is not closed or something else follows it. -/
def splitAuthority (authority : Bytes) : Option (Bytes × Bytes) :=
  if authority.head? = some 91 then
    match splitAt? 93 authority with
    | none => none
    | some (host, after) =>
      match after with
      | [] => some (host.drop 1, [])
      | c :: portStr => if c ≠ colon then none else some (host.drop 1, portStr)
  else if colon ∈ authority then
    some ((authority.rdropWhile (· ≠ colon)).dropLast, authority.rtakeWhile (· ≠ colon))
  else some (authority, [])

/-- What `from_chars` reads to the end, within the range of ports; a minus sign makes no port. -/
def portNumber (portStr : Bytes) : Option Nat :=
  if portStr.all isDigit then
    let p := portStr.foldl (fun p c => p * 10 + (c.toNat - 48)) 0
    if 0 < p ∧ p ≤ 65535 then some p else none
  else none

structure ParsedUrl where
  scheme : Bytes
  host : Bytes
  port : Nat
  defaultPort : Bool
  target : Bytes
deriving DecidableEq, Repr

def parseUrl (ssl : Bool) (url : Bytes) : Option ParsedUrl :=
  match splitScheme url with
  | none => none
  | some (scheme, rest) =>
    match splitAuthority (authorityOf rest) with
    | none => none
    | some (host, portStr) =>
      if host = [] then none
      else
        let target := if pathOf rest ≠ [] then pathOf rest else ascii "/"
        if portStr = [] then some ⟨scheme, host, if ssl then 443 else 80, true, target⟩
        else (portNumber portStr).map fun port => ⟨scheme, host, port, false, target⟩

def hasControlOrCRLF (value : Bytes) : Bool := value.any fun c => c < 0x20 || c == 0x7f

/-- What a connect takes of its behavior for the request. -/
structure ClientBehavior where
  headers : List (Bytes × Bytes) := []
  protocols : List Bytes := []
  compression : Nat := disabled
deriving DecidableEq, Repr

inductive ConnectException where
  | urlInvalid
  | headerInvalid
deriving DecidableEq, Repr

def protocolsCsv (protocols : List Bytes) : Bytes := [comma, space].intercalate protocols

def connectRequest (ssl : Bool) (url : Bytes) (behavior : ClientBehavior) (random : Fin 16 → UInt8) :
    Except ConnectException Bytes :=
  match parseUrl ssl url with
  | none => .error .urlInvalid
  | some parsed =>
    if parsed.scheme ≠ (if ssl then ascii "wss" else ascii "ws") then .error .urlInvalid
    else if hasControlOrCRLF parsed.host || hasControlOrCRLF parsed.target then .error .urlInvalid
    else if !behavior.headers.all fun h => isValidUserHeader h.1 h.2 then .error .headerInvalid
    else if behavior.protocols.any fun protocol => hasControlOrCRLF protocol || comma ∈ protocol then .error .headerInvalid
    else
      .ok (buildUpgradeRequest parsed.host parsed.port parsed.defaultPort parsed.target (generateKey random)
        (protocolsCsv behavior.protocols) behavior.compression behavior.headers)

end Uws.WebSocket
