import Uws.WebSocket.WebSocketExtensions

namespace Uws.WebSocket

open Uws.Http (Bytes ascii lowercased cr lf space tab colon)

def comma : UInt8 := 44

def iequals (a b : Bytes) : Bool := a.map lowercased == b.map lowercased

def trim (v : Bytes) : Bytes :=
  (v.dropWhile fun c => c == space || c == tab).rdropWhile fun c => c == space || c == tab || c == cr

/-- Tokens are separated by commas, spaces and tabs; every round drops a byte, so `fuel` need not exceed the length. -/
def hasTokenFrom : Nat → Bytes → Bytes → Bool
  | 0, _, _ => false
  | fuel + 1, value, token =>
    let value := value.dropWhile fun c => c == comma || c == space || c == tab
    let word := value.takeWhile fun c => !(c == comma || c == space || c == tab)
    if word = [] then false
    else if iequals word token then true
    else hasTokenFrom fuel (value.dropWhile fun c => !(c == comma || c == space || c == tab)) token

def hasToken (value token : Bytes) : Bool := hasTokenFrom (value.length + 1) value token

def reserved : List Bytes :=
  [ascii "host", ascii "upgrade", ascii "connection", ascii "sec-websocket-key", ascii "sec-websocket-version",
    ascii "sec-websocket-protocol", ascii "sec-websocket-extensions"]

def isReservedHeader (name : Bytes) : Bool := reserved.any (iequals name)

/-- Rejected if it carries CR or LF, or if the name is reserved. -/
def isValidUserHeader (name value : Bytes) : Bool :=
  if name = [] ∨ isReservedHeader name then false
  else !(name.any fun c => c == cr || c == lf || c == colon) && !(value.any fun c => c == cr || c == lf)

def b64 : Bytes := ascii "ABCDEFGHIJKLMNOPQRSTUVWXYZabcdefghijklmnopqrstuvwxyz0123456789+/"

def b64Digit (index : UInt8) : UInt8 := b64.getD index.toNat 0

def keyGroup (a b c : UInt8) : Bytes :=
  [b64Digit ((a >>> 2) &&& 63), b64Digit (((a &&& 3) <<< 4) ||| ((b &&& 240) >>> 4)),
    b64Digit (((b &&& 15) <<< 2) ||| ((c &&& 192) >>> 6)), b64Digit (c &&& 63)]

/-- The Sec-WebSocket-Key of 16 random bytes; the 16th fills the last group. -/
def generateKey (bytes : Fin 16 → UInt8) : Bytes :=
  keyGroup (bytes 0) (bytes 1) (bytes 2) ++ keyGroup (bytes 3) (bytes 4) (bytes 5) ++
    keyGroup (bytes 6) (bytes 7) (bytes 8) ++ keyGroup (bytes 9) (bytes 10) (bytes 11) ++
    keyGroup (bytes 12) (bytes 13) (bytes 14) ++
    [b64Digit ((bytes 15 >>> 2) &&& 63), b64Digit ((bytes 15 &&& 3) <<< 4), 61, 61]

/-- The value of the offer's header, for options that are not `DISABLED`. -/
def extensionsOffer (wanted : Nat) : Bytes :=
  let wantedInflationWindow := wantedInflationWindow wanted
  let wantedCompressionWindow := wantedCompressionWindow wanted
  ascii "permessage-deflate" ++
    (if wantedInflationWindow = 0 then ascii "; server_no_context_takeover"
    else if wantedInflationWindow < 15 then ascii "; server_max_window_bits=" ++ ascii (toString wantedInflationWindow)
    else []) ++
    (if wantedCompressionWindow = 0 then ascii "; client_no_context_takeover"
    else if wantedCompressionWindow < 15 then ascii "; client_max_window_bits=" ++ ascii (toString wantedCompressionWindow)
    else ascii "; client_max_window_bits")

def crlf : Bytes := [cr, lf]

/-- An unbracketed colon in the host means an IPv6 literal. -/
def bracketed (host : Bytes) : Bytes :=
  if colon ∈ host ∧ host.head? ≠ some 91 then 91 :: host ++ [93] else host

def buildUpgradeRequest (host : Bytes) (port : Nat) (defaultPort : Bool) (target key protocolsCsv : Bytes) (wanted : Nat)
    (userHeaders : List (Bytes × Bytes)) : Bytes :=
  ascii "GET " ++ (if target ≠ [] then target else ascii "/") ++ ascii " HTTP/1.1\r\n" ++
    ascii "Host: " ++ bracketed host ++ (if defaultPort then [] else ascii ":" ++ ascii (toString port)) ++ crlf ++
    ascii "Upgrade: websocket\r\n" ++ ascii "Connection: Upgrade\r\n" ++
    ascii "Sec-WebSocket-Key: " ++ key ++ crlf ++ ascii "Sec-WebSocket-Version: 13\r\n" ++
    (if protocolsCsv ≠ [] then ascii "Sec-WebSocket-Protocol: " ++ protocolsCsv ++ crlf else []) ++
    (if wanted ≠ disabled then ascii "Sec-WebSocket-Extensions: " ++ extensionsOffer wanted ++ crlf else []) ++
    (userHeaders.flatMap fun h => h.1 ++ ascii ": " ++ h.2 ++ crlf) ++ crlf

structure ResponseHead where
  complete : Bool := false
  status : Nat := 0
  reason : Bytes := []
  headers : List (Bytes × Bytes) := []
  headerBytes : Nat := 0
deriving DecidableEq, Repr

/-- The value of the first header of that name; empty where there is none. -/
def findHeader (head : ResponseHead) (name : Bytes) : Bytes :=
  match head.headers.find? fun h => iequals h.1 name with
  | some h => h.2
  | none => []

def findHeaderEnd : Bytes → Option Nat
  | [] => none
  | c :: data => if [cr, lf, cr, lf] <+: c :: data then some 4 else (findHeaderEnd data).map (· + 1)

/-- The bytes in front of the first CRLF, and those behind it. -/
def splitLine : Bytes → Option (Bytes × Bytes)
  | [] => none
  | c :: data =>
    if [cr, lf] <+: c :: data then some ([], data.drop 1)
    else (splitLine data).map fun (line, rest) => (c :: line, rest)

/-- The part in front of the first such byte, and the part behind it. -/
def splitAt? (c : UInt8) (data : Bytes) : Option (Bytes × Bytes) :=
  if c ∈ data then some (data.takeWhile (· ≠ c), (data.dropWhile (· ≠ c)).drop 1) else none

def statusCode (codeStr : Bytes) : Option Nat :=
  if codeStr.length ≠ 3 then none
  else if codeStr.all isDigit then some (codeStr.foldl (fun code c => code * 10 + (c.toNat - 48)) 0)
  else none

/-- The code and the reason of a status line; none where it is malformed. -/
def parseStatusLine (statusLine : Bytes) : Option (Nat × Bytes) :=
  if statusLine.take 5 ≠ ascii "HTTP/" then none
  else
    match splitAt? space statusLine with
    | none => none
    | some (_, rest) =>
      let rest := trim rest
      match splitAt? space rest with
      | none => (statusCode rest).map fun code => (code, [])
      | some (codeStr, reason) => (statusCode codeStr).map fun code => (code, trim reason)

def responseHeader (line : Bytes) : Option (Bytes × Bytes) :=
  (splitAt? colon line).map fun (name, value) => ((trim name).map lowercased, trim value)

/-- Lines without a colon are left out; the empty line ends them. Every line takes bytes, so `fuel` need not exceed
    the length. -/
def responseHeaders : Nat → Bytes → List (Bytes × Bytes)
  | 0, _ => []
  | fuel + 1, buf =>
    match splitLine buf with
    | none => []
    | some (line, rest) =>
      if line = [] then [] else (responseHeader line).toList ++ responseHeaders fuel rest

def parseResponse (data : Bytes) : Option ResponseHead :=
  match findHeaderEnd data with
  | none => some {}
  | some headerBytes =>
    let buf := data.take headerBytes
    match splitLine buf with
    | none => none
    | some (statusLine, rest) =>
      match parseStatusLine statusLine with
      | none => none
      | some (status, reason) => some ⟨true, status, reason, responseHeaders (rest.length + 1) rest, headerBytes⟩

/-- `generate` stands for the base64 text of the digest. -/
def validateAccept (generate : Bytes → Bytes) (key accept : Bytes) : Bool := accept.length == 28 && generate key == accept

/-- The chosen protocol must be empty or one of the offered list. -/
def validateProtocolFrom : Nat → Bytes → Bytes → Bool
  | 0, _, _ => false
  | fuel + 1, offeredCsv, chosen =>
    if offeredCsv = [] then false
    else
      let offeredCsv := offeredCsv.dropWhile fun c => c == comma || c == space
      if trim (offeredCsv.takeWhile (· ≠ comma)) = chosen then true
      else validateProtocolFrom fuel (offeredCsv.dropWhile (· ≠ comma)) chosen

def validateProtocol (offeredCsv chosen : Bytes) : Bool :=
  if chosen = [] then true else validateProtocolFrom (offeredCsv.length + 1) offeredCsv chosen

structure CompressionResult where
  ok : Bool := false
  compression : Bool := false
  options : Nat := disabled
deriving DecidableEq, Repr

def CompressionResult.failed : CompressionResult := {}

/-- What the server's parameters make of our inflation window; none where they fail the handshake. -/
def acceptServer (ep : ExtensionsParser) (wantedInflationWindow : Int) : Option Int :=
  let offeredServerMaxBits := 0 < wantedInflationWindow ∧ wantedInflationWindow < 15
  let inflationWindow := if ep.serverNoContextTakeover then 0 else wantedInflationWindow
  if ep.serverMaxWindowBits ≠ 0 then
    if ¬ offeredServerMaxBits then none
    else if ep.serverMaxWindowBits ≠ 1 then
      if wantedInflationWindow < ep.serverMaxWindowBits then none else some ep.serverMaxWindowBits
    else some inflationWindow
  else some inflationWindow

/-- What the client's parameters make of our deflation window. -/
def acceptClient (ep : ExtensionsParser) (wantedCompressionWindow : Int) : Option Int :=
  let offeredClientMaxBits := 0 < wantedCompressionWindow
  let compressionWindow := if ep.clientNoContextTakeover then 0 else wantedCompressionWindow
  if ep.clientMaxWindowBits ≠ 0 then
    if ¬ offeredClientMaxBits then none
    else if ep.clientMaxWindowBits ≠ 1 then
      let upper := if wantedCompressionWindow ≠ 0 then wantedCompressionWindow else 15
      if upper < ep.clientMaxWindowBits then none else some ep.clientMaxWindowBits
    else some compressionWindow
  else some compressionWindow

def acceptCompressionResponse (wanted : Nat) (ext : Bytes) : CompressionResult :=
  if wanted = disabled then
    let ep := ExtensionsParser.parse ext
    if ext ≠ [] ∧ (ep.perMessageDeflate ∨ ep.xWebKitDeflateFrame) then .failed else ⟨true, false, disabled⟩
  else if ext = [] then ⟨true, false, disabled⟩
  else
    let ep := ExtensionsParser.parse ext
    if ep.xWebKitDeflateFrame then .failed
    else if !ep.perMessageDeflate then .failed
    else
      match acceptServer ep (wantedInflationWindow wanted), acceptClient ep (wantedCompressionWindow wanted) with
      | some inflationWindow, some compressionWindow =>
        if insaneWindows compressionWindow inflationWindow then .failed
        else ⟨true, true, windowOptions wanted compressionWindow inflationWindow⟩
      | _, _ => .failed

end Uws.WebSocket
