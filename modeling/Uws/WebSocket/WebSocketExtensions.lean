import Uws.Http.Headers

namespace Uws.WebSocket

open Uws.Http (Bytes ascii)

def tokPermessageDeflate : Int := 1838
def tokServerNoContextTakeover : Int := 2807
def tokClientNoContextTakeover : Int := 2783
def tokServerMaxWindowBits : Int := 2372
def tokClientMaxWindowBits : Int := 2348
def tokXWebkitDeflateFrame : Int := 2149
def tokNoContextTakeover : Int := 2049
def tokMaxWindowBits : Int := 1614

def isDigit (c : UInt8) : Bool := 48 ≤ c && c ≤ 57
def isAlnum (c : UInt8) : Bool := isDigit c || (65 ≤ c && c ≤ 90) || (97 ≤ c && c ≤ 122)
def isTokenByte (c : UInt8) : Bool := isAlnum c || c == 45 || c == 95

/-- Digits count down from what was added before them. -/
def hashByte (hashedToken : Int) (c : UInt8) : Int :=
  if isDigit c then
    if -32768 < hashedToken ∧ hashedToken < 32767 then hashedToken * 10 - (c.toNat - 48) else hashedToken
  else hashedToken + c.toNat

def getToken (data : Bytes) : Int × Bytes :=
  let data := data.dropWhile fun c => !isAlnum c
  ((data.takeWhile isTokenByte).foldl hashByte 0, data.dropWhile isTokenByte)

inductive LastInteger where
  | maxWindowBits
  | serverMaxWindowBits
  | clientMaxWindowBits
deriving DecidableEq, Repr

structure ExtensionsParser where
  lastInteger : Option LastInteger := none
  perMessageDeflate : Bool := false
  serverNoContextTakeover : Bool := false
  clientNoContextTakeover : Bool := false
  serverMaxWindowBits : Int := 0
  clientMaxWindowBits : Int := 0
  xWebKitDeflateFrame : Bool := false
  noContextTakeover : Bool := false
  maxWindowBits : Int := 0
deriving DecidableEq, Repr

namespace ExtensionsParser

/-- Ignores anything before a protocol's name; every token takes a byte, so `fuel` need not exceed the length. -/
def findProtocol : Nat → Int → Bytes → Int × Bytes
  | 0, token, data => (token, data)
  | fuel + 1, token, data =>
    if token ≠ 0 ∧ token ≠ tokPermessageDeflate ∧ token ≠ tokXWebkitDeflateFrame then
      let (token, data) := getToken data
      findProtocol fuel token data
    else (token, data)

def storeInteger (ep : ExtensionsParser) (value : Int) : ExtensionsParser :=
  match ep.lastInteger with
  | none => ep
  | some .maxWindowBits => { ep with maxWindowBits := value }
  | some .serverMaxWindowBits => { ep with serverMaxWindowBits := value }
  | some .clientMaxWindowBits => { ep with clientMaxWindowBits := value }

/-- One round over the parameters; none where the parser returns. -/
def takeToken (ep : ExtensionsParser) (token : Int) : Option ExtensionsParser :=
  if token = tokXWebkitDeflateFrame ∨ token = tokPermessageDeflate then none
  else if token = tokNoContextTakeover then some { ep with noContextTakeover := true }
  else if token = tokMaxWindowBits then some { ep with maxWindowBits := 1, lastInteger := some .maxWindowBits }
  else if token = tokServerNoContextTakeover then some { ep with serverNoContextTakeover := true }
  else if token = tokClientNoContextTakeover then some { ep with clientNoContextTakeover := true }
  else if token = tokServerMaxWindowBits then
    some { ep with serverMaxWindowBits := 1, lastInteger := some .serverMaxWindowBits }
  else if token = tokClientMaxWindowBits then
    some { ep with clientMaxWindowBits := 1, lastInteger := some .clientMaxWindowBits }
  else if token < 0 then some (ep.storeInteger (-token))
  else some ep

def takeTokens : Nat → Bytes → ExtensionsParser → ExtensionsParser
  | 0, _, ep => ep
  | fuel + 1, data, ep =>
    let (token, data) := getToken data
    if token = 0 then ep
    else
      match ep.takeToken token with
      | none => ep
      | some ep => takeTokens fuel data ep

def parse (data : Bytes) : ExtensionsParser :=
  let (token, rest) := findProtocol (data.length + 2) 1 data
  takeTokens (rest.length + 1) rest
    { perMessageDeflate := token == tokPermessageDeflate, xWebKitDeflateFrame := token == tokXWebkitDeflateFrame }

end ExtensionsParser

/-- The values of `CompressOptions` that stand in masks and tests. -/
def compressorMask : Nat := 0x00ff
def decompressorMask : Nat := 0x0f00
def disabled : Nat := 0
def sharedCompressor : Nat := 1
def sharedDecompressor : Nat := 1 <<< 8
def dedicatedCompressor3kb : Nat := 9 <<< 4 ||| 1
def dedicatedCompressor : Nat := 15 <<< 4 ||| 8
def dedicatedDecompressor : Nat := 15 <<< 8

structure Negotiation where
  compression : Bool
  compressionWindow : Int
  inflationWindow : Int
  response : Bytes
deriving DecidableEq, Repr

def Negotiation.refused : Negotiation := ⟨false, 0, 0, []⟩

def insaneWindows (compressionWindow inflationWindow : Int) : Bool :=
  (compressionWindow ≠ 0 && compressionWindow < 8) || 15 < compressionWindow ||
    (inflationWindow ≠ 0 && inflationWindow < 8) || 15 < inflationWindow

def windowText (window : Int) : Bytes := ascii (toString window)

/-- The branch for Safari: the window and the response, or none where compression is denied. -/
def negotiateWebkit (ep : ExtensionsParser) (wantedCompressionWindow wantedInflationWindow : Int) :
    Option (Int × Bytes) :=
  let response := ascii "x-webkit-deflate-frame"
  if ep.noContextTakeover ∧ wantedCompressionWindow ≠ 0 then none
  else
    let compressionWindow := if ep.noContextTakeover then 0 else wantedCompressionWindow
    let limited := ep.maxWindowBits ≠ 0 ∧ ep.maxWindowBits < compressionWindow
    if limited ∧ ep.maxWindowBits = 8 then none
    else
      let compressionWindow := if limited then ep.maxWindowBits else compressionWindow
      let response :=
        if wantedInflationWindow < 15 then
          if wantedInflationWindow = 0 then response ++ ascii "; no_context_takeover"
          else response ++ ascii "; max_window_bits=" ++ windowText wantedInflationWindow
        else response
      some (compressionWindow, response)

def negotiateClient (ep : ExtensionsParser) (wantedInflationWindow : Int) : Int × Bytes :=
  let inflationWindow :=
    if ep.clientNoContextTakeover then 0
    else if ep.clientMaxWindowBits ≠ 0 ∧ ep.clientMaxWindowBits ≠ 1 then min ep.clientMaxWindowBits wantedInflationWindow
    else wantedInflationWindow
  if inflationWindow < 15 then
    if inflationWindow = 0 ∨ ep.clientMaxWindowBits = 0 then (0, ascii "; client_no_context_takeover")
    else (inflationWindow, ascii "; client_max_window_bits=" ++ windowText inflationWindow)
  else (inflationWindow, [])

/-- The server's window, and what is written of it: a client cannot demand the shared compressor, and a window of 8
    is raised to 9. -/
def negotiateServer (ep : ExtensionsParser) (wantedCompressionWindow : Int) : Int × Bytes :=
  let compressionWindow :=
    if ep.serverNoContextTakeover then wantedCompressionWindow
    else if ep.serverMaxWindowBits ≠ 0 then
      let compressionWindow := min ep.serverMaxWindowBits wantedCompressionWindow
      if compressionWindow = 8 then 9 else compressionWindow
    else wantedCompressionWindow
  if compressionWindow < 15 then
    if compressionWindow = 0 then (compressionWindow, ascii "; server_no_context_takeover")
    else (compressionWindow, ascii "; server_max_window_bits=" ++ windowText compressionWindow)
  else (compressionWindow, [])

def negotiateCompression (wantCompression : Bool) (wantedCompressionWindow wantedInflationWindow : Int) (offer : Bytes) :
    Negotiation :=
  if !wantCompression then .refused
  else
    let ep := ExtensionsParser.parse offer
    let checked := fun (compression : Bool) compressionWindow inflationWindow response =>
      if insaneWindows compressionWindow inflationWindow then Negotiation.refused
      else ⟨compression, compressionWindow, inflationWindow, response⟩
    if ep.xWebKitDeflateFrame then
      match negotiateWebkit ep wantedCompressionWindow wantedInflationWindow with
      | none => .refused
      | some (compressionWindow, response) => checked true compressionWindow wantedInflationWindow response
    else if ep.perMessageDeflate then
      let (inflationWindow, client) := negotiateClient ep wantedInflationWindow
      let (compressionWindow, server) := negotiateServer ep wantedCompressionWindow
      checked true compressionWindow inflationWindow (ascii "permessage-deflate" ++ client ++ server)
    else checked false wantedCompressionWindow wantedInflationWindow []

/-- The windows that options stand for; shared streams are 0. -/
def wantedInflationWindow (compression : Nat) : Nat :=
  if compression &&& decompressorMask ≠ sharedDecompressor then (compression &&& decompressorMask) >>> 8 else 0

def wantedCompressionWindow (compression : Nat) : Nat := (compression &&& compressorMask) >>> 4

/-- The options for negotiated windows; a dedicated compressor of 3 KB is kept apart from one of 4 KB. -/
def windowOptions (compression : Nat) (compressionWindow inflationWindow : Int) : Nat :=
  let compressOptions :=
    if compressionWindow = 0 then sharedCompressor
    else if compression &&& dedicatedCompressor3kb ≠ 0 then dedicatedCompressor3kb
    else (compressionWindow.toNat <<< 4) ||| (compressionWindow - 7).toNat
  if inflationWindow = 0 then compressOptions ||| sharedDecompressor
  else compressOptions ||| (inflationWindow.toNat <<< 8)

/-- What `HttpResponse::upgrade` negotiates: the options of the socket's data and the header it writes. -/
def upgradeCompression (compression : Nat) (secWebSocketExtensions : Bytes) : Bool × Nat × Option Bytes :=
  if secWebSocketExtensions ≠ [] ∧ compression ≠ disabled then
    let negotiated := negotiateCompression true (wantedCompressionWindow compression) (wantedInflationWindow compression)
      secWebSocketExtensions
    if negotiated.compression then
      (true, windowOptions compression negotiated.compressionWindow negotiated.inflationWindow, some negotiated.response)
    else (false, disabled, none)
  else (false, disabled, none)

/-- The window bits of the streams that a socket's data creates; none where the loop's are shared. -/
structure Streams where
  deflationStream : Option Nat := none
  inflationStream : Option Nat := none
deriving DecidableEq, Repr

def createStreams (perMessageDeflate : Bool) (compressOptions : Nat) : Streams :=
  if perMessageDeflate then
    { deflationStream :=
        if compressOptions &&& compressorMask ≠ sharedCompressor then some ((compressOptions &&& compressorMask) >>> 4)
        else none
      inflationStream :=
        if compressOptions &&& decompressorMask ≠ sharedDecompressor then some (compressOptions >>> 8) else none }
  else {}

end Uws.WebSocket
