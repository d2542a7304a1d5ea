import Uws.WebSocket.WebSocketClientHandshake

namespace Uws.WebSocket

open Uws.Http (Bytes ascii)

inductive HandshakePhase where
  | proxyConnect
  | wsUpgrade
deriving DecidableEq, Repr

inductive ErrorCode where
  | proxyStatus
  | proxyAuth
  | handshakeInvalid
  | httpStatus
deriving DecidableEq, Repr

structure ClientConnectError where
  code : ErrorCode
  status : Nat
  message : String
  headers : List (Bytes × Bytes) := []
deriving DecidableEq, Repr

/-- What a socket has of its handshake; the requests it writes are left out. -/
structure HandshakeData where
  phase : HandshakePhase
  response : Bytes := []
  key : Bytes
  protocols : Bytes
  wanted : Nat
deriving DecidableEq, Repr

/-- A socket under its handshake; closed after it failed; or adopted to frames, with all that was fed to their parser. -/
inductive ClientSocket where
  | handshake (hd : HandshakeData)
  | failed (error : ClientConnectError)
  | frames (compression : Bool) (options : Nat) (fed : Bytes)
deriving DecidableEq, Repr

def maxResponse : Nat := 8192

/-- The phase of the tunnel; behind it, the upgrade's reads are the plain ones or those of the TLS it starts. -/
def onProxyData (hd : HandshakeData) (data : Bytes) : ClientSocket :=
  let response := hd.response ++ data
  if maxResponse < response.length then .failed ⟨.proxyStatus, 0, "proxy response header too large", []⟩
  else
    match parseResponse response with
    | none => .failed ⟨.proxyStatus, 0, "malformed proxy response", []⟩
    | some head =>
      if !head.complete then .handshake { hd with response }
      else if head.status = 407 then .failed ⟨.proxyAuth, 407, "proxy authentication required", head.headers⟩
      else if head.status ≠ 200 ∨ head.headerBytes < response.length then
        .failed ⟨.proxyStatus, head.status, "proxy CONNECT failed", head.headers⟩
      else .handshake { hd with phase := .wsUpgrade, response := [] }

def upgradeResponse (generate : Bytes → Bytes) (hd : HandshakeData) (response : Bytes) (head : ResponseHead) :
    ClientSocket :=
  if head.status ≠ 101 then .failed ⟨.httpStatus, head.status, "unexpected HTTP status", head.headers⟩
  else if !hasToken (findHeader head (ascii "upgrade")) (ascii "websocket") ∨
      !hasToken (findHeader head (ascii "connection")) (ascii "upgrade") ∨
      !validateAccept generate hd.key (findHeader head (ascii "sec-websocket-accept")) ∨
      !validateProtocol hd.protocols (findHeader head (ascii "sec-websocket-protocol")) then
    .failed ⟨.handshakeInvalid, 0, "invalid upgrade response", []⟩
  else
    let comp := acceptCompressionResponse hd.wanted (findHeader head (ascii "sec-websocket-extensions"))
    if !comp.ok then .failed ⟨.handshakeInvalid, 0, "invalid compression response", []⟩
    else .frames comp.compression comp.options (response.drop head.headerBytes)

def onUpgradeData (generate : Bytes → Bytes) (hd : HandshakeData) (data : Bytes) : ClientSocket :=
  let response := hd.response ++ data
  match parseResponse response with
  | none => .failed ⟨.handshakeInvalid, 0, "malformed response", []⟩
  | some head =>
    if !head.complete then
      if maxResponse < response.length then .failed ⟨.handshakeInvalid, 0, "response header too large", []⟩
      else .handshake { hd with response }
    else upgradeResponse generate hd response head

def onData (generate : Bytes → Bytes) (socket : ClientSocket) (data : Bytes) : ClientSocket :=
  match socket with
  | .handshake hd =>
    match hd.phase with
    | .proxyConnect => onProxyData hd data
    | .wsUpgrade => onUpgradeData generate hd data
  | .failed error => .failed error
  | .frames compression options fed => .frames compression options (fed ++ data)

end Uws.WebSocket
