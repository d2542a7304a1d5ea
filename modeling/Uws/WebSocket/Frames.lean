import Uws.WebSocket.FrameReads

namespace Uws.WebSocket

open Uws.Http (Bytes)
open Uws.Machine FramePhase

variable {ι : Type}

/-- A frame: its first byte, with the flags and the opcode, the masking key and the payload. -/
structure Frame where
  first : UInt8
  key : Bytes
  payload : Bytes
  four : key.length = 4
  fits : payload.length < 2 ^ 64

namespace Frame

def fin (frame : Frame) : Bool := isFin [frame.first]
def compressed (frame : Frame) : Bool := rsv1 [frame.first]
def opCode (frame : Frame) : Nat := getOpCode [frame.first]

def bigEndianBytes : Nat → Nat → Bytes
  | 0, _ => []
  | count + 1, value => bigEndianBytes count (value / 256) ++ [UInt8.ofNat value]

def lengthBytes (masked : Bool) (length : Nat) : Bytes :=
  let bit : UInt8 := if masked then 0x80 else 0
  if length < 126 then [UInt8.ofNat length ||| bit]
  else if length ≤ 0xffff then (126 ||| bit) :: bigEndianBytes 2 length
  else (127 ||| bit) :: bigEndianBytes 8 length

def header (isServer : Bool) (frame : Frame) : Bytes :=
  frame.first :: lengthBytes isServer frame.payload.length ++ if isServer then frame.key else []

def masked (isServer : Bool) (frame : Frame) : Bytes :=
  if isServer then unmaskFrom frame.key 0 frame.payload else frame.payload

def encode (isServer : Bool) (frame : Frame) : Bytes := frame.header isServer ++ frame.masked isServer

end Frame

theorem bigEndian_append (front : Bytes) (b : UInt8) : bigEndian (front ++ [b]) = 256 * bigEndian front + b.toNat := by
  simp [bigEndian, List.foldl_append]

theorem bigEndianBytes_length (count value : Nat) : (Frame.bigEndianBytes count value).length = count := by
  induction count generalizing value with
  | zero => rfl
  | succ count ih => simp [Frame.bigEndianBytes, ih]

theorem bigEndian_bytes (count value : Nat) (small : value < 256 ^ count) :
    bigEndian (Frame.bigEndianBytes count value) = value := by
  induction count generalizing value with
  | zero =>
    rw [Nat.pow_zero, Nat.lt_one_iff] at small
    rw [small]
    rfl
  | succ count ih =>
    rw [Nat.pow_succ] at small
    have byte : (UInt8.ofNat value).toNat = value % 256 := by simp
    rw [Frame.bigEndianBytes, bigEndian_append, ih _ (by omega), byte]
    omega

theorem bit_or (masked : Bool) (length : Nat) (small : length < 128) :
    ((UInt8.ofNat length ||| if masked then 0x80 else 0) &&& 127).toNat = length := by
  have all : ∀ masked : Bool, ∀ length < 128,
      ((UInt8.ofNat length ||| if masked then 0x80 else 0) &&& 127).toNat = length := by decide +kernel
  exact all masked length small

theorem bit_masked (masked : Bool) (length : Nat) (small : length < 128) :
    ((UInt8.ofNat length ||| if masked then 0x80 else 0) &&& 0x80 != 0) = masked := by
  have all : ∀ masked : Bool, ∀ length < 128,
      ((UInt8.ofNat length ||| if masked then 0x80 else 0) &&& 0x80 != 0) = masked := by decide +kernel
  exact all masked length small

namespace Frame

def lengthField (length : Nat) : Nat := if length < 126 then length else if length ≤ 0xffff then 126 else 127

def extendedLength (length : Nat) : Bytes :=
  if length < 126 then [] else if length ≤ 0xffff then bigEndianBytes 2 length else bigEndianBytes 8 length

theorem lengthBytes_eq (masked : Bool) (length : Nat) :
    lengthBytes masked length =
      (UInt8.ofNat (lengthField length) ||| if masked then 0x80 else 0) :: extendedLength length := by
  unfold lengthBytes lengthField extendedLength
  by_cases small : length < 126
  · simp only [if_pos small]
  · by_cases medium : length ≤ 0xffff
    · simp only [if_neg small, if_pos medium]
      rfl
    · simp only [if_neg small, if_neg medium]
      rfl

theorem lengthField_lt (length : Nat) : lengthField length < 128 := by
  unfold lengthField
  split
  · omega
  · split <;> omega

variable (isServer : Bool) (frame : Frame)

theorem header_eq : frame.header isServer =
    frame.first :: (UInt8.ofNat (lengthField frame.payload.length) ||| if isServer then 0x80 else 0) ::
      (extendedLength frame.payload.length ++ if isServer then frame.key else []) := by
  rw [header, lengthBytes_eq]
  rfl

theorem payloadLength_header (rest : Bytes) :
    payloadLength (frame.header isServer ++ rest) = lengthField frame.payload.length := by
  rw [header_eq, payloadLength]
  exact bit_or isServer _ (lengthField_lt _)

theorem flags_header (rest : Bytes) :
    isFin (frame.header isServer ++ rest) = frame.fin ∧ rsv1 (frame.header isServer ++ rest) = frame.compressed ∧
      getOpCode (frame.header isServer ++ rest) = frame.opCode ∧
      rsv23 (frame.header isServer ++ rest) = rsv23 [frame.first] := by
  rw [header_eq]
  exact ⟨rfl, rfl, rfl, rfl⟩

theorem maskBit_header (rest : Bytes) : ((frame.header isServer ++ rest).getD 1 0 &&& 0x80 != 0) = isServer := by
  rw [header_eq]
  exact bit_masked isServer _ (lengthField_lt _)

theorem header_length (context : WebSocketContextData ι) (server : context.isServer = isServer) :
    (frame.header isServer).length = headerLength context (frame.header isServer) := by
  have field := frame.payloadLength_header isServer []
  rw [List.append_nil] at field
  have four := frame.four
  unfold headerLength shortMessageHeader mediumMessageHeader longMessageHeader
  rw [field, server, header_eq]
  simp only [List.length_cons, List.length_append, lengthField, extendedLength]
  by_cases small : frame.payload.length < 126
  · simp only [if_pos small, List.length_nil]
    cases isServer <;> simp [four]
  · by_cases medium : frame.payload.length ≤ 0xffff
    · simp only [if_neg small, if_pos medium, bigEndianBytes_length]
      cases isServer <;> simp [four]
    · simp only [if_neg small, if_neg medium, bigEndianBytes_length]
      cases isServer <;> simp [four]

theorem payLength_header : payLength (frame.header isServer) = frame.payload.length := by
  have field := frame.payloadLength_header isServer []
  rw [List.append_nil] at field
  have bytes : (frame.header isServer).drop 2 =
      extendedLength frame.payload.length ++ if isServer then frame.key else [] := by
    rw [header_eq]
    rfl
  unfold payLength
  rw [field, bytes]
  unfold lengthField extendedLength
  by_cases small : frame.payload.length < 126
  · simp only [if_pos small]
  · by_cases medium : frame.payload.length ≤ 0xffff
    · simp only [if_neg small, if_pos medium]
      rw [if_neg (by decide), if_true, List.take_left' (bigEndianBytes_length 2 _)]
      exact bigEndian_bytes 2 _ (by omega)
    · simp only [if_neg small, if_neg medium]
      rw [if_neg (by decide), if_neg (by decide), List.take_left' (bigEndianBytes_length 8 _)]
      have fits := frame.fits
      exact bigEndian_bytes 8 _ (by omega)

theorem headerKey_header (context : WebSocketContextData ι) (server : context.isServer = isServer) :
    headerKey context (frame.header isServer) = if isServer then frame.key else [] := by
  have four := frame.four
  unfold headerKey
  rw [server]
  cases isServer with
  | false => rfl
  | true =>
    simp only [if_true]
    have split : frame.header true = (frame.first :: lengthBytes true frame.payload.length) ++ frame.key := rfl
    have size : (frame.header true).length - 4 = (frame.first :: lengthBytes true frame.payload.length).length := by
      rw [split, List.length_append, four]
      omega
    rw [size, split, List.drop_left]

theorem unmask_masked : unmaskFrom (if isServer then frame.key else []) 0 (frame.masked isServer) = frame.payload := by
  cases isServer with
  | false => simp [masked]
  | true => simp [masked, unmaskFrom_unmaskFrom]

theorem masked_length : (frame.masked isServer).length = frame.payload.length := by
  cases isServer <;> simp [masked]

end Frame

variable (context : WebSocketContextData ι)

/-- The header checks of `consume`, of a frame to this parser. -/
def invalidFrame (frame : Frame) : Bool :=
  rsv23 [frame.first] || (decide (2 < frame.opCode) && decide (frame.opCode < 8)) || decide (10 < frame.opCode) ||
    (decide (2 < frame.opCode) && (!frame.fin || decide (125 < frame.payload.length)))

def checkFrame (frame : Frame) (socket : WebSocketData ι) : Bool × WebSocketData ι :=
  let (set, socket) := if frame.compressed then setCompressed socket else (true, socket)
  (!set || invalidFrame frame, socket)

def frameStep (frame : Frame) (stack : OpStack) (socket : WebSocketData ι) : FramePhase ι × List Event :=
  let (refused, socket) := checkFrame frame socket
  if refused then (.closed, [.forceClose errProtocol])
  else
    match stack.openFrame [frame.first] with
    | none => (.closed, [.forceClose errProtocol])
    | some stack =>
      if refusePayloadLength context frame.payload.length then (.closed, [.forceClose errTooBigMessage])
      else deliver context frame.payload 0 [] 0 { stack with lastFin := frame.fin } socket

theorem invalidHeader_frame (frame : Frame) (rest : Bytes) :
    invalidHeader context (frame.header context.isServer ++ rest) = invalidFrame frame := by
  obtain ⟨fin, -, opCode, reserved⟩ := frame.flags_header context.isServer rest
  have unmasked : (!context.isServer && (frame.header context.isServer ++ rest).getD 1 0 &&& 0x80 != 0) = false := by
    rw [frame.maskBit_header context.isServer rest]
    cases context.isServer <;> rfl
  have long : decide (125 < Frame.lengthField frame.payload.length) = decide (125 < frame.payload.length) := by
    apply decide_eq_decide.mpr
    unfold Frame.lengthField
    split
    · exact Iff.rfl
    · split <;> omega
  rw [invalidHeader, unmasked, fin, opCode, reserved, frame.payloadLength_header context.isServer rest, long, Bool.or_false]
  rfl

theorem checkHeader_frame (frame : Frame) (rest : Bytes) (socket : WebSocketData ι) :
    checkHeader context (frame.header context.isServer ++ rest) socket = checkFrame frame socket := by
  rw [checkHeader, checkFrame, invalidHeader_frame, (frame.flags_header context.isServer rest).2.1]

theorem startFrame_frame (frame : Frame) (data : Bytes) (stack : OpStack) (socket : WebSocketData ι) :
    startFrame context (frame.header context.isServer) data stack socket =
      (match stack.openFrame [frame.first] with
        | none => (.closed, [.forceClose errProtocol])
        | some stack =>
          if refusePayloadLength context frame.payload.length then (.closed, [.forceClose errTooBigMessage])
          else
            deliver context (unmaskFrom (if context.isServer then frame.key else []) 0 data)
              (frame.payload.length - data.length) (if context.isServer then frame.key else []) data.length
              { stack with lastFin := frame.fin } socket) := by
  obtain ⟨fin, -, opCode, -⟩ := frame.flags_header context.isServer []
  rw [List.append_nil] at fin opCode
  have opened : stack.openFrame (frame.header context.isServer) = stack.openFrame [frame.first] := by
    rw [OpStack.openFrame, OpStack.openFrame, opCode]
    rfl
  rw [startFrame, opened]
  cases stack.openFrame [frame.first] with
  | none => rfl
  | some stack => simp only [frame.payLength_header, frame.headerKey_header context.isServer context rfl, fin]

theorem deliver_complete (data : Bytes) (key : Bytes) (position : Nat) (stack : OpStack) (socket : WebSocketData ι) :
    deliver context data 0 key position stack socket = deliver context data 0 [] 0 stack socket := by
  simp only [deliver, behind, if_true]

theorem run_frame (frame : Frame) (stack : OpStack) (socket : WebSocketData ι) :
    run (step context) (.head [] false stack socket) ((frame.encode context.isServer).map some) =
      frameStep context frame stack socket := by
  have length := frame.header_length context.isServer context rfl
  have two := two_le_short context
  have least := short_le_header context (frame.header context.isServer)
  have long : 2 ≤ (frame.header context.isServer).length := by omega
  have lengths := headerLength_append context (frame.header context.isServer) (frame.masked context.isServer) long
  have checked := checkHeader_frame context frame (frame.masked context.isServer) socket
  have whole : headerLength context (frame.encode context.isServer) ≤ (frame.encode context.isServer).length := by
    rw [Frame.encode, lengths, ← length, List.length_append]
    omega
  have taken : (frame.encode context.isServer).take (headerLength context (frame.encode context.isServer)) =
      frame.header context.isServer := by
    rw [Frame.encode, lengths, ← length, List.take_left]
  unfold frameStep
  by_cases refused : (checkFrame frame socket).1 = true
  · simp only [if_pos refused]
    have short := Nat.le_trans (short_le_header context (frame.encode context.isServer)) whole
    have header := run_check context (frame.encode context.isServer) stack socket short
    have parts := List.take_append_drop (shortMessageHeader context.isServer) (frame.encode context.isServer)
    have size : ((frame.encode context.isServer).take (shortMessageHeader context.isServer)).length =
        shortMessageHeader context.isServer := List.length_take_of_le short
    have same := checkHeader_append context ((frame.encode context.isServer).take (shortMessageHeader context.isServer))
      ((frame.encode context.isServer).drop (shortMessageHeader context.isServer)) (by omega) socket
    rw [parts, Frame.encode, checked] at same
    rw [headByte, if_pos size, Frame.encode, ← same] at header
    simp only [refused, if_true] at header
    rw [← parts, List.map_append, run_append, Frame.encode, header, run_closed]
    rfl
  · simp only [if_neg refused]
    have fine : (checkHeader context (frame.encode context.isServer) socket).1 = false := by
      rw [Frame.encode, checked]
      exact Bool.eq_false_of_not_eq_true refused
    have header := run_wholeHeader context (frame.encode context.isServer) stack socket whole fine
    rw [taken, Frame.encode, checked] at header
    have payload := run_startFrame context (frame.header context.isServer) (frame.masked context.isServer) stack
      (checkFrame frame socket).2 (by rw [frame.payLength_header, frame.masked_length])
    rw [Frame.encode, List.map_append, run_append, header]
    refine payload.trans ?_
    rw [startFrame_frame, frame.unmask_masked, frame.masked_length, Nat.sub_self]
    simp only [deliver_complete context _ (if context.isServer then frame.key else [])]

end Uws.WebSocket
