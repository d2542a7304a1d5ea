import Uws.WebSocket.Frames

namespace Uws.WebSocket

open Uws.Http (Bytes)

def messageFrameSize (isServer : Bool) (messageSize : Nat) : Nat :=
  let maskSize := if isServer then 0 else 4
  if messageSize < 126 then 2 + maskSize + messageSize
  else if messageSize ≤ 0xffff then 4 + maskSize + messageSize
  else 10 + maskSize + messageSize

def maskChunks : Nat → Bytes → Bytes → Bytes
  | 0, _, _ => []
  | n + 1, payload, mask64 => xorChunk (payload.take 8) mask64 ++ maskChunks n (payload.drop 8) mask64

def maskPayload (maskBytes payload : Bytes) : Bytes :=
  let chunks := payload.length / 8
  maskChunks chunks payload (maskBytes ++ maskBytes) ++ unmaskFrom maskBytes (8 * chunks) (payload.drop (8 * chunks))

def firstByte (opCode : Nat) (compressed fin : Bool) : UInt8 :=
  (if fin then 128 else 0) ||| (if compressed && opCode ≠ 0 then 64 else 0) ||| UInt8.ofNat opCode

/-- The bytes of `dst`; `mask` is the four bytes of the source's number. -/
def formatMessage (isServer : Bool) (src : Bytes) (opCode reportedLength : Nat) (compressed fin : Bool) (mask : Bytes) :
    Bytes :=
  let (second, extended) : UInt8 × Bytes :=
    if reportedLength < 126 then (UInt8.ofNat reportedLength, [])
    else if reportedLength ≤ 0xffff then (126, Frame.bigEndianBytes 2 reportedLength)
    else (127, Frame.bigEndianBytes 8 reportedLength)
  let first := firstByte opCode compressed fin
  if isServer then first :: second :: extended ++ src
  else first :: (second ||| 0x80) :: extended ++ (mask ++ maskPayload mask src)

theorem maskChunks_eq (mask : Bytes) (four : mask.length = 4) (n : Nat) (payload : Bytes) (long : 8 * n ≤ payload.length) :
    maskChunks n payload (mask ++ mask) = unmaskFrom mask 0 (payload.take (8 * n)) := by
  induction n generalizing payload with
  | zero => rfl
  | succ n ih =>
    have eight : (payload.take 8).length = 8 := by
      rw [List.length_take]
      omega
    have more : 8 * (n + 1) = 8 + 8 * n := by omega
    rw [maskChunks, xorChunk_eight four, ih _ (by rw [List.length_drop]; omega), more, List.take_add, unmaskFrom_append, eight]
    congr 1
    exact unmaskFrom_mod mask _ 0 (0 + 8) (by omega)

theorem maskPayload_eq (mask payload : Bytes) (four : mask.length = 4) : maskPayload mask payload = unmaskFrom mask 0 payload := by
  have long : 8 * (payload.length / 8) ≤ payload.length := by omega
  have parts := List.take_append_drop (8 * (payload.length / 8)) payload
  have size : (payload.take (8 * (payload.length / 8))).length = 8 * (payload.length / 8) := List.length_take_of_le long
  unfold maskPayload
  simp only
  rw [maskChunks_eq mask four _ payload long]
  conv => rhs; rw [← parts, unmaskFrom_append, size, Nat.zero_add]

theorem formatMessage_frame (isServer : Bool) (frame : Frame) (opCode : Nat) (compressed fin : Bool)
    (first : frame.first = firstByte opCode compressed fin) :
    formatMessage isServer frame.payload opCode frame.payload.length compressed fin frame.key = frame.encode (!isServer) := by
  have four := frame.four
  unfold formatMessage Frame.encode Frame.header Frame.lengthBytes Frame.masked
  rw [maskPayload_eq _ _ four, first]
  cases isServer with
  | true =>
    by_cases small : frame.payload.length < 126
    · simp [small]
    · by_cases medium : frame.payload.length ≤ 0xffff
      · simp [small, medium]
      · simp [small, medium]
  | false =>
    by_cases small : frame.payload.length < 126
    · simp [small]
    · by_cases medium : frame.payload.length ≤ 0xffff
      · simp [small, medium]
      · simp [small, medium]

theorem formatMessage_length (isServer : Bool) (src : Bytes) (opCode : Nat) (compressed fin : Bool) (mask : Bytes)
    (four : mask.length = 4) :
    (formatMessage isServer src opCode src.length compressed fin mask).length = messageFrameSize isServer src.length := by
  have payload : (maskPayload mask src).length = src.length := by rw [maskPayload_eq _ _ four, unmaskFrom_length]
  unfold formatMessage messageFrameSize
  cases isServer with
  | true =>
    by_cases small : src.length < 126
    · simp [small]
      omega
    · by_cases medium : src.length ≤ 0xffff
      · simp [small, medium, bigEndianBytes_length]
        omega
      · simp [small, medium, bigEndianBytes_length]
        omega
  | false =>
    by_cases small : src.length < 126
    · simp [small, four, payload]
      omega
    · by_cases medium : src.length ≤ 0xffff
      · simp [small, medium, four, payload, bigEndianBytes_length]
        omega
      · simp [small, medium, four, payload, bigEndianBytes_length]
        omega

end Uws.WebSocket
