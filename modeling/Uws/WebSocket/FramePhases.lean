import Uws.WebSocket.FragmentHandling
import Uws.WebSocket.WebSocketProtocol

namespace Uws.WebSocket

open Uws.Http (Bytes)
open Uws.Machine

abbrev Symbol := Option UInt8

/-- The symbol-wise states of a parser: in a header whose bytes are `read`, and which is checked `again` when
    a read ended behind its check; in a payload, at `position` of it; and closed. -/
inductive FramePhase (ι : Type) where
  | head (read : Bytes) (again : Bool) (stack : OpStack) (socket : WebSocketData ι)
  | payload (left : Nat) (key : Bytes) (position : Nat) (stack : OpStack) (socket : WebSocketData ι)
  | closed

variable {ι : Type} (context : WebSocketContextData ι)

def headerLength (read : Bytes) : Nat :=
  if payloadLength read < 126 then shortMessageHeader context.isServer
  else if payloadLength read = 126 then mediumMessageHeader context.isServer
  else longMessageHeader context.isServer

def payLength (header : Bytes) : Nat :=
  if payloadLength header < 126 then payloadLength header
  else if payloadLength header = 126 then bigEndian ((header.drop 2).take 2)
  else bigEndian ((header.drop 2).take 8)

/-- The mask at the end of a header; a client's frames have none. -/
def headerKey (header : Bytes) : Bytes := if context.isServer then header.drop (header.length - 4) else []

namespace FramePhase

def behind (left : Nat) (key : Bytes) (position : Nat) (stack : OpStack) (result : WebSocketData ι × List Event × Bool) :
    FramePhase ι × List Event :=
  if result.2.2 then (.closed, result.2.1)
  else if left = 0 then (.head [] false (stack.popOpCode stack.lastFin) result.1, result.2.1)
  else (.payload left key position stack result.1, result.2.1)

def deliver (data : Bytes) (left : Nat) (key : Bytes) (position : Nat) (stack : OpStack) (socket : WebSocketData ι) :
    FramePhase ι × List Event :=
  behind left key position stack (handleFragment context data left stack.currentOpCode stack.lastFin socket)

def startFrame (header data : Bytes) (stack : OpStack) (socket : WebSocketData ι) : FramePhase ι × List Event :=
  match stack.openFrame header with
  | none => (.closed, [.forceClose errProtocol])
  | some stack =>
    if refusePayloadLength context (payLength header) then (.closed, [.forceClose errTooBigMessage])
    else
      deliver context (unmaskFrom (headerKey context header) 0 data) (payLength header - data.length)
        (headerKey context header) data.length { stack with lastFin := isFin header } socket

def headByte (read : Bytes) (stack : OpStack) (socket : WebSocketData ι) : FramePhase ι × List Event :=
  if read.length = shortMessageHeader context.isServer then
    let (refused, socket) := checkHeader context read socket
    if refused then (.closed, [.forceClose errProtocol])
    else if payloadLength read < 126 then startFrame context read [] stack socket
    else (.head read false stack socket, [])
  else if read.length = headerLength context read then startFrame context read [] stack socket
  else (.head read false stack socket, [])

def step : FramePhase ι → Symbol → FramePhase ι × List Event
  | .head read again stack socket, some b =>
    if again && rsv1 read then (.closed, [.forceClose errProtocol]) else headByte context (read ++ [b]) stack socket
  | .head read _ stack socket, none =>
    (.head read (decide (shortMessageHeader context.isServer ≤ read.length)) stack socket, [])
  | .payload left key position stack socket, some b =>
    deliver context (unmaskFrom key position [b]) (left - 1) key (position + 1) stack socket
  | .payload left key position stack socket, none => (.payload left key position stack socket, [])
  | .closed, _ => (.closed, [])

theorem absorbing_closed : Absorbing (step context) .closed := fun _ => rfl

@[simp] theorem run_closed (symbols : List Symbol) : run (step context) .closed symbols = (.closed, []) :=
  run_absorbing _ (absorbing_closed context) symbols

theorem behind_same (left : Nat) (key : Bytes) (position : Nat) (stack : OpStack)
    {x y : WebSocketData ι × List Event × Bool} (same : SameResult x y) :
    behind left key position stack x = behind left key position stack y := by
  obtain ⟨outputs, sockets⟩ := same
  simp only [behind]
  cases broken : y.2.2 with
  | true => rw [outputs, broken]; rfl
  | false =>
    rw [sockets (by rw [outputs, broken]), outputs, broken]

theorem deliver_append (front back : Bytes) (left after : Nat) (key : Bytes) (position last : Nat) (stack : OpStack)
    (socket : WebSocketData ι) (more : left ≠ 0)
    (small : socket.fragmentBuffer = [] → front.length + back.length ≤ context.maxPayloadLength) :
    (∃ events, deliver context front left key position stack socket = (.closed, events) ∧
        deliver context (front ++ back) after key last stack socket = (.closed, events)) ∨
      ∃ next, deliver context front left key position stack socket = (.payload left key position stack next, []) ∧
        deliver context (front ++ back) after key last stack socket = deliver context back after key last stack next := by
  rcases handleFragment_append context front back left after stack.currentOpCode stack.lastFin socket more small with
    ⟨x, y, events, partly, all⟩ | ⟨next, partly, same⟩
  · left
    exact ⟨events, by simp only [deliver, behind, partly, if_true], by simp only [deliver, behind, all, if_true]⟩
  · right
    exact ⟨next, by simp only [deliver, behind, partly, Bool.false_eq_true, if_false, if_neg more],
      behind_same after key last stack same⟩

theorem run_payload (data : Bytes) (left : Nat) (key : Bytes) (position : Nat) (stack : OpStack) (socket : WebSocketData ι)
    (some : data ≠ []) (within : data.length ≤ left) (small : left ≤ context.maxPayloadLength) :
    run (step context) (.payload left key position stack socket) (data.map Option.some) =
      deliver context (unmaskFrom key position data) (left - data.length) key (position + data.length) stack socket := by
  induction data generalizing left position socket with
  | nil => exact absurd rfl some
  | cons b data ih =>
    rw [List.length_cons] at within
    rw [List.map_cons, run_cons, step]
    by_cases none : data = []
    · subst none
      simp
    · have more : data.length ≠ 0 := fun zero => none (List.eq_nil_of_length_eq_zero zero)
      have split : unmaskFrom key position (b :: data) = unmaskFrom key position [b] ++ unmaskFrom key (position + 1) data := rfl
      have less : left - (data.length + 1) = left - 1 - data.length := by omega
      have last : position + (data.length + 1) = position + 1 + data.length := by omega
      rw [List.length_cons, split, less, last]
      rcases deliver_append context (unmaskFrom key position [b]) (unmaskFrom key (position + 1) data) (left - 1)
        (left - 1 - data.length) key (position + 1) (position + 1 + data.length) stack socket (by omega)
        (fun _ => by simp only [unmaskFrom_length, List.length_singleton]; omega) with ⟨events, first, all⟩ | ⟨next, first, all⟩
      · rw [first, all, run_closed]
        simp
      · rw [first, all, ih (left - 1) (position + 1) next none (by omega) (by omega)]
        simp

theorem run_startFrame (header data : Bytes) (stack : OpStack) (socket : WebSocketData ι)
    (within : data.length ≤ payLength header) :
    let started := startFrame context header [] stack socket
    ((run (step context) started.1 (data.map some)).1, started.2 ++ (run (step context) started.1 (data.map some)).2) =
      startFrame context header data stack socket := by
  by_cases none : data = []
  · subst none
    simp
  · have more : data.length ≠ 0 := fun zero => none (List.eq_nil_of_length_eq_zero zero)
    unfold startFrame
    cases opened : stack.openFrame header with
    | none => simp
    | some stack =>
      simp only
      by_cases refused : refusePayloadLength context (payLength header) = true
      · simp [refused]
      · rw [if_neg refused, if_neg refused]
        rw [refusePayloadLength_iff] at refused
        have fits : payLength header ≤ context.maxPayloadLength := Nat.not_lt.mp refused
        have split : unmaskFrom (headerKey context header) 0 data =
            unmaskFrom (headerKey context header) 0 [] ++ unmaskFrom (headerKey context header) 0 data := rfl
        rw [split, List.length_nil, Nat.sub_zero]
        rcases deliver_append context [] (unmaskFrom (headerKey context header) 0 data) (payLength header)
          (payLength header - data.length) (headerKey context header) 0 data.length
          { stack with lastFin := isFin header } socket (by omega)
          (fun _ => by simp only [unmaskFrom_length, List.length_nil]; omega) with
          ⟨events, first, all⟩ | ⟨next, first, all⟩
        · rw [unmaskFrom_nil, first, all, run_closed]
          simp
        · rw [unmaskFrom_nil, first, all, run_payload context data _ _ _ _ _ none within fits]
          simp

end FramePhase

end Uws.WebSocket
