import Uws.WebSocket.WebSocketContext

namespace Uws.WebSocket

open Uws.Http (Bytes)

/-- Results of `handleFragment` that only differ in what a closed socket still holds. -/
def SameResult {ι : Type} (x y : WebSocketData ι × List Event × Bool) : Prop := x.2 = y.2 ∧ (x.2.2 = false → x.1 = y.1)

variable {ι : Type} (context : WebSocketContextData ι)

theorem emitMessage_buffer (opCode : Nat) (data buffer : Bytes) (socket : WebSocketData ι) :
    emitMessage context opCode data { socket with fragmentBuffer := buffer } =
      ({ (emitMessage context opCode data socket).1 with fragmentBuffer := buffer },
        (emitMessage context opCode data socket).2) := by
  unfold emitMessage
  by_cases compressed : socket.compressionStatus = .compressedFrame
  · simp only [compressed, beq_self_eq_true, if_true]
    cases inflated : (context.inflate socket.inflationStream data).2 with
    | none => rfl
    | some inflated =>
      simp only
      split <;> rfl
  · have plain : (socket.compressionStatus == .compressedFrame) = false := by simpa using compressed
    simp only [plain, Bool.false_eq_true, if_false]
    split <;> rfl

theorem emitControl_buffer (opCode : Nat) (data buffer : Bytes) (tip : Nat) (socket : WebSocketData ι) :
    emitControl opCode data { socket with fragmentBuffer := buffer, controlTipLength := tip } =
      ({ (emitControl opCode data socket).1 with fragmentBuffer := buffer, controlTipLength := tip },
        (emitControl opCode data socket).2) := by
  unfold emitControl
  repeat' split
  all_goals rfl

theorem refusePayloadLength_iff (length : Nat) :
    refusePayloadLength context length = true ↔ context.maxPayloadLength < length := by
  simp [refusePayloadLength]

def bufferData (data : Bytes) (remainingBytes opCode : Nat) (fin : Bool) (socket : WebSocketData ι) :
    WebSocketData ι × List Event × Bool :=
  if refusePayloadLength context (data.length + socket.fragmentBuffer.length) then forceClose errTooBigMessage socket
  else if remainingBytes = 0 ∧ fin then
    let (socket, events, broken) := emitMessage context opCode (socket.fragmentBuffer ++ data) socket
    (if broken then socket else { socket with fragmentBuffer := [] }, events, broken)
  else ({ socket with fragmentBuffer := socket.fragmentBuffer ++ data }, [], false)

theorem emitMessage_frame (opCode : Nat) (data : Bytes) (socket : WebSocketData ι) :
    (emitMessage context opCode data socket).1.fragmentBuffer = socket.fragmentBuffer ∧
      (emitMessage context opCode data socket).1.controlTipLength = socket.controlTipLength := by
  unfold emitMessage
  by_cases compressed : (socket.compressionStatus == .compressedFrame) = true
  · simp only [compressed, if_true]
    cases (context.inflate socket.inflationStream data).2 with
    | none => exact ⟨rfl, rfl⟩
    | some inflated =>
      simp only
      split <;> exact ⟨rfl, rfl⟩
  · simp only [compressed, Bool.false_eq_true, if_false]
    split <;> exact ⟨rfl, rfl⟩

theorem handleData_buffer (data : Bytes) (left opCode : Nat) (fin : Bool) (socket : WebSocketData ι)
    (small : socket.fragmentBuffer = [] → data.length ≤ context.maxPayloadLength) :
    SameResult (handleData context data left opCode fin socket) (bufferData context data left opCode fin socket) := by
  unfold handleData bufferData
  by_cases final : left = 0 ∧ fin = true
  · by_cases none : socket.fragmentBuffer = []
    · have fits : ¬ refusePayloadLength context (data.length + socket.fragmentBuffer.length) = true := by
        rw [refusePayloadLength_iff, none]
        exact Nat.not_lt.mpr (small none)
      obtain ⟨kept, -⟩ := emitMessage_frame context opCode data socket
      rw [if_pos ⟨final.1, final.2, by rw [none]; rfl⟩, if_neg fits, if_pos final, none, List.nil_append]
      refine ⟨rfl, fun open_ => ?_⟩
      simp only [open_, Bool.false_eq_true, if_false]
      rw [none] at kept
      rw [← kept]
    · rw [if_neg (by simp [none])]
      by_cases refused : refusePayloadLength context (data.length + socket.fragmentBuffer.length) = true
      · rw [if_pos refused, if_pos refused]
        exact ⟨rfl, fun _ => rfl⟩
      · rw [if_neg refused, if_neg refused, if_pos final]
        simp only [if_pos final, padded, emitMessage_buffer]
        cases broken : (emitMessage context opCode (socket.fragmentBuffer ++ data) socket).2.2 with
        | false => exact ⟨rfl, fun _ => rfl⟩
        | true => exact ⟨rfl, nofun⟩
  · rw [if_neg (fun all => final ⟨all.1, all.2.1⟩)]
    by_cases refused : refusePayloadLength context (data.length + socket.fragmentBuffer.length) = true
    · rw [if_pos refused, if_pos refused]
      exact ⟨rfl, fun _ => rfl⟩
    · simp only [if_neg refused, if_neg final]
      exact ⟨rfl, fun _ => rfl⟩

theorem SameResult.symm {x y : WebSocketData ι × List Event × Bool} (same : SameResult x y) : SameResult y x :=
  ⟨same.1.symm, fun open_ => (same.2 (by rw [same.1]; exact open_)).symm⟩

theorem SameResult.trans {x y z : WebSocketData ι × List Event × Bool} (first : SameResult x y)
    (second : SameResult y z) : SameResult x z :=
  ⟨first.1.trans second.1, fun open_ => (first.2 open_).trans (second.2 (by rw [← first.1]; exact open_))⟩

theorem bufferData_append (front back : Bytes) (left after opCode : Nat) (fin : Bool) (socket : WebSocketData ι)
    (more : left ≠ 0) :
    (∃ x y events, bufferData context front left opCode fin socket = (x, events, true) ∧
        bufferData context (front ++ back) after opCode fin socket = (y, events, true)) ∨
      ∃ next, bufferData context front left opCode fin socket = (next, [], false) ∧
        next.fragmentBuffer.length ≤ context.maxPayloadLength ∧
        next.fragmentBuffer = socket.fragmentBuffer ++ front ∧
        SameResult (bufferData context (front ++ back) after opCode fin socket)
          (bufferData context back after opCode fin next) := by
  have size : (front ++ back).length + socket.fragmentBuffer.length =
      back.length + (socket.fragmentBuffer ++ front).length := by
    simp only [List.length_append]
    omega
  by_cases refused : refusePayloadLength context (front.length + socket.fragmentBuffer.length) = true
  · have whole : refusePayloadLength context ((front ++ back).length + socket.fragmentBuffer.length) = true := by
      rw [refusePayloadLength_iff] at refused ⊢
      simp only [List.length_append]
      omega
    left
    exact ⟨_, _, _, by rw [bufferData, if_pos refused]; rfl, by rw [bufferData, if_pos whole]; rfl⟩
  · right
    refine ⟨{ socket with fragmentBuffer := socket.fragmentBuffer ++ front }, ?_, ?_, rfl, ?_⟩
    · rw [bufferData, if_neg refused, if_neg (fun final => more final.1)]
    · rw [refusePayloadLength_iff] at refused
      simp only [List.length_append]
      omega
    · unfold bufferData
      rw [size]
      by_cases wide : refusePayloadLength context (back.length + (socket.fragmentBuffer ++ front).length) = true
      · simp only [if_pos wide]
        exact ⟨rfl, nofun⟩
      · simp only [if_neg wide, List.append_assoc]
        by_cases final : after = 0 ∧ fin = true
        · simp only [if_pos final, emitMessage_buffer]
          cases (emitMessage context opCode (socket.fragmentBuffer ++ (front ++ back)) socket).2.2 with
          | false => exact ⟨rfl, fun _ => rfl⟩
          | true => exact ⟨rfl, nofun⟩
        · simp only [if_neg final]
          exact ⟨rfl, fun _ => rfl⟩

/-- A part of a control frame that always goes through the buffer. -/
def bufferControl (data : Bytes) (remainingBytes opCode : Nat) (fin : Bool) (socket : WebSocketData ι) :
    WebSocketData ι × List Event × Bool :=
  let buffer := socket.fragmentBuffer ++ data
  let tip := socket.controlTipLength + data.length
  if remainingBytes = 0 ∧ fin then
    let (socket, events, broken) := emitControl opCode (buffer.drop (buffer.length - tip)) socket
    ({ socket with fragmentBuffer := buffer.take (buffer.length - tip), controlTipLength := 0 }, events, broken)
  else ({ socket with fragmentBuffer := buffer, controlTipLength := tip }, [], false)

theorem emitControl_frame (opCode : Nat) (data : Bytes) (socket : WebSocketData ι) :
    (emitControl opCode data socket).1.fragmentBuffer = socket.fragmentBuffer ∧
      (emitControl opCode data socket).1.controlTipLength = socket.controlTipLength := by
  unfold emitControl
  repeat' split
  all_goals exact ⟨rfl, rfl⟩

theorem handleControl_buffer (data : Bytes) (left opCode : Nat) (fin : Bool) (socket : WebSocketData ι) :
    SameResult (handleControl data left opCode fin socket) (bufferControl data left opCode fin socket) := by
  unfold handleControl bufferControl
  by_cases final : left = 0 ∧ fin = true
  · by_cases none : socket.controlTipLength = 0
    · have tip : (socket.fragmentBuffer ++ data).length - (0 + data.length) = socket.fragmentBuffer.length := by
        rw [List.length_append]
        omega
      obtain ⟨buffer, length⟩ := emitControl_frame opCode data socket
      rw [if_pos ⟨final.1, final.2, none⟩]
      simp only [if_pos final, none, tip, List.drop_left, List.take_left]
      refine ⟨rfl, fun _ => ?_⟩
      rw [none] at length
      rw [← buffer, ← length]
    · rw [if_neg (fun all => none all.2.2)]
      simp only [if_pos final, emitControl_buffer]
      split
      · rename_i broken
        refine ⟨by rw [broken], fun open_ => ?_⟩
        cases open_
      · rename_i going
        rw [Bool.not_eq_true] at going
        exact ⟨Prod.ext rfl going.symm, fun _ => rfl⟩
  · rw [if_neg (fun all => final ⟨all.1, all.2.1⟩)]
    simp only [if_neg final]
    exact ⟨rfl, fun _ => rfl⟩

theorem bufferControl_append (front back : Bytes) (left after opCode : Nat) (fin : Bool) (socket : WebSocketData ι)
    (more : left ≠ 0) :
    ∃ next, bufferControl front left opCode fin socket = (next, [], false) ∧
      bufferControl (front ++ back) after opCode fin socket = bufferControl back after opCode fin next := by
  have partly : bufferControl front left opCode fin socket =
      ({ socket with
        fragmentBuffer := socket.fragmentBuffer ++ front, controlTipLength := socket.controlTipLength + front.length }, [],
        false) := by
    simp only [bufferControl, more, false_and, if_false]
  refine ⟨_, partly, ?_⟩
  have tip : socket.controlTipLength + (front ++ back).length = socket.controlTipLength + front.length + back.length := by
    rw [List.length_append]
    omega
  simp only [bufferControl, tip, ← List.append_assoc]
  by_cases final : after = 0 ∧ fin = true
  · simp only [if_pos final, emitControl_buffer]
  · simp only [if_neg final]

theorem handleFragment_append (front back : Bytes) (left after opCode : Nat) (fin : Bool) (socket : WebSocketData ι)
    (more : left ≠ 0) (small : socket.fragmentBuffer = [] → front.length + back.length ≤ context.maxPayloadLength) :
    (∃ x y events, handleFragment context front left opCode fin socket = (x, events, true) ∧
        handleFragment context (front ++ back) after opCode fin socket = (y, events, true)) ∨
      ∃ next, handleFragment context front left opCode fin socket = (next, [], false) ∧
        SameResult (handleFragment context (front ++ back) after opCode fin socket)
          (handleFragment context back after opCode fin next) := by
  have whole_small : socket.fragmentBuffer = [] → (front ++ back).length ≤ context.maxPayloadLength := by
    intro none
    rw [List.length_append]
    exact small none
  unfold handleFragment
  by_cases data : opCode < 3
  · simp only [if_pos data]
    have first := handleData_buffer context front left opCode fin socket (fun none => by have := small none; omega)
    have whole := handleData_buffer context (front ++ back) after opCode fin socket whole_small
    rcases bufferData_append context front back left after opCode fin socket more with
      ⟨x, y, events, partly, all⟩ | ⟨next, partly, -, filled, same⟩
    · rw [partly] at first
      rw [all] at whole
      left
      exact ⟨_, _, events, Prod.ext rfl first.1, Prod.ext rfl whole.1⟩
    · rw [partly] at first
      have kept : (handleData context front left opCode fin socket).1 = next := first.2 (by rw [first.1])
      have last := handleData_buffer context back after opCode fin next (fun none => by
        rw [filled, List.append_eq_nil_iff] at none
        have := small none.1
        omega)
      right
      exact ⟨next, Prod.ext kept first.1, (whole.trans same).trans last.symm⟩
  · simp only [if_neg data]
    have first := handleControl_buffer front left opCode fin socket
    have whole := handleControl_buffer (front ++ back) after opCode fin socket
    obtain ⟨next, partly, same⟩ := bufferControl_append front back left after opCode fin socket more
    rw [partly] at first
    rw [same] at whole
    have kept : (handleControl front left opCode fin socket).1 = next := first.2 (by rw [first.1])
    right
    exact ⟨next, Prod.ext kept first.1, whole.trans (handleControl_buffer back after opCode fin next).symm⟩

end Uws.WebSocket
