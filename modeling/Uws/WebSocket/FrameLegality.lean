import Uws.WebSocket.FrameSequences

namespace Uws.WebSocket

open Uws.Http (Bytes)
open Uws.Machine

variable {ι : Type} (context : WebSocketContextData ι)

/-- What the fragments received so far amount to: the message that is open, by its opcode and what came of it, and whether
    all frames were legal. -/
structure Reassembly where
  opened : Option (Nat × Bytes) := none
  legal : Bool := true
deriving DecidableEq

def Frame.isControl (frame : Frame) : Bool := 2 < frame.opCode

namespace Reassembly

def fragment (opCode : Nat) (content : Bytes) (fin : Bool) : Reassembly × List Event :=
  if fin then ({}, [.message opCode content false]) else ({ opened := some (opCode, content) }, [])

/-- A continuation needs an open message, a text or binary frame needs that none is open, and control frames come at any
    place. -/
def next (state : Reassembly) (frame : Frame) : Reassembly × List Event :=
  if state.legal = false then (state, [])
  else if frame.isControl then
    (state, [if frame.opCode = pingCode then .ping frame.payload else .pong frame.payload])
  else
    match state.opened with
    | none =>
      if frame.opCode = 0 then ({ state with legal := false }, []) else fragment frame.opCode frame.payload frame.fin
    | some (opCode, content) =>
      if frame.opCode = 0 then fragment opCode (content ++ frame.payload) frame.fin
      else ({ state with legal := false }, [])

end Reassembly

def reassemble (frames : List Frame) : Reassembly × List Event := run Reassembly.next {} frames

/-- The messages, pings and pongs up to the first illegal frame. -/
def legalEvents (frames : List Frame) : List Event := (reassemble frames).2

def isLegal (frames : List Frame) : Bool := (reassemble frames).1.legal

def openContent (frames : List Frame) : Bytes := ((reassemble frames).1.opened.map Prod.snd).getD []

/-- A frame on its own: valid, uncompressed, no close frame, and within the limit. -/
structure WellFormed (frame : Frame) : Prop where
  valid : invalidFrame frame = false
  plain : frame.compressed = false
  open_ : frame.opCode ≠ closeCode
  within : frame.payload.length ≤ context.maxPayloadLength

/-- Every part of the frames, in whatever reads, is answered by its legal events, and by a close at the first illegal
    frame. -/
def ParsedAsLegal (perMessageDeflate : Bool) (stream : ι) (frames : List Frame) : Prop :=
  ∀ front, front <+: frames → ∀ reads : List Bytes, (∀ read ∈ reads, read ≠ []) →
    reads.flatten = encodeFrames context.isServer front →
    if isLegal front then readEvents context perMessageDeflate stream reads = legalEvents front
    else ∃ reason, readEvents context perMessageDeflate stream reads = legalEvents front ++ [.forceClose reason]

def behindControl (front : List Frame) : Bool := front.getLast?.any Frame.isControl

/-- What the parser needs of a frame behind legal ones. A legal fragment has room. An illegal frame is a continuation, or
    a text frame that is not directly behind a control frame, or it is refused with what is open: for its length, or for
    invalid UTF-8. -/
def FitsBehind (front : List Frame) (frame : Frame) : Prop :=
  if isLegal (front ++ [frame]) then
    frame.isControl = true ∨ (openContent front).length + frame.payload.length ≤ context.maxPayloadLength
  else
    frame.opCode = 0 ∨ (frame.opCode = textCode ∧ behindControl front = false) ∨
      context.maxPayloadLength < (openContent front).length + frame.payload.length ∨
      (frame.opCode = textCode ∧ frame.fin = true ∧ isValidUtf8 (openContent front ++ frame.payload) = false)

def FramesFit (frames : List Frame) : Prop :=
  ∀ front frame, front ++ [frame] <+: frames → isLegal front = true → FitsBehind context front frame

section Spec

inductive Takes (state : Reassembly) (frame : Frame) : Reassembly × List Event → Prop where
  | control (control : frame.isControl = true) :
      Takes state frame (state, [if frame.opCode = pingCode then .ping frame.payload else .pong frame.payload])
  | begins (data : frame.isControl = false) (none_ : state.opened = none) (code : frame.opCode ≠ 0) :
      Takes state frame (Reassembly.fragment frame.opCode frame.payload frame.fin)
  | continues (opCode : Nat) (content : Bytes) (some_ : state.opened = some (opCode, content)) (code : frame.opCode = 0) :
      Takes state frame (Reassembly.fragment opCode (content ++ frame.payload) frame.fin)
  | stray (none_ : state.opened = none) (code : frame.opCode = 0) : Takes state frame ({ state with legal := false }, [])
  | nested (data : frame.isControl = false) (opCode : Nat) (content : Bytes) (some_ : state.opened = some (opCode, content))
      (code : frame.opCode ≠ 0) : Takes state frame ({ state with legal := false }, [])

theorem next_takes (state : Reassembly) (legal : state.legal = true) (frame : Frame) :
    Takes state frame (state.next frame) := by
  unfold Reassembly.next
  rw [if_neg (by rw [legal]; exact Bool.false_ne_true.symm)]
  by_cases control : frame.isControl = true
  · rw [if_pos control]
    exact .control control
  · rw [if_neg control]
    rw [Bool.not_eq_true] at control
    cases opened : state.opened with
    | none =>
      by_cases code : frame.opCode = 0
      · simp only [if_pos code]
        exact opened ▸ .stray opened code
      · simp only [if_neg code]
        exact .begins control opened code
    | some message =>
      obtain ⟨opCode, content⟩ := message
      by_cases code : frame.opCode = 0
      · simp only [if_pos code]
        exact .continues opCode content opened code
      · simp only [if_neg code]
        exact opened ▸ .nested control opCode content opened code

theorem fragment_legal (opCode : Nat) (content : Bytes) (fin : Bool) :
    (Reassembly.fragment opCode content fin).1.legal = true := by
  unfold Reassembly.fragment
  split <;> rfl

theorem reassemble_append (front : List Frame) (frame : Frame) :
    reassemble (front ++ [frame]) =
      (((reassemble front).1.next frame).1, (reassemble front).2 ++ ((reassemble front).1.next frame).2) := by
  unfold reassemble
  rw [run_append, run_cons, run_nil, List.append_nil]

theorem illegal_append {front : List Frame} (illegal : isLegal front = false) (frame : Frame) :
    isLegal (front ++ [frame]) = false ∧ legalEvents (front ++ [frame]) = legalEvents front := by
  unfold isLegal legalEvents at *
  rw [reassemble_append, Reassembly.next, if_pos illegal]
  exact ⟨illegal, List.append_nil _⟩

theorem legalEvents_left (front : List Frame) (frame : Frame) : legalEvents front <+: legalEvents (front ++ [frame]) := by
  unfold legalEvents
  rw [reassemble_append]
  exact List.prefix_append _ _

end Spec

section Parser

variable {context}

theorem opCode_wellFormed {frame : Frame} (formed : WellFormed context frame) :
    (frame.isControl = true ∧ (frame.opCode = pingCode ∨ frame.opCode = pongCode) ∧ frame.fin = true) ∨
      (frame.isControl = false ∧ frame.opCode < 3) := by
  have valid := formed.valid
  have close := formed.open_
  simp only [invalidFrame, Bool.or_eq_false_iff, Bool.and_eq_false_iff, decide_eq_false_iff_not, Bool.not_eq_false'] at valid
  obtain ⟨⟨⟨-, reserved⟩, high⟩, control⟩ := valid
  unfold Frame.isControl
  by_cases above : 2 < frame.opCode
  · left
    refine ⟨decide_eq_true above, ?_, ?_⟩
    · unfold closeCode at close
      unfold pingCode pongCode
      omega
    · rcases control with low | ⟨final, -⟩
      · exact absurd above low
      · exact final
  · exact .inr ⟨decide_eq_false above, by omega⟩

theorem next_formed {frame : Frame} (formed : WellFormed context frame) (stack : OpStack) (socket : WebSocketData ι) :
    FrameState.next context (some (stack, socket)) frame =
      match stack.openFrame [frame.first] with
      | none => (none, [.forceClose errProtocol])
      | some stack =>
        FrameState.behind { stack with lastFin := frame.fin }
          (handleFragment context frame.payload 0 stack.currentOpCode frame.fin socket) := by
  have fits : ¬ refusePayloadLength context frame.payload.length = true := by
    rw [refusePayloadLength_iff]
    exact Nat.not_lt.mpr formed.within
  unfold FrameState.next checkFrame
  simp only [formed.plain, formed.valid, Bool.false_eq_true, if_false, Bool.not_true, Bool.or_false]
  cases stack.openFrame [frame.first] with
  | none => rfl
  | some stack =>
    simp only [if_neg fits]
    rfl

theorem emitMessage_plain (opCode : Nat) (data : Bytes) {socket : WebSocketData ι}
    (plain : socket.compressionStatus ≠ .compressedFrame) :
    emitMessage context opCode data socket =
      if opCode = textCode ∧ isValidUtf8 data = false then forceClose errInvalidText socket
      else (socket, [.message opCode data false], false) := by
  have off : (socket.compressionStatus == .compressedFrame) = false := by simpa using plain
  unfold emitMessage
  simp only [off, Bool.false_eq_true, if_false, Bool.not_eq_true']

theorem behind_data (stack : OpStack) {socket : WebSocketData ι} {payload : Bytes} {opCode : Nat} (data : opCode < 3)
    (plain : socket.compressionStatus ≠ .compressedFrame) (within : payload.length ≤ context.maxPayloadLength) :
    FrameState.behind stack (handleFragment context payload 0 opCode stack.lastFin socket) =
      if context.maxPayloadLength < socket.fragmentBuffer.length + payload.length then
        (none, [.forceClose errTooBigMessage])
      else if stack.lastFin = true then
        if opCode = textCode ∧ isValidUtf8 (socket.fragmentBuffer ++ payload) = false then
          (none, [.forceClose errInvalidText])
        else
          (some (stack.popOpCode true, { socket with fragmentBuffer := [] }),
            [.message opCode (socket.fragmentBuffer ++ payload) false])
      else (some (stack.popOpCode false, { socket with fragmentBuffer := socket.fragmentBuffer ++ payload }), []) := by
  have buffered := handleData_buffer context payload 0 opCode stack.lastFin socket fun _ => within
  have same : FrameState.behind stack (handleFragment context payload 0 opCode stack.lastFin socket) =
      FrameState.behind stack (bufferData context payload 0 opCode stack.lastFin socket) := by
    unfold handleFragment
    rw [if_pos data]
    unfold FrameState.behind
    rw [buffered.1]
    by_cases broken : (bufferData context payload 0 opCode stack.lastFin socket).2.2 = true
    · rw [if_pos broken, if_pos broken]
    · rw [Bool.not_eq_true] at broken
      rw [buffered.2 (by rw [buffered.1, broken])]
  rw [same]
  unfold bufferData
  have size : payload.length + socket.fragmentBuffer.length = socket.fragmentBuffer.length + payload.length :=
    Nat.add_comm _ _
  rw [size]
  by_cases refused : context.maxPayloadLength < socket.fragmentBuffer.length + payload.length
  · rw [if_pos ((refusePayloadLength_iff context _).mpr refused), if_pos refused]
    rfl
  · rw [if_neg (fun over_ => refused ((refusePayloadLength_iff context _).mp over_)), if_neg refused]
    cases fin : stack.lastFin with
    | false =>
      simp only [Bool.false_eq_true, and_false, if_false]
      unfold FrameState.behind
      simp only [Bool.false_eq_true, if_false, fin]
    | true =>
      simp only [and_true, if_true, emitMessage_plain _ _ plain]
      by_cases invalid : opCode = textCode ∧ isValidUtf8 (socket.fragmentBuffer ++ payload) = false
      · rw [if_pos invalid, if_pos invalid]
        rfl
      · rw [if_neg invalid, if_neg invalid]
        unfold FrameState.behind
        simp only [Bool.false_eq_true, if_false, fin]

/-- A parser between frames that were legal: no message is open, or one whose content is in the buffer. -/
structure Tracks (opened : Option (Nat × Bytes)) (control : Bool) (stack : OpStack) (socket : WebSocketData ι) : Prop where
  none_ : opened = none → stack.opStack = -1 ∧ stack.lastFin = true ∧ socket.fragmentBuffer = []
  some_ : ∀ opCode content, opened = some (opCode, content) →
    stack.opStack = 0 ∧ stack.opCode.1 = opCode ∧ opCode < 3 ∧ stack.lastFin = control ∧ socket.fragmentBuffer = content
  tip : socket.controlTipLength = 0
  plain : socket.compressionStatus ≠ .compressedFrame

/-- A parser behind frames: it follows the legal ones, and is closed by the first that is not. -/
def Synced (front : List Frame) (result : FrameState ι × List Event) : Prop :=
  if isLegal front then
    (∃ stack socket, result.1 = some (stack, socket) ∧
      Tracks (reassemble front).1.opened (behindControl front) stack socket) ∧ result.2 = legalEvents front
  else result.1 = none ∧ ∃ reason, result.2 = legalEvents front ++ [.forceClose reason]

/-- What is seen of that. -/
def Answers (front : List Frame) (events : List Event) : Prop :=
  if isLegal front then events = legalEvents front else ∃ reason, events = legalEvents front ++ [.forceClose reason]

theorem Synced.answers {front : List Frame} {result : FrameState ι × List Event} (synced : Synced front result) :
    Answers front result.2 := by
  unfold Synced at synced
  unfold Answers
  split at synced
  · rename_i legal
    rw [if_pos legal]
    exact synced.2
  · rename_i illegal
    rw [if_neg illegal]
    exact synced.2

theorem behindControl_append (front : List Frame) (frame : Frame) :
    behindControl (front ++ [frame]) = frame.isControl := by
  unfold behindControl
  rw [List.getLast?_concat]
  rfl

variable {front : List Frame} {frame : Frame} {stack : OpStack} {socket : WebSocketData ι}

theorem control_tracks (formed : WellFormed context frame) (control : frame.isControl = true) {opened : Option (Nat × Bytes)}
    {before : Bool} (tracks : Tracks opened before stack socket) :
    ∃ stack', FrameState.next context (some (stack, socket)) frame =
        (some (stack', socket), [if frame.opCode = pingCode then .ping frame.payload else .pong frame.payload]) ∧
      Tracks opened true stack' socket := by
  obtain ⟨code, fin⟩ : (frame.opCode = pingCode ∨ frame.opCode = pongCode) ∧ frame.fin = true := by
    rcases opCode_wellFormed formed with ⟨-, code, fin⟩ | ⟨data, -⟩
    · exact ⟨code, fin⟩
    · rw [control] at data
      cases data
  have nonzero : getOpCode [frame.first] ≠ 0 ∧ ¬ getOpCode [frame.first] < 2 ∧ ¬ getOpCode [frame.first] < 3 := by
    have same : frame.opCode = getOpCode [frame.first] := rfl
    rw [← same]
    unfold pingCode pongCode at code
    omega
  have depth : stack.opStack = -1 ∨ stack.opStack = 0 := by
    cases opened with
    | none => exact .inl (tracks.none_ rfl).1
    | some message => exact .inr (tracks.some_ message.1 message.2 rfl).1
  have opens : stack.openFrame [frame.first] = some (stack.pushOpCode frame.opCode) := by
    unfold OpStack.openFrame
    rw [if_pos nonzero.1, if_neg]
    · rfl
    · rintro (deep | ⟨-, text⟩)
      · omega
      · exact nonzero.2.1 text
  have current : (stack.pushOpCode frame.opCode).currentOpCode = frame.opCode := by
    rcases depth with outer | inner
    · have pushed : stack.pushOpCode frame.opCode = { stack with opStack := 0, opCode := (frame.opCode, stack.opCode.2) } := by
        rw [OpStack.pushOpCode, if_pos outer]
      rw [pushed]
      rfl
    · have pushed : stack.pushOpCode frame.opCode = { stack with opStack := 1, opCode := (stack.opCode.1, frame.opCode) } := by
        rw [OpStack.pushOpCode, if_neg (by omega), inner]
        rfl
      rw [pushed]
      rfl
  have handled : handleFragment context frame.payload 0 frame.opCode frame.fin socket =
      (socket, [if frame.opCode = pingCode then .ping frame.payload else .pong frame.payload], false) := by
    have other : ¬ frame.opCode < 3 := nonzero.2.2
    unfold handleFragment handleControl
    rw [if_neg other, if_pos ⟨rfl, fin, tracks.tip⟩]
    rcases code with ping | pong
    · rw [ping]
      rfl
    · rw [pong]
      rfl
  refine ⟨{ stack.pushOpCode frame.opCode with lastFin := true, opStack := stack.opStack }, ?_, ?_⟩
  · rw [fin] at handled
    rw [next_formed formed, opens]
    simp only [current, fin, handled, FrameState.behind, Bool.false_eq_true, if_false, OpStack.popOpCode, if_true]
    have deeper : (stack.pushOpCode frame.opCode).opStack - 1 = stack.opStack := by
      unfold OpStack.pushOpCode
      rcases depth with outer | inner
      · rw [if_pos outer, outer]
        rfl
      · rw [if_neg (by omega)]
        simp only
        omega
    rw [deeper]
  · refine ⟨fun empty => ?_, fun opCode content open_ => ?_, tracks.tip, tracks.plain⟩
    · obtain ⟨bottom, -, buffer⟩ := tracks.none_ empty
      exact ⟨bottom, rfl, buffer⟩
    · obtain ⟨bottom, outer, data, -, buffer⟩ := tracks.some_ opCode content open_
      refine ⟨bottom, ?_, data, rfl, buffer⟩
      unfold OpStack.pushOpCode
      rw [if_neg (by omega)]
      exact outer

theorem fragment_tracks (stack : OpStack) {opCode : Nat} (data : opCode < 3) (within : frame.payload.length ≤ context.maxPayloadLength)
    (plain : socket.compressionStatus ≠ .compressedFrame) (tip : socket.controlTipLength = 0) (control : frame.isControl = false)
    (bottom : stack.opStack = 0) (outer : stack.opCode.1 = opCode) (fin : stack.lastFin = frame.fin) :
    let result := FrameState.behind stack (handleFragment context frame.payload 0 opCode frame.fin socket)
    let expected := Reassembly.fragment opCode (socket.fragmentBuffer ++ frame.payload) frame.fin
    (context.maxPayloadLength < socket.fragmentBuffer.length + frame.payload.length ∧
        result = (none, [.forceClose errTooBigMessage])) ∨
      (¬ context.maxPayloadLength < socket.fragmentBuffer.length + frame.payload.length ∧
        opCode = textCode ∧ frame.fin = true ∧ isValidUtf8 (socket.fragmentBuffer ++ frame.payload) = false) ∨
      (¬ context.maxPayloadLength < socket.fragmentBuffer.length + frame.payload.length ∧
        ∃ stack' socket', result = (some (stack', socket'), expected.2) ∧
          Tracks expected.1.opened frame.isControl stack' socket') := by
  have handled := behind_data stack data plain within
  rw [fin] at handled
  intro result expected
  by_cases refused : context.maxPayloadLength < socket.fragmentBuffer.length + frame.payload.length
  · rw [if_pos refused] at handled
    exact .inl ⟨refused, handled⟩
  · rw [if_neg refused] at handled
    cases final : frame.fin with
    | true =>
      rw [final] at handled
      rw [if_pos rfl] at handled
      by_cases invalid : opCode = textCode ∧ isValidUtf8 (socket.fragmentBuffer ++ frame.payload) = false
      · exact .inr (.inl ⟨refused, invalid.1, rfl, invalid.2⟩)
      · rw [if_neg invalid] at handled
        refine .inr (.inr ⟨refused, stack.popOpCode true, { socket with fragmentBuffer := [] }, ?_, ?_⟩)
        · simp only [result, expected, final, handled, Reassembly.fragment, if_true]
        · simp only [expected, final, Reassembly.fragment, if_true]
          refine ⟨fun _ => ⟨?_, ?_, rfl⟩, nofun, tip, plain⟩
          · simp only [OpStack.popOpCode, if_true, bottom]
            rfl
          · simp only [OpStack.popOpCode, if_true, fin, final]
    | false =>
      rw [final] at handled
      rw [if_neg Bool.false_ne_true] at handled
      refine .inr (.inr ⟨refused, stack, { socket with fragmentBuffer := socket.fragmentBuffer ++ frame.payload }, ?_, ?_⟩)
      · simp only [result, expected, final, handled, Reassembly.fragment, Bool.false_eq_true, if_false, OpStack.popOpCode]
      · simp only [expected, final, Reassembly.fragment, Bool.false_eq_true, if_false]
        refine ⟨nofun, ?_, tip, plain⟩
        intro opCode' content open_
        obtain ⟨rfl, rfl⟩ := Prod.ext_iff.mp (Option.some.inj open_)
        exact ⟨bottom, outer, data, by rw [fin, final, control], rfl⟩

theorem Tracks.content {opened : Option (Nat × Bytes)} {control : Bool} (tracks : Tracks opened control stack socket) :
    (opened.map Prod.snd).getD [] = socket.fragmentBuffer := by
  cases opened with
  | none => exact (tracks.none_ rfl).2.2.symm
  | some message => exact (tracks.some_ message.1 message.2 rfl).2.2.2.2.symm

theorem openFrame_begins (code : frame.opCode ≠ 0) (bottom : stack.opStack = -1) (fin : stack.lastFin = true) :
    stack.openFrame [frame.first] = some (stack.pushOpCode frame.opCode) ∧
      (stack.pushOpCode frame.opCode).opStack = 0 ∧ (stack.pushOpCode frame.opCode).opCode.1 = frame.opCode := by
  have nonzero : getOpCode [frame.first] ≠ 0 := code
  refine ⟨?_, ?_, ?_⟩
  · unfold OpStack.openFrame
    rw [if_pos nonzero, if_neg]
    · rfl
    · rintro (deep | ⟨open_, -⟩)
      · omega
      · rw [fin] at open_
        cases open_
  · rw [OpStack.pushOpCode, if_pos bottom]
  · rw [OpStack.pushOpCode, if_pos bottom]

theorem openFrame_continues (code : frame.opCode = 0) (bottom : stack.opStack = 0) :
    stack.openFrame [frame.first] = some stack := by
  have zero : getOpCode [frame.first] = 0 := code
  unfold OpStack.openFrame
  rw [if_neg (fun nonzero => nonzero zero), if_neg (by omega)]

theorem openFrame_stray (code : frame.opCode = 0) (bottom : stack.opStack = -1) : stack.openFrame [frame.first] = none := by
  have zero : getOpCode [frame.first] = 0 := code
  unfold OpStack.openFrame
  rw [if_neg (fun nonzero => nonzero zero), if_pos bottom]

theorem openFrame_nested (code : frame.opCode ≠ 0) (data : frame.opCode < 3) (bottom : stack.opStack = 0) :
    (frame.opCode = textCode ∧ stack.lastFin = false ∧ stack.openFrame [frame.first] = none) ∨
      (¬ (frame.opCode = textCode ∧ stack.lastFin = false) ∧
        stack.openFrame [frame.first] = some { stack with opStack := 1, opCode := (stack.opCode.1, frame.opCode) }) := by
  have same : getOpCode [frame.first] = frame.opCode := rfl
  unfold OpStack.openFrame
  rw [same, if_pos code]
  unfold textCode
  cases fin : stack.lastFin with
  | false =>
    by_cases text : frame.opCode = 1
    · left
      refine ⟨text, rfl, if_pos (.inr ⟨rfl, by omega⟩)⟩
    · right
      refine ⟨fun both => text both.1, ?_⟩
      rw [if_neg]
      · rw [OpStack.pushOpCode, if_neg (by omega), bottom]
        simp only [fin]
        rfl
      · rintro (deep | ⟨-, low⟩)
        · omega
        · omega
  | true =>
    right
    refine ⟨fun both => Bool.noConfusion both.2, ?_⟩
    rw [if_neg]
    · rw [OpStack.pushOpCode, if_neg (by omega), bottom]
      simp only [fin]
      rfl
    · rintro (deep | ⟨open_, -⟩)
      · omega
      · cases open_

/-- One more frame: what the parser needs of it is there and it keeps up, or it is not and this is seen. -/
theorem opCode_data (formed : WellFormed context frame) (data : frame.isControl = false) : frame.opCode < 3 := by
  rcases opCode_wellFormed formed with ⟨control, -⟩ | ⟨-, small⟩
  · rw [data] at control
    cases control
  · exact small

theorem currentOpCode_bottom {opCode : Nat} (bottom : stack.opStack = 0) (outer : stack.opCode.1 = opCode) :
    stack.currentOpCode = opCode := by
  unfold OpStack.currentOpCode
  rw [if_neg (by omega), outer]

theorem fragment_events {opCode : Nat} {content : Bytes} {fin : Bool} (final : fin = true) :
    (Reassembly.fragment opCode content fin).2 = [.message opCode content false] := by
  rw [final]
  rfl

theorem next_synced (formed : WellFormed context frame) (legal : isLegal front = true) {result : FrameState ι × List Event}
    (synced : Synced front result)
    (valid : ∀ payload, .message textCode payload false ∈ legalEvents (front ++ [frame]) → isValidUtf8 payload = true) :
    let later := FrameState.next context result.1 frame
    (FitsBehind context front frame ∧ Synced (front ++ [frame]) (later.1, result.2 ++ later.2)) ∨
      (¬ FitsBehind context front frame ∧ ¬ Answers (front ++ [frame]) (result.2 ++ later.2)) := by
  intro later
  rw [Synced, if_pos legal] at synced
  obtain ⟨⟨stack, socket, state, tracks⟩, events⟩ := synced
  have content : openContent front = socket.fragmentBuffer := tracks.content
  have took := next_takes (reassemble front).1 legal frame
  have whole := reassemble_append front frame
  have step : later = FrameState.next context (some (stack, socket)) frame := by rw [← state]
  rw [next_formed formed] at step
  have legal_of : isLegal (front ++ [frame]) = ((reassemble front).1.next frame).1.legal := by
    unfold isLegal
    rw [whole]
  have events_of : legalEvents (front ++ [frame]) = legalEvents front ++ ((reassemble front).1.next frame).2 :=
    congrArg Prod.snd whole
  have opened_of : (reassemble (front ++ [frame])).1.opened = ((reassemble front).1.next frame).1.opened := by rw [whole]
  have control_of := behindControl_append front frame
  unfold Synced Answers FitsBehind
  rw [legal_of, opened_of, control_of, content, events]
  rw [events_of] at valid ⊢
  generalize (reassemble front).1.next frame = out at took valid ⊢
  have close_of : ∀ reason, later = (none, [.forceClose reason]) →
      later.1 = none ∧ ∃ reason, legalEvents front ++ later.2 = legalEvents front ++ [.forceClose reason] := by
    rintro reason closes
    rw [closes]
    exact ⟨rfl, reason, rfl⟩
  cases took with
  | control control =>
    obtain ⟨stack', answered, tracks'⟩ := control_tracks formed control tracks
    rw [next_formed formed] at answered
    have allowed : (reassemble front).1.legal = true := legal
    simp only [allowed, if_true]
    exact .inl ⟨.inl control, ⟨stack', socket, by rw [step, answered], control ▸ tracks'⟩, by rw [step, answered]⟩
  | begins data none_ code =>
    obtain ⟨bottom, fin, buffer⟩ := tracks.none_ none_
    obtain ⟨opens, depth, outer⟩ := openFrame_begins code bottom fin
    have small := opCode_data formed data
    have fragment := fragment_tracks { stack.pushOpCode frame.opCode with lastFin := frame.fin } small formed.within
      tracks.plain tracks.tip data depth outer rfl
    rw [opens] at step
    have current := currentOpCode_bottom depth outer
    simp only [current] at step
    rw [buffer, List.nil_append, List.length_nil, Nat.zero_add] at fragment
    have within := formed.within
    have allowed := fragment_legal frame.opCode frame.payload frame.fin
    rw [if_pos allowed, if_pos allowed, if_pos allowed, buffer]
    rcases fragment with ⟨refused, -⟩ | ⟨-, text, final, invalid⟩ | ⟨-, stack', socket', answered, tracks'⟩
    · omega
    · have member := valid frame.payload (by rw [fragment_events final, text]; simp)
      rw [invalid] at member
      cases member
    · rw [← step] at answered
      refine .inl ⟨.inr ?_, ⟨stack', socket', by rw [answered], tracks'⟩, by rw [answered]⟩
      simpa using within
  | continues opCode content' some_ code =>
    obtain ⟨bottom, outer, small, -, buffer⟩ := tracks.some_ opCode content' some_
    have data : frame.isControl = false := by
      unfold Frame.isControl
      rw [code]
      rfl
    have fragment := fragment_tracks { stack with lastFin := frame.fin } small formed.within
      tracks.plain tracks.tip data bottom outer rfl
    rw [openFrame_continues code bottom] at step
    simp only [currentOpCode_bottom bottom outer] at step
    rw [buffer] at fragment ⊢
    have allowed := fragment_legal opCode (content' ++ frame.payload) frame.fin
    rw [if_pos allowed, if_pos allowed, if_pos allowed]
    rcases fragment with ⟨refused, answered⟩ | ⟨-, text, final, invalid⟩ | ⟨fits, stack', socket', answered, tracks'⟩
    · rw [← step] at answered
      right
      refine ⟨?_, ?_⟩
      · rintro (control | fits)
        · rw [data] at control
          cases control
        · omega
      · rw [answered]
        intro same
        have tail := List.append_cancel_left same
        unfold Reassembly.fragment at tail
        split at tail
        · cases tail
        · cases tail
    · have member := valid (content' ++ frame.payload) (by rw [fragment_events final, text]; simp)
      rw [invalid] at member
      cases member
    · rw [← step] at answered
      exact .inl ⟨.inr (by omega), ⟨stack', socket', by rw [answered], tracks'⟩, by rw [answered]⟩
  | stray none_ code =>
    obtain ⟨bottom, -, -⟩ := tracks.none_ none_
    rw [openFrame_stray code bottom] at step
    rw [if_neg Bool.false_ne_true, if_neg Bool.false_ne_true, if_neg Bool.false_ne_true, List.append_nil]
    exact .inl ⟨.inl code, close_of _ step⟩
  | nested data opCode content' some_ code =>
    obtain ⟨bottom, -, -, before, -⟩ := tracks.some_ opCode content' some_
    have small := opCode_data formed data
    rw [if_neg Bool.false_ne_true, if_neg Bool.false_ne_true, if_neg Bool.false_ne_true, List.append_nil, ← before]
    rcases openFrame_nested code small bottom with ⟨text, open_, refused⟩ | ⟨accepted, opens⟩
    · rw [refused] at step
      exact .inl ⟨.inr (.inl ⟨text, open_⟩), close_of _ step⟩
    · rw [opens] at step
      have current : OpStack.currentOpCode { stack with opStack := 1, opCode := (stack.opCode.1, frame.opCode) } =
          frame.opCode := rfl
      have handled := behind_data { stack with
        opStack := 1, opCode := (stack.opCode.1, frame.opCode), lastFin := frame.fin } small tracks.plain formed.within
      simp only [current] at step
      rw [handled] at step
      by_cases big : context.maxPayloadLength < socket.fragmentBuffer.length + frame.payload.length
      · rw [if_pos big] at step
        exact .inl ⟨.inr (.inr (.inl big)), close_of _ step⟩
      · rw [if_neg big] at step
        by_cases bad : frame.opCode = textCode ∧ frame.fin = true ∧
            isValidUtf8 (socket.fragmentBuffer ++ frame.payload) = false
        · rw [if_pos bad.2.1, if_pos ⟨bad.1, bad.2.2⟩] at step
          exact .inl ⟨.inr (.inr (.inr bad)), close_of _ step⟩
        · right
          refine ⟨?_, ?_⟩
          · rintro (zero | refused | over_ | invalid)
            · exact code zero
            · exact accepted refused
            · exact big over_
            · exact bad invalid
          · rintro ⟨reason, same⟩
            have tail := List.append_cancel_left same
            rw [step] at tail
            split at tail
            · rename_i final
              split at tail
              · rename_i invalid
                exact bad ⟨invalid.1, final, invalid.2⟩
              · cases tail
            · cases tail

end Parser

section Runs

def framesResult (perMessageDeflate : Bool) (stream : ι) (frames : List Frame) : FrameState ι × List Event :=
  run (FrameState.next context) (startState perMessageDeflate stream) frames

theorem framesResult_append (perMessageDeflate : Bool) (stream : ι) (front : List Frame) (frame : Frame) :
    framesResult context perMessageDeflate stream (front ++ [frame]) =
      ((FrameState.next context (framesResult context perMessageDeflate stream front).1 frame).1,
        (framesResult context perMessageDeflate stream front).2 ++
          (FrameState.next context (framesResult context perMessageDeflate stream front).1 frame).2) := by
  unfold framesResult
  rw [run_append, run_cons, run_nil, List.append_nil]

theorem synced_start (perMessageDeflate : Bool) (stream : ι) :
    Synced [] (framesResult context perMessageDeflate stream []) := by
  refine ⟨⟨{}, (openSocket perMessageDeflate stream).data, rfl, fun _ => ⟨rfl, rfl, rfl⟩, nofun, rfl, ?_⟩, rfl⟩
  cases perMessageDeflate with
  | false => exact nofun
  | true => exact nofun

theorem framesFit_append (front : List Frame) (frame : Frame) :
    FramesFit context (front ++ [frame]) ↔
      FramesFit context front ∧ (isLegal front = true → FitsBehind context front frame) := by
  constructor
  · intro fit
    refine ⟨fun front' frame' part => fit front' frame' (part.trans (List.prefix_append _ _)), fun legal => ?_⟩
    exact fit front frame (List.prefix_refl _) legal
  · rintro ⟨earlier, last⟩ front' frame' part legal
    rcases List.prefix_concat_iff.mp part with whole | shorter
    · obtain ⟨rfl, same⟩ := List.append_inj' whole rfl
      obtain rfl := List.head_eq_of_cons_eq same
      exact last legal
    · exact earlier front' frame' shorter legal

theorem framesFit_run (perMessageDeflate : Bool) (stream : ι) (frames : List Frame)
    (formed : ∀ frame ∈ frames, WellFormed context frame)
    (valid : ∀ payload, .message textCode payload false ∈ legalEvents frames → isValidUtf8 payload = true) :
    (FramesFit context frames → Synced frames (framesResult context perMessageDeflate stream frames)) ∧
      ((∀ front, front <+: frames → Answers front (framesResult context perMessageDeflate stream front).2) →
        FramesFit context frames) := by
  induction frames using List.reverseRecOn with
  | nil =>
    refine ⟨fun _ => synced_start context perMessageDeflate stream, fun _ front frame part => ?_⟩
    have none_ := List.prefix_nil.mp part
    exact absurd none_ (by simp)
  | append_singleton front frame ih =>
    have earlier := ih (fun other member => formed other (List.mem_append_left _ member)) fun payload member =>
      valid payload ((legalEvents_left front frame).subset member)
    rw [framesFit_append, framesResult_append]
    cases legal : isLegal front with
    | false =>
      obtain ⟨illegal, same⟩ := illegal_append legal frame
      refine ⟨fun fit => ?_, fun answers => ⟨earlier.2 fun part shorter => answers part (shorter.trans (List.prefix_append _ _)),
        nofun⟩⟩
      have synced := earlier.1 fit.1
      rw [Synced, legal, if_neg Bool.false_ne_true] at synced
      obtain ⟨closed, reason, events⟩ := synced
      rw [Synced, illegal, if_neg Bool.false_ne_true, closed, same]
      exact ⟨rfl, reason, by rw [events]; exact List.append_nil _⟩
    | true =>
      have formed_last : WellFormed context frame := formed frame (List.mem_append_right _ List.mem_cons_self)
      constructor
      · rintro ⟨fit, last⟩
        rcases next_synced formed_last legal (earlier.1 fit) valid with ⟨-, synced⟩ | ⟨unfit, -⟩
        · exact synced
        · exact absurd (last rfl) unfit
      · intro answers
        have fit := earlier.2 fun part shorter => answers part (shorter.trans (List.prefix_append _ _))
        refine ⟨fit, fun _ => ?_⟩
        rcases next_synced formed_last legal (earlier.1 fit) valid with ⟨fits, -⟩ | ⟨-, unanswered⟩
        · exact fits
        · have answered := answers _ (List.prefix_refl _)
          rw [framesResult_append] at answered
          exact absurd answered unanswered

theorem exists_reads (bytes : Bytes) : ∃ reads : List Bytes, (∀ read ∈ reads, read ≠ []) ∧ reads.flatten = bytes := by
  cases bytes with
  | nil => exact ⟨[], nofun, rfl⟩
  | cons b bytes => exact ⟨[b :: bytes], by simp, by simp⟩

theorem parsedAsLegal_iff (perMessageDeflate : Bool) (stream : ι) (frames : List Frame)
    (plain : ∀ frame ∈ frames, frame.compressed = false) :
    ParsedAsLegal context perMessageDeflate stream frames ↔
      ∀ front, front <+: frames → Answers front (framesResult context perMessageDeflate stream front).2 := by
  have same : ∀ front, front <+: frames → ∀ reads : List Bytes, (∀ read ∈ reads, read ≠ []) →
      reads.flatten = encodeFrames context.isServer front →
      readEvents context perMessageDeflate stream reads = (framesResult context perMessageDeflate stream front).2 :=
    fun front part reads arrived all =>
      readEvents_plain context perMessageDeflate stream front (fun frame member => plain frame (part.subset member)) reads arrived all
  constructor
  · intro parsed front part
    obtain ⟨reads, arrived, all⟩ := exists_reads (encodeFrames context.isServer front)
    rw [← same front part reads arrived all]
    exact parsed front part reads arrived all
  · intro answers front part reads arrived all
    rw [same front part reads arrived all]
    exact answers front part

end Runs

/-- A parser answers every part of a stream of frames by the legal messages, and closes at the first illegal frame
    and no other, exactly where the frames fit. -/
theorem parsed_as_legal_iff (perMessageDeflate : Bool) (stream : ι) (frames : List Frame)
    (formed : ∀ frame ∈ frames, WellFormed context frame)
    (valid : ∀ payload, .message textCode payload false ∈ legalEvents frames → isValidUtf8 payload = true) :
    ParsedAsLegal context perMessageDeflate stream frames ↔ FramesFit context frames := by
  have run_ := framesFit_run context perMessageDeflate stream
  rw [parsedAsLegal_iff context perMessageDeflate stream frames fun frame member => (formed frame member).plain]
  constructor
  · exact (run_ frames formed valid).2
  · intro fit front part
    obtain ⟨back, rfl⟩ := part
    have within : FramesFit context front := fun front' frame' shorter =>
      fit front' frame' (shorter.trans (List.prefix_append _ _))
    have sub : legalEvents front <+: legalEvents (front ++ back) := by
      unfold legalEvents reassemble
      rw [run_append]
      exact List.prefix_append _ _
    exact ((run_ front (fun frame member => formed frame (List.mem_append_left _ member))
      fun payload member => valid payload (sub.subset member)).1 within).answers

theorem key_four : ([1, 2, 3, 4] : Bytes).length = 4 := rfl

def clientFrame (first : UInt8) (payload : Bytes) (fits : payload.length < 2 ^ 64) : Frame :=
  ⟨first, [1, 2, 3, 4], payload, key_four, fits⟩

theorem none_fits : ([] : Bytes).length < 2 ^ 64 := by decide
theorem first_fits : ([65] : Bytes).length < 2 ^ 64 := by decide
theorem second_fits : ([66] : Bytes).length < 2 ^ 64 := by decide

def pingedText : List Frame :=
  [clientFrame 0x01 [65] first_fits, clientFrame 0x89 [] none_fits, clientFrame 0x80 [66] second_fits]

theorem pingedText_parsed : ParsedAsLegal (serverContext 16 (by decide)) false () pingedText := by
  have formed : ∀ frame ∈ pingedText, WellFormed (serverContext 16 (by decide)) frame := by
    intro frame member
    rcases List.mem_cons.mp member with rfl | member
    · exact ⟨by decide, by decide, by decide, by decide⟩
    · rcases List.mem_cons.mp member with rfl | member
      · exact ⟨by decide, by decide, by decide, by decide⟩
      · rw [List.mem_singleton.mp member]
        exact ⟨by decide, by decide, by decide, by decide⟩
  have valid : ∀ payload, .message textCode payload false ∈ legalEvents pingedText → isValidUtf8 payload = true := by
    intro payload member
    have events : legalEvents pingedText = [.ping [], .message textCode [65, 66] false] := by decide +kernel
    rw [events] at member
    simp only [List.mem_cons, List.not_mem_nil, or_false, Event.message.injEq, reduceCtorEq, false_or] at member
    rw [member.2.1]
    decide +kernel
  have fit : FramesFit (serverContext 16 (by decide)) pingedText := by
    have split : pingedText = (([] ++ [clientFrame 0x01 [65] first_fits]) ++ [clientFrame 0x89 [] none_fits]) ++
        [clientFrame 0x80 [66] second_fits] := rfl
    rw [split, framesFit_append, framesFit_append, framesFit_append]
    have none_ : FramesFit (serverContext 16 (by decide)) [] := fun front frame part =>
      absurd (List.prefix_nil.mp part) (by simp)
    refine ⟨⟨⟨none_, fun _ => ?_⟩, fun _ => ?_⟩, fun _ => ?_⟩
    · unfold FitsBehind
      decide +kernel
    · unfold FitsBehind
      decide +kernel
    · unfold FitsBehind
      decide +kernel
  exact (parsed_as_legal_iff _ false () pingedText formed valid).mpr fit

def nestedBinary : List Frame := [clientFrame 0x01 [65] first_fits, clientFrame 0x82 [66] second_fits]

/-- The binary frame is taken for a message inside of the other. -/
theorem nested_binary_accepted :
    ¬ ∀ (context : WebSocketContextData Unit) (perMessageDeflate : Bool) (frames : List Frame),
      (∀ frame ∈ frames, WellFormed context frame) →
      (∀ payload, .message textCode payload false ∈ legalEvents frames → isValidUtf8 payload = true) →
      ParsedAsLegal context perMessageDeflate () frames := by
  intro claimed
  have formed : ∀ frame ∈ nestedBinary, WellFormed (serverContext 16 (by decide)) frame := by
    intro frame member
    rcases List.mem_cons.mp member with rfl | member
    · exact ⟨by decide, by decide, by decide, by decide⟩
    · rw [List.mem_singleton.mp member]
      exact ⟨by decide, by decide, by decide, by decide⟩
  have none_ : legalEvents nestedBinary = [] := by decide +kernel
  have parsed := claimed (serverContext 16 (by decide)) false nestedBinary formed (by rw [none_]; exact nofun) nestedBinary
    (List.prefix_refl _) [encodeFrames true nestedBinary] (by decide +kernel) (List.append_nil _)
  have illegal : isLegal nestedBinary = false := by decide +kernel
  rw [illegal, if_neg Bool.false_ne_true, none_] at parsed
  have events : readEvents (serverContext 16 (by decide)) false () [encodeFrames true nestedBinary] =
      [.message binaryCode [65, 66] false] := by
    decide +kernel
  obtain ⟨reason, closed⟩ := parsed
  rw [events] at closed
  cases closed

end Uws.WebSocket
