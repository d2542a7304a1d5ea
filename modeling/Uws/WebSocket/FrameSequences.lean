import Uws.WebSocket.Frames

namespace Uws.WebSocket

open Uws.Http (Bytes)
open Uws.Machine FramePhase

variable {ι : Type} (context : WebSocketContextData ι)

def encodeFrames (isServer : Bool) (frames : List Frame) : Bytes := frames.flatMap (Frame.encode isServer)

abbrev FrameState (ι : Type) := Option (OpStack × WebSocketData ι)

namespace FrameState

def phase : FrameState ι → FramePhase ι
  | none => .closed
  | some (stack, socket) => .head [] false stack socket

/-- The state behind what `handleFragment` returned for a whole frame. -/
def behind (stack : OpStack) (result : WebSocketData ι × List Event × Bool) : FrameState ι × List Event :=
  (if result.2.2 then none else some (stack.popOpCode stack.lastFin, result.1), result.2.1)

def next : FrameState ι → Frame → FrameState ι × List Event
  | none, _ => (none, [])
  | some (stack, socket), frame =>
    let (refused, socket) := checkFrame frame socket
    if refused then (none, [.forceClose errProtocol])
    else
      match stack.openFrame [frame.first] with
      | none => (none, [.forceClose errProtocol])
      | some stack =>
        if refusePayloadLength context frame.payload.length then (none, [.forceClose errTooBigMessage])
        else
          let stack := { stack with lastFin := frame.fin }
          behind stack (handleFragment context frame.payload 0 stack.currentOpCode frame.fin socket)

end FrameState

def startState (perMessageDeflate : Bool) (stream : ι) : FrameState ι :=
  some ({}, (openSocket perMessageDeflate stream).data)

theorem frameStep_next (frame : Frame) (stack : OpStack) (socket : WebSocketData ι) :
    frameStep context frame stack socket =
      ((FrameState.next context (some (stack, socket)) frame).1.phase,
        (FrameState.next context (some (stack, socket)) frame).2) := by
  unfold frameStep FrameState.next
  simp only
  split
  · rfl
  · cases stack.openFrame [frame.first] with
    | none => rfl
    | some stack =>
      simp only
      split
      · rfl
      · simp only [deliver, FramePhase.behind, FrameState.behind, if_true]
        split <;> rfl

theorem next_closed (frames : List Frame) : run (FrameState.next context) none frames = (none, []) :=
  run_absorbing _ (fun _ => rfl) frames

theorem run_frames (frames : List Frame) (state : FrameState ι) :
    run (step context) state.phase ((encodeFrames context.isServer frames).map some) =
      ((run (FrameState.next context) state frames).1.phase, (run (FrameState.next context) state frames).2) := by
  induction frames generalizing state with
  | nil => rfl
  | cons frame frames ih =>
    have bytes : encodeFrames context.isServer (frame :: frames) =
        frame.encode context.isServer ++ encodeFrames context.isServer frames := rfl
    cases state with
    | none => rw [next_closed, FrameState.phase, run_closed]
    | some state =>
      obtain ⟨stack, socket⟩ := state
      have first := run_frame context frame stack socket
      rw [frameStep_next] at first
      rw [bytes, List.map_append, run_append, FrameState.phase, first, ih, run_cons]

section Cuts

theorem run_cut (phase : FramePhase ι) (stream : List Symbol) (sound : Sound context phase) :
    (uncut (run (step context) phase stream).1 = (run (step context) (uncut phase) ((stream.filterMap id).map some)).1 ∧
        (run (step context) phase stream).2 = (run (step context) (uncut phase) ((stream.filterMap id).map some)).2 ∧
        Sound context (run (step context) phase stream).1) ∨
      ∃ front back, stream.filterMap id = front ++ back ∧ back ≠ [] ∧
        Critical context (run (step context) (uncut phase) (front.map some)).1 ∧
        run (step context) phase stream =
          (.closed, (run (step context) (uncut phase) (front.map some)).2 ++ [.forceClose errProtocol]) := by
  induction stream generalizing phase with
  | nil => exact .inl ⟨rfl, rfl, sound⟩
  | cons symbol stream ih =>
    cases symbol with
    | none =>
      obtain ⟨same, silent, sound'⟩ := step_cut context phase
      have bytes : (none :: stream).filterMap id = stream.filterMap id := rfl
      have later := ih (step context phase none).1 sound'
      rw [same] at later
      rw [bytes, run_cons, silent, List.nil_append]
      exact later
    | some b =>
      have bytes : (some b :: stream).filterMap id = b :: stream.filterMap id := rfl
      rw [bytes]
      rcases step_uncut context phase b sound with ⟨critical, refused⟩ | ⟨same, next, sound'⟩
      · refine .inr ⟨[], b :: stream.filterMap id, rfl, by simp, critical_uncut context critical, ?_⟩
        rw [run_cons, refused, run_closed]
        rfl
      · have later := ih (step context phase (some b)).1 sound'
        rw [next] at later
        rw [List.map_cons, run_cons, run_cons, ← same]
        rcases later with ⟨phases, events, sound''⟩ | ⟨front, back, split, more, critical, closes⟩
        · exact .inl ⟨phases, by rw [events], sound''⟩
        · refine .inr ⟨b :: front, back, by rw [split]; rfl, more, ?_, ?_⟩
          · rw [List.map_cons, run_cons, ← same]
            exact critical
          · rw [closes, List.map_cons, run_cons, ← same]
            simp only [List.append_assoc]

def Reading (part : Bytes) : FramePhase ι → Prop
  | .head read _ _ _ => read = part
  | _ => True

theorem deliver_reading (part data : Bytes) (left : Nat) (more : left ≠ 0) (key : Bytes) (position : Nat) (stack : OpStack)
    (socket : WebSocketData ι) : Reading part (deliver context data left key position stack socket).1 := by
  unfold deliver FramePhase.behind
  split
  · exact True.intro
  · exact True.intro

theorem run_frame_inside (frame : Frame) (stack : OpStack) (socket : WebSocketData ι) {part back : Bytes}
    (split : frame.encode context.isServer = part ++ back) (more : back ≠ []) :
    Reading part (run (step context) (.head [] false stack socket) (part.map some)).1 := by
  have length := frame.header_length context.isServer context rfl
  have two := two_le_short context
  have least := short_le_header context (frame.header context.isServer)
  have long : 2 ≤ (frame.header context.isServer).length := by omega
  have lengths := headerLength_append context (frame.header context.isServer) (frame.masked context.isServer) long
  have size : part.length < (frame.encode context.isServer).length := by
    have behind := List.length_pos_of_ne_nil more
    rw [split, List.length_append]
    omega
  have whole : (frame.encode context.isServer).length =
      (frame.header context.isServer).length + frame.payload.length := by
    rw [Frame.encode, List.length_append, frame.masked_length]
  by_cases short : part.length < shortMessageHeader context.isServer
  · rw [run_quiet context [] part stack socket (.inl short)]
    rfl
  · have first : (frame.encode context.isServer).take (shortMessageHeader context.isServer) =
        part.take (shortMessageHeader context.isServer) := by
      rw [split, List.take_append_of_le_length (by omega)]
    have check := run_check context part stack socket (by omega)
    have took : (part.take (shortMessageHeader context.isServer)).length = shortMessageHeader context.isServer :=
      List.length_take_of_le (by omega)
    have parts := List.take_append_drop (shortMessageHeader context.isServer) part
    by_cases refused : (checkHeader context (part.take (shortMessageHeader context.isServer)) socket).1 = true
    · have closes : headByte context (part.take (shortMessageHeader context.isServer)) stack socket =
          (.closed, [.forceClose errProtocol]) := by
        simp only [headByte, if_pos took, refused, if_true]
      rw [← parts, List.map_append, run_append, check, closes, run_closed]
      exact True.intro
    · rw [Bool.not_eq_true] at refused
      have same : headerLength context part = (frame.header context.isServer).length := by
        have own := headerLength_append context part back (by omega)
        rw [← split, Frame.encode, lengths, ← length] at own
        exact own.symm
      by_cases inside : part.length < (frame.header context.isServer).length
      · have field : ¬ payloadLength (part.take (shortMessageHeader context.isServer)) < 126 := by
          intro small
          have own := headerLength_append context (part.take (shortMessageHeader context.isServer))
            (part.drop (shortMessageHeader context.isServer)) (by omega)
          rw [parts, same] at own
          rw [headerLength, if_pos small] at own
          omega
        rw [headByte_fine context _ stack socket took refused, if_neg field] at check
        have header : headerLength context (part.take (shortMessageHeader context.isServer)) =
            (frame.header context.isServer).length := by
          have own := headerLength_append context (part.take (shortMessageHeader context.isServer))
            (part.drop (shortMessageHeader context.isServer)) (by omega)
          rw [parts, same] at own
          exact own.symm
        have quiet : Quiet context (part.take (shortMessageHeader context.isServer))
            (part.drop (shortMessageHeader context.isServer)) := by
          right
          rw [parts, header]
          exact ⟨by omega, inside⟩
        have rest := run_quiet context _ _ stack (checkHeader context (part.take (shortMessageHeader context.isServer)) socket).2
          quiet
        rw [parts] at rest
        conv => arg 2; rw [← parts, List.map_append, run_append, check, rest]
        exact rfl
      · have header : part.take (headerLength context part) = frame.header context.isServer := by
          have own : (frame.encode context.isServer).take (frame.header context.isServer).length =
              frame.header context.isServer := by rw [Frame.encode, List.take_left]
          rw [split, List.take_append_of_le_length (by omega)] at own
          rw [same, own]
        have fine : (checkHeader context part socket).1 = false := by
          have own := checkHeader_append context (part.take (shortMessageHeader context.isServer))
            (part.drop (shortMessageHeader context.isServer)) (by omega) socket
          rw [parts] at own
          rw [own, refused]
        have begins := run_wholeHeader context part stack socket (by omega) fine
        rw [header] at begins
        obtain ⟨data, all⟩ : ∃ data, part = frame.header context.isServer ++ data :=
          ⟨part.drop (headerLength context part), by rw [← header, List.take_append_drop]⟩
        have rest : data.length < frame.payload.length := by
          rw [all, List.length_append] at size
          omega
        have payload := run_startFrame context (frame.header context.isServer) data stack (checkHeader context part socket).2
          (by rw [frame.payLength_header]; omega)
        have run_all : (run (step context) (.head [] false stack socket) (part.map some)).1 =
            (startFrame context (frame.header context.isServer) data stack (checkHeader context part socket).2).1 := by
          rw [← payload]
          conv => lhs; rw [all, List.map_append, run_append, begins]
        rw [run_all, startFrame_frame]
        cases stack.openFrame [frame.first] with
        | none => exact True.intro
        | some stack =>
          simp only
          split
          · exact True.intro
          · exact deliver_reading context _ _ _ (by omega) _ _ _ _

theorem frames_harmless (frames : List Frame) (plain : ∀ frame ∈ frames, frame.compressed = false)
    (state : FrameState ι) : Harmless context state.phase (encodeFrames context.isServer frames) := by
  induction frames generalizing state with
  | nil =>
    intro front back split more
    have empty : back = [] := (List.append_eq_nil_iff.mp split.symm).2
    exact absurd empty more
  | cons frame frames ih =>
    intro front back split more critical
    have bytes : encodeFrames context.isServer (frame :: frames) =
        frame.encode context.isServer ++ encodeFrames context.isServer frames := rfl
    rw [bytes] at split
    cases state with
    | none =>
      rw [FrameState.phase, run_closed] at critical
      exact critical.elim
    | some state =>
      obtain ⟨stack, socket⟩ := state
      rw [FrameState.phase] at critical ⊢
      rcases List.append_eq_append_iff.mp split with ⟨front', rfl, rest⟩ | ⟨back', own, rest⟩
      · have first := run_frame context frame stack socket
        rw [frameStep_next] at first
        have later := ih (fun other member => plain other (List.mem_cons_of_mem _ member))
          (FrameState.next context (some (stack, socket)) frame).1 front' back rest more
        rw [List.map_append, run_append, first] at critical ⊢
        exact later critical
      · by_cases ended : back' = []
        · have first := run_frame context frame stack socket
          rw [frameStep_next] at first
          rw [ended, List.append_nil] at own
          rw [← own, first] at critical
          generalize (FrameState.next context (some (stack, socket)) frame).1 = next at critical
          cases next with
          | none => exact critical.elim
          | some next =>
            have two := two_le_short context
            have long : shortMessageHeader context.isServer ≤ 0 := critical.1
            omega
        · exfalso
          have inside := run_frame_inside context frame stack socket own ended
          generalize (run (step context) (.head [] false stack socket) (front.map some)).1 = phase at critical inside
          cases phase with
          | head read again stack' socket' =>
            obtain ⟨long, compressed⟩ := critical
            have two := two_le_short context
            rw [show read = front from inside] at long compressed
            have flags := rsv1_append front back' (by omega)
            rw [← own, compressed] at flags
            have none_ := (frame.flags_header context.isServer (frame.masked context.isServer)).2.1
            have encoded : frame.encode context.isServer =
                frame.header context.isServer ++ frame.masked context.isServer := rfl
            rw [← encoded, flags, plain frame List.mem_cons_self] at none_
            cases none_
          | payload => exact critical.elim
          | closed => exact critical.elim

theorem readEvents_plain (perMessageDeflate : Bool) (stream : ι) (frames : List Frame)
    (plain : ∀ frame ∈ frames, frame.compressed = false) (reads : List Bytes) (arrived : ∀ read ∈ reads, read ≠ [])
    (all : reads.flatten = encodeFrames context.isServer frames) :
    readEvents context perMessageDeflate stream reads =
      (run (FrameState.next context) (startState perMessageDeflate stream) frames).2 := by
  have harmless := frames_harmless context frames plain (startState perMessageDeflate stream)
  have events := readEvents_harmless context perMessageDeflate stream reads arrived (all ▸ harmless)
  have whole := run_frames context frames (startState perMessageDeflate stream)
  rw [events, all]
  exact congrArg Prod.snd whole

end Cuts

end Uws.WebSocket
