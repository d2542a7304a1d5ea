import Uws.WebSocket.FrameLegality
import Uws.WebSocket.PayloadBounds

namespace Uws.WebSocket

open Uws.Http (Bytes)
open Uws.Machine

variable {ι : Type} (context : WebSocketContextData ι)

def messageFlags (events : List Event) : List Bool :=
  events.filterMap fun event =>
    match event with
    | .message _ _ compressed => some compressed
    | _ => none

def ForceCloses (events : List Event) : Prop := ∃ reason, events.getLast? = some (.forceClose reason)

def EndsConnection (events : List Event) : Prop :=
  ForceCloses events ∨ ∃ code message, events.getLast? = some (.close code message)

/-- The RSV1 bits of the first frames of the messages that are open, the innermost first, and of the message that a frame
    ends. -/
def nextBits (bits : List Bool) (frame : Frame) : List Bool × List Bool :=
  if frame.opCode = 0 then
    match bits with
    | [] => ([], [])
    | bit :: rest => if frame.fin then (rest, [bit]) else (bit :: rest, [])
  else if frame.opCode < 3 then if frame.fin then (bits, [frame.compressed]) else (frame.compressed :: bits, [])
  else (bits, [])

def openBits (frames : List Frame) : List Bool := (run nextBits [] frames).1

/-- The RSV1 bits of the first frames of the messages that are finished, in order. -/
def firstBits (frames : List Frame) : List Bool := (run nextBits [] frames).2

/-- The checks behind those of RSV1 let a frame through. -/
def LetThrough (stack : OpStack) (frame : Frame) : Prop :=
  invalidFrame frame = false ∧ stack.openFrame [frame.first] ≠ none ∧ frame.payload.length ≤ context.maxPayloadLength

/-- The flag is set by the first frames of messages only, and none is begun while it stands for another. -/
def FlagFits : FrameState ι → Frame → Prop
  | none, _ => True
  | some (stack, socket), frame =>
    LetThrough context stack frame →
      (frame.compressed = true → socket.compressionStatus = .enabled → frame.opCode = 1 ∨ frame.opCode = 2) ∧
        (frame.compressed = false → frame.opCode = 1 ∨ frame.opCode = 2 → socket.compressionStatus ≠ .compressedFrame)

/-- RSV1 where it may not be. -/
def Misplaced (perMessageDeflate : Bool) (frame : Frame) : Prop :=
  frame.compressed = true ∧ (frame.isControl = true ∨ frame.opCode = 0 ∨ perMessageDeflate = false)

section Flags

theorem messageFlags_append (front back : List Event) :
    messageFlags (front ++ back) = messageFlags front ++ messageFlags back := List.filterMap_append

theorem bits_append (front : List Frame) (frame : Frame) :
    openBits (front ++ [frame]) = (nextBits (openBits front) frame).1 ∧
      firstBits (front ++ [frame]) = firstBits front ++ (nextBits (openBits front) frame).2 := by
  unfold openBits firstBits
  rw [run_append, run_cons, run_nil, List.append_nil]
  exact ⟨rfl, rfl⟩

theorem getLast_append {front back : List Event} {event : Event} (last : back.getLast? = some event) :
    (front ++ back).getLast? = some event := by
  rw [List.getLast?_append, last]
  rfl

theorem forceCloses_append {front back : List Event} (closes : ForceCloses back) : ForceCloses (front ++ back) := by
  obtain ⟨reason, last⟩ := closes
  exact ⟨reason, getLast_append last⟩

theorem ended_append {front back : List Event} (ended : EndsConnection back) : EndsConnection (front ++ back) := by
  rcases ended with closes | ⟨code, message, last⟩
  · exact .inl (forceCloses_append closes)
  · exact .inr ⟨code, message, getLast_append last⟩

inductive DataLeaves (fin : Bool) (socket : WebSocketData ι) : WebSocketData ι × List Event × Bool → Prop where
  | ended (next : WebSocketData ι) (reason : Bytes) : DataLeaves fin socket (next, [.forceClose reason], true)
  | emitted (final : fin = true) (next : WebSocketData ι) (opCode : Nat) (payload : Bytes)
      (status : next.compressionStatus =
        if socket.compressionStatus = .compressedFrame then .enabled else socket.compressionStatus)
      (tip : next.controlTipLength = socket.controlTipLength) :
      DataLeaves fin socket
        (next, [.message opCode payload (decide (socket.compressionStatus = .compressedFrame))], false)
  | more (open_ : fin = false) (next : WebSocketData ι) (status : next.compressionStatus = socket.compressionStatus)
      (tip : next.controlTipLength = socket.controlTipLength) : DataLeaves fin socket (next, [], false)

variable {context}

theorem emitMessage_leaves (opCode : Nat) (data : Bytes) (socket : WebSocketData ι) :
    DataLeaves true socket (emitMessage context opCode data socket) := by
  unfold emitMessage
  by_cases compressed : socket.compressionStatus = .compressedFrame
  · simp only [compressed, beq_self_eq_true, if_true]
    cases (context.inflate socket.inflationStream data).2 with
    | none => exact .ended _ _
    | some inflated =>
      simp only
      split
      · exact .ended _ _
      · have leaves : DataLeaves true socket _ := .emitted rfl { socket with
          compressionStatus := .enabled, inflationStream := (context.inflate socket.inflationStream data).1 } opCode inflated
          (if_pos compressed).symm rfl
        rw [decide_eq_true compressed] at leaves
        exact leaves
  · have off : (socket.compressionStatus == .compressedFrame) = false := by simpa using compressed
    simp only [off, Bool.false_eq_true, if_false]
    split
    · exact .ended _ _
    · have leaves : DataLeaves true socket _ := .emitted rfl socket opCode data (if_neg compressed).symm rfl
      rw [decide_eq_false compressed] at leaves
      exact leaves

theorem handleData_left (context : WebSocketContextData ι) (payload : Bytes) (opCode : Nat) (fin : Bool) (socket : WebSocketData ι)
    (within : payload.length ≤ context.maxPayloadLength) :
    ∃ result, DataLeaves fin socket result ∧
      SameResult (handleData context payload 0 opCode fin socket) result := by
  refine ⟨_, ?_, handleData_buffer context payload 0 opCode fin socket fun _ => within⟩
  unfold bufferData
  split
  · exact .ended _ _
  · cases fin with
    | false => exact .more rfl _ rfl rfl
    | true =>
      simp only [and_self, if_true]
      have leaves : DataLeaves true socket (emitMessage context opCode (socket.fragmentBuffer ++ payload) socket) :=
        emitMessage_leaves opCode (socket.fragmentBuffer ++ payload) socket
      generalize emitMessage context opCode (socket.fragmentBuffer ++ payload) socket = result at leaves
      cases leaves with
      | ended next reason => exact .ended _ _
      | emitted final next opCode payload status tip =>
        exact .emitted rfl _ _ _ status tip
      | more open_ => cases open_

theorem emitControl_left (opCode : Nat) (data : Bytes) (socket : WebSocketData ι) :
    (∃ next code message, emitControl opCode data socket = (next, [.close code message], true)) ∨
      ∃ events, emitControl opCode data socket = (socket, events, false) ∧ messageFlags events = [] := by
  unfold emitControl
  split
  · exact .inl ⟨_, _, _, rfl⟩
  · right
    split
    · exact ⟨_, rfl, rfl⟩
    · split
      · exact ⟨_, rfl, rfl⟩
      · exact ⟨_, rfl, rfl⟩

end Flags

section Levels

variable {context} {stack next : OpStack} {frame : Frame} {socket : WebSocketData ι}

/-- A parser between frames: the flag stands for the innermost message, and those around it began without RSV1. -/
structure Levels (perMessageDeflate : Bool) (bits : List Bool) (stack : OpStack) (socket : WebSocketData ι) : Prop where
  between : Between stack
  depth : stack.opStack + 1 = bits.length
  tip : socket.controlTipLength = 0
  status : socket.compressionStatus =
    if perMessageDeflate then if bits.head? = some true then .compressedFrame else .enabled else .disabled
  outer : ∀ bit ∈ bits.tail, bit = false
  off : perMessageDeflate = false → ∀ bit ∈ bits, bit = false

theorem openFrame_cases (between : Between stack) (opened : stack.openFrame [frame.first] = some next) :
    (frame.opCode = 0 ∧ stack.opStack ≠ -1 ∧ next = stack ∧ next.currentOpCode < 3) ∨
      (frame.opCode ≠ 0 ∧ next.opStack = stack.opStack + 1 ∧ next.currentOpCode = frame.opCode) := by
  obtain ⟨depth, outer, inner⟩ := between
  have same : getOpCode [frame.first] = frame.opCode := rfl
  unfold OpStack.openFrame at opened
  rw [same] at opened
  by_cases code : frame.opCode ≠ 0
  · right
    rw [if_pos code] at opened
    split at opened
    · cases opened
    · rename_i allowed
      rw [not_or] at allowed
      obtain rfl := Option.some.inj opened
      refine ⟨code, ?_⟩
      unfold OpStack.pushOpCode
      rcases depth with empty | one_ | two_
      · rw [if_pos empty, empty]
        exact ⟨rfl, rfl⟩
      · rw [if_neg (by omega), one_]
        exact ⟨rfl, rfl⟩
      · exact absurd two_ allowed.1
  · left
    rw [if_neg code] at opened
    split at opened
    · cases opened
    · rename_i some_
      obtain rfl := Option.some.inj opened
      refine ⟨not_not.mp code, some_, rfl, ?_⟩
      unfold OpStack.currentOpCode
      split
      · rename_i two_
        exact inner two_
      · exact outer (by omega)

theorem checkFrame_passed (passed : (checkFrame frame socket).1 = false) :
    invalidFrame frame = false ∧
      ((frame.compressed = false ∧ (checkFrame frame socket).2 = socket) ∨
        (frame.compressed = true ∧ socket.compressionStatus = .enabled ∧
          (checkFrame frame socket).2 = { socket with compressionStatus := .compressedFrame })) := by
  cases compressed : frame.compressed with
  | false =>
    have checked : checkFrame frame socket = (invalidFrame frame, socket) := by
      unfold checkFrame
      rw [compressed]
      rfl
    rw [checked] at passed ⊢
    exact ⟨passed, .inl ⟨rfl, rfl⟩⟩
  | true =>
    by_cases enabled : socket.compressionStatus = .enabled
    · have checked : checkFrame frame socket =
          (invalidFrame frame, { socket with compressionStatus := .compressedFrame }) := by
        unfold checkFrame setCompressed
        rw [compressed, if_pos enabled]
        rfl
      rw [checked] at passed ⊢
      exact ⟨passed, .inr ⟨rfl, enabled, rfl⟩⟩
    · unfold checkFrame setCompressed at passed
      rw [compressed, if_neg enabled] at passed
      cases passed

/-- The connection ends at a frame, by force where its RSV1 is misplaced, and no message is delivered there. -/
structure EndsAt (perMessageDeflate : Bool) (frame : Frame) (later : FrameState ι × List Event) : Prop where
  closed : later.1 = none
  ended : EndsConnection later.2
  forced : Misplaced perMessageDeflate frame → ForceCloses later.2
  silent : messageFlags later.2 = []

theorem endsAt_forceClose (perMessageDeflate : Bool) (frame : Frame) (reason : Bytes) :
    EndsAt perMessageDeflate frame ((none, [.forceClose reason]) : FrameState ι × List Event) :=
  ⟨rfl, .inl ⟨reason, rfl⟩, fun _ => ⟨reason, rfl⟩, rfl⟩

theorem control_final (valid : invalidFrame frame = false) (control : 3 ≤ frame.opCode) : frame.fin = true := by
  simp only [invalidFrame, Bool.or_eq_false_iff, Bool.and_eq_false_iff, decide_eq_false_iff_not, Bool.not_eq_false'] at valid
  rcases valid.2 with low | ⟨final, -⟩
  · exact absurd control low
  · exact final

variable {perMessageDeflate : Bool} {bits : List Bool}

theorem not_misplaced (plain : frame.compressed = false) (perMessageDeflate : Bool) : ¬ Misplaced perMessageDeflate frame :=
  fun misplaced => Bool.false_ne_true (plain.symm.trans misplaced.1)

structure Topped (perMessageDeflate : Bool) (bits : List Bool) (frame : Frame) (next : OpStack) (checked : WebSocketData ι)
    (top : Bool) (rest : List Bool) : Prop where
  depth : next.opStack = rest.length
  bits_next : nextBits bits frame = if frame.fin then (rest, [top]) else (top :: rest, [])
  status : checked.compressionStatus =
    if perMessageDeflate then if top = true then .compressedFrame else .enabled else .disabled
  off : perMessageDeflate = false → top = false
  outer : ∀ bit ∈ rest, bit = false
  placed : ¬ Misplaced perMessageDeflate frame

theorem Levels.enabled (levels : Levels perMessageDeflate bits stack socket) (enabled : socket.compressionStatus = .enabled) :
    perMessageDeflate = true ∧ ∀ bit ∈ bits, bit = false := by
  have status := levels.status
  rw [enabled] at status
  cases perMessageDeflate with
  | false => cases status
  | true =>
    refine ⟨rfl, fun bit member => ?_⟩
    rw [if_pos rfl] at status
    cases bits with
    | nil => cases member
    | cons first bits =>
      rcases List.mem_cons.mp member with rfl | later
      · cases bit with
        | false => rfl
        | true => cases status
      · exact levels.outer bit later

theorem levels_topped (levels : Levels perMessageDeflate bits stack socket) (data : ¬ 3 ≤ frame.opCode)
    (opened : stack.openFrame [frame.first] = some next) (passed : (checkFrame frame socket).1 = false)
    (begins : frame.compressed = true → socket.compressionStatus = .enabled → frame.opCode = 1 ∨ frame.opCode = 2)
    (free : frame.compressed = false → frame.opCode = 1 ∨ frame.opCode = 2 → socket.compressionStatus ≠ .compressedFrame) :
    ∃ top rest, Topped perMessageDeflate bits frame next (checkFrame frame socket).2 top rest := by
  obtain ⟨-, flag⟩ := checkFrame_passed passed
  have depth := levels.depth
  have status := levels.status
  rcases openFrame_cases levels.between opened with ⟨code, some_, rfl, -⟩ | ⟨code, deeper, -⟩
  · -- a continuation is one of the innermost message
    rcases flag with ⟨plain, same⟩ | ⟨compressed, enabled, -⟩
    · cases bits with
      | nil =>
        rw [List.length_nil] at depth
        exact absurd (by omega) some_
      | cons bit rest =>
        refine ⟨bit, rest, ?_, ?_, ?_, ?_, levels.outer, ?_⟩
        · rw [List.length_cons] at depth
          omega
        · unfold nextBits
          rw [if_pos code]
        · rw [same, status]
          simp only [List.head?_cons, Option.some.injEq]
        · intro off
          exact levels.off off bit List.mem_cons_self
        · exact not_misplaced plain _
    · rcases begins compressed enabled with one_ | two_ <;> omega
  · have small : frame.opCode < 3 := by omega
    have first : nextBits bits frame =
        if frame.fin then (bits, [frame.compressed]) else (frame.compressed :: bits, []) := by
      unfold nextBits
      rw [if_neg code, if_pos small]
    rcases flag with ⟨plain, same⟩ | ⟨compressed, enabled, same⟩
    · rw [plain] at first
      have none_ := free plain (by omega)
      have low : ∀ bit ∈ bits, bit = false := by
        cases enabled : perMessageDeflate with
        | false => exact levels.off enabled
        | true =>
          have on : socket.compressionStatus = .enabled := by
            rw [enabled, if_pos rfl] at status
            by_cases top : bits.head? = some true
            · rw [if_pos top] at status
              exact absurd status none_
            · rwa [if_neg top] at status
          exact (levels.enabled on).2
      refine ⟨false, bits, by omega, first, ?_, fun _ => rfl, low, ?_⟩
      · rw [same, status]
        have top : ¬ bits.head? = some true := by
          intro top
          have bit := low true (List.mem_of_mem_head? top)
          cases bit
        rw [if_neg top, if_neg Bool.false_ne_true]
      · exact not_misplaced plain _
    · obtain ⟨on, low⟩ := levels.enabled enabled
      rw [compressed] at first
      refine ⟨true, bits, by omega, first, ?_, ?_, low, ?_⟩
      · rw [same, on]
        rfl
      · intro off
        rw [on] at off
        cases off
      · rintro ⟨-, control | zero | off⟩
        · unfold Frame.isControl at control
          have high := of_decide_eq_true control
          omega
        · exact code zero
        · rw [on] at off
          cases off

theorem topped_levels {checked : WebSocketData ι} {top : Bool} {rest : List Bool}
    (topped : Topped perMessageDeflate bits frame next checked top rest) (tip : checked.controlTipLength = 0)
    (popped : Between (OpStack.popOpCode { next with lastFin := frame.fin } frame.fin))
    {handled result : WebSocketData ι × List Event × Bool} (leaves : DataLeaves frame.fin checked result)
    (same : SameResult handled result) :
    let later := FrameState.behind { next with lastFin := frame.fin } handled
    EndsAt perMessageDeflate frame later ∨
      (messageFlags later.2 = (nextBits bits frame).2 ∧ ∃ stack' socket', later.1 = some (stack', socket') ∧
        Levels perMessageDeflate (nextBits bits frame).1 stack' socket') := by
  obtain ⟨depth, bits_next, status, off, outer, -⟩ := topped
  have lower : ∀ bit ∈ rest.tail, bit = false := fun bit member => outer bit (List.mem_of_mem_tail member)
  have none_ : ¬ rest.head? = some true := by
    intro first
    have bit := outer true (List.mem_of_mem_head? first)
    cases bit
  unfold FrameState.behind
  rw [same.1]
  cases leaves with
  | ended next' reason => exact .inl (endsAt_forceClose _ _ reason)
  | emitted final next' opCode payload status' tip' =>
    have kept : handled.1 = next' := same.2 (by rw [same.1])
    right
    rw [bits_next, final, if_pos rfl, kept]
    rw [final] at popped
    refine ⟨?_, _, _, rfl, popped, ?_, tip'.trans tip, ?_, lower, fun _ => outer⟩
    · have bit : decide (checked.compressionStatus = .compressedFrame) = top := by
        rw [status]
        cases enabled : perMessageDeflate with
        | false =>
          rw [off enabled]
          rfl
        | true => cases top <;> rfl
      rw [bit]
      rfl
    · simp only [OpStack.popOpCode, if_true]
      omega
    · rw [status', status, if_neg none_]
      cases perMessageDeflate with
      | false => rfl
      | true => cases top <;> rfl
  | more open_ next' status' tip' =>
    have kept : handled.1 = next' := same.2 (by rw [same.1])
    right
    rw [bits_next, open_, if_neg Bool.false_ne_true, kept]
    rw [open_] at popped
    refine ⟨rfl, _, _, rfl, popped, ?_, tip'.trans tip, ?_, outer, fun disabled bit member => ?_⟩
    · simp only [OpStack.popOpCode, Bool.false_eq_true, if_false, List.length_cons]
      omega
    · rw [status', status]
      cases top <;> rfl
    · rcases List.mem_cons.mp member with rfl | later
      · exact off disabled
      · exact outer bit later

theorem next_levels (levels : Levels perMessageDeflate bits stack socket)
    (fits : FlagFits context (some (stack, socket)) frame) :
    let later := FrameState.next context (some (stack, socket)) frame
    EndsAt perMessageDeflate frame later ∨
      (¬ Misplaced perMessageDeflate frame ∧ messageFlags later.2 = (nextBits bits frame).2 ∧
        ∃ stack' socket', later.1 = some (stack', socket') ∧
          Levels perMessageDeflate (nextBits bits frame).1 stack' socket') := by
  unfold FrameState.next
  simp only
  by_cases refused : (checkFrame frame socket).1 = true
  · rw [if_pos refused]
    exact .inl (endsAt_forceClose _ _ _)
  · rw [if_neg refused]
    rw [Bool.not_eq_true] at refused
    obtain ⟨valid, flag⟩ := checkFrame_passed refused
    cases opened : stack.openFrame [frame.first] with
    | none => exact .inl (endsAt_forceClose _ _ _)
    | some next =>
      simp only
      by_cases big : refusePayloadLength context frame.payload.length = true
      · rw [if_pos big]
        exact .inl (endsAt_forceClose _ _ _)
      · rw [if_neg big]
        have within : frame.payload.length ≤ context.maxPayloadLength := by
          rw [refusePayloadLength_iff] at big
          exact Nat.not_lt.mp big
        obtain ⟨begins, free⟩ := fits ⟨valid, by rw [opened]; exact nofun, within⟩
        obtain ⟨nested, some_, -⟩ := levels.between.openFrame opened frame.fin (control_final valid)
        have popped : Between (OpStack.popOpCode { next with lastFin := frame.fin } frame.fin) := nested.popOpCode some_
        have current : OpStack.currentOpCode { next with lastFin := frame.fin } = next.currentOpCode := rfl
        rw [current]
        by_cases control : 3 ≤ frame.opCode
        · -- a control frame has no RSV1 here, and leaves the stack as it was
          rcases flag with ⟨plain, same⟩ | ⟨compressed, enabled, -⟩
          · rw [same]
            have bits_same : nextBits bits frame = (bits, []) := by
              unfold nextBits
              rw [if_neg (by omega), if_neg (by omega)]
            rcases openFrame_cases levels.between opened with ⟨code, -⟩ | ⟨-, deeper, code⟩
            · omega
            · have final := control_final valid control
              have handled : handleFragment context frame.payload 0 next.currentOpCode frame.fin socket =
                  emitControl frame.opCode frame.payload socket := by
                unfold handleFragment handleControl
                rw [code, if_neg (by omega), if_pos ⟨rfl, final, levels.tip⟩]
              rw [handled]
              rcases emitControl_left frame.opCode frame.payload socket with
                ⟨closed, reason, message, ended⟩ | ⟨events, answered, silent⟩
              · rw [ended]
                exact .inl ⟨rfl, .inr ⟨_, _, rfl⟩, fun misplaced => absurd misplaced (not_misplaced plain _), rfl⟩
              · right
                rw [answered, bits_same]
                refine ⟨not_misplaced plain _, silent, _, socket, rfl, popped, ?_, levels.tip, levels.status, levels.outer,
                  levels.off⟩
                have depth := levels.depth
                rw [final]
                simp only [OpStack.popOpCode, if_true]
                omega
          · rcases begins compressed enabled with one_ | two_ <;> omega
        · have low : next.currentOpCode < 3 := by
            rcases openFrame_cases levels.between opened with ⟨-, -, -, low⟩ | ⟨-, -, code⟩
            · exact low
            · omega
          obtain ⟨top, rest, topped⟩ := levels_topped levels control opened refused begins free
          obtain ⟨result, leaves, same⟩ :=
            handleData_left context frame.payload next.currentOpCode frame.fin (checkFrame frame socket).2 within
          have handled : handleFragment context frame.payload 0 next.currentOpCode frame.fin (checkFrame frame socket).2 =
              handleData context frame.payload 0 next.currentOpCode frame.fin (checkFrame frame socket).2 := by
            unfold handleFragment
            rw [if_pos low]
          have tip : (checkFrame frame socket).2.controlTipLength = 0 := by
            rcases flag with ⟨-, unset⟩ | ⟨-, -, set⟩
            · rw [unset, levels.tip]
            · rw [set]
              exact levels.tip
          rw [handled]
          rcases topped_levels topped tip popped leaves same with ends | ⟨flags, kept⟩
          · exact .inl ends
          · exact .inr ⟨topped.placed, flags, kept⟩

end Levels

section Runs

variable {context}

structure Flagged (perMessageDeflate : Bool) (frames : List Frame) (result : FrameState ι × List Event) : Prop where
  flags : messageFlags result.2 <+: firstBits frames
  ended : result.1 = none → EndsConnection result.2
  levels : ∀ stack socket, result.1 = some (stack, socket) →
    Levels perMessageDeflate (openBits frames) stack socket ∧ messageFlags result.2 = firstBits frames

theorem flagged_start (perMessageDeflate : Bool) (stream : ι) :
    Flagged perMessageDeflate [] (framesResult context perMessageDeflate stream []) := by
  refine ⟨List.prefix_refl _, nofun, fun stack socket same => ?_⟩
  obtain ⟨rfl, rfl⟩ := Prod.ext_iff.mp (Option.some.inj same)
  refine ⟨⟨⟨.inl rfl, nofun, nofun⟩, rfl, rfl, ?_, nofun, fun _ => nofun⟩, rfl⟩
  cases perMessageDeflate <;> rfl

/-- One more frame that fits: it is refused where its RSV1 is misplaced, unless the connection has ended. -/
theorem Flagged.next {perMessageDeflate : Bool} {front : List Frame} {frame : Frame} {result : FrameState ι × List Event}
    (flagged : Flagged perMessageDeflate front result) (fits : FlagFits context result.1 frame) :
    let later := FrameState.next context result.1 frame
    Flagged perMessageDeflate (front ++ [frame]) (later.1, result.2 ++ later.2) ∧
      (Misplaced perMessageDeflate frame → result.1 ≠ none → later.1 = none ∧ ForceCloses later.2) := by
  obtain ⟨opened, finished⟩ := bits_append front frame
  obtain ⟨flags, ended, levels⟩ := flagged
  intro later
  cases state : result.1 with
  | none =>
    have same : later = (none, []) := by
      have own : later = FrameState.next context result.1 frame := rfl
      rw [own, state]
      rfl
    rw [same, List.append_nil]
    refine ⟨⟨?_, fun _ => ended state, nofun⟩, fun _ live => absurd rfl live⟩
    rw [finished]
    exact flags.trans (List.prefix_append _ _)
  | some own =>
    obtain ⟨stack, socket⟩ := own
    obtain ⟨kept, all⟩ := levels stack socket state
    rw [state] at fits
    have step := next_levels kept fits
    have same : later = FrameState.next context (some (stack, socket)) frame := by
      have own : later = FrameState.next context result.1 frame := rfl
      rw [own, state]
    rw [← same] at step
    rcases step with ⟨closed, ends, forced, silent⟩ | ⟨placed, told, stack', socket', going, levels'⟩
    · refine ⟨⟨?_, fun _ => ended_append ends, fun stack socket open_ => ?_⟩, fun misplaced _ => ⟨closed, forced misplaced⟩⟩
      · rw [messageFlags_append, silent, List.append_nil, all, finished]
        exact List.prefix_append _ _
      · simp only [closed] at open_
        cases open_
    · have whole : messageFlags (result.2 ++ later.2) = firstBits (front ++ [frame]) := by
        rw [messageFlags_append, all, told, finished]
      refine ⟨⟨?_, fun closed => ?_, fun stack socket open_ => ⟨?_, whole⟩⟩, fun misplaced => absurd misplaced placed⟩
      · simp only [whole]
        exact List.prefix_refl _
      · simp only [going] at closed
        cases closed
      · simp only [going] at open_
        obtain ⟨rfl, rfl⟩ := Prod.ext_iff.mp (Option.some.inj open_)
        rw [opened]
        exact levels'

variable (context)

/-- Every frame fits the parser that it comes to. -/
def FlagsFit (perMessageDeflate : Bool) (stream : ι) (frames : List Frame) : Prop :=
  ∀ front frame, front ++ [frame] <+: frames → FlagFits context (framesResult context perMessageDeflate stream front).1 frame

theorem flagged_run (perMessageDeflate : Bool) (stream : ι) (frames : List Frame)
    (fits : FlagsFit context perMessageDeflate stream frames) :
    Flagged perMessageDeflate frames (framesResult context perMessageDeflate stream frames) ∧
      ∀ front frame, front ++ [frame] = frames → Misplaced perMessageDeflate frame →
        (framesResult context perMessageDeflate stream front).1 ≠ none →
        ForceCloses (framesResult context perMessageDeflate stream frames).2 := by
  induction frames using List.reverseRecOn with
  | nil =>
    refine ⟨flagged_start perMessageDeflate stream, fun front frame none_ => ?_⟩
    exact absurd none_ (by simp)
  | append_singleton front frame ih =>
    have earlier := ih fun front' frame' part => fits front' frame' (part.trans (List.prefix_append _ _))
    obtain ⟨flagged, misplaced⟩ := earlier.1.next (fits front frame (List.prefix_refl _))
    rw [framesResult_append]
    refine ⟨flagged, fun front' frame' same => ?_⟩
    obtain ⟨rfl, last⟩ := List.append_inj' same rfl
    obtain rfl := List.head_eq_of_cons_eq last
    exact fun wrong live => forceCloses_append (misplaced wrong live).2

theorem readEvents_frames (perMessageDeflate : Bool) (stream : ι) (frames : List Frame) (reads : List Bytes)
    (arrived : ∀ read ∈ reads, read ≠ []) (all : reads.flatten = encodeFrames context.isServer frames) :
    readEvents context perMessageDeflate stream reads = (framesResult context perMessageDeflate stream frames).2 ∨
      ∃ before reason, before <+: (framesResult context perMessageDeflate stream frames).2 ∧
        readEvents context perMessageDeflate stream reads = before ++ [.forceClose reason] := by
  have whole := congrArg Prod.snd (run_frames context frames (startState perMessageDeflate stream))
  have start : FrameState.phase (startState perMessageDeflate stream) = startPhase perMessageDeflate stream := rfl
  rw [start] at whole
  rw [readEvents_follow context perMessageDeflate stream reads arrived]
  have bytes := symbols_bytes reads
  rcases run_cut context (startPhase perMessageDeflate stream) (symbols reads) nofun with
    ⟨-, events, -⟩ | ⟨front, back, split, -, -, closes⟩
  · left
    rw [events, bytes, all]
    exact whole
  · right
    refine ⟨_, errProtocol, ?_, congrArg Prod.snd closes⟩
    unfold framesResult
    rw [← whole, ← all, ← bytes, split, List.map_append, run_append]
    exact List.prefix_append _ _

end Runs

/-- Where the frames fit, the delivered messages are inflated as their first frames say, and a misplaced RSV1 has the
    connection closed by force, unless a close frame has come before it. -/
theorem inflated_by_first (perMessageDeflate : Bool) (stream : ι) (frames : List Frame)
    (fits : FlagsFit context perMessageDeflate stream frames) (reads : List Bytes) (arrived : ∀ read ∈ reads, read ≠ [])
    (all : reads.flatten = encodeFrames context.isServer frames) :
    messageFlags (readEvents context perMessageDeflate stream reads) <+: firstBits frames ∧
      ∀ front frame, front ++ [frame] = frames → Misplaced perMessageDeflate frame →
        ForceCloses (readEvents context perMessageDeflate stream reads) ∨
          (framesResult context perMessageDeflate stream front).1 = none ∧
            EndsConnection (readEvents context perMessageDeflate stream reads) := by
  obtain ⟨flagged, misplaced⟩ := flagged_run context perMessageDeflate stream frames fits
  rcases readEvents_frames context perMessageDeflate stream frames reads arrived all with
    same | ⟨before, reason, part, same⟩
  · rw [same]
    refine ⟨flagged.flags, fun front frame last wrong => ?_⟩
    by_cases gone : (framesResult context perMessageDeflate stream front).1 = none
    · right
      refine ⟨gone, flagged.ended ?_⟩
      rw [← last, framesResult_append, gone]
      rfl
    · exact .inl (misplaced front frame last wrong gone)
  · rw [same]
    refine ⟨?_, fun _ _ _ _ => .inl (forceCloses_append ⟨reason, rfl⟩)⟩
    rw [messageFlags_append]
    have flags : messageFlags before <+: messageFlags (framesResult context perMessageDeflate stream frames).2 := by
      unfold messageFlags
      exact part.filterMap _
    have silent : messageFlags [.forceClose reason] = [] := rfl
    rw [silent, List.append_nil]
    exact flags.trans flagged.flags

def compressedText : List Frame := [clientFrame 0x41 [65] first_fits, clientFrame 0x80 [66] second_fits]

theorem compressedText_inflated :
    messageFlags (readEvents (serverContext 16 (by decide)) true () [encodeFrames true compressedText]) <+:
        firstBits compressedText ∧
      ∀ front frame, front ++ [frame] = compressedText → Misplaced true frame →
        ForceCloses (readEvents (serverContext 16 (by decide)) true () [encodeFrames true compressedText]) ∨
          (framesResult (serverContext 16 (by decide)) true () front).1 = none ∧
            EndsConnection (readEvents (serverContext 16 (by decide)) true () [encodeFrames true compressedText]) := by
  apply inflated_by_first
  · intro front frame part
    have split : compressedText = ([] ++ [clientFrame 0x41 [65] first_fits]) ++ [clientFrame 0x80 [66] second_fits] := rfl
    rw [split] at part
    rcases List.prefix_concat_iff.mp part with whole | shorter
    · obtain ⟨rfl, last⟩ := List.append_inj' whole rfl
      obtain rfl := List.head_eq_of_cons_eq last
      intro _
      exact ⟨nofun, fun _ code => absurd code (by decide)⟩
    · rcases List.prefix_concat_iff.mp shorter with whole | none_
      · obtain ⟨rfl, last⟩ := List.append_inj' whole rfl
        obtain rfl := List.head_eq_of_cons_eq last
        intro _
        exact ⟨fun _ _ => .inl (by decide), nofun⟩
      · exact absurd (List.prefix_nil.mp none_) (by simp)
  · decide +kernel
  · exact List.append_nil _

def compressedPing : List Frame := [clientFrame 0xc9 [] none_fits, clientFrame 0x82 [66] second_fits]

/-- The flag that the ping sets is taken for the binary message. -/
theorem ping_sets_compressed :
    ¬ ∀ (context : WebSocketContextData Unit) (perMessageDeflate : Bool) (frames : List Frame) (reads : List Bytes),
      (∀ read ∈ reads, read ≠ []) → reads.flatten = encodeFrames context.isServer frames →
      messageFlags (readEvents context perMessageDeflate () reads) <+: firstBits frames ∧
        ∀ front frame, front ++ [frame] = frames → Misplaced perMessageDeflate frame →
          ForceCloses (readEvents context perMessageDeflate () reads) ∨
            (framesResult context perMessageDeflate () front).1 = none ∧
              EndsConnection (readEvents context perMessageDeflate () reads) := by
  intro claimed
  have inflated := (claimed (serverContext 16 (by decide)) true compressedPing [encodeFrames true compressedPing]
    (by decide +kernel) (List.append_nil _)).1
  have flags : messageFlags (readEvents (serverContext 16 (by decide)) true () [encodeFrames true compressedPing]) =
      [true] := by
    decide +kernel
  have bits : firstBits compressedPing = [false] := by decide +kernel
  rw [flags, bits] at inflated
  exact absurd inflated (by decide)

end Uws.WebSocket
