import Uws.WebSocket.FrameParsing

/-! What `maxPayloadLength` bounds: messages, the buffer, and the sums of the parser. -/

namespace Uws.WebSocket

open Uws.Http (Bytes)

variable {ι : Type} (context : WebSocketContextData ι)

section Lengths

theorem xorChunk_length_le (chunk mask : Bytes) : (xorChunk chunk mask).length ≤ chunk.length := by
  unfold xorChunk
  rw [List.length_zipWith]
  exact Nat.min_le_left _ _

theorem store_length {buffer data : Bytes} {position : Nat} (within : data.length ≤ buffer.length - position) :
    (store buffer position data).length = buffer.length := by
  unfold store
  simp only [List.length_append, List.length_take, List.length_drop]
  omega

theorem unmaskImprecise_length (size : Nat) (mask : Bytes) (n src : Nat) (buffer : Bytes) :
    (unmaskImprecise size 0 mask n src buffer).length = buffer.length := by
  induction n generalizing src buffer with
  | zero => rfl
  | succ n ih =>
    rw [unmaskImprecise, ih]
    apply store_length
    have chunk := xorChunk_length_le ((buffer.drop src).take size) mask
    rw [List.length_take, List.length_drop] at chunk
    omega

theorem unmaskInplace_length_le (n : Nat) (data mask : Bytes) : (unmaskInplace n data mask).length ≤ data.length := by
  induction n generalizing data with
  | zero => exact Nat.le_refl _
  | succ n ih =>
    have chunk := xorChunk_length_le (data.take 4) mask
    have rest := ih (data.drop 4)
    rw [List.length_take] at chunk
    rw [List.length_drop] at rest
    rw [unmaskInplace, List.length_append]
    omega

theorem unrolledXor_length (n : Nat) (data mask : Bytes) : (unrolledXor n data mask).length = data.length := by
  induction n with
  | zero => rfl
  | succ n ih => rw [unrolledXor, List.length_set, ih]

theorem unmaskAllLoop_length (n : Nat) (data mask : Bytes) : (unmaskAllLoop n data mask).length = data.length := by
  induction n generalizing data with
  | zero => rfl
  | succ n ih =>
    rw [unmaskAllLoop, List.length_append, ih, List.length_take, List.length_drop, unrolledXor_length]
    omega

end Lengths

/-- The size of a message that was not inflated. -/
def Within (limit : Nat) : Event → Prop
  | .message _ payload false => payload.length ≤ limit
  | _ => True

/-- The rest of a frame has room: a control frame's bytes are behind those of the message in the buffer. -/
structure Room (opCode left : Nat) (fin : Bool) (socket : WebSocketData ι) : Prop where
  tip : socket.controlTipLength ≤ socket.fragmentBuffer.length
  message : socket.fragmentBuffer.length - socket.controlTipLength ≤ context.maxPayloadLength
  plain : opCode < 3 → socket.controlTipLength = 0 ∧ left ≤ context.maxPayloadLength
  control : 3 ≤ opCode → socket.controlTipLength + left ≤ 125 ∧ fin = true

/-- What a part of a frame leaves: no more in the buffer than may be, and room for the rest of the frame. -/
structure Leaves (opCode left : Nat) (fin : Bool) (result : WebSocketData ι × List Event × Bool) : Prop where
  buffer : result.1.fragmentBuffer.length ≤ context.maxPayloadLength + 125
  events : ∀ event ∈ result.2.1, Within context.maxPayloadLength event
  room : result.2.2 = false → Room context opCode left fin result.1
  done : result.2.2 = false → left = 0 → result.1.controlTipLength = 0

variable {context}

theorem Leaves.of_closed {opCode left : Nat} {fin : Bool} {result : WebSocketData ι × List Event × Bool}
    (closed : result.2.2 = true) (buffer : result.1.fragmentBuffer.length ≤ context.maxPayloadLength + 125)
    (events : ∀ event ∈ result.2.1, Within context.maxPayloadLength event) : Leaves context opCode left fin result := by
  refine ⟨buffer, events, ?_, ?_⟩
  · intro going
    rw [closed] at going
    cases going
  · intro going
    rw [closed] at going
    cases going

theorem emitMessage_within (opCode : Nat) {data : Bytes} (socket : WebSocketData ι)
    (small : data.length ≤ context.maxPayloadLength) :
    ∀ event ∈ (emitMessage context opCode data socket).2.1, Within context.maxPayloadLength event := by
  unfold emitMessage
  by_cases compressed : (socket.compressionStatus == .compressedFrame) = true
  · simp only [compressed, if_true]
    cases (context.inflate socket.inflationStream data).2 with
    | none =>
      intro event member
      rw [List.mem_singleton.mp member]
      exact True.intro
    | some inflated =>
      simp only
      split
      · intro event member
        rw [List.mem_singleton.mp member]
        exact True.intro
      · intro event member
        rw [List.mem_singleton.mp member]
        exact True.intro
  · rw [Bool.not_eq_true] at compressed
    simp only [compressed, Bool.false_eq_true, if_false]
    split
    · intro event member
      rw [List.mem_singleton.mp member]
      exact True.intro
    · intro event member
      rw [List.mem_singleton.mp member]
      exact small

theorem emitControl_within (limit opCode : Nat) (data : Bytes) (socket : WebSocketData ι) :
    ∀ event ∈ (emitControl opCode data socket).2.1, Within limit event := by
  unfold emitControl
  intro event member
  split at member
  · rw [List.mem_singleton.mp member]
    exact True.intro
  · split at member
    · rw [List.mem_singleton.mp member]
      exact True.intro
    · split at member
      · rw [List.mem_singleton.mp member]
        exact True.intro
      · cases member

theorem handleData_leaves {data : Bytes} {left opCode : Nat} {fin : Bool} {socket : WebSocketData ι} (plain : opCode < 3)
    (room : Room context opCode (data.length + left) fin socket) :
    Leaves context opCode left fin (handleData context data left opCode fin socket) := by
  obtain ⟨none_, fits⟩ := room.plain plain
  have message := room.message
  rw [none_, Nat.sub_zero] at message
  have ready : ∀ {next : WebSocketData ι}, next.controlTipLength = 0 →
      next.fragmentBuffer.length ≤ context.maxPayloadLength → Room context opCode left fin next := by
    intro next tip small
    refine ⟨by rw [tip]; exact Nat.zero_le _, by rw [tip]; exact small, fun _ => ⟨tip, by omega⟩, fun other => ?_⟩
    omega
  unfold handleData
  split
  · obtain ⟨buffer, tip⟩ := emitMessage_frame context opCode data socket
    refine ⟨?_, emitMessage_within opCode socket (by omega), fun _ => ?_, fun _ _ => tip.trans none_⟩
    · rw [buffer]
      omega
    · exact ready (tip.trans none_) (by rw [buffer]; exact message)
  · split
    · apply Leaves.of_closed rfl (Nat.le_trans message (Nat.le_add_right _ _))
      intro event member
      rw [List.mem_singleton.mp member]
      exact True.intro
    · rename_i accepted
      rw [refusePayloadLength_iff, Nat.not_lt] at accepted
      have grown : (socket.fragmentBuffer ++ data).length ≤ context.maxPayloadLength := by
        rw [List.length_append]
        omega
      simp only
      split
      · have events := emitMessage_within opCode
          (padded { socket with fragmentBuffer := socket.fragmentBuffer ++ data }) grown
        obtain ⟨buffer, tip⟩ := emitMessage_frame context opCode (socket.fragmentBuffer ++ data)
          (padded { socket with fragmentBuffer := socket.fragmentBuffer ++ data })
        generalize emitMessage context opCode (socket.fragmentBuffer ++ data) _ = result at events buffer tip ⊢
        split
        · refine .of_closed rfl ?_ events
          -- the padding stays in the buffer of a socket that is closed
          simp only [buffer, padded]
          split
          · rw [List.length_append, List.length_append]
            rw [List.length_append] at grown
            have nine : (Uws.Http.ascii "123456789").length = 9 := by decide +kernel
            omega
          · exact Nat.le_trans grown (Nat.le_add_right _ _)
        · exact ⟨Nat.zero_le _, events, fun _ => ready (tip.trans none_) (Nat.zero_le _), fun _ _ => tip.trans none_⟩
      · exact ⟨Nat.le_trans grown (Nat.le_add_right _ _), List.forall_mem_nil _, fun _ => ready none_ grown,
          fun _ _ => none_⟩

theorem handleControl_leaves {data : Bytes} {left opCode : Nat} {fin : Bool} {socket : WebSocketData ι}
    (control : 3 ≤ opCode) (room : Room context opCode (data.length + left) fin socket) :
    Leaves context opCode left fin (handleControl data left opCode fin socket) := by
  obtain ⟨short, final⟩ := room.control control
  have tip := room.tip
  have message := room.message
  have ready : ∀ {next : WebSocketData ι}, next.controlTipLength ≤ next.fragmentBuffer.length →
      next.fragmentBuffer.length - next.controlTipLength ≤ context.maxPayloadLength →
      next.controlTipLength + left ≤ 125 → Room context opCode left fin next := by
    intro next below small room_
    exact ⟨below, small, fun other => absurd other (Nat.not_lt.mpr control), fun _ => ⟨room_, final⟩⟩
  unfold handleControl
  split
  · rename_i whole
    obtain ⟨buffer, same⟩ := emitControl_frame opCode data socket
    refine ⟨?_, emitControl_within _ opCode data socket, fun _ => ?_, fun _ _ => same.trans whole.2.2⟩
    · rw [buffer]
      omega
    · apply ready
      · rw [buffer, same]
        exact tip
      · rw [buffer, same]
        exact message
      · rw [same]
        omega
  · simp only
    split
    · rename_i ends
      have grown : (socket.fragmentBuffer ++ data).length - (socket.controlTipLength + data.length) ≤
          context.maxPayloadLength := by
        rw [List.length_append]
        omega
      have events := emitControl_within context.maxPayloadLength opCode
        ((socket.fragmentBuffer ++ data).drop
          ((socket.fragmentBuffer ++ data).length - (socket.controlTipLength + data.length)))
        { socket with
          fragmentBuffer := socket.fragmentBuffer ++ data
          controlTipLength := socket.controlTipLength + data.length }
      obtain ⟨buffer, same⟩ := emitControl_frame opCode
        ((socket.fragmentBuffer ++ data).drop
          ((socket.fragmentBuffer ++ data).length - (socket.controlTipLength + data.length)))
        { socket with
          fragmentBuffer := socket.fragmentBuffer ++ data
          controlTipLength := socket.controlTipLength + data.length }
      generalize emitControl opCode _ _ = result at events buffer same ⊢
      split
      · refine .of_closed rfl ?_ events
        simp only [buffer, List.length_append]
        omega
      · refine ⟨?_, events, fun _ => ready (Nat.zero_le _) ?_ ?_, fun _ _ => rfl⟩
        · simp only [List.length_take]
          omega
        · simp only [List.length_take]
          omega
        · change 0 + left ≤ 125
          omega
    · rename_i goes
      refine ⟨?_, List.forall_mem_nil _, fun _ => ready ?_ ?_ ?_, fun _ ended => absurd ⟨ended, final⟩ goes⟩
      · simp only [List.length_append]
        omega
      · simp only [List.length_append]
        omega
      · simp only [List.length_append]
        omega
      · simp only
        omega

theorem handleFragment_leaves {data : Bytes} {left opCode : Nat} {fin : Bool} {socket : WebSocketData ι}
    (room : Room context opCode (data.length + left) fin socket) :
    Leaves context opCode left fin (handleFragment context data left opCode fin socket) := by
  unfold handleFragment
  split
  · rename_i plain
    exact handleData_leaves plain room
  · rename_i control
    exact handleControl_leaves (Nat.not_lt.mp control) room

/-- The frames that a socket is in: at most one message with a data frame inside of it, and a control frame only on
    top. -/
structure Nested (stack : OpStack) : Prop where
  depth : stack.opStack = -1 ∨ stack.opStack = 0 ∨ stack.opStack = 1
  below : stack.opStack = 1 → stack.opCode.1 < 3
  top : stack.opStack ≠ -1 → 3 ≤ stack.currentOpCode → stack.lastFin = true

/-- No frame is going on, and what is open is a message. -/
structure Between (stack : OpStack) : Prop where
  depth : stack.opStack = -1 ∨ stack.opStack = 0 ∨ stack.opStack = 1
  outer : 0 ≤ stack.opStack → stack.opCode.1 < 3
  inner : stack.opStack = 1 → stack.opCode.2 < 3

theorem Between.openFrame {src : Bytes} {stack next : OpStack} (between : Between stack)
    (opened : stack.openFrame src = some next) (fin : Bool) (control : 3 ≤ getOpCode src → fin = true) :
    Nested { next with lastFin := fin } ∧ next.opStack ≠ -1 ∧
      (3 ≤ next.currentOpCode → next.currentOpCode = getOpCode src) := by
  obtain ⟨depth, outer, inner⟩ := between
  unfold OpStack.openFrame at opened
  split at opened
  · split at opened
    · cases opened
    · rename_i allowed
      obtain rfl := Option.some.inj opened
      have shallow : stack.opStack = -1 ∨ stack.opStack = 0 := by
        rw [not_or] at allowed
        rcases depth with empty | one_ | two_
        · exact .inl empty
        · exact .inr one_
        · exact absurd two_ allowed.1
      unfold OpStack.pushOpCode
      rcases shallow with empty | one_
      · rw [if_pos empty]
        refine ⟨⟨.inr (.inl rfl), nofun, fun _ high => ?_⟩, nofun, fun _ => rfl⟩
        exact control high
      · rw [if_neg (by omega)]
        have two_ : stack.opStack + 1 = 1 := by omega
        refine ⟨⟨.inr (.inr two_), fun _ => outer (by omega), fun _ high => ?_⟩, by simp only; omega, fun _ => ?_⟩
        · apply control
          simpa [OpStack.currentOpCode, two_] using high
        · simp [OpStack.currentOpCode, two_]
  · split at opened
    · cases opened
    · rename_i some_
      obtain rfl := Option.some.inj opened
      have data : stack.currentOpCode < 3 := by
        unfold OpStack.currentOpCode
        split
        · rename_i two_
          exact inner two_
        · exact outer (by omega)
      refine ⟨⟨depth, fun two_ => outer (by omega), fun _ high => ?_⟩, some_, fun high => ?_⟩
      · exact absurd high (Nat.not_le.mpr data)
      · exact absurd high (Nat.not_le.mpr data)

theorem Nested.popOpCode {stack : OpStack} (nested : Nested stack) (some_ : stack.opStack ≠ -1) :
    Between (stack.popOpCode stack.lastFin) := by
  obtain ⟨depth, below, top⟩ := nested
  unfold OpStack.popOpCode
  split
  · rcases depth with empty | one_ | two_
    · exact absurd empty some_
    · exact ⟨by simp [one_], by simp [one_], by simp [one_]⟩
    · exact ⟨by simp [two_], fun _ => below two_, by simp [two_]⟩
  · rename_i more
    have data : stack.currentOpCode < 3 := by
      by_contra high
      exact more (top some_ (Nat.not_lt.mp high))
    unfold OpStack.currentOpCode at data
    refine ⟨depth, fun _ => ?_, fun two_ => ?_⟩
    · by_cases two_ : stack.opStack = 1
      · exact below two_
      · rwa [if_neg two_] at data
    · rwa [if_pos two_] at data

/-- What holds of a socket between the frames of a read and between reads. -/
structure Bounded (context : WebSocketContextData ι) (socket : Socket ι) : Prop where
  buffer : socket.data.fragmentBuffer.length ≤ context.maxPayloadLength + 125
  head : socket.data.isShuttingDown = false → socket.state.wantsHead = true →
    Between socket.state.toOpStack ∧ socket.data.controlTipLength = 0 ∧
      socket.data.fragmentBuffer.length ≤ context.maxPayloadLength
  rest : socket.data.isShuttingDown = false → socket.state.wantsHead = false →
    Nested socket.state.toOpStack ∧ socket.state.opStack ≠ -1 ∧
      Room context socket.state.currentOpCode socket.state.remainingBytes socket.state.lastFin socket.data

namespace Bounded

variable {socket : Socket ι}

theorem closed {state : State} {data : WebSocketData ι} (closed : data.isShuttingDown = true)
    (buffer : data.fragmentBuffer.length ≤ context.maxPayloadLength + 125) : Bounded context ⟨state, data⟩ := by
  refine ⟨buffer, fun open_ => ?_, fun open_ => ?_⟩
  · rw [closed] at open_
    cases open_
  · rw [closed] at open_
    cases open_

theorem forceClose (state : State) {data : WebSocketData ι} (reason : Bytes)
    (buffer : data.fragmentBuffer.length ≤ context.maxPayloadLength + 125) :
    Bounded context ⟨state, (forceClose reason data).1⟩ ∧
      ∀ event ∈ (WebSocket.forceClose reason data).2.1, Within context.maxPayloadLength event := by
  refine ⟨closed rfl buffer, fun event member => ?_⟩
  rw [List.mem_singleton.mp member]
  exact True.intro

theorem head_of {state : State} {data : WebSocketData ι} (between : Between state.toOpStack)
    (tip : data.controlTipLength = 0) (small : data.fragmentBuffer.length ≤ context.maxPayloadLength)
    (wants : state.wantsHead = true) : Bounded context ⟨state, data⟩ := by
  refine ⟨Nat.le_trans small (Nat.le_add_right _ _), fun _ _ => ⟨between, tip, small⟩, fun _ rest => ?_⟩
  rw [wants] at rest
  cases rest

theorem none_rest {goal : Bytes → Prop} : ∀ rest, (none : Option Bytes) = some rest → goal rest := by
  intro rest same
  cases same

theorem consumeMessage (bounded : Bounded context socket) (open_ : socket.data.isShuttingDown = false)
    (wants : socket.state.wantsHead = true) (messageHeader payLength : Nat) (src : Bytes)
    (whole : messageHeader ≤ src.length) (control : 3 ≤ getOpCode src → payLength ≤ 125 ∧ isFin src = true) :
    Bounded context (consumeMessage context messageHeader payLength src socket).1 ∧
      (∀ event ∈ (WebSocket.consumeMessage context messageHeader payLength src socket).2.1,
        Within context.maxPayloadLength event) ∧
      ∀ rest, (WebSocket.consumeMessage context messageHeader payLength src socket).2.2 = some rest →
        (WebSocket.consumeMessage context messageHeader payLength src socket).1.data.isShuttingDown = false ∧
          (WebSocket.consumeMessage context messageHeader payLength src socket).1.state.wantsHead = true := by
  obtain ⟨between, tip, small⟩ := bounded.head open_ wants
  unfold WebSocket.consumeMessage
  cases opened : socket.state.openFrame src with
  | none =>
    simp only
    obtain ⟨closes, events⟩ := forceClose socket.state errProtocol bounded.buffer
    exact ⟨closes, events, none_rest⟩
  | some stack =>
    obtain ⟨nested, some_, high⟩ := between.openFrame opened (isFin src) fun control_ => (control control_).2
    simp only
    split
    · obtain ⟨closes, events⟩ := forceClose { socket.state with toOpStack := { stack with lastFin := isFin src } }
        errTooBigMessage bounded.buffer
      exact ⟨closes, events, none_rest⟩
    · rename_i accepted
      rw [refusePayloadLength_iff, Nat.not_lt] at accepted
      have room : ∀ left, left ≤ payLength →
          Room context (OpStack.currentOpCode { stack with lastFin := isFin src }) left (isFin src) socket.data := by
        intro left part
        refine ⟨by omega, by omega, fun _ => ⟨tip, by omega⟩, fun control_ => ?_⟩
        have code := high control_
        obtain ⟨short, final⟩ := control (code ▸ control_)
        exact ⟨by omega, final⟩
      split
      · generalize fetched : (if context.isServer = true then _ else _) = payload
        have fits : payload.length ≤ payLength := by
          rw [← fetched]
          split
          · exact List.length_take_le _ _
          · exact List.length_take_le _ _
        have leaves := handleFragment_leaves (room (payload.length + 0) fits)
        have closes := handleFragment_open context payload 0
          (OpStack.currentOpCode { stack with lastFin := isFin src }) (isFin src) socket.data open_
        generalize handleFragment context payload 0 (OpStack.currentOpCode { stack with lastFin := isFin src })
          (isFin src) socket.data = result at leaves closes ⊢
        split
        · rename_i broken
          exact ⟨closed (closes.trans broken) leaves.buffer, leaves.events, none_rest⟩
        · rename_i going
          rw [Bool.not_eq_true] at going
          have done := leaves.done going rfl
          have message := (leaves.room going).message
          rw [done, Nat.sub_zero] at message
          exact ⟨head_of (nested.popOpCode some_) done message wants, leaves.events,
            fun _ _ => ⟨closes.trans going, wants⟩⟩
      · rename_i more
        generalize fetched : (if context.isServer = true then List.drop _ _ else _) = payload
        have fits : payload.length ≤ src.length - messageHeader := by
          rw [← fetched]
          split
          · rw [List.length_drop, unmaskImprecise8, unmaskImprecise_length]
          · rw [List.length_drop]
        have part : (payLength + messageHeader - src.length) % 2 ^ 32 ≤ payLength + messageHeader - src.length :=
          Nat.mod_le _ _
        generalize (payLength + messageHeader - src.length) % 2 ^ 32 = left at part ⊢
        have leaves : Leaves context _ left _ _ := handleFragment_leaves (room (payload.length + left) (by omega))
        have closes := handleFragment_open context payload left
          (OpStack.currentOpCode { stack with lastFin := isFin src }) (isFin src) socket.data open_
        generalize handleFragment context payload left (OpStack.currentOpCode { stack with lastFin := isFin src })
          (isFin src) socket.data = result at leaves closes ⊢
        refine ⟨⟨leaves.buffer, fun _ head => absurd head Bool.false_ne_true, fun going _ => ⟨nested, some_, ?_⟩⟩,
          leaves.events, none_rest⟩
        exact leaves.room (closes.symm.trans going)

theorem consumeContinuation (bounded : Bounded context socket) (open_ : socket.data.isShuttingDown = false)
    (going : socket.state.wantsHead = false) (src : Bytes) :
    Bounded context (consumeContinuation context src socket).1 ∧
      (∀ event ∈ (WebSocket.consumeContinuation context src socket).2.1, Within context.maxPayloadLength event) ∧
      ∀ rest, (WebSocket.consumeContinuation context src socket).2.2 = some rest →
        (WebSocket.consumeContinuation context src socket).1.data.isShuttingDown = false ∧
          (WebSocket.consumeContinuation context src socket).1.state.wantsHead = true := by
  obtain ⟨nested, some_, room⟩ := bounded.rest open_ going
  have smaller : ∀ left, left ≤ socket.state.remainingBytes →
      Room context socket.state.currentOpCode left socket.state.lastFin socket.data := by
    intro left part
    refine ⟨room.tip, room.message, fun plain => ?_, fun control => ?_⟩
    · have fits := room.plain plain
      exact ⟨fits.1, by omega⟩
    · have fits := room.control control
      exact ⟨by omega, fits.2⟩
  unfold WebSocket.consumeContinuation
  simp only
  split
  · generalize fetched : List.take socket.state.remainingBytes _ = payload
    have fits : payload.length ≤ socket.state.remainingBytes := by
      rw [← fetched]
      exact List.length_take_le _ _
    have leaves := handleFragment_leaves (smaller (payload.length + 0) fits)
    have closes := handleFragment_open context payload 0 socket.state.currentOpCode socket.state.lastFin socket.data open_
    generalize handleFragment context payload 0 socket.state.currentOpCode socket.state.lastFin socket.data = result
      at leaves closes ⊢
    split
    · rename_i broken
      exact ⟨closed (closes.trans broken) leaves.buffer, leaves.events, none_rest⟩
    · rename_i whole
      rw [Bool.not_eq_true] at whole
      have done := leaves.done whole rfl
      have message := (leaves.room whole).message
      rw [done, Nat.sub_zero] at message
      exact ⟨head_of (nested.popOpCode some_) done message rfl, leaves.events, fun _ _ => ⟨closes.trans whole, rfl⟩⟩
  · rename_i more
    generalize fetched : (if context.isServer = true ∧ socket.state.mask ≠ [0, 0, 0, 0] then _ else src) = payload
    have fits : payload.length ≤ src.length := by
      rw [← fetched]
      split
      · split
        · exact Nat.le_of_eq (unmaskAllLoop_length _ _ _)
        · exact unmaskInplace_length_le _ _ _
      · exact Nat.le_refl _
    have leaves : Leaves context _ (socket.state.remainingBytes - src.length) _ _ :=
      handleFragment_leaves (smaller (payload.length + (socket.state.remainingBytes - src.length)) (by omega))
    have closes := handleFragment_open context payload (socket.state.remainingBytes - src.length)
      socket.state.currentOpCode socket.state.lastFin socket.data open_
    generalize handleFragment context payload (socket.state.remainingBytes - src.length) socket.state.currentOpCode
      socket.state.lastFin socket.data = result at leaves closes ⊢
    refine ⟨⟨leaves.buffer, fun _ wants => ?_, fun open_' _ => ⟨nested, some_, ?_⟩⟩, leaves.events, none_rest⟩
    · rw [show socket.state.wantsHead = true from wants] at going
      cases going
    · exact leaves.room (closes.symm.trans open_')

theorem spillRest (bounded : Bounded context socket) (src : Bytes) : Bounded context (spillRest src socket) := by
  unfold WebSocket.spillRest
  split
  · exact ⟨bounded.buffer, bounded.head, bounded.rest⟩
  · exact bounded

theorem checkHeader_bounded (bounded : Bounded context socket) (open_ : socket.data.isShuttingDown = false)
    (wants : socket.state.wantsHead = true) (src : Bytes) :
    Bounded context { socket with data := (checkHeader context src socket.data).2 } := by
  obtain ⟨between, tip, small⟩ := bounded.head open_ wants
  have same : (checkHeader context src socket.data).2.fragmentBuffer = socket.data.fragmentBuffer ∧
      (checkHeader context src socket.data).2.controlTipLength = socket.data.controlTipLength := by
    simp only [checkHeader, setCompressed]
    split
    · split <;> exact ⟨rfl, rfl⟩
    · exact ⟨rfl, rfl⟩
  exact head_of between (same.2.trans tip) (by rw [same.1]; exact small) wants

theorem parseNext (fuel : Nat) (src : Bytes) (bounded : Bounded context socket)
    (open_ : socket.data.isShuttingDown = false) (wants : socket.state.wantsHead = true) :
    Bounded context (parseNext context fuel src socket).1 ∧
      ∀ event ∈ (WebSocket.parseNext context fuel src socket).2, Within context.maxPayloadLength event := by
  induction fuel generalizing src socket with
  | zero => exact ⟨bounded.spillRest src, List.forall_mem_nil _⟩
  | succ fuel ih =>
    by_cases short : src.length < shortMessageHeader context.isServer
    · rw [parseNext_short context _ _ _ short]
      exact ⟨bounded.spillRest src, List.forall_mem_nil _⟩
    · have long := Nat.not_lt.mp short
      have checked := bounded.checkHeader_bounded open_ wants src
      have opened := (checkHeader_open context src socket.data).trans open_
      cases fine : (checkHeader context src socket.data).1 with
      | true =>
        simp only [WebSocket.parseNext, if_neg short, fine, if_true]
        exact forceClose socket.state errProtocol checked.buffer
      | false =>
        by_cases begun : src.length < headerLength context src
        · rw [parseNext_begun context _ _ _ long fine begun]
          exact ⟨checked.spillRest src, List.forall_mem_nil _⟩
        · rw [parseNext_frame context _ _ _ (Nat.not_lt.mp begun) fine]
          have control : 3 ≤ getOpCode src → payLength src ≤ 125 ∧ isFin src = true := by
            intro high
            have valid := (checkHeader_fine context fine).1
            unfold invalidHeader at valid
            simp only [Bool.or_eq_false_iff, Bool.and_eq_false_imp, decide_eq_true_eq] at valid
            have checks := valid.1.2 high
            simp only [Bool.not_eq_false', decide_eq_false_iff_not, Nat.not_lt] at checks
            rw [payLength, if_pos (by omega)]
            exact ⟨checks.2, checks.1⟩
          obtain ⟨taken, events, goes⟩ := checked.consumeMessage opened wants _ _ _ (Nat.not_lt.mp begun) control
          unfold parseBehind
          generalize WebSocket.consumeMessage context _ _ src _ = consumed at taken events goes ⊢
          obtain ⟨next, before, rest⟩ := consumed
          cases rest with
          | none => exact ⟨taken, events⟩
          | some rest =>
            obtain ⟨still, head⟩ := goes rest rfl
            obtain ⟨after, later⟩ := ih rest taken still head
            refine ⟨after, fun event member => ?_⟩
            rcases List.mem_append.mp member with first | second
            · exact events event first
            · exact later event second

theorem consumeRead (bounded : Bounded context socket) (src : Bytes) :
    Bounded context (consumeRead context socket src).1 ∧
      ∀ event ∈ (WebSocket.consumeRead context socket src).2, Within context.maxPayloadLength event := by
  unfold WebSocket.consumeRead
  split
  · exact ⟨bounded, List.forall_mem_nil _⟩
  · rename_i open_
    rw [Bool.not_eq_true] at open_
    unfold consume
    simp only
    split
    · rename_i wants
      exact bounded.parseNext _ _ open_ wants
    · rename_i goes
      rw [Bool.not_eq_true] at goes
      obtain ⟨taken, events, then_⟩ := bounded.consumeContinuation open_ goes (socket.state.spill ++ src)
      generalize WebSocket.consumeContinuation context _ socket = consumed at taken events then_ ⊢
      obtain ⟨next, before, rest⟩ := consumed
      cases rest with
      | none => exact ⟨taken, events⟩
      | some rest =>
        obtain ⟨still, head⟩ := then_ rest rfl
        obtain ⟨after, later⟩ := taken.parseNext rest.length rest still head
        refine ⟨after, fun event member => ?_⟩
        rcases List.mem_append.mp member with first | second
        · exact events event first
        · exact later event second

theorem openSocket (perMessageDeflate : Bool) (stream : ι) : Bounded context (openSocket perMessageDeflate stream) :=
  head_of ⟨.inl rfl, nofun, nofun⟩ rfl (Nat.zero_le _) rfl

theorem reads (bounded : Bounded context socket) (blocks : List Bytes) :
    Bounded context (Machine.reads (WebSocket.consumeRead context) socket blocks).1 ∧
      ∀ event ∈ (Machine.reads (WebSocket.consumeRead context) socket blocks).2, Within context.maxPayloadLength event := by
  induction blocks generalizing socket with
  | nil => exact ⟨bounded, List.forall_mem_nil _⟩
  | cons block blocks ih =>
    obtain ⟨next, events⟩ := bounded.consumeRead block
    obtain ⟨last, later⟩ := ih next
    refine ⟨last, fun event member => ?_⟩
    rcases List.mem_append.mp member with first | second
    · exact events event first
    · exact later event second

end Bounded

/-- The sums of `consumeMessage` are made in `unsigned int`, or in 64 bits for the longest payload length. -/
def sumWidth (src : Bytes) : Nat := if payloadLength src = 127 then 64 else 32

def frameSum (width payLength messageHeader : Nat) : Nat := (payLength + messageHeader) % 2 ^ width

/-- `(unsigned int) (payLength - length + MESSAGE_HEADER)` -/
def remainingSum (width payLength messageHeader length : Nat) : Nat :=
  ((payLength + (2 ^ width - length)) % 2 ^ width + messageHeader) % 2 ^ width % 2 ^ 32

/-- `length -= (unsigned int) (payLength + MESSAGE_HEADER)` -/
def lengthSum (width payLength messageHeader length : Nat) : Nat :=
  (length + (2 ^ 32 - frameSum width payLength messageHeader % 2 ^ 32)) % 2 ^ 32

structure ExactSums (width payLength messageHeader length : Nat) : Prop where
  frame : frameSum width payLength messageHeader = payLength + messageHeader
  behind : payLength + messageHeader ≤ length →
    lengthSum width payLength messageHeader length = length - (payLength + messageHeader)
  remaining : length < payLength + messageHeader →
    remainingSum width payLength messageHeader length = payLength + messageHeader - length

theorem exactSums {width payLength messageHeader length : Nat} (wide : width = 32 ∨ width = 64)
    (small : payLength + messageHeader < 2 ^ 32) (read : length < 2 ^ 32) :
    ExactSums width payLength messageHeader length := by
  have frame : frameSum width payLength messageHeader = payLength + messageHeader := by
    unfold frameSum
    rcases wide with rfl | rfl
    · exact Nat.mod_eq_of_lt small
    · exact Nat.mod_eq_of_lt (Nat.lt_trans small (by decide))
  refine ⟨frame, fun whole => ?_, fun part => ?_⟩
  · unfold lengthSum
    rw [frame]
    omega
  · unfold remainingSum
    rcases wide with rfl | rfl
    · omega
    · omega

theorem headerLength_le (context : WebSocketContextData ι) (src : Bytes) : headerLength context src ≤ 14 := by
  unfold headerLength shortMessageHeader mediumMessageHeader longMessageHeader
  repeat' split
  all_goals omega

/-- Over any reads no message that was not inflated is longer than `maxPayloadLength`, the buffer holds no more than a
    control frame's payload over it, and the sums of a frame that is accepted are exact. -/
theorem max_payload_bounds (context : WebSocketContextData ι) (perMessageDeflate : Bool) (stream : ι)
    (blocks : List Bytes) :
    (∀ opCode payload, Event.message opCode payload false ∈ readEvents context perMessageDeflate stream blocks →
      payload.length ≤ context.maxPayloadLength) ∧
    (Machine.reads (consumeRead context) (openSocket perMessageDeflate stream) blocks).1.data.fragmentBuffer.length ≤
      context.maxPayloadLength + 125 ∧
    (context.maxPayloadLength < 2 ^ 32 - 14 → ∀ src : Bytes, src.length < 2 ^ 32 →
      refusePayloadLength context (payLength src) = false →
      ExactSums (sumWidth src) (payLength src) (headerLength context src) src.length) := by
  have start : Bounded context (openSocket perMessageDeflate stream) := Bounded.openSocket perMessageDeflate stream
  obtain ⟨bounded, events⟩ := start.reads blocks
  refine ⟨fun opCode payload member => events _ member, bounded.buffer, fun limit src read accepted => ?_⟩
  rw [← Bool.not_eq_true, refusePayloadLength_iff, Nat.not_lt] at accepted
  have header := headerLength_le context src
  refine exactSums ?_ (by omega) read
  unfold sumWidth
  split
  · exact .inr rfl
  · exact .inl rfl

end Uws.WebSocket
