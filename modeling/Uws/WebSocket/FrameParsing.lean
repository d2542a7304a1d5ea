import Uws.WebSocket.FramePhases

namespace Uws.WebSocket

open Uws.Http (Bytes)
open Uws.Machine FramePhase

variable {ι : Type} (context : WebSocketContextData ι)

theorem emitMessage_open (opCode : Nat) (data : Bytes) (socket : WebSocketData ι) (open_ : socket.isShuttingDown = false) :
    (emitMessage context opCode data socket).1.isShuttingDown = (emitMessage context opCode data socket).2.2 := by
  unfold emitMessage
  by_cases compressed : (socket.compressionStatus == .compressedFrame) = true
  · simp only [compressed, if_true]
    cases (context.inflate socket.inflationStream data).2 with
    | none => rfl
    | some inflated =>
      simp only
      split
      · rfl
      · exact open_
  · simp only [compressed, Bool.false_eq_true, if_false]
    split
    · rfl
    · exact open_

theorem emitControl_open (opCode : Nat) (data : Bytes) (socket : WebSocketData ι) (open_ : socket.isShuttingDown = false) :
    (emitControl opCode data socket).1.isShuttingDown = (emitControl opCode data socket).2.2 := by
  unfold emitControl
  repeat' split
  · rfl
  all_goals exact open_

theorem handleFragment_open (data : Bytes) (left opCode : Nat) (fin : Bool) (socket : WebSocketData ι)
    (open_ : socket.isShuttingDown = false) :
    (handleFragment context data left opCode fin socket).1.isShuttingDown =
      (handleFragment context data left opCode fin socket).2.2 := by
  unfold handleFragment
  split
  · unfold handleData
    split
    · exact emitMessage_open context opCode data socket open_
    · split
      · rfl
      · simp only
        split
        · have emitted := emitMessage_open context opCode (socket.fragmentBuffer ++ data)
            (padded { socket with fragmentBuffer := socket.fragmentBuffer ++ data }) open_
          split
          · rename_i broken
            exact emitted.trans broken
          · rename_i going
            exact emitted.trans (Bool.not_eq_true _ ▸ going)
        · exact open_
  · unfold handleControl
    split
    · exact emitControl_open opCode data socket open_
    · simp only
      split
      · have emitted := emitControl_open opCode ((socket.fragmentBuffer ++ data).drop
          ((socket.fragmentBuffer ++ data).length - (socket.controlTipLength + data.length)))
          { socket with
            fragmentBuffer := socket.fragmentBuffer ++ data
            controlTipLength := socket.controlTipLength + data.length } open_
        split
        · rename_i broken
          exact emitted.trans broken
        · rename_i going
          exact emitted.trans (Bool.not_eq_true _ ▸ going)
      · exact open_

theorem header_append (read data : Bytes) (two : 2 ≤ read.length) :
    (read ++ data).getD 0 0 = read.getD 0 0 ∧ (read ++ data).getD 1 0 = read.getD 1 0 :=
  ⟨List.getD_append _ _ _ _ (by omega), List.getD_append _ _ _ _ (by omega)⟩

theorem payloadLength_append (read data : Bytes) (two : 2 ≤ read.length) :
    payloadLength (read ++ data) = payloadLength read := by
  rw [payloadLength, payloadLength, (header_append read data two).2]

theorem headerLength_append (read data : Bytes) (two : 2 ≤ read.length) :
    headerLength context (read ++ data) = headerLength context read := by
  rw [headerLength, headerLength, payloadLength_append read data two]

theorem isFin_append (read data : Bytes) (two : 2 ≤ read.length) : isFin (read ++ data) = isFin read := by
  rw [isFin, isFin, (header_append read data two).1]

theorem rsv1_append (read data : Bytes) (two : 2 ≤ read.length) : rsv1 (read ++ data) = rsv1 read := by
  rw [rsv1, rsv1, (header_append read data two).1]

theorem getOpCode_append (read data : Bytes) (two : 2 ≤ read.length) : getOpCode (read ++ data) = getOpCode read := by
  rw [getOpCode, getOpCode, (header_append read data two).1]

theorem invalidHeader_append (read data : Bytes) (two : 2 ≤ read.length) :
    invalidHeader context (read ++ data) = invalidHeader context read := by
  simp only [invalidHeader, rsv23, getOpCode_append read data two, isFin_append read data two,
    payloadLength_append read data two, (header_append read data two).1, (header_append read data two).2]

theorem checkHeader_append (read data : Bytes) (two : 2 ≤ read.length) (socket : WebSocketData ι) :
    checkHeader context (read ++ data) socket = checkHeader context read socket := by
  rw [checkHeader, checkHeader, rsv1_append read data two, invalidHeader_append context read data two]

theorem openFrame_append (read data : Bytes) (two : 2 ≤ read.length) (stack : OpStack) :
    stack.openFrame (read ++ data) = stack.openFrame read := by
  rw [OpStack.openFrame, OpStack.openFrame, getOpCode_append read data two]

theorem two_le_short : 2 ≤ shortMessageHeader context.isServer := by
  unfold shortMessageHeader
  split <;> omega

theorem short_le_header (read : Bytes) : shortMessageHeader context.isServer ≤ headerLength context read := by
  unfold headerLength shortMessageHeader mediumMessageHeader longMessageHeader
  cases context.isServer <;> simp only [Bool.false_eq_true, if_false, if_true] <;> split <;> try omega
  all_goals split <;> omega

/-- Bytes of a header that neither reach its check nor its end. -/
def Quiet (read data : Bytes) : Prop :=
  (read ++ data).length < shortMessageHeader context.isServer ∨
    (shortMessageHeader context.isServer ≤ read.length ∧ (read ++ data).length < headerLength context read)

theorem run_quiet (read data : Bytes) (stack : OpStack) (socket : WebSocketData ι) (quiet : Quiet context read data) :
    run (step context) (.head read false stack socket) (data.map some) = (.head (read ++ data) false stack socket, []) := by
  induction data generalizing read with
  | nil => simp
  | cons b data ih =>
    have two := two_le_short context
    have whole : read ++ b :: data = read ++ [b] ++ data := by simp
    have least := short_le_header context (read ++ [b])
    have stays : headByte context (read ++ [b]) stack socket = (.head (read ++ [b]) false stack socket, []) := by
      unfold headByte
      rcases quiet with short | ⟨long, inside⟩
      · simp only [List.length_append, List.length_cons, List.length_nil] at short ⊢
        rw [if_neg (by omega), if_neg (by omega)]
      · have same := headerLength_append context read [b] (by omega)
        simp only [List.length_append, List.length_cons, List.length_nil] at inside ⊢
        rw [if_neg (by omega), if_neg (by omega)]
    have later : Quiet context (read ++ [b]) data := by
      rcases quiet with short | ⟨long, inside⟩
      · exact .inl (whole ▸ short)
      · right
        rw [headerLength_append context read [b] (by omega), ← whole]
        refine ⟨?_, inside⟩
        rw [List.length_append]
        omega
    rw [List.map_cons, run_cons, step, Bool.false_and, if_neg Bool.false_ne_true, stays, ih _ later, whole]
    rfl

theorem run_header (read data : Bytes) (b : UInt8) (stack : OpStack) (socket : WebSocketData ι)
    (quiet : Quiet context read data) :
    run (step context) (.head read false stack socket) ((data ++ [b]).map some) =
      headByte context (read ++ (data ++ [b])) stack socket := by
  rw [List.map_append, run_append, run_quiet context read data stack socket quiet, List.map_singleton, run_cons, step,
    Bool.false_and, if_neg Bool.false_ne_true, run_nil, List.append_assoc]
  simp

/-- A header that is begun: behind its check the frame is one that passed it. -/
def Begun (read : Bytes) (socket : WebSocketData ι) : Prop :=
  read.length < shortMessageHeader context.isServer ∨
    (shortMessageHeader context.isServer ≤ read.length ∧ read.length < headerLength context read ∧
      invalidHeader context read = false ∧ (rsv1 read = true → socket.compressionStatus = .compressedFrame))

/-- The mask of a parser whose payload is at `position`. -/
def Turned (mask key : Bytes) (position : Nat) : Prop :=
  if context.isServer then mask.length = 4 ∧ ∀ i data, unmaskFrom mask i data = unmaskFrom key (position + i) data
  else key = []

/-- The sockets that stand for a phase at the end of a read. -/
inductive Holds : FramePhase ι → Socket ι → Prop where
  | head (read : Bytes) (again : Bool) (stack : OpStack) (data : WebSocketData ι) (socket : Socket ι)
      (spilled : socket.state.spill = read) (frames : socket.state.toOpStack = stack) (same : socket.data = data)
      (wants : socket.state.wantsHead = true) (open_ : data.isShuttingDown = false) (begun : Begun context read data)
      (checked : again = decide (shortMessageHeader context.isServer ≤ read.length)) :
      Holds (.head read again stack data) socket
  | payload (left : Nat) (key : Bytes) (position : Nat) (stack : OpStack) (data : WebSocketData ι) (socket : Socket ι)
      (remaining : socket.state.remainingBytes = left) (frames : socket.state.toOpStack = stack)
      (same : socket.data = data) (wants : socket.state.wantsHead = false) (open_ : data.isShuttingDown = false)
      (none : socket.state.spill = []) (some : 0 < left) (small : left ≤ context.maxPayloadLength)
      (turned : Turned context socket.state.mask key position) : Holds (.payload left key position stack data) socket
  | closed (socket : Socket ι) (ended : socket.data.isShuttingDown = true) : Holds .closed socket

inductive FrameTaken (phase : FramePhase ι) (events : List Event) (rest : Bytes) (length : Nat) :
    Socket ι × List Event × Option Bytes → Prop where
  | stopped (socket : Socket ι) (holds : Holds context phase socket) (ended : phase = .closed ∨ rest.length < length) :
      FrameTaken phase events rest length (socket, events, none)
  | whole (socket : Socket ι) (wants : socket.state.wantsHead = true) (open_ : socket.data.isShuttingDown = false)
      (none : socket.state.spill = []) (next : phase = .head [] false socket.state.toOpStack socket.data)
      (within : length ≤ rest.length) : FrameTaken phase events rest length (socket, events, some (rest.drop length))

theorem headerLength_server (header : Bytes) (server : context.isServer = true) :
    headerLength context header = 6 ∨ headerLength context header = 8 ∨ headerLength context header = 14 := by
  unfold headerLength shortMessageHeader mediumMessageHeader longMessageHeader
  rw [server]
  simp only [if_true]
  split
  · exact .inl rfl
  · split
    · exact .inr (.inl rfl)
    · exact .inr (.inr rfl)

theorem wholePayload (header rest : Bytes) (length : Nat) (within : length ≤ rest.length)
    (whole : header.length = headerLength context header) :
    let src := if context.isServer then unmaskImpreciseCopyMask header.length header.length length (header ++ rest)
      else header ++ rest
    (if context.isServer then src.take length else (src.drop header.length).take length) =
        unmaskFrom (headerKey context header) 0 (rest.take length) ∧
      src.drop (length + header.length) = rest.drop length := by
  cases server : context.isServer with
  | false =>
    simp only [Bool.false_eq_true, if_false, headerKey, server, List.drop_left, unmaskFrom_none, true_and]
    rw [Nat.add_comm, ← List.drop_drop, List.drop_left]
  | true =>
    have sizes := headerLength_server context header server
    rw [← whole] at sizes
    have moved := unmaskImpreciseCopyMask_frame header (rest.take length) (rest.drop length) sizes
    rw [List.take_append_drop, List.length_take_of_le within] at moved
    simp only [if_true, headerKey, server]
    rw [Nat.add_comm length]
    exact moved

theorem headerMask (header rest : Bytes) (server : context.isServer = true)
    (whole : header.length = headerLength context header) :
    ((header ++ rest).drop (header.length - 4)).take 4 = headerKey context header ∧ (headerKey context header).length = 4 := by
  have sizes := headerLength_server context header server
  have four : (header.drop (header.length - 4)).length = 4 := by
    rw [List.length_drop]
    omega
  rw [headerKey, server, if_pos rfl, List.drop_append_of_le_length (by omega), List.take_left' four]
  exact ⟨rfl, four⟩

theorem partialPayload (header rest mask : Bytes) (whole : header.length = headerLength context header) :
    let masked := ((header ++ rest).drop (header.length - 4)).take 4
    (if context.isServer then
        (unmaskImprecise8 0 header.length (masked ++ masked) (header ++ rest).length (header ++ rest)).drop header.length
      else (header ++ rest).drop header.length) = unmaskFrom (headerKey context header) 0 rest ∧
      Turned context
        (if context.isServer then rotateMask (4 - ((header ++ rest).length - header.length) % 4) masked else mask)
        (headerKey context header) rest.length := by
  cases server : context.isServer with
  | false => simp [Turned, server, headerKey]
  | true =>
    obtain ⟨copied, four⟩ := headerMask context header rest server whole
    have covers : rest.length ≤ (header ++ rest).length := by
      rw [List.length_append]
      omega
    have behind : (header ++ rest).length - header.length = rest.length := by
      rw [List.length_append]
      omega
    simp only [if_true, copied, behind, Turned, server]
    obtain ⟨still, turned⟩ := TurnedTo.start four rest.length
    exact ⟨unmaskImprecise8_received header rest _ _ four covers, still, turned⟩

theorem consumeMessage_follows (header rest : Bytes) (socket : Socket ι) (wants : socket.state.wantsHead = true)
    (open_ : socket.data.isShuttingDown = false) (whole : header.length = headerLength context header)  :
    let started := startFrame context header (rest.take (payLength header)) socket.state.toOpStack socket.data
    FrameTaken context started.1 started.2 rest (payLength header)
      (consumeMessage context header.length (payLength header) (header ++ rest) socket) := by
  have two : 2 ≤ header.length := by
    have := two_le_short context
    have := short_le_header context header
    omega
  simp only [consumeMessage, startFrame, openFrame_append header rest two, isFin_append header rest two]
  cases opened : socket.state.openFrame header with
  | none => exact .stopped _ (.closed _ rfl) (.inl rfl)
  | some stack =>
    simp only
    by_cases refused : refusePayloadLength context (payLength header) = true
    · rw [if_pos refused, if_pos refused]
      exact .stopped _ (.closed _ rfl) (.inl rfl)
    · rw [if_neg refused, if_neg refused]
      rw [refusePayloadLength_iff, not_lt] at refused
      by_cases within : payLength header ≤ rest.length
      · have enough : payLength header + header.length ≤ (header ++ rest).length := by
          rw [List.length_append]
          omega
        obtain ⟨payload, left⟩ := wholePayload context header rest (payLength header) within whole
        simp only [enough, if_true, payload, left, List.length_take_of_le within, Nat.sub_self]
        have closes := handleFragment_open context (unmaskFrom (headerKey context header) 0 (rest.take (payLength header))) 0
          (OpStack.currentOpCode { stack with lastFin := isFin header }) (isFin header) socket.data open_
        rw [deliver]
        generalize handleFragment context (unmaskFrom (headerKey context header) 0 (rest.take (payLength header))) 0
          (OpStack.currentOpCode { stack with lastFin := isFin header }) (isFin header) socket.data = result at closes ⊢
        obtain ⟨data, events, broken⟩ := result
        cases broken with
        | true => exact .stopped _ (.closed _ closes) (.inl rfl)
        | false =>
          simp only [behind, Bool.false_eq_true, if_false, if_true]
          exact .whole _ wants closes rfl rfl within
      · have less : rest.length < payLength header := Nat.lt_of_not_le within
        have short : ¬ payLength header + header.length ≤ (header ++ rest).length := by
          rw [List.length_append]
          omega
        have bounded := context.bounded
        have remaining : (payLength header + header.length - (header ++ rest).length) % 2 ^ 32 =
            payLength header - rest.length := by
          rw [List.length_append, Nat.mod_eq_of_lt (by omega)]
          omega
        have more : payLength header - rest.length ≠ 0 := by omega
        obtain ⟨payload, turned⟩ := partialPayload context header rest socket.state.mask whole
        simp only [if_neg short, payload, remaining, List.take_of_length_le (Nat.le_of_lt less)]
        have closes := handleFragment_open context (unmaskFrom (headerKey context header) 0 rest)
          (payLength header - rest.length) (OpStack.currentOpCode { stack with lastFin := isFin header }) (isFin header)
          socket.data open_
        rw [deliver]
        generalize handleFragment context (unmaskFrom (headerKey context header) 0 rest) (payLength header - rest.length)
          (OpStack.currentOpCode { stack with lastFin := isFin header }) (isFin header) socket.data = result at closes ⊢
        obtain ⟨data, events, broken⟩ := result
        cases broken with
        | true => exact .stopped _ (.closed _ closes) (.inl rfl)
        | false =>
          simp only [behind, Bool.false_eq_true, if_false, if_neg more]
          have fits : payLength header - rest.length ≤ context.maxPayloadLength := by omega
          exact .stopped _ (.payload _ _ _ _ _ _ rfl rfl rfl rfl closes rfl (Nat.pos_of_ne_zero more) fits turned) (.inr less)

theorem Turned.unmask {mask key : Bytes} {position : Nat} (turned : Turned context mask key position)
    (server : context.isServer = true) (data : Bytes) : unmaskFrom mask 0 data = unmaskFrom key position data := by
  rw [Turned, if_pos server] at turned
  rw [turned.2 0 data, Nat.add_zero]

theorem Turned.four {mask key : Bytes} {position : Nat} (turned : Turned context mask key position)
    (server : context.isServer = true) : mask.length = 4 := by
  rw [Turned, if_pos server] at turned
  exact turned.1

theorem Turned.key_nil {mask key : Bytes} {position : Nat} (turned : Turned context mask key position)
    (client : context.isServer = false) : key = [] := by
  rw [Turned, client] at turned
  exact turned

theorem restPayload (src mask key : Bytes) (position left : Nat) (turned : Turned context mask key position)
    (within : left ≤ src.length) :
    let unmasked :=
      if context.isServer then
        let rounds := unmaskInplace (left / 4) src mask
        store rounds (left / 4 * 4) (xorChunk ((rounds.drop (left / 4 * 4)).take (left % 4)) mask)
      else src
    unmasked.take left = unmaskFrom key position (src.take left) ∧ unmasked.drop left = src.drop left := by
  cases server : context.isServer with
  | false =>
    have none := turned.key_nil context server
    subst none
    simp
  | true =>
    simp only [if_true]
    rw [← turned.unmask context server]
    exact unmaskInplace_tail (turned.four context server) left src within

theorem fullPayload (src mask key : Bytes) (position : Nat) (turned : Turned context mask key position) :
    (if context.isServer ∧ mask ≠ [0, 0, 0, 0] then
        if recvBufferLength = src.length then unmaskAll src mask else unmaskInplace (src.length / 4 + 1) src mask
      else src) = unmaskFrom key position src := by
  cases server : context.isServer with
  | false =>
    have none := turned.key_nil context server
    subst none
    simp
  | true =>
    rw [← turned.unmask context server]
    by_cases zero : mask = [0, 0, 0, 0]
    · rw [if_neg (fun both => both.2 zero), zero, unmaskFrom_zero]
    · rw [if_pos ⟨rfl, zero⟩]
      split
      · rename_i full
        exact unmaskAll_eq mask src full.symm
      · rw [unmaskInplace_eq (turned.four context server), List.take_of_length_le (by omega),
          List.drop_eq_nil_of_le (by omega), List.append_nil]

theorem Turned.turn {mask key : Bytes} {position : Nat} (turned : Turned context mask key position) (length : Nat)
    (broken : Bool) (going : broken = false) :
    Turned context (if !broken ∧ context.isServer ∧ length % 4 ≠ 0 then rotateMask (4 - length % 4) mask else mask) key
      (position + length) := by
  subst going
  unfold Turned at turned ⊢
  cases server : context.isServer with
  | false =>
    rw [server] at turned
    simpa using turned
  | true =>
    rw [server, if_pos rfl] at turned
    have at_ : TurnedTo key position mask := ⟨turned.1, turned.2⟩
    rw [if_pos rfl]
    by_cases turns : length % 4 ≠ 0
    · rw [if_pos ⟨rfl, rfl, turns⟩]
      obtain ⟨four, same⟩ := at_.rotate length
      exact ⟨four, same⟩
    · rw [if_neg (fun all => turns all.2.2)]
      obtain ⟨four, same⟩ := at_.whole (Decidable.not_not.mp turns)
      exact ⟨four, same⟩

theorem consumeContinuation_follows (src key : Bytes) (position : Nat) (socket : Socket ι)
    (wants : socket.state.wantsHead = false) (open_ : socket.data.isShuttingDown = false) (none : socket.state.spill = [])
    (small : socket.state.remainingBytes ≤ context.maxPayloadLength)
    (turned : Turned context socket.state.mask key position) :
    let used := src.take socket.state.remainingBytes
    let taken := deliver context (unmaskFrom key position used) (socket.state.remainingBytes - used.length) key
      (position + used.length) socket.state.toOpStack socket.data
    FrameTaken context taken.1 taken.2 src socket.state.remainingBytes (consumeContinuation context src socket) := by
  simp only [consumeContinuation]
  by_cases within : socket.state.remainingBytes ≤ src.length
  · obtain ⟨payload, left⟩ := restPayload context src socket.state.mask key position _ turned within
    simp only [within, if_true, payload, left, List.length_take_of_le within, Nat.sub_self]
    have closes := handleFragment_open context (unmaskFrom key position (src.take socket.state.remainingBytes)) 0
      socket.state.currentOpCode socket.state.lastFin socket.data open_
    rw [deliver]
    generalize handleFragment context (unmaskFrom key position (src.take socket.state.remainingBytes)) 0
      socket.state.currentOpCode socket.state.lastFin socket.data = result at closes ⊢
    obtain ⟨data, events, broken⟩ := result
    cases broken with
    | true => exact .stopped _ (.closed _ closes) (.inl rfl)
    | false =>
      simp only [behind, Bool.false_eq_true, if_false, if_true]
      exact .whole _ rfl closes none rfl within
  · have less : src.length < socket.state.remainingBytes := Nat.lt_of_not_le within
    have more : socket.state.remainingBytes - src.length ≠ 0 := by omega
    have payload := fullPayload context src socket.state.mask key position turned
    simp only [within, if_false, payload, List.take_of_length_le (Nat.le_of_lt less)]
    have closes := handleFragment_open context (unmaskFrom key position src) (socket.state.remainingBytes - src.length)
      socket.state.currentOpCode socket.state.lastFin socket.data open_
    have turns := turned.turn context src.length
      (handleFragment context (unmaskFrom key position src) (socket.state.remainingBytes - src.length)
        socket.state.currentOpCode socket.state.lastFin socket.data).2.2
    rw [deliver]
    generalize handleFragment context (unmaskFrom key position src) (socket.state.remainingBytes - src.length)
      socket.state.currentOpCode socket.state.lastFin socket.data = result at closes turns ⊢
    obtain ⟨data, events, broken⟩ := result
    cases broken with
    | true => exact .stopped _ (.closed _ closes) (.inl rfl)
    | false =>
      simp only [behind, Bool.false_eq_true, if_false, if_neg more]
      have fits : socket.state.remainingBytes - src.length ≤ context.maxPayloadLength := by omega
      exact .stopped _ (.payload _ _ _ _ _ _ rfl rfl rfl wants closes none (Nat.pos_of_ne_zero more) fits (turns rfl))
        (.inr less)

def parseBehind (fuel : Nat) (consumed : Socket ι × List Event × Option Bytes) : Socket ι × List Event :=
  match consumed with
  | (socket, events, none) => (socket, events)
  | (socket, events, some rest) =>
    ((parseNext context fuel rest socket).1, events ++ (parseNext context fuel rest socket).2)

/-- The parser follows the phases from the start of a header to the end of the read. -/
def Follows (fuel : Nat) (src : Bytes) (socket : Socket ι) : Prop :=
  let final := run (step context) (.head [] false socket.state.toOpStack socket.data) (src.map some ++ [none])
  Holds context final.1 (parseNext context fuel src socket).1 ∧ final.2 = (parseNext context fuel src socket).2

theorem Holds.cut {phase : FramePhase ι} {socket : Socket ι} (holds : Holds context phase socket) :
    Holds context (step context phase none).1 socket ∧ (step context phase none).2 = [] := by
  cases holds with
  | head read again stack data _ spilled frames same wants open_ begun checked =>
    exact ⟨.head _ _ _ _ _ spilled frames same wants open_ begun rfl, rfl⟩
  | payload left key position stack data _ remaining frames same wants open_ none some small turned =>
    exact ⟨.payload _ _ _ _ _ _ remaining frames same wants open_ none some small turned, rfl⟩
  | closed _ ended => exact ⟨.closed _ ended, rfl⟩

theorem FrameTaken.follows {phase : FramePhase ι} {events : List Event} {rest : Bytes} {length fuel : Nat}
    {consumed : Socket ι × List Event × Option Bytes} (taken : FrameTaken context phase events rest length consumed)
    (enough : (rest.drop length).length ≤ fuel)
    (later : ∀ (src : Bytes) (socket : Socket ι), src.length ≤ fuel → socket.state.wantsHead = true →
      socket.data.isShuttingDown = false → socket.state.spill = [] → Follows context fuel src socket) :
    let final := run (step context) phase ((rest.drop length).map some ++ [none])
    Holds context final.1 (parseBehind context fuel consumed).1 ∧
      events ++ final.2 = (parseBehind context fuel consumed).2 := by
  cases taken with
  | stopped socket holds ended =>
    rcases ended with closed | less
    · subst closed
      rw [run_closed]
      exact ⟨holds, List.append_nil _⟩
    · rw [List.drop_eq_nil_of_le (Nat.le_of_lt less)]
      obtain ⟨held, silent⟩ := holds.cut
      simp only [List.map_nil, List.nil_append, run_cons, run_nil, silent, List.append_nil]
      exact ⟨held, rfl⟩
  | whole socket wants open_ none next within =>
    subst next
    obtain ⟨held, outputs⟩ := later (rest.drop length) socket enough wants open_ none
    exact ⟨held, by rw [outputs]; rfl⟩

theorem spillRest_follows (src : Bytes) (again : Bool) (data : WebSocketData ι) (socket : Socket ι)
    (wants : socket.state.wantsHead = true) (open_ : data.isShuttingDown = false)
    (none : src = [] → socket.state.spill = []) (begun : Begun context src data)
    (checked : again = decide (shortMessageHeader context.isServer ≤ src.length)) (same : socket.data = data) :
    Holds context (.head src again socket.state.toOpStack data) (spillRest src socket) := by
  unfold spillRest
  by_cases empty : src = []
  · rw [if_neg (by simp [empty])]
    exact .head _ _ _ _ _ (by rw [none empty, empty]) rfl same wants open_ begun checked
  · have some : src.length ≠ 0 := fun zero => empty (List.eq_nil_of_length_eq_zero zero)
    have small : src.length < 16 := by
      have long : headerLength context src ≤ 14 := by
        unfold headerLength shortMessageHeader mediumMessageHeader longMessageHeader
        repeat' split
        all_goals omega
      have least := short_le_header context src
      rcases begun with short | ⟨-, inside, -⟩
      · omega
      · omega
    rw [if_pos some]
    exact .head _ _ _ _ _ (by rw [Nat.mod_eq_of_lt small, List.take_length]) rfl same wants open_ begun checked

theorem payLength_append (header rest : Bytes) (whole : header.length = headerLength context header) :
    payLength (header ++ rest) = payLength header := by
  have two : 2 ≤ header.length := by
    have := two_le_short context
    have := short_le_header context header
    omega
  have same := payloadLength_append header rest two
  unfold payLength
  rw [same]
  split
  · rfl
  · rename_i long
    split
    · rename_i medium
      have four : 4 ≤ header.length := by
        rw [whole, headerLength, if_neg long, if_pos medium, mediumMessageHeader]
        split <;> omega
      rw [List.drop_append_of_le_length two, List.take_append_of_le_length (by rw [List.length_drop]; omega)]
    · rename_i other
      have ten : 10 ≤ header.length := by
        rw [whole, headerLength, if_neg long, if_neg other, longMessageHeader]
        split <;> omega
      rw [List.drop_append_of_le_length two, List.take_append_of_le_length (by rw [List.length_drop]; omega)]

theorem parseFrame_follows (header rest : Bytes) (fuel : Nat) (socket : Socket ι) (wants : socket.state.wantsHead = true)
    (open_ : socket.data.isShuttingDown = false) (whole : header.length = headerLength context header)
    (enough : rest.length ≤ fuel)
    (later : ∀ (src : Bytes) (socket : Socket ι), src.length ≤ fuel → socket.state.wantsHead = true →
      socket.data.isShuttingDown = false → socket.state.spill = [] → Follows context fuel src socket) :
    let started := startFrame context header [] socket.state.toOpStack socket.data
    let final := run (step context) started.1 (rest.map some ++ [none])
    let parsed := parseBehind context fuel (consumeMessage context header.length (payLength header) (header ++ rest) socket)
    Holds context final.1 parsed.1 ∧ started.2 ++ final.2 = parsed.2 := by
  have split : rest.map some ++ [none] =
      (rest.take (payLength header)).map some ++ ((rest.drop (payLength header)).map some ++ [none]) := by
    rw [← List.append_assoc, ← List.map_append, List.take_append_drop]
  have payload := run_startFrame context header (rest.take (payLength header)) socket.state.toOpStack socket.data
    (by rw [List.length_take]; omega)
  have taken := consumeMessage_follows context header rest socket wants open_ whole
  simp only at payload taken ⊢
  rw [← payload] at taken
  obtain ⟨held, outputs⟩ := taken.follows context (by rw [List.length_drop]; omega) later
  rw [split, run_append]
  refine ⟨held, ?_⟩
  rw [← outputs, List.append_assoc]

theorem parseNext_short (fuel : Nat) (src : Bytes) (socket : Socket ι)
    (short : src.length < shortMessageHeader context.isServer) :
    parseNext context fuel src socket = (spillRest src socket, []) := by
  cases fuel with
  | zero => rfl
  | succ fuel => rw [parseNext, if_pos short]

theorem parseNext_refused (fuel : Nat) (src : Bytes) (socket : Socket ι)
    (long : shortMessageHeader context.isServer ≤ src.length) (refused : (checkHeader context src socket.data).1 = true) :
    (parseNext context (fuel + 1) src socket).1.data.isShuttingDown = true ∧
      (parseNext context (fuel + 1) src socket).2 = [.forceClose errProtocol] := by
  simp only [parseNext, if_neg (Nat.not_lt.mpr long), refused, if_true, forceClose, and_self]

theorem parseNext_begun (fuel : Nat) (src : Bytes) (socket : Socket ι)
    (long : shortMessageHeader context.isServer ≤ src.length) (fine : (checkHeader context src socket.data).1 = false)
    (begun : src.length < headerLength context src) :
    parseNext context (fuel + 1) src socket =
      (spillRest src { socket with data := (checkHeader context src socket.data).2 }, []) := by
  simp only [parseNext, if_neg (Nat.not_lt.mpr long), fine, Bool.false_eq_true, if_false]
  unfold headerLength at begun
  by_cases small : payloadLength src < 126
  · rw [if_pos small] at begun
    omega
  · rw [if_neg small] at begun
    by_cases medium : payloadLength src = 126
    · rw [if_pos medium] at begun
      simp only [if_neg small, if_pos medium, if_pos begun]
    · rw [if_neg medium] at begun
      simp only [if_neg small, if_neg medium, if_pos begun]

theorem parseNext_frame (fuel : Nat) (src : Bytes) (socket : Socket ι)
    (whole : headerLength context src ≤ src.length) (fine : (checkHeader context src socket.data).1 = false) :
    parseNext context (fuel + 1) src socket =
      parseBehind context fuel (consumeMessage context (headerLength context src) (payLength src) src
        { socket with data := (checkHeader context src socket.data).2 }) := by
  have long := Nat.le_trans (short_le_header context src) whole
  simp only [parseNext, if_neg (Nat.not_lt.mpr long), fine, Bool.false_eq_true, if_false]
  unfold headerLength payLength
  unfold headerLength at whole
  by_cases small : payloadLength src < 126
  · simp only [if_pos small]
    rcases consumeMessage context _ _ _ _ with ⟨next, events, _ | rest⟩ <;> rfl
  · rw [if_neg small] at whole
    by_cases medium : payloadLength src = 126
    · rw [if_pos medium] at whole
      simp only [if_neg small, if_pos medium, if_neg (Nat.not_lt.mpr whole)]
      rcases consumeMessage context _ _ _ _ with ⟨next, events, _ | rest⟩ <;> rfl
    · rw [if_neg medium] at whole
      simp only [if_neg small, if_neg medium, if_neg (Nat.not_lt.mpr whole)]
      rcases consumeMessage context _ _ _ _ with ⟨next, events, _ | rest⟩ <;> rfl

theorem run_headerEnd (read data : Bytes) (stack : OpStack) (socket : WebSocketData ι) (more : data ≠ [])
    (quiet : Quiet context read data.dropLast) :
    run (step context) (.head read false stack socket) (data.map some) = headByte context (read ++ data) stack socket := by
  have split := List.dropLast_append_getLast more
  have header := run_header context read data.dropLast (data.getLast more) stack socket quiet
  rw [split] at header
  exact header

theorem run_check (src : Bytes) (stack : OpStack) (socket : WebSocketData ι)
    (long : shortMessageHeader context.isServer ≤ src.length) :
    run (step context) (.head [] false stack socket) ((src.take (shortMessageHeader context.isServer)).map some) =
      headByte context (src.take (shortMessageHeader context.isServer)) stack socket := by
  have two := two_le_short context
  have size : (src.take (shortMessageHeader context.isServer)).length = shortMessageHeader context.isServer :=
    List.length_take_of_le long
  apply run_headerEnd context []
  · intro none
    rw [none, List.length_nil] at size
    omega
  · left
    rw [List.nil_append, List.length_dropLast, size]
    omega

theorem headByte_fine (header : Bytes) (stack : OpStack) (socket : WebSocketData ι)
    (size : header.length = shortMessageHeader context.isServer) (fine : (checkHeader context header socket).1 = false) :
    headByte context header stack socket =
      if payloadLength header < 126 then startFrame context header [] stack (checkHeader context header socket).2
      else (.head header false stack (checkHeader context header socket).2, []) := by
  simp only [headByte, size, if_true, fine, Bool.false_eq_true, if_false]

theorem checkHeader_open (src : Bytes) (socket : WebSocketData ι) :
    (checkHeader context src socket).2.isShuttingDown = socket.isShuttingDown := by
  simp only [checkHeader, setCompressed]
  split
  · split <;> rfl
  · rfl

theorem checkHeader_fine {src : Bytes} {socket : WebSocketData ι} (fine : (checkHeader context src socket).1 = false) :
    invalidHeader context src = false ∧
      (rsv1 src = true → (checkHeader context src socket).2.compressionStatus = .compressedFrame) := by
  unfold checkHeader at fine ⊢
  cases compressed : rsv1 src with
  | false =>
    simp only [compressed, Bool.false_eq_true, if_false, Bool.not_true, Bool.false_or] at fine ⊢
    exact ⟨fine, nofun⟩
  | true =>
    simp only [compressed, if_true, setCompressed] at fine ⊢
    by_cases enabled : socket.compressionStatus = .enabled
    · simp only [if_pos enabled, Bool.not_true, Bool.false_or] at fine ⊢
      exact ⟨fine, fun _ => True.intro⟩
    · simp only [if_neg enabled, Bool.not_false, Bool.true_or] at fine
      cases fine

theorem run_wholeHeader (src : Bytes) (stack : OpStack) (socket : WebSocketData ι)
    (whole : headerLength context src ≤ src.length) (fine : (checkHeader context src socket).1 = false) :
    run (step context) (.head [] false stack socket) ((src.take (headerLength context src)).map some) =
      startFrame context (src.take (headerLength context src)) [] stack (checkHeader context src socket).2 := by
  have two := two_le_short context
  have least := short_le_header context src
  have long := Nat.le_trans least whole
  have size : (src.take (shortMessageHeader context.isServer)).length = shortMessageHeader context.isServer :=
    List.length_take_of_le long
  have length : (src.take (headerLength context src)).length = headerLength context src := List.length_take_of_le whole
  have parts := List.take_append_drop (shortMessageHeader context.isServer) src
  have checked := checkHeader_append context (src.take (shortMessageHeader context.isServer))
    (src.drop (shortMessageHeader context.isServer)) (by omega) socket
  have same := payloadLength_append (src.take (shortMessageHeader context.isServer))
    (src.drop (shortMessageHeader context.isServer)) (by omega)
  have short := run_check context src stack socket long
  rw [parts] at checked same
  rw [headByte_fine context _ stack socket size (checked ▸ fine), ← checked, ← same] at short
  by_cases small : payloadLength src < 126
  · rw [if_pos small] at short
    have all : headerLength context src = shortMessageHeader context.isServer := by rw [headerLength, if_pos small]
    rw [all]
    exact short
  · rw [if_neg small] at short
    have more : shortMessageHeader context.isServer < headerLength context src := by
      rw [headerLength, if_neg small, shortMessageHeader, mediumMessageHeader, longMessageHeader]
      cases context.isServer <;> simp only [Bool.false_eq_true, if_false, if_true] <;> split <;> omega
    have split : src.take (headerLength context src) = src.take (shortMessageHeader context.isServer) ++
        (src.drop (shortMessageHeader context.isServer)).take (headerLength context src - shortMessageHeader context.isServer) := by
      rw [← List.take_add]
      congr 1
      omega
    have rest : ((src.drop (shortMessageHeader context.isServer)).take
        (headerLength context src - shortMessageHeader context.isServer)).length =
          headerLength context src - shortMessageHeader context.isServer := by
      rw [List.length_take, List.length_drop]
      omega
    have lengths := headerLength_append context (src.take (shortMessageHeader context.isServer))
      (src.drop (shortMessageHeader context.isServer)) (by omega)
    rw [parts] at lengths
    have quiet : Quiet context (src.take (shortMessageHeader context.isServer))
        ((src.drop (shortMessageHeader context.isServer)).take
          (headerLength context src - shortMessageHeader context.isServer)).dropLast := by
      right
      rw [← lengths]
      simp only [List.length_append, List.length_dropLast, size, rest]
      omega
    have nonempty : (src.drop (shortMessageHeader context.isServer)).take
        (headerLength context src - shortMessageHeader context.isServer) ≠ [] := by
      intro none
      rw [none, List.length_nil] at rest
      omega
    have taken := headerLength_append context (src.take (headerLength context src)) (src.drop (headerLength context src))
      (by omega)
    rw [List.take_append_drop] at taken
    rw [split, List.map_append, run_append, short,
      run_headerEnd context _ _ stack (checkHeader context src socket).2 nonempty quiet, ← split, headByte, length,
      if_neg (by omega), if_pos taken]
    simp

theorem parseNext_follows (fuel : Nat) (src : Bytes) (socket : Socket ι) (enough : src.length ≤ fuel)
    (wants : socket.state.wantsHead = true) (open_ : socket.data.isShuttingDown = false)
    (none : src = [] → socket.state.spill = []) : Follows context fuel src socket := by
  induction fuel generalizing src socket with
  | zero =>
    have empty : src = [] := List.eq_nil_of_length_eq_zero (by omega)
    have two := two_le_short context
    subst empty
    refine ⟨?_, rfl⟩
    exact spillRest_follows context [] _ _ _ wants open_ none (.inl (by simp only [List.length_nil]; omega)) rfl rfl
  | succ fuel ih =>
    unfold Follows
    by_cases short : src.length < shortMessageHeader context.isServer
    · rw [parseNext_short context _ src socket short, run_append, run_quiet context [] src _ _ (.inl short)]
      refine ⟨?_, rfl⟩
      exact spillRest_follows context src _ _ _ wants open_ none (.inl short) rfl rfl
    · have long := Nat.not_lt.mp short
      have two := two_le_short context
      have size : (src.take (shortMessageHeader context.isServer)).length = shortMessageHeader context.isServer :=
        List.length_take_of_le long
      have parts := List.take_append_drop (shortMessageHeader context.isServer) src
      have checked := checkHeader_append context (src.take (shortMessageHeader context.isServer))
        (src.drop (shortMessageHeader context.isServer)) (by omega) socket.data
      have header := run_check context src socket.state.toOpStack socket.data long
      have split : src.map some ++ [Option.none] = (src.take (shortMessageHeader context.isServer)).map some ++
          ((src.drop (shortMessageHeader context.isServer)).map some ++ [Option.none]) := by
        rw [← List.append_assoc, ← List.map_append, parts]
      rw [parts] at checked
      cases fine : (checkHeader context src socket.data).1 with
      | true =>
        obtain ⟨closed, events⟩ := parseNext_refused context fuel src socket long fine
        have refused : headByte context (src.take (shortMessageHeader context.isServer)) socket.state.toOpStack socket.data =
            (.closed, [.forceClose errProtocol]) := by
          rw [checked] at fine
          simp only [headByte, size, if_true, fine]
        rw [split, run_append, header, refused, run_closed]
        exact ⟨.closed _ closed, events.symm⟩
      | false =>
        have live := (checkHeader_open context src socket.data).trans open_
        obtain ⟨valid, compressed⟩ := checkHeader_fine context fine
        have behind := headByte_fine context (src.take (shortMessageHeader context.isServer)) socket.state.toOpStack
          socket.data size (checked ▸ fine)
        have same := payloadLength_append (src.take (shortMessageHeader context.isServer))
          (src.drop (shortMessageHeader context.isServer)) (by omega)
        rw [parts] at same
        rw [← checked, ← same] at behind
        have later : ∀ (src : Bytes) (socket : Socket ι), src.length ≤ fuel → socket.state.wantsHead = true →
            socket.data.isShuttingDown = false → socket.state.spill = [] → Follows context fuel src socket :=
          fun src socket enough wants open_ none => ih src socket enough wants open_ (fun _ => none)
        by_cases begun : src.length < headerLength context src
        · have large : ¬ payloadLength src < 126 := by
            intro small
            rw [headerLength, if_pos small] at begun
            omega
          have quiet : Quiet context (src.take (shortMessageHeader context.isServer))
              (src.drop (shortMessageHeader context.isServer)) := by
            right
            have lengths := headerLength_append context (src.take (shortMessageHeader context.isServer))
              (src.drop (shortMessageHeader context.isServer)) (by omega)
            rw [parts] at lengths ⊢
            exact ⟨Nat.le_of_eq size.symm, lengths ▸ begun⟩
          rw [if_neg large] at behind
          rw [parseNext_begun context fuel src socket long fine begun, split, run_append, header, behind, run_append,
            run_quiet context _ _ _ _ quiet, parts]
          refine ⟨?_, rfl⟩
          exact spillRest_follows context src _ (checkHeader context src socket.data).2
            { socket with data := (checkHeader context src socket.data).2 } wants live none
            (.inr ⟨long, begun, valid, compressed⟩) rfl rfl
        · have whole := Nat.not_lt.mp begun
          have ended := run_wholeHeader context src socket.state.toOpStack socket.data whole fine
          have length : (src.take (headerLength context src)).length = headerLength context src := List.length_take_of_le whole
          have joined := List.take_append_drop (headerLength context src) src
          have least := short_le_header context src
          have lengths := headerLength_append context (src.take (headerLength context src))
            (src.drop (headerLength context src)) (by omega)
          rw [joined] at lengths
          have pays := payLength_append context (src.take (headerLength context src)) (src.drop (headerLength context src))
            (length.trans lengths)
          rw [joined] at pays
          have followed := parseFrame_follows context (src.take (headerLength context src))
            (src.drop (headerLength context src)) fuel { socket with data := (checkHeader context src socket.data).2 } wants
            live (length.trans lengths) (by rw [List.length_drop]; omega) later
          have spread : src.map some ++ [Option.none] = (src.take (headerLength context src)).map some ++
              ((src.drop (headerLength context src)).map some ++ [Option.none]) := by
            rw [← List.append_assoc, ← List.map_append, joined]
          rw [joined, length, ← pays] at followed
          rw [parseNext_frame context fuel src socket whole fine, spread, run_append, ended]
          exact followed

theorem run_begun (read : Bytes) (stack : OpStack) (socket : WebSocketData ι) (begun : Begun context read socket)
    (plain : read.length < shortMessageHeader context.isServer ∨ rsv1 read = false) :
    run (step context) (.head [] false stack socket) (read.map some) = (.head read false stack socket, []) := by
  have two := two_le_short context
  rcases begun with short | ⟨long, inside, valid, -⟩
  · exact run_quiet context [] read stack socket (.inl short)
  · have single : rsv1 read = false := plain.resolve_left (by omega)
    have size : (read.take (shortMessageHeader context.isServer)).length = shortMessageHeader context.isServer :=
      List.length_take_of_le long
    have parts := List.take_append_drop (shortMessageHeader context.isServer) read
    have checked := checkHeader_append context (read.take (shortMessageHeader context.isServer))
      (read.drop (shortMessageHeader context.isServer)) (by omega) socket
    have same := payloadLength_append (read.take (shortMessageHeader context.isServer))
      (read.drop (shortMessageHeader context.isServer)) (by omega)
    have lengths := headerLength_append context (read.take (shortMessageHeader context.isServer))
      (read.drop (shortMessageHeader context.isServer)) (by omega)
    rw [parts] at checked same lengths
    have kept : checkHeader context read socket = (false, socket) := by
      simp only [checkHeader, single, Bool.false_eq_true, if_false, valid, Bool.not_true, Bool.false_or]
    have large : ¬ payloadLength read < 126 := by
      intro small
      rw [headerLength, if_pos small] at inside
      omega
    have header := run_check context read stack socket long
    rw [headByte_fine context _ stack socket size (by rw [← checked, kept]), ← checked, ← same, if_neg large, kept] at header
    have quiet : Quiet context (read.take (shortMessageHeader context.isServer))
        (read.drop (shortMessageHeader context.isServer)) := by
      right
      rw [parts, ← lengths]
      exact ⟨Nat.le_of_eq size.symm, inside⟩
    have split : read.map some = (read.take (shortMessageHeader context.isServer)).map some ++
        (read.drop (shortMessageHeader context.isServer)).map some := by
      rw [← List.map_append, parts]
    rw [split, run_append, header, run_quiet context _ _ stack socket quiet, parts]
    rfl

theorem checkHeader_again {read : Bytes} {socket : WebSocketData ι} (src : Bytes) (two : 2 ≤ read.length)
    (compressed : rsv1 read = true) (status : socket.compressionStatus = .compressedFrame) :
    (checkHeader context (read ++ src) socket).1 = true := by
  rw [checkHeader_append context read src two]
  have other : socket.compressionStatus ≠ .enabled := by
    rw [status]
    nofun
  simp only [checkHeader, setCompressed, compressed, if_true, if_neg other, Bool.not_false, Bool.true_or]

theorem consumeRead_follows (phase : FramePhase ι) (socket : Socket ι) (src : Bytes) (arrived : src ≠ [])
    (holds : Holds context phase socket) :
    let final := run (step context) phase (src.map some ++ [none])
    Holds context final.1 (consumeRead context socket src).1 ∧ final.2 = (consumeRead context socket src).2 := by
  have two := two_le_short context
  cases holds with
  | closed _ ended =>
    rw [run_closed, consumeRead, if_pos ended]
    exact ⟨.closed _ ended, rfl⟩
  | payload left key position stack data _ remaining frames same wants open_ none some' small turned =>
    subst remaining frames same
    have going : ¬ socket.data.isShuttingDown = true := by simp [open_]
    have taken := consumeContinuation_follows context src key position socket wants open_ none small turned
    have used : src.take socket.state.remainingBytes ≠ [] := by
      intro empty
      have size := congrArg List.length empty
      have more : 0 < src.length := List.length_pos_of_ne_nil arrived
      rw [List.length_take, List.length_nil] at size
      omega
    have payload := run_payload context (src.take socket.state.remainingBytes) socket.state.remainingBytes key position
      socket.state.toOpStack socket.data used (by rw [List.length_take]; omega) small
    have split : src.map some ++ [Option.none] = (src.take socket.state.remainingBytes).map some ++
        ((src.drop socket.state.remainingBytes).map some ++ [Option.none]) := by
      rw [← List.append_assoc, ← List.map_append, List.take_append_drop]
    have later : ∀ (rest : Bytes) (socket' : Socket ι), rest.length ≤ (src.drop socket.state.remainingBytes).length →
        socket'.state.wantsHead = true → socket'.data.isShuttingDown = false → socket'.state.spill = [] →
        Follows context (src.drop socket.state.remainingBytes).length rest socket' :=
      fun rest socket' enough wants open_ none => parseNext_follows context _ rest socket' enough wants open_ (fun _ => none)
    have whole : consume context socket src =
        parseBehind context (src.drop socket.state.remainingBytes).length (consumeContinuation context src socket) := by
      simp only [consume, none, List.nil_append, wants, Bool.false_eq_true, if_false]
      generalize consumeContinuation context src socket = result at taken
      cases taken <;> rfl
    obtain ⟨held, outputs⟩ := taken.follows context (Nat.le_refl _) later
    rw [consumeRead, if_neg going, split, run_append, payload, whole]
    exact ⟨held, outputs⟩
  | head read again stack data _ spilled frames same wants open_ begun checked =>
    subst spilled frames same
    have going : ¬ socket.data.isShuttingDown = true := by simp [open_]
    have whole : consume context socket src =
        parseNext context (socket.state.spill ++ src).length (socket.state.spill ++ src) socket := by
      simp only [consume, wants, if_true]
    rw [consumeRead, if_neg going, whole]
    by_cases rechecked : shortMessageHeader context.isServer ≤ socket.state.spill.length ∧ rsv1 socket.state.spill = true
    · obtain ⟨long, compressed⟩ := rechecked
      have status : socket.data.compressionStatus = .compressedFrame := by
        rcases begun with short | ⟨-, -, -, status⟩
        · omega
        · exact status compressed
      cases src with
      | nil => exact absurd rfl arrived
      | cons b src =>
        have refused := checkHeader_again context (b :: src) (by omega) compressed status
        have size : (socket.state.spill ++ b :: src).length = (socket.state.spill.length + src.length) + 1 := by
          simp only [List.length_append, List.length_cons]
          omega
        obtain ⟨closed, events⟩ := parseNext_refused context (socket.state.spill.length + src.length)
          (socket.state.spill ++ b :: src) socket (by rw [size]; omega) refused
        rw [size, checked, List.map_cons, List.cons_append, run_cons, step, decide_eq_true long, Bool.true_and, compressed,
          if_pos rfl, run_closed]
        exact ⟨.closed _ closed, events.symm⟩
    · have plain : socket.state.spill.length < shortMessageHeader context.isServer ∨ rsv1 socket.state.spill = false := by
        by_cases long : shortMessageHeader context.isServer ≤ socket.state.spill.length
        · exact .inr (by simpa using fun compressed => rechecked ⟨long, compressed⟩)
        · exact .inl (Nat.lt_of_not_le long)
      have front := run_begun context socket.state.spill socket.state.toOpStack socket.data begun plain
      have followed := parseNext_follows context _ (socket.state.spill ++ src) socket (Nat.le_refl _) wants open_
        (fun none => absurd (List.append_eq_nil_iff.mp none).2 arrived)
      rw [Follows, List.map_append, List.append_assoc, run_append, front] at followed
      cases src with
      | nil => exact absurd rfl arrived
      | cons b src =>
        have silent : (again && rsv1 socket.state.spill) = false := by
          rw [checked]
          rcases plain with short | single
          · rw [decide_eq_false (by omega), Bool.false_and]
          · rw [single, Bool.and_false]
        rw [List.map_cons, List.cons_append, run_cons, step, Bool.false_and, if_neg Bool.false_ne_true] at followed
        rw [List.map_cons, List.cons_append, run_cons, step, silent, if_neg Bool.false_ne_true]
        exact followed

end Uws.WebSocket
