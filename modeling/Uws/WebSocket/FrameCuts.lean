import Uws.WebSocket.FrameReads
import Uws.WebSocket.PayloadBounds

/-! Which cuts of a stream into reads make a difference. -/

namespace Uws.WebSocket

open Uws.Http (Bytes)
open Uws.Machine FramePhase

variable {ι : Type} (context : WebSocketContextData ι)

/-- A frame that closes the socket with a protocol error, inside of a compressed message of which `buffered` bytes have
    come: for its flags, unless they are `checked`, or for its place. A fragment of the message that has room goes before
    without an event. -/
inductive Refused : Bool → OpStack → Nat → Bytes → Prop where
  | flags (stack : OpStack) (buffered : Nat) (bytes : Bytes) (long : shortMessageHeader context.isServer ≤ bytes.length)
      (bad : rsv1 bytes = true ∨ invalidHeader context bytes = true) : Refused false stack buffered bytes
  | place (checked : Bool) (stack : OpStack) (buffered : Nat) (bytes : Bytes)
      (whole : headerLength context bytes ≤ bytes.length) (misplaced : stack.openFrame bytes = none) :
      Refused checked stack buffered bytes
  | fragment (checked : Bool) (stack next : OpStack) (buffered : Nat) (header payload rest : Bytes)
      (whole : header.length = headerLength context header) (opened : stack.openFrame header = some next)
      (more : isFin header = false) (all : payload.length = payLength header)
      (room : buffered + payload.length ≤ context.maxPayloadLength)
      (behind : Refused false { next with lastFin := false } (buffered + payload.length) rest) :
      Refused checked stack buffered (header ++ payload ++ rest)

/-- The cuts that make a header refused: behind the first bytes of an extended-length header with RSV1. There, the frame
    has to be refused anyway. -/
def CutsRefused (perMessageDeflate : Bool) (stream : ι) (bytes : Bytes) : Prop :=
  ∀ front back, bytes = front ++ back → back ≠ [] → ∀ read stack socket,
    (run (step context) (startPhase perMessageDeflate stream) (front.map some)).1 = .head read false stack socket →
    shortMessageHeader context.isServer ≤ read.length → rsv1 read = true →
    Refused context true stack socket.fragmentBuffer.length (read ++ back)

section Fragments

variable (data : Bytes) (opCode : Nat) (socket : WebSocketData ι)

theorem tooBig_other : Event.forceClose errTooBigMessage ≠ .forceClose errProtocol := by decide

theorem handleFragment_part {left : Nat} (more : left ≠ 0) (fin : Bool) :
    (handleFragment context data left opCode fin socket).2.1 ≠ [.forceClose errProtocol] := by
  unfold handleFragment
  split
  · unfold handleData
    rw [if_neg fun all => more all.1]
    split
    · exact fun same => tooBig_other (List.singleton_inj.mp same)
    · simp only [more, false_and, if_false]
      exact List.cons_ne_nil _ _ ∘ Eq.symm
  · unfold handleControl
    rw [if_neg fun all => more all.1]
    simp only [more, false_and, if_false]
    exact List.cons_ne_nil _ _ ∘ Eq.symm

theorem emitMessage_event :
    ∃ event, (emitMessage context opCode data socket).2.1 = [event] ∧ event ≠ .forceClose errProtocol := by
  unfold emitMessage
  by_cases compressed : (socket.compressionStatus == .compressedFrame) = true
  · simp only [compressed, if_true]
    cases (context.inflate socket.inflationStream data).2 with
    | none => exact ⟨_, rfl, by decide⟩
    | some inflated =>
      simp only
      split
      · exact ⟨_, rfl, by decide⟩
      · exact ⟨_, rfl, Event.noConfusion⟩
  · simp only [compressed, Bool.false_eq_true, if_false]
    split
    · exact ⟨_, rfl, by decide⟩
    · exact ⟨_, rfl, Event.noConfusion⟩

theorem emitControl_event (known : opCode = closeCode ∨ opCode = pingCode ∨ opCode = pongCode) :
    ∃ event, (emitControl opCode data socket).2.1 = [event] ∧ event ≠ .forceClose errProtocol := by
  unfold emitControl
  rcases known with rfl | rfl | rfl
  · exact ⟨_, rfl, Event.noConfusion⟩
  · exact ⟨_, rfl, Event.noConfusion⟩
  · exact ⟨_, rfl, Event.noConfusion⟩

theorem handleFragment_final (known : opCode < 3 ∨ opCode = closeCode ∨ opCode = pingCode ∨ opCode = pongCode) :
    ∃ event, (handleFragment context data 0 opCode true socket).2.1 = [event] ∧ event ≠ .forceClose errProtocol := by
  unfold handleFragment
  split
  · unfold handleData
    split
    · exact emitMessage_event context data opCode socket
    · split
      · exact ⟨_, rfl, tooBig_other⟩
      · simp only [and_self, if_true]
        split
        · exact emitMessage_event ..
        · exact emitMessage_event ..
  · rename_i control
    have known := known.resolve_left control
    unfold handleControl
    split
    · exact emitControl_event data opCode socket known
    · simp only [and_self, if_true]
      split
      · exact emitControl_event _ _ _ known
      · exact emitControl_event _ _ _ known

theorem handleFragment_fragment (plain : opCode < 3) :
    handleFragment context data 0 opCode false socket =
      if socket.fragmentBuffer.length + data.length ≤ context.maxPayloadLength then
        ({ socket with fragmentBuffer := socket.fragmentBuffer ++ data }, [], false)
      else forceClose errTooBigMessage socket := by
  have limit := refusePayloadLength_iff context (data.length + socket.fragmentBuffer.length)
  unfold handleFragment handleData
  simp only [plain, if_true, Bool.false_eq_true, false_and, and_false, if_false]
  by_cases room : socket.fragmentBuffer.length + data.length ≤ context.maxPayloadLength
  · rw [if_pos room, if_neg fun refused => absurd (limit.mp refused) (by omega)]
  · rw [if_neg room, if_pos (limit.mpr (by omega))]

end Fragments

variable {stack : OpStack} {socket : WebSocketData ι}

theorem behind_events (left : Nat) (key : Bytes) (position : Nat) (stack : OpStack) (result : WebSocketData ι × List Event × Bool) :
    (behind left key position stack result).2 = result.2.1 := by
  unfold behind
  split
  · rfl
  · split <;> rfl

theorem opCode_known {header : Bytes} {next : OpStack} (between : Between stack) (valid : invalidHeader context header = false)
    (opened : stack.openFrame header = some next) :
    (next.currentOpCode < 3 ∨ next.currentOpCode = closeCode ∨ next.currentOpCode = pingCode ∨ next.currentOpCode = pongCode) ∧
      (isFin header = false → next.currentOpCode < 3 ∧ Between { next with lastFin := false }) := by
  simp only [invalidHeader, Bool.or_eq_false_iff, Bool.and_eq_false_iff, decide_eq_false_iff_not, Bool.not_eq_false_eq_eq_true] at valid
  obtain ⟨⟨⟨⟨-, reserved⟩, high⟩, control⟩, -⟩ := valid
  have fin : 3 ≤ getOpCode header → isFin header = true := by
    intro large
    rcases control with small | ⟨final, -⟩
    · omega
    · simpa using final
  obtain ⟨nested, some_, code⟩ := between.openFrame opened (isFin header) fin
  refine ⟨?_, ?_⟩
  · by_cases data : next.currentOpCode < 3
    · exact .inl data
    · have same := code (Nat.not_lt.mp data)
      right
      rw [same] at data ⊢
      rcases reserved with small | large
      · omega
      · unfold closeCode pingCode pongCode
        omega
  · intro more
    have data : next.currentOpCode < 3 := by
      by_contra large
      have final := fin (code (Nat.not_lt.mp large) ▸ Nat.not_lt.mp large)
      rw [more] at final
      cases final
    have popped := nested.popOpCode some_
    rw [more] at popped
    exact ⟨data, popped⟩

/-- What follows a valid header is a protocol error for its place, or the header is one of a fragment and the error comes
    behind it. -/
theorem started_refused {header : Bytes} (between : Between stack) (valid : invalidHeader context header = false) (data : Bytes) :
    (startFrame context header [] stack socket).2 ++
          (run (step context) (startFrame context header [] stack socket).1 (data.map some)).2 = [.forceClose errProtocol] ↔
      stack.openFrame header = none ∨ ∃ next, stack.openFrame header = some next ∧ isFin header = false ∧
        payLength header ≤ data.length ∧ socket.fragmentBuffer.length + payLength header ≤ context.maxPayloadLength ∧
        (run (step context) (.head [] false { next with lastFin := false }
          { socket with
            fragmentBuffer := socket.fragmentBuffer ++ unmaskFrom (headerKey context header) 0 (data.take (payLength header)) })
          ((data.drop (payLength header)).map some)).2 = [.forceClose errProtocol] := by
  have begins := run_startFrame context header (data.take (payLength header)) stack socket (List.length_take_le _ _)
  simp only [Prod.ext_iff] at begins
  obtain ⟨phase, events⟩ := begins
  have split : data.map some = (data.take (payLength header)).map some ++ (data.drop (payLength header)).map some := by
    rw [← List.map_append, List.take_append_drop]
  rw [split, run_append, phase, ← List.append_assoc, events]
  unfold startFrame
  cases opened : stack.openFrame header with
  | none => simp
  | some next =>
    obtain ⟨known, fragment⟩ := opCode_known context between valid opened
    have current : OpStack.currentOpCode { next with lastFin := isFin header } = next.currentOpCode := rfl
    simp only [false_or, Option.some.injEq, exists_eq_left', reduceCtorEq]
    by_cases large : refusePayloadLength context (payLength header) = true
    · rw [if_pos large, run_closed, List.append_nil]
      rw [refusePayloadLength_iff] at large
      refine iff_of_false (fun same => tooBig_other (List.singleton_inj.mp same)) ?_
      rintro ⟨-, -, room, -⟩
      omega
    · rw [if_neg large]
      by_cases whole : payLength header ≤ data.length
      · have size : (data.take (payLength header)).length = payLength header := List.length_take_of_le whole
        rw [size, Nat.sub_self]
        unfold deliver
        rw [current]
        generalize unmasked : unmaskFrom (headerKey context header) 0 (data.take (payLength header)) = payload
        have length : payload.length = payLength header := by rw [← unmasked, unmaskFrom_length, size]
        cases fin : isFin header with
        | true =>
          obtain ⟨event, only, other⟩ := handleFragment_final context payload _ socket known
          rw [behind_events, only]
          refine iff_of_false (fun same => other (List.cons_eq_cons.mp same).1) ?_
          rintro ⟨absurd_, -⟩
          cases absurd_
        | false =>
          rw [handleFragment_fragment context payload _ socket (fragment fin).1, length]
          by_cases room : socket.fragmentBuffer.length + payLength header ≤ context.maxPayloadLength
          · rw [if_pos room]
            simp [behind, OpStack.popOpCode, whole, room]
          · rw [if_neg room]
            rw [behind_events]
            exact iff_of_false (fun same => tooBig_other (List.cons_eq_cons.mp same).1) fun all => room all.2.2.1
      · have taken : data.take (payLength header) = data := List.take_of_length_le (by omega)
        have none : data.drop (payLength header) = [] := List.drop_of_length_le (by omega)
        rw [taken, none]
        refine iff_of_false ?_ fun all => whole all.2.1
        unfold deliver
        rw [behind_events, List.map_nil, run_nil, List.append_nil]
        exact handleFragment_part context _ _ _ (by omega) _

/-- The same where the frames behind a fragment are known to be refused as they should. -/
theorem started_refused_behind {header data : Bytes} (between : Between stack) (valid : invalidHeader context header = false)
    (status : socket.compressionStatus = .compressedFrame)
    (behind : ∀ (next : OpStack) (after : WebSocketData ι), Between next → after.compressionStatus = .compressedFrame →
      ((run (step context) (.head [] false next after) ((data.drop (payLength header)).map some)).2 =
          [.forceClose errProtocol] ↔
        Refused context false next after.fragmentBuffer.length (data.drop (payLength header)))) :
    (startFrame context header [] stack socket).2 ++
          (run (step context) (startFrame context header [] stack socket).1 (data.map some)).2 = [.forceClose errProtocol] ↔
      stack.openFrame header = none ∨ ∃ next, stack.openFrame header = some next ∧ isFin header = false ∧
        payLength header ≤ data.length ∧ socket.fragmentBuffer.length + payLength header ≤ context.maxPayloadLength ∧
        Refused context false { next with lastFin := false } (socket.fragmentBuffer.length + payLength header)
          (data.drop (payLength header)) := by
  rw [started_refused context between valid]
  apply or_congr_right
  apply exists_congr
  intro next
  apply and_congr_right
  intro opened
  apply and_congr_right
  intro more
  apply and_congr_right
  intro all
  apply and_congr_right
  intro _
  refine (behind _ _ ((opCode_known context between valid opened).2 more).2 ?_).trans ?_
  · exact status
  · rw [List.length_append, unmaskFrom_length, List.length_take_of_le all]

theorem refused_cases {checked : Bool} {buffered : Nat} {bytes : Bytes} :
    Refused context checked stack buffered bytes ↔
      (checked = false ∧ shortMessageHeader context.isServer ≤ bytes.length ∧
          (rsv1 bytes = true ∨ invalidHeader context bytes = true)) ∨
        headerLength context bytes ≤ bytes.length ∧
          (stack.openFrame (bytes.take (headerLength context bytes)) = none ∨
            ∃ next, stack.openFrame (bytes.take (headerLength context bytes)) = some next ∧
              isFin (bytes.take (headerLength context bytes)) = false ∧
              payLength (bytes.take (headerLength context bytes)) ≤ (bytes.drop (headerLength context bytes)).length ∧
              buffered + payLength (bytes.take (headerLength context bytes)) ≤ context.maxPayloadLength ∧
              Refused context false { next with lastFin := false } (buffered + payLength (bytes.take (headerLength context bytes)))
                ((bytes.drop (headerLength context bytes)).drop (payLength (bytes.take (headerLength context bytes))))) := by
  have two := two_le_short context
  constructor
  · intro refused
    cases refused with
    | flags _ _ _ long bad => exact .inl ⟨rfl, long, bad⟩
    | place _ _ _ _ whole misplaced =>
      have least := short_le_header context bytes
      have own := openFrame_append (bytes.take (headerLength context bytes)) (bytes.drop (headerLength context bytes))
        (by rw [List.length_take]; omega) stack
      rw [List.take_append_drop] at own
      exact .inr ⟨whole, .inl (own ▸ misplaced)⟩
    | fragment _ _ next _ header payload rest whole opened more all room behind =>
      have least := short_le_header context header
      have length : headerLength context (header ++ payload ++ rest) = header.length := by
        rw [List.append_assoc, headerLength_append context header _ (by omega), whole]
      refine .inr ⟨?_, .inr ⟨next, ?_⟩⟩
      · rw [length, List.append_assoc, List.length_append]
        omega
      · rw [length, List.append_assoc, List.take_left, List.drop_left, ← all, List.drop_left]
        refine ⟨opened, more, ?_, room, behind⟩
        rw [List.length_append]
        omega
  · rintro (⟨rfl, long, bad⟩ | ⟨whole, misplaced | ⟨next, opened, more, all, room, behind⟩⟩)
    · exact .flags _ _ _ long bad
    · have least := short_le_header context bytes
      have own := openFrame_append (bytes.take (headerLength context bytes)) (bytes.drop (headerLength context bytes))
        (by rw [List.length_take]; omega) stack
      rw [List.take_append_drop] at own
      exact .place _ _ _ _ whole (own.trans misplaced)
    · have least := short_le_header context bytes
      have taken := List.length_take_of_le whole
      have length := headerLength_append context (bytes.take (headerLength context bytes))
        (bytes.drop (headerLength context bytes)) (by omega)
      rw [List.take_append_drop] at length
      have size := List.length_take_of_le all
      have parts := Refused.fragment checked stack next buffered (bytes.take (headerLength context bytes))
        ((bytes.drop (headerLength context bytes)).take (payLength (bytes.take (headerLength context bytes))))
        ((bytes.drop (headerLength context bytes)).drop (payLength (bytes.take (headerLength context bytes))))
        (taken.trans length) opened more size (by rw [size]; exact room) (by rw [size]; exact behind)
      rwa [List.append_assoc, List.take_append_drop, List.take_append_drop] at parts

/-- In a compressed message a further RSV1 is refused, as an invalid header is. -/
theorem run_flags (bytes : Bytes) (status : socket.compressionStatus = .compressedFrame)
    (long : shortMessageHeader context.isServer ≤ bytes.length) (bad : rsv1 bytes = true ∨ invalidHeader context bytes = true) :
    (run (step context) (.head [] false stack socket) (bytes.map some)).2 = [.forceClose errProtocol] := by
  have two := two_le_short context
  have other : socket.compressionStatus ≠ .enabled := by
    rw [status]
    nofun
  have took : (bytes.take (shortMessageHeader context.isServer)).length = shortMessageHeader context.isServer :=
    List.length_take_of_le long
  have checked := checkHeader_append context (bytes.take (shortMessageHeader context.isServer))
    (bytes.drop (shortMessageHeader context.isServer)) (by omega) socket
  rw [List.take_append_drop] at checked
  have refused : (checkHeader context bytes socket).1 = true := by
    rcases bad with compressed | invalid
    · simp only [checkHeader, setCompressed, compressed, if_true, if_neg other, Bool.not_false, Bool.true_or]
    · simp only [checkHeader, invalid, Bool.or_true]
  have closes : headByte context (bytes.take (shortMessageHeader context.isServer)) stack socket =
      (.closed, [.forceClose errProtocol]) := by
    simp only [headByte, if_pos took, ← checked, refused, if_true]
  have split : bytes.map some = (bytes.take (shortMessageHeader context.isServer)).map some ++
      (bytes.drop (shortMessageHeader context.isServer)).map some := by
    rw [← List.map_append, List.take_append_drop]
  rw [split, run_append, run_check context bytes stack socket long, closes, run_closed, List.append_nil]

theorem run_refused (bytes : Bytes) (between : Between stack) (status : socket.compressionStatus = .compressedFrame) :
    (run (step context) (.head [] false stack socket) (bytes.map some)).2 = [.forceClose errProtocol] ↔
      Refused context false stack socket.fragmentBuffer.length bytes := by
  have two := two_le_short context
  induction size : bytes.length using Nat.strong_induction_on generalizing bytes stack socket with
  | _ n ih =>
    subst size
    have least := short_le_header context bytes
    rw [refused_cases]
    by_cases short : bytes.length < shortMessageHeader context.isServer
    · rw [run_quiet context [] bytes stack socket (.inl short)]
      apply iff_of_false (List.cons_ne_nil _ _ ∘ Eq.symm)
      rintro (⟨-, long, -⟩ | ⟨whole, -⟩) <;> omega
    · have long := Nat.not_lt.mp short
      by_cases bad : rsv1 bytes = true ∨ invalidHeader context bytes = true
      · exact iff_of_true (run_flags context bytes status long bad) (.inl ⟨rfl, long, bad⟩)
      · have silent : ¬ (false = false ∧ shortMessageHeader context.isServer ≤ bytes.length ∧
            (rsv1 bytes = true ∨ invalidHeader context bytes = true)) := fun flags => bad flags.2.2
        rw [or_iff_right silent]
        rw [not_or, Bool.not_eq_true, Bool.not_eq_true] at bad
        obtain ⟨single, valid⟩ := bad
        have fine : checkHeader context bytes socket = (false, socket) := by
          simp only [checkHeader, single, Bool.false_eq_true, if_false, valid, Bool.not_true, Bool.false_or]
        by_cases whole : headerLength context bytes ≤ bytes.length
        · have begins := run_wholeHeader context bytes stack socket whole (by rw [fine])
          have took : (bytes.take (headerLength context bytes)).length = headerLength context bytes := List.length_take_of_le whole
          have split : bytes.map some = (bytes.take (headerLength context bytes)).map some ++
              (bytes.drop (headerLength context bytes)).map some := by
            rw [← List.map_append, List.take_append_drop]
          have flags := invalidHeader_append context (bytes.take (headerLength context bytes))
            (bytes.drop (headerLength context bytes)) (by omega)
          rw [List.take_append_drop, valid] at flags
          rw [split, run_append, begins, fine, and_iff_right whole]
          apply started_refused_behind context between flags.symm status
          intro next after nested compressed
          apply ih _ ?_ _ nested compressed rfl
          simp only [List.length_drop]
          omega
        · have begun : Begun context bytes socket := .inr ⟨long, Nat.lt_of_not_le whole, valid, fun _ => status⟩
          rw [run_begun context bytes stack socket begun (.inr single)]
          exact iff_of_false (List.cons_ne_nil _ _ ∘ Eq.symm) fun all => whole all.1

theorem run_refused_checked {read : Bytes} (back : Bytes) (between : Between stack)
    (status : socket.compressionStatus = .compressedFrame) (long : shortMessageHeader context.isServer ≤ read.length)
    (inside : read.length < headerLength context read) (valid : invalidHeader context read = false) :
    (run (step context) (.head read false stack socket) (back.map some)).2 = [.forceClose errProtocol] ↔
      Refused context true stack socket.fragmentBuffer.length (read ++ back) := by
  have two := two_le_short context
  have length := headerLength_append context read back (by omega)
  have silent : ¬ (true = false ∧ shortMessageHeader context.isServer ≤ (read ++ back).length ∧
      (rsv1 (read ++ back) = true ∨ invalidHeader context (read ++ back) = true)) := fun flags => Bool.noConfusion flags.1
  rw [refused_cases, length, or_iff_right silent]
  by_cases whole : headerLength context read ≤ (read ++ back).length
  · rw [and_iff_right whole]
    rw [List.length_append] at whole
    have header : (read ++ back).take (headerLength context read) = read ++ back.take (headerLength context read - read.length) := by
      rw [List.take_append, List.take_of_length_le (by omega)]
    have rest : (read ++ back).drop (headerLength context read) = back.drop (headerLength context read - read.length) := by
      rw [List.drop_append, List.drop_of_length_le (by omega), List.nil_append]
    rw [header, rest]
    generalize front_ : back.take (headerLength context read - read.length) = front
    have size : front.length = headerLength context read - read.length := by
      rw [← front_, List.length_take]
      omega
    have split : back.map some = front.map some ++ (back.drop (headerLength context read - read.length)).map some := by
      rw [← front_, ← List.map_append, List.take_append_drop]
    have quiet : Quiet context read front.dropLast := by
      refine .inr ⟨long, ?_⟩
      rw [List.length_append, List.length_dropLast]
      omega
    have begins := run_headerEnd context read front stack socket (List.ne_nil_of_length_pos (by omega)) quiet
    have all : (read ++ front).length = headerLength context (read ++ front) := by
      rw [headerLength_append context read front (by omega), List.length_append]
      omega
    have starts : headByte context (read ++ front) stack socket = startFrame context (read ++ front) [] stack socket := by
      unfold headByte
      rw [if_neg (by rw [List.length_append]; omega), if_pos all]
    have flags : invalidHeader context (read ++ front) = false := by
      rw [invalidHeader_append context read front (by omega), valid]
    rw [split, run_append, begins, starts]
    apply started_refused_behind context between flags status
    intro next after nested compressed
    exact run_refused context _ nested compressed
  · rw [run_quiet context read back stack socket (.inr ⟨long, Nat.lt_of_not_le whole⟩)]
    exact iff_of_false (List.cons_ne_nil _ _ ∘ Eq.symm) fun all => whole all.1

theorem run_uncut {phase : FramePhase ι} (fresh : uncut phase = phase) (bytes : Bytes) :
    uncut (run (step context) phase (bytes.map some)).1 = (run (step context) phase (bytes.map some)).1 := by
  induction bytes generalizing phase with
  | nil => exact fresh
  | cons b bytes ih =>
    have sound : Sound context phase := by
      cases phase with
      | head read again stack socket =>
        cases fresh
        exact fun again => absurd again Bool.false_ne_true
      | payload => exact True.intro
      | closed => exact True.intro
    rw [List.map_cons, run_cons]
    apply ih
    rcases step_uncut context phase b sound with ⟨-, refused⟩ | ⟨-, next, -⟩
    · rw [refused]
      rfl
    · exact next

theorem run_head (perMessageDeflate : Bool) (stream : ι) {front read : Bytes} {again : Bool} (some_ : front ≠ [])
    (reached : (run (step context) (startPhase perMessageDeflate stream) (front.map some)).1 = .head read again stack socket) :
    Between stack ∧ Begun context read socket := by
  have arrived : ∀ block ∈ [front], block ≠ [] := List.forall_mem_singleton.mpr some_
  have holds := (reads_follow context _ _ [front] arrived (holds_start context perMessageDeflate stream)).1
  have opened : Bounded context (openSocket perMessageDeflate stream) := Bounded.openSocket perMessageDeflate stream
  have bounded := (opened.reads [front]).1
  have cut : symbols [front] = front.map some ++ [none] := List.append_nil _
  rw [cut, run_append, reached] at holds
  generalize (reads (consumeRead context) (openSocket perMessageDeflate stream) [front]).1 = after at holds bounded
  cases holds with
  | head _ _ _ _ _ spilled frames same wants open_ begun checked =>
    refine ⟨frames ▸ (bounded.head (same ▸ open_) wants).1, begun⟩

/-- Cuts change nothing exactly when every frame whose header a cut refuses is refused anyway. -/
theorem cutIndependent_iff (perMessageDeflate : Bool) (stream : ι) (bytes : Bytes) :
    CutIndependent context perMessageDeflate stream bytes ↔ CutsRefused context perMessageDeflate stream bytes := by
  rw [cutIndependent_harmless]
  have two := two_le_short context
  apply forall₂_congr
  intro front back
  apply forall₂_congr
  intro split more
  have fresh := run_uncut context (show uncut (startPhase perMessageDeflate stream) = _ from rfl) front
  generalize reached : (run (step context) (startPhase perMessageDeflate stream) (front.map some)).1 = phase at fresh
  have anyway : ∀ read stack socket, phase = .head read false stack socket →
      shortMessageHeader context.isServer ≤ read.length → rsv1 read = true →
      ((run (step context) phase (back.map some)).2 = [.forceClose errProtocol] ↔
        Refused context true stack socket.fragmentBuffer.length (read ++ back)) := by
    intro read stack socket head long compressed
    subst head
    have begun_ : front ≠ [] := by
      intro none
      subst none
      cases reached
      simp only [List.length_nil] at long
      omega
    obtain ⟨between, begun⟩ := run_head context perMessageDeflate stream begun_ reached
    rcases begun with short | ⟨-, inside, valid, status⟩
    · omega
    · exact run_refused_checked context back between (status compressed) long inside valid
  constructor
  · intro harmless read stack socket head long compressed
    apply (anyway read stack socket head long compressed).mp
    apply harmless
    rw [head]
    exact ⟨long, compressed⟩
  · intro refused critical
    cases phase with
    | head read again stack socket =>
      cases fresh
      exact (anyway read stack socket rfl critical.1 critical.2).mpr (refused read stack socket rfl critical.1 critical.2)
    | payload => exact critical.elim
    | closed => exact critical.elim

/-- A compressed binary frame of 126 zeros under a mask of zeros. -/
def compressedFrame : Bytes := [0xc2, 0xfe, 0, 126, 0, 0, 0, 0] ++ List.replicate 126 0

theorem compressedFrame_cut : ¬ CutIndependent (serverContext 1000 (by decide)) true () compressedFrame := by
  intro independent
  have same := independent [compressedFrame.take 6, compressedFrame.drop 6] [compressedFrame] (by decide) (by decide)
    (by decide) (by decide)
  exact absurd same (by decide +kernel)

end Uws.WebSocket
