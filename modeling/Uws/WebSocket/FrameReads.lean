import Uws.WebSocket.FrameParsing

namespace Uws.WebSocket

open Uws.Http (Bytes)
open Uws.Machine FramePhase

variable {ι : Type} (context : WebSocketContextData ι)

def symbols (reads : List Bytes) : List Symbol := reads.flatMap fun read => read.map some ++ [none]

def startPhase (perMessageDeflate : Bool) (stream : ι) : FramePhase ι :=
  .head [] false {} (openSocket perMessageDeflate stream).data

theorem holds_start (perMessageDeflate : Bool) (stream : ι) :
    Holds context (startPhase perMessageDeflate stream) (openSocket perMessageDeflate stream) := by
  have two := two_le_short context
  have none : ¬ shortMessageHeader context.isServer ≤ ([] : Bytes).length := by
    simp only [List.length_nil]
    omega
  exact .head _ _ _ _ _ rfl rfl rfl rfl rfl (.inl (Nat.not_le.mp none)) (decide_eq_false none).symm

theorem reads_follow (phase : FramePhase ι) (socket : Socket ι) (reads : List Bytes) (arrived : ∀ read ∈ reads, read ≠ [])
    (holds : Holds context phase socket) :
    Holds context (run (step context) phase (symbols reads)).1 (Machine.reads (consumeRead context) socket reads).1 ∧
      (run (step context) phase (symbols reads)).2 = (Machine.reads (consumeRead context) socket reads).2 := by
  induction reads generalizing phase socket with
  | nil => exact ⟨holds, rfl⟩
  | cons read reads ih =>
    obtain ⟨held, outputs⟩ := consumeRead_follows context phase socket read (arrived read (by simp)) holds
    obtain ⟨last, rest⟩ := ih _ _ (fun r member => arrived r (List.mem_cons_of_mem _ member)) held
    have split : symbols (read :: reads) = (read.map some ++ [none]) ++ symbols reads := rfl
    rw [split, run_append]
    exact ⟨last, by rw [outputs, rest]; rfl⟩

theorem readEvents_follow (perMessageDeflate : Bool) (stream : ι) (reads : List Bytes)
    (arrived : ∀ read ∈ reads, read ≠ []) :
    readEvents context perMessageDeflate stream reads =
      (run (step context) (startPhase perMessageDeflate stream) (symbols reads)).2 :=
  (reads_follow context _ _ reads arrived (holds_start context perMessageDeflate stream)).2.symm

theorem symbols_bytes (reads : List Bytes) : (symbols reads).filterMap id = reads.flatten := by
  induction reads with
  | nil => rfl
  | cons read reads ih =>
    have split : symbols (read :: reads) = (read.map some ++ [none]) ++ symbols reads := rfl
    rw [split, List.filterMap_append, ih]
    simp

/-- In the extended header of a compressed frame, which a further read refuses. -/
def Critical : FramePhase ι → Prop
  | .head read _ _ _ => shortMessageHeader context.isServer ≤ read.length ∧ rsv1 read = true
  | _ => False

def uncut : FramePhase ι → FramePhase ι
  | .head read _ stack socket => .head read false stack socket
  | phase => phase

def Sound : FramePhase ι → Prop
  | .head read again _ _ => again = true → shortMessageHeader context.isServer ≤ read.length
  | _ => True

theorem deliver_uncut (data : Bytes) (left : Nat) (key : Bytes) (position : Nat) (stack : OpStack)
    (socket : WebSocketData ι) :
    uncut (deliver context data left key position stack socket).1 = (deliver context data left key position stack socket).1 ∧
      Sound context (deliver context data left key position stack socket).1 := by
  unfold deliver behind
  split
  · exact ⟨rfl, True.intro⟩
  · split
    · exact ⟨rfl, nofun⟩
    · exact ⟨rfl, True.intro⟩

theorem startFrame_uncut (header data : Bytes) (stack : OpStack) (socket : WebSocketData ι) :
    uncut (startFrame context header data stack socket).1 = (startFrame context header data stack socket).1 ∧
      Sound context (startFrame context header data stack socket).1 := by
  unfold startFrame
  split
  · exact ⟨rfl, True.intro⟩
  · split
    · exact ⟨rfl, True.intro⟩
    · exact deliver_uncut context _ _ _ _ _ _

theorem headByte_uncut (read : Bytes) (stack : OpStack) (socket : WebSocketData ι) :
    uncut (headByte context read stack socket).1 = (headByte context read stack socket).1 ∧
      Sound context (headByte context read stack socket).1 := by
  simp only [headByte]
  split
  · split
    · exact ⟨rfl, True.intro⟩
    · split
      · exact startFrame_uncut context _ _ _ _
      · exact ⟨rfl, fun again => absurd again Bool.false_ne_true⟩
  · split
    · exact startFrame_uncut context _ _ _ _
    · exact ⟨rfl, fun again => absurd again Bool.false_ne_true⟩

theorem step_uncut (phase : FramePhase ι) (b : UInt8) (sound : Sound context phase) :
    (Critical context phase ∧ step context phase (some b) = (.closed, [.forceClose errProtocol])) ∨
      (step context phase (some b) = step context (uncut phase) (some b) ∧
        uncut (step context phase (some b)).1 = (step context phase (some b)).1 ∧
        Sound context (step context phase (some b)).1) := by
  cases phase with
  | head read again stack socket =>
    by_cases refused : (again && rsv1 read) = true
    · left
      rw [Bool.and_eq_true] at refused
      refine ⟨⟨sound refused.1, refused.2⟩, ?_⟩
      rw [step, refused.1, refused.2]
      rfl
    · right
      rw [step, if_neg refused, uncut, step, Bool.false_and, if_neg Bool.false_ne_true]
      exact ⟨rfl, headByte_uncut context _ stack socket⟩
  | payload left key position stack socket =>
    right
    exact ⟨rfl, deliver_uncut context _ _ _ _ _ _⟩
  | closed =>
    right
    exact ⟨rfl, rfl, True.intro⟩

theorem step_cut (phase : FramePhase ι) :
    uncut (step context phase none).1 = uncut phase ∧ (step context phase none).2 = [] ∧
      Sound context (step context phase none).1 := by
  cases phase with
  | head read again stack socket => exact ⟨rfl, rfl, of_decide_eq_true⟩
  | payload left key position stack socket => exact ⟨rfl, rfl, True.intro⟩
  | closed => exact ⟨rfl, rfl, True.intro⟩

theorem critical_uncut {phase : FramePhase ι} (critical : Critical context phase) : Critical context (uncut phase) := by
  cases phase with
  | head read again stack socket => exact critical
  | _ => exact critical.elim

/-- From `phase`, wherever a cut makes a header refused the rest of the stream is refused without it. -/
def Harmless (phase : FramePhase ι) (bytes : Bytes) : Prop :=
  ∀ front back, bytes = front ++ back → back ≠ [] → Critical context (run (step context) phase (front.map some)).1 →
    (run (step context) (run (step context) phase (front.map some)).1 (back.map some)).2 = [.forceClose errProtocol]

theorem Harmless.step {phase : FramePhase ι} {b : UInt8} {bytes : Bytes} (harmless : Harmless context phase (b :: bytes)) :
    Harmless context (FramePhase.step context phase (some b)).1 bytes := by
  intro front back split more critical
  exact harmless (b :: front) back (by rw [split]; rfl) more critical

theorem run_harmless (phase : FramePhase ι) (stream : List Symbol) (sound : Sound context phase)
    (harmless : Harmless context (uncut phase) (stream.filterMap id)) :
    (run (step context) phase stream).2 = (run (step context) (uncut phase) ((stream.filterMap id).map some)).2 := by
  induction stream generalizing phase with
  | nil => rfl
  | cons symbol stream ih =>
    cases symbol with
    | none =>
      obtain ⟨same, silent, sound'⟩ := step_cut context phase
      have bytes : (none :: stream).filterMap id = stream.filterMap id := rfl
      rw [bytes] at harmless ⊢
      rw [run_cons, silent, List.nil_append, ih _ sound' (same ▸ harmless), same]
    | some b =>
      have bytes : (some b :: stream).filterMap id = b :: stream.filterMap id := rfl
      rw [bytes] at harmless ⊢
      rcases step_uncut context phase b sound with ⟨critical, refused⟩ | ⟨same, next, sound'⟩
      · have rest := harmless [] (b :: stream.filterMap id) rfl (by simp) (critical_uncut context critical)
        rw [run_cons, refused, run_closed, List.append_nil]
        exact rest.symm
      · have later := harmless.step
        rw [← same, ← next] at later
        rw [List.map_cons, run_cons, run_cons, ih _ sound' later, next, ← same]

/-- Any two ways to cut the stream into reads give the same events. -/
def CutIndependent (perMessageDeflate : Bool) (stream : ι) (bytes : Bytes) : Prop :=
  ∀ reads₁ reads₂ : List Bytes, (∀ read ∈ reads₁, read ≠ []) → (∀ read ∈ reads₂, read ≠ []) →
    reads₁.flatten = bytes → reads₂.flatten = bytes →
    readEvents context perMessageDeflate stream reads₁ = readEvents context perMessageDeflate stream reads₂

theorem readEvents_harmless (perMessageDeflate : Bool) (stream : ι) (reads : List Bytes)
    (arrived : ∀ read ∈ reads, read ≠ []) (harmless : Harmless context (startPhase perMessageDeflate stream) reads.flatten) :
    readEvents context perMessageDeflate stream reads =
      (run (step context) (startPhase perMessageDeflate stream) (reads.flatten.map some)).2 := by
  rw [readEvents_follow context perMessageDeflate stream reads arrived,
    run_harmless context (startPhase perMessageDeflate stream) (symbols reads) nofun
      (by rw [symbols_bytes]; exact harmless), symbols_bytes]
  rfl

/-- A read that ends in the extended header of a compressed frame has the next one refuse it. -/
theorem critical_refused {phase : FramePhase ι} (critical : Critical context phase) (back : Bytes) (more : back ≠ []) :
    (run (step context) phase (none :: (back.map some ++ [none]))).2 = [.forceClose errProtocol] := by
  cases phase with
  | head read again stack socket =>
    obtain ⟨long, compressed⟩ := critical
    cases back with
    | nil => exact absurd rfl more
    | cons b back =>
      rw [run_cons, step, List.map_cons, List.cons_append, run_cons, step, decide_eq_true long, compressed]
      simp
  | _ => exact critical.elim

/-- Cuts change nothing exactly when the rest of the stream is refused wherever a cut refuses a header. -/
theorem cutIndependent_harmless (perMessageDeflate : Bool) (stream : ι) (bytes : Bytes) :
    CutIndependent context perMessageDeflate stream bytes ↔
      Harmless context (startPhase perMessageDeflate stream) bytes := by
  constructor
  · intro independent front back split more critical
    have begun : front ≠ [] := by
      intro none
      subst none
      have two := two_le_short context
      have long : shortMessageHeader context.isServer ≤ 0 := critical.1
      omega
    have arrived : ∀ read ∈ [front, back], read ≠ [] := by simp [begun, more]
    have whole : ∀ read ∈ [bytes], read ≠ [] := by simp [split, begun]
    have same := independent [front, back] [bytes] arrived whole (by simp [split]) (by simp)
    have cut : symbols [front, back] = front.map some ++ (none :: (back.map some ++ [none])) := by simp [symbols]
    have one : symbols [bytes] = front.map some ++ (back.map some ++ [none]) := by simp [symbols, split]
    have silent := (step_cut context (run (step context)
      (run (step context) (startPhase perMessageDeflate stream) (front.map some)).1 (back.map some)).1).2.1
    rw [readEvents_follow context _ _ _ arrived, readEvents_follow context _ _ _ whole, cut, one, run_append, run_append,
      critical_refused context critical back more] at same
    have tail := List.append_cancel_left same
    rw [run_append, run_cons, silent, run_nil] at tail
    simpa using tail.symm
  · intro harmless reads₁ reads₂ arrived₁ arrived₂ whole₁ whole₂
    rw [readEvents_harmless context _ _ _ arrived₁ (whole₁ ▸ harmless),
      readEvents_harmless context _ _ _ arrived₂ (whole₂ ▸ harmless), whole₁, whole₂]

/-- A server's settings, with an inflation that gives back what it is given. -/
def serverContext (maxPayloadLength : Nat) (bounded : maxPayloadLength < 2 ^ 32) : WebSocketContextData Unit where
  isServer := true
  maxPayloadLength
  bounded
  inflate stream data := (stream, some data)

end Uws.WebSocket
