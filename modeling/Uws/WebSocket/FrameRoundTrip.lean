import Uws.WebSocket.FrameLegality
import Uws.WebSocket.MessageFormat

namespace Uws.WebSocket

open Uws.Http (Bytes)
open Uws.Machine

variable {ι : Type} (context : WebSocketContextData ι)

/-- A frame to be formatted; the mask is the one that a client draws for it. -/
structure SentFrame where
  opCode : Nat
  payload : Bytes
  fin : Bool
  mask : Bytes
  four : mask.length = 4
  fits : payload.length < 2 ^ 64

namespace SentFrame

def format (isServer : Bool) (sent : SentFrame) : Bytes :=
  formatMessage isServer sent.payload sent.opCode sent.payload.length false sent.fin sent.mask

def frame (sent : SentFrame) : Frame := ⟨firstByte sent.opCode false sent.fin, sent.mask, sent.payload, sent.four, sent.fits⟩

structure Legal (limit : Nat) (sent : SentFrame) : Prop where
  code : sent.opCode = 0 ∨ sent.opCode = textCode ∨ sent.opCode = binaryCode ∨ sent.opCode = pingCode ∨
    sent.opCode = pongCode
  control : 2 < sent.opCode → sent.fin = true ∧ sent.payload.length ≤ 125
  within : sent.payload.length ≤ limit

end SentFrame

def formatAll (isServer : Bool) (sent : List SentFrame) : Bytes := sent.flatMap (SentFrame.format isServer)

theorem format_encode (isServer : Bool) (sent : SentFrame) : sent.format isServer = sent.frame.encode (!isServer) :=
  formatMessage_frame isServer sent.frame sent.opCode false sent.fin rfl

theorem formatAll_encode (isServer : Bool) (sent : List SentFrame) :
    formatAll isServer sent = encodeFrames (!isServer) (sent.map SentFrame.frame) := by
  unfold formatAll encodeFrames
  rw [List.flatMap_map]
  congr 1
  funext one_
  exact format_encode isServer one_

theorem firstByte_flags (opCode : Nat) (small : opCode < 16) (fin : Bool) :
    isFin [firstByte opCode false fin] = fin ∧ rsv1 [firstByte opCode false fin] = false ∧
      rsv23 [firstByte opCode false fin] = false ∧ getOpCode [firstByte opCode false fin] = opCode := by
  have all : ∀ opCode < 16, ∀ fin : Bool, isFin [firstByte opCode false fin] = fin ∧
      rsv1 [firstByte opCode false fin] = false ∧ rsv23 [firstByte opCode false fin] = false ∧
      getOpCode [firstByte opCode false fin] = opCode := by
    decide +kernel
  exact all opCode small fin

theorem SentFrame.Legal.wellFormed {sent : SentFrame} (legal : sent.Legal context.maxPayloadLength) : WellFormed context sent.frame := by
  have code := legal.code
  have control := legal.control
  unfold textCode binaryCode pingCode pongCode at code
  obtain ⟨fin, plain, reserved, same⟩ := firstByte_flags sent.opCode (by omega) sent.fin
  have opCode : sent.frame.opCode = sent.opCode := same
  have final : sent.frame.fin = sent.fin := fin
  refine ⟨?_, plain, ?_, legal.within⟩
  · unfold invalidFrame
    rw [opCode, final]
    have bits : rsv23 [sent.frame.first] = false := reserved
    rw [bits, Bool.false_or, Bool.or_eq_false_iff, Bool.or_eq_false_iff, Bool.and_eq_false_iff, Bool.and_eq_false_iff,
      Bool.or_eq_false_iff]
    simp only [decide_eq_false_iff_not, Bool.not_eq_false']
    refine ⟨⟨by omega, by omega⟩, ?_⟩
    by_cases high : 2 < sent.opCode
    · obtain ⟨whole, short⟩ := control high
      exact .inr ⟨whole, Nat.not_lt.mpr short⟩
    · exact .inl high
  · rw [opCode]
    unfold closeCode
    omega

/-- With what is open of its message every fragment has room. -/
def MessagesFit (frames : List Frame) : Prop :=
  ∀ front frame, front ++ [frame] <+: frames →
    frame.isControl = true ∨ (openContent front).length + frame.payload.length ≤ context.maxPayloadLength

theorem isLegal_left {front frames : List Frame} (part : front <+: frames) (legal : isLegal frames = true) :
    isLegal front = true := by
  obtain ⟨back, rfl⟩ := part
  induction back using List.reverseRecOn with
  | nil => rwa [List.append_nil] at legal
  | append_singleton back frame ih =>
    rw [← List.append_assoc] at legal
    by_contra illegal
    have earlier : isLegal (front ++ back) = true := by
      by_contra wrong
      rw [Bool.not_eq_true] at wrong
      rw [(illegal_append wrong frame).1] at legal
      cases legal
    exact illegal (ih earlier)

theorem framesFit_of_messages {frames : List Frame} (legal : isLegal frames = true) (fit : MessagesFit context frames) :
    FramesFit context frames := by
  intro front frame part _
  unfold FitsBehind
  rw [if_pos (isLegal_left part legal)]
  exact fit front frame part

/-- What one side formats the parser of the other side delivers, and every frame takes the size that is told. -/
theorem frames_round_trip (perMessageDeflate : Bool) (stream : ι) (sent : List SentFrame)
    (each : ∀ one_ ∈ sent, one_.Legal context.maxPayloadLength) (legal : isLegal (sent.map SentFrame.frame) = true)
    (valid : ∀ payload, .message textCode payload false ∈ legalEvents (sent.map SentFrame.frame) → isValidUtf8 payload = true)
    (fit : MessagesFit context (sent.map SentFrame.frame)) (reads : List Bytes) (arrived : ∀ read ∈ reads, read ≠ [])
    (all : reads.flatten = formatAll (!context.isServer) sent) :
    readEvents context perMessageDeflate stream reads = legalEvents (sent.map SentFrame.frame) ∧
      ∀ one_ ∈ sent, (one_.format (!context.isServer)).length =
        messageFrameSize (!context.isServer) one_.payload.length := by
  have formed : ∀ frame ∈ sent.map SentFrame.frame, WellFormed context frame := by
    intro frame member
    obtain ⟨one_, own, rfl⟩ := List.mem_map.mp member
    exact (each one_ own).wellFormed
  refine ⟨?_, fun one_ _ => formatMessage_length _ _ _ _ _ _ one_.four⟩
  rw [formatAll_encode, Bool.not_not] at all
  have synced := (framesFit_run context perMessageDeflate stream (sent.map SentFrame.frame) formed valid).1
    (framesFit_of_messages context legal fit)
  rw [readEvents_plain context perMessageDeflate stream _ (fun frame member => (formed frame member).plain) reads arrived all]
  have answers := synced.answers
  rw [Answers, if_pos legal] at answers
  exact answers

def sentFrame (opCode : Nat) (payload : Bytes) (fin : Bool) (fits : payload.length < 2 ^ 64) : SentFrame :=
  ⟨opCode, payload, fin, [1, 2, 3, 4], key_four, fits⟩

def twoFrames : List SentFrame := [sentFrame textCode [65] false first_fits, sentFrame 0 [66] true second_fits]

theorem twoFrames_legal {limit : Nat} (some_ : 1 ≤ limit) : ∀ one_ ∈ twoFrames, one_.Legal limit := by
  intro one_ member
  rcases List.mem_cons.mp member with rfl | member
  · exact ⟨.inr (.inl rfl), by decide, some_⟩
  · rw [List.mem_singleton.mp member]
    exact ⟨.inl rfl, by decide, some_⟩

theorem twoFrames_events : legalEvents (twoFrames.map SentFrame.frame) = [.message textCode [65, 66] false] := by
  decide +kernel

theorem twoFrames_valid (payload : Bytes)
    (member : .message textCode payload false ∈ legalEvents (twoFrames.map SentFrame.frame)) : isValidUtf8 payload = true := by
  rw [twoFrames_events] at member
  simp only [List.mem_singleton, Event.message.injEq] at member
  rw [member.2.1]
  decide +kernel

theorem twoFrames_delivered :
    readEvents (serverContext 16 (by decide)) false () [formatAll false twoFrames] =
        legalEvents (twoFrames.map SentFrame.frame) ∧
      ∀ one_ ∈ twoFrames, (one_.format false).length = messageFrameSize false one_.payload.length := by
  have fit : MessagesFit (serverContext 16 (by decide)) (twoFrames.map SentFrame.frame) := by
    intro front frame part
    have split : twoFrames.map SentFrame.frame = ([] ++ [(sentFrame textCode [65] false (by decide)).frame]) ++
        [(sentFrame 0 [66] true (by decide)).frame] := rfl
    rw [split] at part
    rcases List.prefix_concat_iff.mp part with whole | shorter
    · obtain ⟨rfl, last⟩ := List.append_inj' whole rfl
      obtain rfl := List.head_eq_of_cons_eq last
      decide +kernel
    · rcases List.prefix_concat_iff.mp shorter with whole | none_
      · obtain ⟨rfl, last⟩ := List.append_inj' whole rfl
        obtain rfl := List.head_eq_of_cons_eq last
        decide +kernel
      · exact absurd (List.prefix_nil.mp none_) (by simp)
  exact frames_round_trip (serverContext 16 (by decide)) false () twoFrames (twoFrames_legal (by decide))
    (by decide +kernel) twoFrames_valid fit [formatAll false twoFrames] (by decide +kernel) (List.append_nil _)

/-- Fragments that are within the limit make a message that is not. -/
theorem long_message_refused :
    ¬ ∀ (context : WebSocketContextData Unit) (perMessageDeflate : Bool) (sent : List SentFrame) (reads : List Bytes),
      (∀ one_ ∈ sent, one_.Legal context.maxPayloadLength) → isLegal (sent.map SentFrame.frame) = true →
      (∀ payload, .message textCode payload false ∈ legalEvents (sent.map SentFrame.frame) → isValidUtf8 payload = true) →
      (∀ read ∈ reads, read ≠ []) → reads.flatten = formatAll (!context.isServer) sent →
      readEvents context perMessageDeflate () reads = legalEvents (sent.map SentFrame.frame) ∧
        ∀ one_ ∈ sent, (one_.format (!context.isServer)).length =
          messageFrameSize (!context.isServer) one_.payload.length := by
  intro claimed
  have delivered := (claimed (serverContext 1 (by decide)) false twoFrames [formatAll false twoFrames]
    (twoFrames_legal (Nat.le_refl 1)) (by decide +kernel) twoFrames_valid (by decide +kernel) (List.append_nil _)).1
  have refused : readEvents (serverContext 1 (by decide)) false () [formatAll false twoFrames] =
      [.forceClose errTooBigMessage] := by
    decide +kernel
  rw [refused, twoFrames_events] at delivered
  cases delivered

end Uws.WebSocket
