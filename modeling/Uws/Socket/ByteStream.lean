import Uws.Socket.AsyncSocket

namespace Uws.Socket

open Uws.Http (Bytes)

namespace BackPressure

def Within (backPressure : BackPressure) : Prop := backPressure.pendingRemoval ≤ backPressure.buffer.length

theorem data_length (backPressure : BackPressure) : backPressure.data.length = backPressure.length := by
  simp only [data, length, List.length_drop]

theorem data_append {backPressure : BackPressure} (within : backPressure.Within) (source : Bytes) :
    (backPressure.append source).data = backPressure.data ++ source := by
  simp only [data, append]
  exact List.drop_append_of_le_length within

theorem within_append {backPressure : BackPressure} (within : backPressure.Within) (source : Bytes) :
    (backPressure.append source).Within := by
  simp only [Within, append, List.length_append]
  exact Nat.le_add_right_of_le within

theorem data_erase (backPressure : BackPressure) (count : Nat) :
    (backPressure.erase count).data = backPressure.data.drop count := by
  simp only [erase]
  split
  · simp only [data, List.drop_drop, Nat.add_zero]
  · simp only [data, List.drop_drop]

theorem within_erase (backPressure : BackPressure) (count : Nat) : (backPressure.erase count).Within := by
  simp only [erase]
  split
  · exact Nat.zero_le _
  · simp only [Within]
    omega

theorem resize_copy {backPressure : BackPressure} (within : backPressure.Within) (ours source : Bytes) :
    ((backPressure.resize (ours.length + backPressure.length + source.length)).copy backPressure.length ours).copy
      (ours.length + backPressure.length) source = (backPressure.append ours).append source := by
  obtain ⟨buffer, pendingRemoval⟩ := backPressure
  simp only [Within] at within
  have front : pendingRemoval + (buffer.length - pendingRemoval) = buffer.length := Nat.add_sub_of_le within
  have behind : pendingRemoval + (ours.length + (buffer.length - pendingRemoval)) = buffer.length + ours.length := by omega
  have size : ours.length + (buffer.length - pendingRemoval) + source.length + pendingRemoval =
      buffer.length + (ours.length + source.length) := by omega
  simp only [resize, copy, append, length, front, behind, size, Nat.add_sub_cancel_left]
  rw [List.take_of_length_le (Nat.le_add_right _ _), List.take_left' rfl, List.drop_append,
    List.drop_of_length_le (Nat.le_add_right _ _), Nat.add_sub_cancel_left, List.nil_append, List.drop_replicate,
    Nat.add_sub_cancel_left]
  have whole : (buffer ++ ours).length = buffer.length + ours.length := List.length_append
  rw [List.take_left' whole, List.drop_append, whole, List.drop_replicate]
  have none : (buffer ++ ours).drop (buffer.length + ours.length + source.length) = [] := by
    apply List.drop_of_length_le
    omega
  have enough : source.length - (buffer.length + ours.length + source.length - (buffer.length + ours.length)) = 0 := by omega
  rw [none, enough, List.replicate_zero, List.append_nil, List.append_nil]

end BackPressure

def UsSocket.status {δ : Type} (socket : UsSocket δ) : Bool × Bool × δ := (socket.closed, socket.shutDown, socket.ext)

namespace Loop

variable {δ : Type} {loop : Loop δ} {s t : Nat}

@[simp] theorem modify_same (f : UsSocket δ → UsSocket δ) : (loop.modify s f).sockets s = f (loop.sockets s) := by
  simp only [modify, Function.update_self]

@[simp] theorem modify_other (f : UsSocket δ → UsSocket δ) (other : t ≠ s) :
    (loop.modify s f).sockets t = loop.sockets t := by
  simp only [modify, Function.update_of_ne other]

def corked (loop : Loop δ) (s : Nat) : Bytes := if loop.isCorked s then loop.corkBuffer else []

/-- What is to reach the other side: what the kernel has, then the buffer, then the cork buffer. -/
def stream (loop : Loop δ) (s : Nat) : Bytes :=
  (loop.sockets s).wire ++ (loop.sockets s).buffer.data ++ loop.corked s

/-- The kernel takes `bytes`, and nothing else changes. -/
structure Sent (s : Nat) (bytes : Bytes) (loop after : Loop δ) : Prop where
  wire : (after.sockets s).wire = (loop.sockets s).wire ++ bytes
  buffer : (after.sockets s).buffer = (loop.sockets s).buffer
  status : (after.sockets s).status = (loop.sockets s).status
  others : ∀ t, t ≠ s → after.sockets t = loop.sockets t
  corkBuffer : after.corkBuffer = loop.corkBuffer
  corkedSocket : after.corkedSocket = loop.corkedSocket
  date : after.date = loop.date

theorem Sent.none (loop : Loop δ) (s : Nat) : Sent s [] loop loop :=
  ⟨(List.append_nil _).symm, rfl, rfl, fun _ _ => rfl, rfl, rfl, rfl⟩

theorem bsdSend_sent (loop : Loop δ) (s : Nat) (data : Bytes) :
    (loop.bsdSend s data).2 ≤ data.length ∧
      Sent s (data.take (loop.bsdSend s data).2) loop (loop.bsdSend s data).1 := by
  constructor
  · exact Nat.min_le_right _ _
  · simp only [bsdSend]
    constructor
    · simp only [modify_same]
    · simp only [modify_same]
    · simp only [modify_same]
      rfl
    · intro t other
      simp only [modify_other _ other]
    · rfl
    · rfl
    · rfl

theorem Sent.pollChange {bytes : Bytes} {after : Loop δ} (sent : Sent s bytes loop after) (failed : Bool)
    (events : Events) : Sent s bytes loop ({ after with lastWriteFailed := failed }.usPollChange s events) := by
  constructor
  · simp only [usPollChange, modify_same, sent.wire]
  · simp only [usPollChange, modify_same, sent.buffer]
  · simp only [usPollChange, modify_same]
    exact sent.status
  · intro t other
    simp only [usPollChange, modify_other _ other, sent.others t other]
  · exact sent.corkBuffer
  · exact sent.corkedSocket
  · exact sent.date

theorem usSocketWrite_sent (loop : Loop δ) (s : Nat) (data : Bytes) :
    (loop.usSocketWrite s data).2 ≤ data.length ∧
      Sent s (data.take (loop.usSocketWrite s data).2) loop (loop.usSocketWrite s data).1 := by
  obtain ⟨most, sent⟩ := bsdSend_sent loop s data
  unfold usSocketWrite
  split
  · exact ⟨Nat.zero_le _, Sent.none loop s⟩
  · simp only
    split
    · exact ⟨most, sent.pollChange true .both⟩
    · exact ⟨most, sent⟩

theorem usSocketWrite2_sent (loop : Loop δ) (s : Nat) (header payload : Bytes) :
    (loop.usSocketWrite2 s header payload).2 ≤ header.length + payload.length ∧
      Sent s ((header ++ payload).take (loop.usSocketWrite2 s header payload).2) loop
        (loop.usSocketWrite2 s header payload).1 := by
  obtain ⟨most, sent⟩ := bsdSend_sent loop s (header ++ payload)
  rw [List.length_append] at most
  unfold usSocketWrite2
  split
  · exact ⟨Nat.zero_le _, Sent.none loop s⟩
  · simp only
    split
    · exact ⟨most, sent.pollChange _ .both⟩
    · exact ⟨most, sent⟩

/-- `bytes` go to the kernel or behind the buffer; the cork buffer is left alone. -/
structure Buffered (s : Nat) (bytes : Bytes) (loop after : Loop δ) : Prop where
  bytes : (after.sockets s).wire ++ (after.sockets s).buffer.data =
    (loop.sockets s).wire ++ (loop.sockets s).buffer.data ++ bytes
  within : (after.sockets s).buffer.Within
  status : (after.sockets s).status = (loop.sockets s).status
  others : ∀ t, t ≠ s → after.sockets t = loop.sockets t
  corkBuffer : after.corkBuffer = loop.corkBuffer
  corkedSocket : after.corkedSocket = loop.corkedSocket
  date : after.date = loop.date

namespace Buffered

theorem none (within : (loop.sockets s).buffer.Within) : Buffered s [] loop loop :=
  ⟨(List.append_nil _).symm, within, rfl, fun _ _ => rfl, rfl, rfl, rfl⟩

theorem trans {first second : Bytes} {between after : Loop δ} (left : Buffered s first loop between)
    (right : Buffered s second between after) : Buffered s (first ++ second) loop after := by
  constructor
  · rw [right.bytes, left.bytes, List.append_assoc]
  · exact right.within
  · rw [right.status, left.status]
  · intro t other
    rw [right.others t other, left.others t other]
  · rw [right.corkBuffer, left.corkBuffer]
  · rw [right.corkedSocket, left.corkedSocket]
  · rw [right.date, left.date]

theorem isCorked {bytes : Bytes} {after : Loop δ} (buffered : Buffered s bytes loop after) (t : Nat) :
    after.isCorked t = loop.isCorked t := by
  simp only [Loop.isCorked, buffered.corkedSocket]

end Buffered

theorem Sent.onBuffer {bytes added : Bytes} {after : Loop δ} (sent : Sent s bytes loop after)
    (f : BackPressure → BackPressure) (within : (f (loop.sockets s).buffer).Within)
    (same : bytes ++ (f (loop.sockets s).buffer).data = (loop.sockets s).buffer.data ++ added) :
    Buffered s added loop (after.onBuffer s f) := by
  constructor
  · simp only [Loop.onBuffer, modify_same, sent.wire, sent.buffer, List.append_assoc, same]
  · simp only [Loop.onBuffer, modify_same, sent.buffer, within]
  · simp only [Loop.onBuffer, modify_same]
    exact sent.status
  · intro t other
    simp only [Loop.onBuffer, modify_other _ other, sent.others t other]
  · exact sent.corkBuffer
  · exact sent.corkedSocket
  · exact sent.date

theorem Sent.buffered {bytes : Bytes} {after : Loop δ} (sent : Sent s bytes loop after)
    (within : (loop.sockets s).buffer.Within) (empty : (loop.sockets s).buffer.data = []) :
    Buffered s bytes loop after := by
  constructor
  · rw [sent.wire, sent.buffer, empty, List.append_nil, List.append_nil]
  · rw [sent.buffer]
    exact within
  · exact sent.status
  · exact sent.others
  · exact sent.corkBuffer
  · exact sent.corkedSocket
  · exact sent.date

theorem onBuffer_append (within : (loop.sockets s).buffer.Within) (source : Bytes) :
    Buffered s source loop (loop.onBuffer s (·.append source)) := by
  apply (Sent.none loop s).onBuffer
  · exact BackPressure.within_append within source
  · exact BackPressure.data_append within source

theorem drainBuffer_buffered (within : (loop.sockets s).buffer.Within) :
    Buffered s [] loop (loop.drainBuffer s).1 := by
  unfold drainBuffer
  simp only
  split
  · have sent := (usSocketWrite_sent loop s (loop.sockets s).buffer.data).2
    split
    · simp only
      apply sent.onBuffer
      · exact BackPressure.within_erase _ _
      · rw [BackPressure.data_erase, List.take_append_drop, List.append_nil]
    · rename_i all
      simp only
      apply sent.onBuffer
      · exact Nat.le_refl 0
      · have whole : (loop.sockets s).buffer.data.take (loop.usSocketWrite s (loop.sockets s).buffer.data).2 =
            (loop.sockets s).buffer.data := by
          apply List.take_of_length_le
          rw [BackPressure.data_length]
          exact Nat.le_of_not_lt all
        rw [whole]
        rfl
  · exact .none within

theorem drainBuffer_done (done : (loop.drainBuffer s).2 = false) :
    ((loop.drainBuffer s).1.sockets s).buffer.data = [] := by
  unfold drainBuffer at done ⊢
  simp only at done ⊢
  split
  · split
    · simp_all
    · simp only [onBuffer, modify_same]
      rfl
  · rename_i empty
    apply List.eq_nil_of_length_eq_zero
    rw [BackPressure.data_length]
    exact Decidable.not_not.mp empty

theorem drainBuffer_limited (limited : (loop.drainBuffer s).2 = true) : (loop.sockets s).buffer.data ≠ [] := by
  intro empty
  have size : (loop.sockets s).buffer.length = 0 := by
    rw [← BackPressure.data_length, empty]
    rfl
  simp only [drainBuffer, size, ne_eq, not_true, if_false, Bool.false_eq_true] at limited

theorem writeOut_buffered (src : Bytes) (optionally : Bool) (nextLength : Nat)
    (within : (loop.sockets s).buffer.Within) (empty : (loop.sockets s).buffer.data = []) :
    (loop.writeOut s src optionally nextLength).2.1 ≤ src.length ∧
      (optionally = false → (loop.writeOut s src optionally nextLength).2.1 = src.length) ∧
      Buffered s (src.take (loop.writeOut s src optionally nextLength).2.1) loop
        (loop.writeOut s src optionally nextLength).1 := by
  obtain ⟨most, sent⟩ := usSocketWrite_sent loop s src
  have plain := sent.buffered within empty
  unfold writeOut
  simp only
  split
  · cases optionally with
    | true =>
      simp only [if_true]
      exact ⟨most, fun firm => absurd firm (by decide), plain⟩
    | false =>
      simp only [Bool.false_eq_true, if_false, BackPressure.reserve, ite_self, List.take_length]
      have rest := onBuffer_append plain.within (src.drop (loop.usSocketWrite s src).2)
      have both := plain.trans rest
      rw [List.take_append_drop] at both
      exact ⟨Nat.le_refl _, fun _ => trivial, both⟩
  · rename_i all
    have whole : src.take (loop.usSocketWrite s src).2 = src := List.take_of_length_le (Nat.le_of_not_lt all)
    rw [whole] at plain
    simp only [List.take_length]
    exact ⟨Nat.le_refl _, fun _ => trivial, plain⟩

/-- How much of `src` a write reports: all of it, unless the write is optional. -/
def Reports (src : Bytes) (optionally : Bool) (written : Nat) : Prop :=
  written ≤ src.length ∧ (optionally = false → written = src.length)

theorem Reports.whole (src : Bytes) (optionally : Bool) : Reports src optionally src.length :=
  ⟨Nat.le_refl _, fun _ => rfl⟩

theorem Reports.take {src : Bytes} {written : Nat} (reports : Reports src false written) : src.take written = src := by
  rw [reports.2 rfl, List.take_length]

theorem writeUncorked_buffered (src : Bytes) (optionally : Bool) (nextLength : Nat)
    (within : (loop.sockets s).buffer.Within) (live : (loop.sockets s).closed = false)
    (uncorked : loop.isCorked s = false) :
    Reports src optionally (loop.writeUncorked s src optionally nextLength).2.1 ∧
      Buffered s (src.take (loop.writeUncorked s src optionally nextLength).2.1) loop
        (loop.writeUncorked s src optionally nextLength).1 := by
  have drained := drainBuffer_buffered within
  have done := @drainBuffer_done δ loop s
  unfold writeUncorked writeWith
  generalize loop.drainBuffer s = result at drained done ⊢
  obtain ⟨after, limited⟩ := result
  simp only at drained done
  simp only [live, Bool.false_eq_true, if_false, drained.isCorked, uncorked]
  cases limited with
  | true =>
    simp only [if_true]
    cases optionally with
    | true => exact ⟨⟨Nat.zero_le _, fun firm => absurd firm (by decide)⟩, drained⟩
    | false =>
      simp only [Bool.false_eq_true, if_false, List.take_length]
      exact ⟨Reports.whole src false, drained.trans (onBuffer_append drained.within src)⟩
  | false =>
    simp only [Bool.false_eq_true, if_false]
    split
    · rename_i none
      rw [List.eq_nil_of_length_eq_zero none]
      exact ⟨Reports.whole [] optionally, drained⟩
    · obtain ⟨most, firm, written⟩ := writeOut_buffered src optionally nextLength drained.within (done rfl)
      exact ⟨⟨most, firm⟩, drained.trans written⟩

/-- What the operations keep: the cork buffer is empty where nobody corks, and a socket with bytes in it has
    no others in its own buffer. -/
structure Coherent (loop : Loop δ) : Prop where
  within : ∀ s, (loop.sockets s).buffer.Within
  quiet : ∀ s, loop.corked s ≠ [] → (loop.sockets s).buffer.data = []
  idle : loop.corkedSocket = none → loop.corkBuffer = []

theorem Coherent.congr {after : Loop δ} (coherent : loop.Coherent)
    (buffers : ∀ t, (after.sockets t).buffer = (loop.sockets t).buffer) (corkBuffer : after.corkBuffer = loop.corkBuffer)
    (corkedSocket : after.corkedSocket = loop.corkedSocket) : after.Coherent := by
  have corks : ∀ t, after.corked t = loop.corked t := by
    intro t
    have same : after.isCorked t = loop.isCorked t := by simp only [Loop.isCorked, corkedSocket]
    rw [Loop.corked, Loop.corked, same, corkBuffer]
  constructor
  · intro t
    rw [buffers]
    exact coherent.within t
  · intro t some
    rw [corks] at some
    rw [buffers]
    exact coherent.quiet t some
  · rw [corkBuffer, corkedSocket]
    exact coherent.idle

theorem Coherent.modify (coherent : loop.Coherent) (f : UsSocket δ → UsSocket δ)
    (buffer : (f (loop.sockets s)).buffer = (loop.sockets s).buffer) : (loop.modify s f).Coherent := by
  apply coherent.congr
  · intro t
    by_cases own : t = s
    · rw [own, modify_same, buffer]
    · rw [modify_other _ own]
  · rfl
  · rfl

theorem Sent.coherent {bytes : Bytes} {after : Loop δ} (sent : Sent s bytes loop after) (coherent : loop.Coherent) :
    after.Coherent := by
  apply coherent.congr
  · intro t
    by_cases own : t = s
    · rw [own, sent.buffer]
    · rw [sent.others t own]
  · exact sent.corkBuffer
  · exact sent.corkedSocket

/-- An operation on `s` puts `bytes` behind its stream, and leaves the other streams alone. -/
structure Appended (s : Nat) (bytes : Bytes) (loop after : Loop δ) : Prop where
  own : after.stream s = loop.stream s ++ bytes
  others : ∀ t, t ≠ s → after.stream t = loop.stream t
  status : ∀ t, (after.sockets t).status = (loop.sockets t).status
  date : after.date = loop.date
  coherent : after.Coherent

namespace Appended

theorem refl (coherent : loop.Coherent) (s : Nat) : Appended s [] loop loop :=
  ⟨(List.append_nil _).symm, fun _ _ => rfl, fun _ => rfl, rfl, coherent⟩

theorem closed {bytes : Bytes} {after : Loop δ} (appended : Appended s bytes loop after) (t : Nat) :
    (after.sockets t).closed = (loop.sockets t).closed := congrArg Prod.fst (appended.status t)

theorem ext {bytes : Bytes} {after : Loop δ} (appended : Appended s bytes loop after) (t : Nat) :
    (after.sockets t).ext = (loop.sockets t).ext := congrArg (fun status => status.2.2) (appended.status t)

theorem shutDown {bytes : Bytes} {after : Loop δ} (appended : Appended s bytes loop after) (t : Nat) :
    (after.sockets t).shutDown = (loop.sockets t).shutDown := congrArg (fun status => status.2.1) (appended.status t)

theorem trans {first second : Bytes} {between after : Loop δ} (left : Appended s first loop between)
    (right : Appended s second between after) : Appended s (first ++ second) loop after := by
  constructor
  · rw [right.own, left.own, List.append_assoc]
  · intro t other
    rw [right.others t other, left.others t other]
  · intro t
    rw [right.status t, left.status t]
  · rw [right.date, left.date]
  · exact right.coherent

end Appended

theorem corked_self (corked : loop.isCorked s = true) : loop.corked s = loop.corkBuffer := by
  simp only [Loop.corked, corked, if_true]

theorem corked_not (uncorked : loop.isCorked s = false) : loop.corked s = [] := by
  simp only [Loop.corked, uncorked, Bool.false_eq_true, if_false]

theorem isCorked_other (corked : loop.isCorked s = true) (other : t ≠ s) : loop.isCorked t = false := by
  simp only [isCorked, decide_eq_true_eq, decide_eq_false_iff_not] at corked ⊢
  rw [corked]
  intro same
  exact other (Option.some.inj same).symm

theorem Buffered.corked {bytes : Bytes} {after : Loop δ} (buffered : Buffered s bytes loop after) (t : Nat) :
    after.corked t = loop.corked t := by
  simp only [Loop.corked, buffered.isCorked, buffered.corkBuffer]

theorem Buffered.appended {bytes : Bytes} {after : Loop δ} (buffered : Buffered s bytes loop after)
    (coherent : loop.Coherent) (clear : loop.corked s = [] ∨ bytes = [] ∧ (after.sockets s).buffer.data = []) :
    Appended s bytes loop after := by
  constructor
  · simp only [stream, buffered.bytes, buffered.corked]
    rcases clear with none | ⟨none, -⟩
    · simp only [none, List.append_nil]
    · simp only [none, List.append_nil]
  · intro t other
    simp only [stream, buffered.others t other, buffered.corked]
  · intro t
    by_cases same : t = s
    · rw [same, buffered.status]
    · rw [buffered.others t same]
  · exact buffered.date
  · constructor
    · intro t
      by_cases same : t = s
      · rw [same]
        exact buffered.within
      · rw [buffered.others t same]
        exact coherent.within t
    · intro t some
      rw [buffered.corked] at some
      by_cases same : t = s
      · rw [same] at some ⊢
        rcases clear with none | ⟨-, empty⟩
        · exact absurd none some
        · exact empty
      · rw [buffered.others t same]
        exact coherent.quiet t some
    · rw [buffered.corkedSocket, buffered.corkBuffer]
      exact coherent.idle

theorem drainBuffer_appended (coherent : loop.Coherent) : Appended s [] loop (loop.drainBuffer s).1 := by
  have drained := drainBuffer_buffered (coherent.within s)
  apply drained.appended coherent
  by_cases clear : loop.corked s = []
  · exact .inl clear
  · apply Or.inr
    apply And.intro rfl
    apply drainBuffer_done
    apply Bool.eq_false_of_not_eq_true
    intro limited
    exact drainBuffer_limited limited (coherent.quiet s clear)

theorem Buffered.flushed {bytes : Bytes} {socket : Option Nat} {after : Loop δ} (coherent : loop.Coherent)
    (corked : loop.isCorked s = true)
    (buffered : Buffered s (loop.corkBuffer ++ bytes) { loop with corkedSocket := socket, corkBuffer := [] } after) :
    Appended s bytes loop after := by
  have nobody : ∀ t, after.corked t = [] := by
    intro t
    rw [buffered.corked]
    simp only [Loop.corked, ite_self]
  constructor
  · simp only [stream, nobody, corked_self corked, buffered.bytes, List.append_assoc, List.append_nil]
  · intro t other
    simp only [stream, nobody, corked_not (isCorked_other corked other), buffered.others t other]
  · intro t
    by_cases same : t = s
    · rw [same, buffered.status]
    · rw [buffered.others t same]
  · exact buffered.date
  · constructor
    · intro t
      by_cases same : t = s
      · rw [same]
        exact buffered.within
      · rw [buffered.others t same]
        exact coherent.within t
    · intro t some
      exact absurd (nobody t) some
    · intro
      exact buffered.corkBuffer

theorem uncork_appended (src : Bytes) (optionally : Bool) (coherent : loop.Coherent)
    (live : (loop.sockets s).closed = false) (corked : loop.isCorked s = true) :
    Reports src optionally (loop.uncork s src optionally).2.1 ∧
      Appended s (src.take (loop.uncork s src optionally).2.1) loop (loop.uncork s src optionally).1 := by
  have within := coherent.within s
  unfold uncork
  rw [if_pos corked]
  simp only
  split
  · obtain ⟨all, flushed⟩ := @writeUncorked_buffered δ { loop with corkedSocket := none } s loop.corkBuffer false src.length
      within live rfl
    rw [all.take] at flushed
    have empty : Buffered s loop.corkBuffer { loop with corkedSocket := .none, corkBuffer := [] }
        { (writeUncorked { loop with corkedSocket := none } s loop.corkBuffer false src.length).1 with corkBuffer := [] } :=
      ⟨flushed.bytes, flushed.within, flushed.status, flushed.others, rfl, flushed.corkedSocket, flushed.date⟩
    generalize writeUncorked { loop with corkedSocket := none } s loop.corkBuffer false src.length = result at empty
    obtain ⟨after, written, failed⟩ := result
    simp only at empty
    have uncorked : isCorked { after with corkBuffer := [] } s = false := empty.isCorked s
    cases failed with
    | true =>
      simp only [if_true]
      split
      · simp only [List.take_length]
        exact ⟨Reports.whole src optionally,
          Buffered.flushed coherent corked (empty.trans (onBuffer_append empty.within src))⟩
      · rename_i refused
        have nothing : Reports src optionally 0 := by
          constructor
          · exact Nat.zero_le _
          · intro firm
            simp only [firm, Bool.not_false, Bool.true_and, decide_eq_true_eq, ne_eq, Decidable.not_not] at refused
            exact refused.symm
        exact ⟨nothing, Buffered.flushed coherent corked (empty.trans (.none empty.within))⟩
    | false =>
      simp only [Bool.false_eq_true, if_false]
      have alive : (({ after with corkBuffer := [] } : Loop δ).sockets s).closed = false :=
        (congrArg Prod.fst empty.status).trans live
      obtain ⟨reports, written⟩ := writeUncorked_buffered src optionally 0 empty.within alive uncorked
      exact ⟨reports, Buffered.flushed coherent corked (empty.trans written)⟩
  · rename_i nothing
    have none : loop.corkBuffer = [] := List.eq_nil_of_length_eq_zero (Decidable.not_not.mp nothing)
    obtain ⟨reports, written⟩ := @writeUncorked_buffered δ { loop with corkedSocket := .none } s src optionally 0 within live rfl
    have same : ({ loop with corkedSocket := .none } : Loop δ) = { loop with corkedSocket := .none, corkBuffer := [] } := by
      rw [none]
    apply And.intro reports
    apply Buffered.flushed coherent corked
    rw [none, List.nil_append]
    rw [same] at written
    exact written

theorem Appended.uncorkWithoutSending {bytes : Bytes} {after : Loop δ} (appended : Appended s bytes loop after)
    (clear : after.corkBuffer = []) : Appended s bytes loop (after.uncorkWithoutSending s) := by
  unfold Loop.uncorkWithoutSending
  split
  rotate_left
  · exact appended
  have same : ∀ t, stream { after with corkedSocket := .none } t = after.stream t := by
    intro t
    simp only [stream, corked, clear, ite_self]
  constructor
  · rw [same, appended.own]
  · intro t other
    rw [same, appended.others t other]
  · exact appended.status
  · exact appended.date
  · constructor
    · exact appended.coherent.within
    · intro t some
      exact absurd (corked_not rfl) some
    · intro
      exact clear

theorem uncork_uncorked (src : Bytes) (optionally : Bool) (uncorked : loop.isCorked s = false) :
    loop.uncork s src optionally = (loop, 0, false) := by
  simp only [uncork, uncorked, Bool.false_eq_true, if_false]

theorem corkBuffer_appended (bytes : Bytes) (coherent : loop.Coherent) (corked : loop.isCorked s = true)
    (empty : (loop.sockets s).buffer.data = []) :
    Appended s bytes loop { loop with corkBuffer := loop.corkBuffer ++ bytes } := by
  constructor
  · simp only [stream, Loop.corked, Loop.isCorked] at corked ⊢
    simp only [corked, if_true, List.append_assoc]
  · intro t other
    have uncorked := isCorked_other corked other
    simp only [stream, Loop.corked, Loop.isCorked] at uncorked ⊢
    simp only [uncorked, Bool.false_eq_true, if_false]
  · intro
    rfl
  · rfl
  · constructor
    · exact coherent.within
    · intro t some
      by_cases same : t = s
      · rw [same]
        exact empty
      · have uncorked : isCorked { loop with corkBuffer := loop.corkBuffer ++ bytes } t = false :=
          isCorked_other corked same
        exact absurd (corked_not uncorked) some
    · intro nobody
      simp only [isCorked, decide_eq_true_eq] at corked
      rw [corked] at nobody
      exact absurd nobody (by simp)

theorem writeUncorked_closed (loop : Loop δ) (src : Bytes) (optionally : Bool) (nextLength : Nat)
    (closed : (loop.sockets s).closed = true) :
    loop.writeUncorked s src optionally nextLength = (loop, src.length, false) := by
  simp only [writeUncorked, writeWith, closed, if_true]

theorem uncork_closed (src : Bytes) (optionally : Bool) (closed : (loop.sockets s).closed = true)
    (corked : loop.isCorked s = true) :
    (loop.uncork s src optionally).1 = { loop with corkedSocket := .none, corkBuffer := [] } := by
  unfold uncork
  rw [if_pos corked]
  simp only
  split
  · rw [writeUncorked_closed { loop with corkedSocket := .none } _ _ _ closed]
    simp only [Bool.false_eq_true, if_false]
    rw [writeUncorked_closed { loop with corkedSocket := .none, corkBuffer := [] } _ _ _ closed]
  · rename_i nothing
    rw [writeUncorked_closed { loop with corkedSocket := .none } _ _ _ closed,
      List.eq_nil_of_length_eq_zero (Decidable.not_not.mp nothing)]

theorem write_appended (src : Bytes) (optionally : Bool) (nextLength : Nat) (coherent : loop.Coherent)
    (live : (loop.sockets s).closed = false) :
    Reports src optionally (loop.write s src optionally nextLength).2.1 ∧
      Appended s (src.take (loop.write s src optionally nextLength).2.1) loop
        (loop.write s src optionally nextLength).1 := by
  have drained := drainBuffer_buffered (coherent.within s)
  have kept := @drainBuffer_appended δ loop s coherent
  have done := @drainBuffer_done δ loop s
  have left := @drainBuffer_limited δ loop s
  unfold write writeWith
  generalize loop.drainBuffer s = result at drained kept done left ⊢
  obtain ⟨after, limited⟩ := result
  simp only at drained kept done left
  have alive : (after.sockets s).closed = false := (kept.closed s).trans live
  simp only [live, Bool.false_eq_true, if_false]
  cases limited with
  | true =>
    simp only [if_true]
    cases optionally with
    | true => exact ⟨⟨Nat.zero_le _, fun firm => absurd firm (by decide)⟩, kept⟩
    | false =>
      simp only [Bool.false_eq_true, if_false, List.take_length]
      have clear : loop.corked s = [] := by
        by_contra some
        exact left rfl (coherent.quiet s some)
      exact ⟨Reports.whole src false,
        (drained.trans (onBuffer_append drained.within src)).appended coherent (.inl clear)⟩
  | false =>
    simp only [Bool.false_eq_true, if_false]
    split
    · rename_i none
      rw [List.eq_nil_of_length_eq_zero none]
      exact ⟨Reports.whole [] optionally, kept⟩
    · split
      · rename_i corked
        split
        · simp only [List.take_length]
          apply And.intro (Reports.whole src optionally)
          exact kept.trans (corkBuffer_appended src kept.coherent corked (done rfl))
        · obtain ⟨reports, written⟩ := uncork_appended src optionally kept.coherent alive corked
          exact ⟨reports, kept.trans written⟩
      · rename_i uncorked
        obtain ⟨most, firm, written⟩ := writeOut_buffered src optionally nextLength drained.within (done rfl)
        have clear : after.corked s = [] := corked_not (Bool.eq_false_of_not_eq_true uncorked)
        exact ⟨⟨most, firm⟩, kept.trans (written.appended kept.coherent (.inl clear))⟩

theorem cork_appended (coherent : loop.Coherent) : Appended s [] loop (loop.cork s) := by
  unfold cork
  split
  · exact ⟨(List.append_nil _).symm, fun _ _ => rfl, fun _ => rfl, rfl, coherent.within, coherent.quiet, coherent.idle⟩
  · rename_i free
    have same : ∀ t, corked { loop with corkedSocket := some s } t = loop.corked t := by
      intro t
      by_cases empty : loop.corkBuffer = []
      · simp only [Loop.corked, empty, ite_self]
      · have own : loop.corkedSocket = some s := by
          by_contra other
          exact free ⟨fun none => empty (List.eq_nil_of_length_eq_zero none), other⟩
        have unchanged : ({ loop with corkedSocket := some s } : Loop δ) = loop := by rw [← own]
        rw [unchanged]
    constructor
    · simp only [stream, same, List.append_nil]
    · intro t _
      simp only [stream, same]
    · intro
      rfl
    · rfl
    · constructor
      · exact coherent.within
      · intro t some
        rw [same] at some
        exact coherent.quiet t some
      · intro nobody
        exact absurd nobody (by simp)

theorem closed_stream (loop : Loop δ) (s t : Nat) : ((loop.usSocketShutdown s).usSocketClose s).stream t = loop.stream t := by
  unfold usSocketShutdown usSocketClose
  by_cases same : t = s
  · rw [same]
    split
    · simp only [stream, modify_same]
      rfl
    · simp only [stream, modify_same]
      rfl
  · split
    · simp only [stream, modify_other _ same]
      rfl
    · simp only [stream, modify_other _ same]
      rfl

theorem closed_coherent (coherent : loop.Coherent) (s : Nat) : ((loop.usSocketShutdown s).usSocketClose s).Coherent := by
  unfold usSocketShutdown usSocketClose
  split
  · exact coherent.modify _ rfl
  · exact (coherent.modify _ rfl).modify _ rfl

theorem getSendBuffer_appended (data : Bytes) (coherent : loop.Coherent) :
    Appended s data loop (loop.getSendBuffer s data).1 := by
  unfold getSendBuffer
  simp only
  split
  · rename_i fits
    obtain ⟨none, free, -⟩ := fits
    have empty : (loop.sockets s).buffer.data = [] := by
      apply List.eq_nil_of_length_eq_zero
      rw [BackPressure.data_length, none]
    split
    · rename_i corked
      exact corkBuffer_appended data coherent corked empty
    · rename_i uncorked
      have nobody : loop.corkedSocket = .none := by
        rcases free with corked | nobody
        · exact absurd corked uncorked
        · simpa only [canCork, decide_eq_true_eq] using nobody
      have corked := cork_appended (s := s) coherent
      have own : (loop.cork s).isCorked s = true := by
        simp only [cork, coherent.idle nobody, List.length_nil, ne_eq, not_true, false_and, if_false, isCorked, decide_true]
      have same : (loop.cork s).sockets s = loop.sockets s := by
        unfold cork
        split <;> rfl
      have later := corked.trans (corkBuffer_appended data corked.coherent own (by rw [same, empty]))
      rwa [List.nil_append] at later
  · simp only
    have moved : ∀ (base : Loop δ) (ours : Bytes), base.sockets = loop.sockets →
        Buffered s (ours ++ data) base (base.onBuffer s fun buffer =>
          ((buffer.resize (ours.length + (loop.sockets s).buffer.length + data.length)).copy
            (loop.sockets s).buffer.length ours).copy (ours.length + (loop.sockets s).buffer.length) data) := by
      intro base ours same
      have within := coherent.within s
      have room := BackPressure.resize_copy within ours data
      have first := BackPressure.within_append within ours
      apply (Sent.none base s).onBuffer
      · rw [same, room]
        exact BackPressure.within_append first data
      · rw [same, room, BackPressure.data_append first, BackPressure.data_append within, List.append_assoc]
        rfl
    cases corked : loop.isCorked s with
    | true =>
      simp only [if_true]
      exact Buffered.flushed coherent corked (moved { loop with corkBuffer := [] } loop.corkBuffer rfl)
    | false =>
      simp only [Bool.false_eq_true, if_false]
      exact (moved loop [] rfl).appended coherent (.inl (corked_not corked))

theorem writeLarge_appended (header message : Bytes) (coherent : loop.Coherent) (clear : loop.corkBuffer = [])
    (empty : (loop.sockets s).buffer.data = []) :
    Appended s (header ++ message) loop (loop.writeLarge s header message).1 := by
  obtain ⟨most, sent⟩ := usSocketWrite2_sent loop s header message
  have uncorked : ∀ t, loop.corked t = [] := by
    intro t
    simp only [Loop.corked, clear, ite_self]
  unfold writeLarge
  simp only
  generalize loop.usSocketWrite2 s header message = result at most sent ⊢
  obtain ⟨after, written⟩ := result
  simp only at most sent
  split
  · have within := coherent.within s
    have buffered : Buffered s (header ++ message) loop (after.onBuffer s fun buffer =>
        if header.length < written then buffer.append (message.drop (written - header.length))
        else (buffer.append (header.drop written)).append message) := by
      apply sent.onBuffer
      · split
        · exact BackPressure.within_append within _
        · exact BackPressure.within_append (BackPressure.within_append within _) _
      · split
        · rename_i behind
          rw [BackPressure.data_append within, empty, List.nil_append, List.nil_append, List.take_append,
            List.take_of_length_le (Nat.le_of_lt behind), List.append_assoc, List.take_append_drop]
        · rename_i before
          have short : written - header.length = 0 := by omega
          rw [BackPressure.data_append (BackPressure.within_append within _), BackPressure.data_append within, empty,
            List.nil_append, List.nil_append, List.take_append, short, List.take_zero, List.append_nil,
            ← List.append_assoc, List.take_append_drop]
    have kept := buffered.appended coherent (.inl (uncorked s))
    have none : (after.onBuffer s fun buffer =>
        if header.length < written then buffer.append (message.drop (written - header.length))
        else (buffer.append (header.drop written)).append message).corkBuffer = [] := by
      rw [buffered.corkBuffer, clear]
    exact kept.uncorkWithoutSending none
  · rename_i all
    have whole : written = (header ++ message).length := by
      rw [List.length_append]
      exact Decidable.not_not.mp all
    rw [whole, List.take_length] at sent
    exact (sent.buffered (coherent.within s) empty).appended coherent (.inl (uncorked s))

theorem cork_sockets (loop : Loop δ) (s : Nat) : (loop.cork s).sockets = loop.sockets := by
  unfold cork
  split <;> rfl

theorem uncorkWithoutSending_sockets (loop : Loop δ) (s : Nat) : (loop.uncorkWithoutSending s).sockets = loop.sockets := by
  unfold uncorkWithoutSending
  split <;> rfl

section Others

variable (loop) (other : t ≠ s)
include other

theorem drainBuffer_other : (loop.drainBuffer s).1.sockets t = loop.sockets t := by
  have sent := (usSocketWrite_sent loop s (loop.sockets s).buffer.data).2.others t other
  unfold drainBuffer
  simp only
  split
  · split <;> simp only [onBuffer, modify_other _ other, sent]
  · rfl

theorem writeOut_other (src : Bytes) (optionally : Bool) (nextLength : Nat) :
    (loop.writeOut s src optionally nextLength).1.sockets t = loop.sockets t := by
  have sent := (usSocketWrite_sent loop s src).2.others t other
  unfold writeOut
  simp only
  split
  · split
    · exact sent
    · simp only [onBuffer, modify_other _ other, sent]
  · exact sent

theorem writeWith_other (onCorked : Loop δ → Loop δ × Nat × Bool)
    (kept : ∀ between : Loop δ, (onCorked between).1.sockets t = between.sockets t) (src : Bytes) (optionally : Bool)
    (nextLength : Nat) : (loop.writeWith s onCorked src optionally nextLength).1.sockets t = loop.sockets t := by
  have drained := drainBuffer_other loop other
  unfold writeWith
  simp only
  generalize loop.drainBuffer s = result at drained
  obtain ⟨between, limited⟩ := result
  simp only at drained ⊢
  split
  · rfl
  · split
    · split
      · exact drained
      · simp only [onBuffer, modify_other _ other, drained]
    · split
      · exact drained
      · split
        · rw [kept, drained]
        · rw [writeOut_other between other, drained]

theorem writeUncorked_other (src : Bytes) (optionally : Bool) (nextLength : Nat) :
    (loop.writeUncorked s src optionally nextLength).1.sockets t = loop.sockets t :=
  writeWith_other loop other _ (fun _ => rfl) src optionally nextLength

theorem uncork_other (src : Bytes) (optionally : Bool) : (loop.uncork s src optionally).1.sockets t = loop.sockets t := by
  have flushed := writeUncorked_other { loop with corkedSocket := none } other loop.corkBuffer false src.length
  unfold uncork
  simp only
  generalize Loop.writeUncorked { loop with corkedSocket := none } s loop.corkBuffer false src.length = result at flushed
  obtain ⟨between, written, failed⟩ := result
  simp only at flushed ⊢
  split
  · split
    · split
      · split
        · simp only [onBuffer, modify_other _ other, flushed]
        · exact flushed
      · rw [writeUncorked_other _ other]
        exact flushed
    · exact writeUncorked_other _ other src optionally 0
  · rfl

theorem write_other (src : Bytes) (optionally : Bool) (nextLength : Nat) :
    (loop.write s src optionally nextLength).1.sockets t = loop.sockets t := by
  apply writeWith_other loop other
  intro between
  split
  · rfl
  · exact uncork_other between other src optionally

theorem getSendBuffer_other (data : Bytes) : (loop.getSendBuffer s data).1.sockets t = loop.sockets t := by
  unfold getSendBuffer
  simp only
  split
  · split
    · rfl
    · exact congrFun (cork_sockets loop s) t
  · simp only [onBuffer, modify_other _ other]
    split <;> rfl

theorem writeLarge_other (header message : Bytes) : (loop.writeLarge s header message).1.sockets t = loop.sockets t := by
  have sent := (usSocketWrite2_sent loop s header message).2.others t other
  unfold writeLarge
  simp only
  split
  · rw [uncorkWithoutSending_sockets]
    simp only [onBuffer, modify_other _ other, sent]
  · exact sent

end Others

end Loop

/-- What an open socket may be told; the arguments of `writeLarge` are the header and the payload of a frame. -/
inductive Operation where
  | cork
  | uncork (src : Bytes) (optionally : Bool)
  | write (src : Bytes) (optionally : Bool) (nextLength : Nat)
  | getSendBuffer (data : Bytes)
  | writeLarge (header message : Bytes)

variable {δ : Type}

/-- The loop behind an operation, with the bytes it reports as written. -/
def Operation.run (operation : Operation) (s : Nat) (loop : Loop δ) : Loop δ × Bytes :=
  match operation with
  | .cork => (loop.cork s, [])
  | .uncork src optionally =>
    let (loop, written, _) := loop.uncork s src optionally
    (loop, src.take written)
  | .write src optionally nextLength =>
    let (loop, written, _) := loop.write s src optionally nextLength
    (loop, src.take written)
  | .getSendBuffer data => ((loop.getSendBuffer s data).1, data)
  | .writeLarge header message =>
    -- `send` takes this path only past these checks
    if loop.getBufferedAmount s = 0 ∧ loop.corkBuffer.length = 0 then
      ((loop.writeLarge s header message).1, header ++ message)
    else (loop, [])

def runOperations : List (Nat × Operation) → Loop δ → Loop δ × (Nat → Bytes)
  | [], loop => (loop, fun _ => [])
  | (s, operation) :: operations, loop =>
    let (loop, bytes) := operation.run s loop
    let (loop, written) := runOperations operations loop
    (loop, fun t => if t = s then bytes ++ written t else written t)

/-- What a call may say about its bytes: a write that is not optional reports all of them, and so does an `uncork`
    of the socket that corks. -/
def Operation.Reports (operation : Operation) (s : Nat) (loop : Loop δ) : Prop :=
  match operation with
  | .cork => True
  | .uncork src optionally =>
    let written := (loop.uncork s src optionally).2.1
    if loop.isCorked s then Loop.Reports src optionally written else written = 0
  | .write src optionally nextLength => Loop.Reports src optionally (loop.write s src optionally nextLength).2.1
  | .getSendBuffer data => ((Operation.getSendBuffer data).run s loop).2 = data
  | .writeLarge header message =>
    loop.getBufferedAmount s = 0 → loop.corkBuffer.length = 0 →
      ((Operation.writeLarge header message).run s loop).2 = header ++ message

/-- Every one of the calls reports so in the state that it is made in. -/
def ReportsInside : List (Nat × Operation) → Loop δ → Prop
  | [], _ => True
  | (s, operation) :: operations, loop =>
    operation.Reports s loop ∧ ReportsInside operations (operation.run s loop).1

def Loop.fresh (kernel : List Nat) (ext : Nat → δ) : Loop δ := { kernel := kernel, sockets := fun s => { ext := ext s } }

theorem Operation.writeLarge_run (header message : Bytes) (s : Nat) {loop : Loop δ} (coherent : loop.Coherent) :
    Loop.Appended s ((Operation.writeLarge header message).run s loop).2 loop
      ((Operation.writeLarge header message).run s loop).1 := by
  simp only [Operation.run]
  split
  · rename_i checked
    obtain ⟨total, clear⟩ := checked
    have nothing : (loop.sockets s).buffer.buffer = [] := List.eq_nil_of_length_eq_zero total
    have empty : (loop.sockets s).buffer.data = [] := by rw [BackPressure.data, nothing, List.drop_nil]
    exact Loop.writeLarge_appended header message coherent (List.eq_nil_of_length_eq_zero clear) empty
  · exact Loop.Appended.refl coherent s

theorem Operation.run_appended (operation : Operation) (s : Nat) (loop : Loop δ) (coherent : loop.Coherent)
    (live : (loop.sockets s).closed = false) :
    Loop.Appended s (operation.run s loop).2 loop (operation.run s loop).1 := by
  cases operation with
  | cork => exact Loop.cork_appended coherent
  | uncork src optionally =>
    simp only [Operation.run]
    cases corked : loop.isCorked s with
    | true => exact (Loop.uncork_appended src optionally coherent live corked).2
    | false =>
      rw [Loop.uncork_uncorked src optionally corked]
      exact Loop.Appended.refl coherent s
  | write src optionally nextLength => exact (Loop.write_appended src optionally nextLength coherent live).2
  | getSendBuffer data => exact Loop.getSendBuffer_appended data coherent
  | writeLarge header message => exact writeLarge_run header message s coherent

theorem Operation.run_reports (operation : Operation) (s : Nat) (loop : Loop δ) (coherent : loop.Coherent)
    (live : (loop.sockets s).closed = false) : operation.Reports s loop := by
  cases operation with
  | cork => trivial
  | uncork src optionally =>
    simp only [Operation.Reports]
    cases corked : loop.isCorked s with
    | true => exact (Loop.uncork_appended src optionally coherent live corked).1
    | false =>
      rw [Loop.uncork_uncorked src optionally corked]
      rfl
  | write src optionally nextLength => exact (Loop.write_appended src optionally nextLength coherent live).1
  | getSendBuffer data => rfl
  | writeLarge header message =>
    intro total clear
    simp only [Operation.run, total, clear, and_self, if_true]

theorem Operation.run_other (operation : Operation) {s t : Nat} (loop : Loop δ) (other : t ≠ s) :
    (operation.run s loop).1.sockets t = loop.sockets t := by
  cases operation with
  | cork => exact congrFun (Loop.cork_sockets loop s) t
  | uncork src optionally => exact Loop.uncork_other loop other src optionally
  | write src optionally nextLength => exact Loop.write_other loop other src optionally nextLength
  | getSendBuffer data => exact Loop.getSendBuffer_other loop other data
  | writeLarge header message =>
    simp only [Operation.run]
    split
    · exact Loop.writeLarge_other loop other header message
    · rfl

theorem Operation.run_coherent (operation : Operation) (s : Nat) (loop : Loop δ) (coherent : loop.Coherent) :
    (operation.run s loop).1.Coherent := by
  by_cases live : (loop.sockets s).closed = false
  · exact (operation.run_appended s loop coherent live).coherent
  · have closed : (loop.sockets s).closed = true := Bool.eq_true_of_not_eq_false live
    cases operation with
    | cork => exact (Loop.cork_appended coherent).coherent
    | write src optionally nextLength =>
      simp only [Operation.run, Loop.write, Loop.writeWith, closed, if_true]
      exact coherent
    | getSendBuffer data => exact (Loop.getSendBuffer_appended data coherent).coherent
    | writeLarge header message => exact (writeLarge_run header message s coherent).coherent
    | uncork src optionally =>
      simp only [Operation.run]
      cases corked : loop.isCorked s with
      | false =>
        rw [Loop.uncork_uncorked src optionally corked]
        exact coherent
      | true =>
        rw [Loop.uncork_closed src optionally closed corked]
        constructor
        · exact coherent.within
        · intro u some
          exact absurd (ite_self _) some
        · intro
          rfl

theorem runOperations_appended (operations : List (Nat × Operation)) (loop : Loop δ) (coherent : loop.Coherent)
    (live : ∀ s, (loop.sockets s).closed = false) :
    (runOperations operations loop).1.Coherent ∧
      ∀ s, (runOperations operations loop).1.stream s = loop.stream s ++ (runOperations operations loop).2 s := by
  induction operations generalizing loop with
  | nil => exact ⟨coherent, fun s => (List.append_nil _).symm⟩
  | cons first operations ih =>
    obtain ⟨s, operation⟩ := first
    have step := operation.run_appended s loop coherent (live s)
    have later : ∀ t, ((operation.run s loop).1.sockets t).closed = false := by
      intro t
      rw [step.closed, live]
    obtain ⟨kept, streams⟩ := ih (operation.run s loop).1 step.coherent later
    apply And.intro kept
    intro t
    simp only [runOperations]
    rw [streams]
    split
    · rename_i own
      rw [own, step.own, List.append_assoc]
    · rename_i other
      rw [step.others t other]

theorem runOperations_report (operations : List (Nat × Operation)) (loop : Loop δ) (coherent : loop.Coherent)
    (live : ∀ s, (loop.sockets s).closed = false) : ReportsInside operations loop := by
  induction operations generalizing loop with
  | nil => trivial
  | cons first operations ih =>
    obtain ⟨s, operation⟩ := first
    have step := operation.run_appended s loop coherent (live s)
    apply And.intro (operation.run_reports s loop coherent (live s))
    apply ih _ step.coherent
    intro t
    rw [step.closed, live]

theorem Loop.fresh_coherent (kernel : List Nat) (ext : Nat → δ) : (Loop.fresh kernel ext).Coherent := by
  constructor
  · intro
    exact Nat.le_refl 0
  · intro _ some
    exact absurd (ite_self _) some
  · intro
    rfl

/-- Over every order of operations and every behaviour of the kernel, nothing is lost, repeated or moved, and no call
    reports less than it was given unless it is optional. -/
theorem stream_written (kernel : List Nat) (ext : Nat → δ) (operations : List (Nat × Operation)) (s : Nat) :
    let (loop, written) := runOperations operations (Loop.fresh kernel ext)
    (loop.sockets s).wire ++ (loop.sockets s).buffer.data ++ loop.corked s = written s ∧
      (loop.sockets s).buffer.pendingRemoval ≤ (loop.sockets s).buffer.buffer.length ∧
      ReportsInside operations (Loop.fresh kernel ext) := by
  have fresh := Loop.fresh_coherent kernel ext
  obtain ⟨coherent, streams⟩ := runOperations_appended operations (Loop.fresh kernel ext) fresh (fun _ => rfl)
  exact ⟨streams s, coherent.within s, runOperations_report operations _ fresh (fun _ => rfl)⟩

end Uws.Socket
