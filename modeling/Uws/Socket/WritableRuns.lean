import Uws.Socket.Polling

namespace Uws.Socket

open Uws.Http (Bytes)

namespace Loop

variable {δ : Type} {loop between after : Loop δ} {s : Nat}

/-- What writing on `s` keeps: a failed write stays known and polled for. -/
structure Grows (s : Nat) (loop after : Loop δ) : Prop where
  closed : (after.sockets s).closed = (loop.sockets s).closed
  shutDown : (after.sockets s).shutDown = (loop.sockets s).shutDown
  flag : loop.lastWriteFailed = true → after.lastWriteFailed = true
  poll : (loop.sockets s).poll.writable = true → (after.sockets s).poll.writable = true

def Opened (s : Nat) (loop : Loop δ) : Prop := (loop.sockets s).closed = false ∧ (loop.sockets s).shutDown = false
def Clear (s : Nat) (loop : Loop δ) : Prop := (loop.sockets s).buffer.length = 0
def Failed (s : Nat) (loop : Loop δ) : Prop := (loop.sockets s).poll.writable = true ∧ loop.lastWriteFailed = true

namespace Grows

theorem refl (loop : Loop δ) (s : Nat) : Grows s loop loop := ⟨rfl, rfl, id, id⟩

theorem trans (left : Grows s loop between) (right : Grows s between after) : Grows s loop after :=
  ⟨right.closed.trans left.closed, right.shutDown.trans left.shutDown, fun flag => right.flag (left.flag flag),
    fun poll => right.poll (left.poll poll)⟩

theorem opened (grows : Grows s loop after) (opened : Opened s loop) : Opened s after :=
  ⟨grows.closed.trans opened.1, grows.shutDown.trans opened.2⟩

theorem failed (grows : Grows s loop after) (failed : Failed s loop) : Failed s after :=
  ⟨grows.poll failed.1, grows.flag failed.2⟩

end Grows

theorem onBuffer_grows (loop : Loop δ) (s : Nat) (f : BackPressure → BackPressure) : Grows s loop (loop.onBuffer s f) := by
  constructor <;> simp only [onBuffer, modify_same]
  · exact id
  · exact id

theorem bsdSend_grows (loop : Loop δ) (s : Nat) (data : Bytes) : Grows s loop (loop.bsdSend s data).1 := by
  constructor <;> simp only [bsdSend, modify_same]
  · exact id
  · exact id

theorem pollBoth_grows (loop : Loop δ) (s : Nat) : Grows s loop (loop.usPollChange s .both) := by
  constructor <;> simp only [usPollChange, modify_same]
  · exact id
  · exact fun _ => rfl

theorem usSocketWrite_grows (loop : Loop δ) (s : Nat) (data : Bytes) :
    Grows s loop (loop.usSocketWrite s data).1 := by
  have sent := bsdSend_grows loop s data
  unfold usSocketWrite
  split
  · exact Grows.refl loop s
  · simp only
    split
    · have flagged : Grows s (loop.bsdSend s data).1 { (loop.bsdSend s data).1 with lastWriteFailed := true } :=
        ⟨rfl, rfl, fun _ => rfl, id⟩
      exact (sent.trans flagged).trans (pollBoth_grows _ s)
    · exact sent

theorem usSocketWrite_failed (opened : Opened s loop) (data : Bytes) :
    (loop.usSocketWrite s data).2 = data.length ∨ Failed s (loop.usSocketWrite s data).1 := by
  unfold usSocketWrite
  rw [if_neg (by rw [opened.1, opened.2]; exact Bool.false_ne_true)]
  simp only
  split
  · apply Or.inr
    simp only [Failed, usPollChange, modify_same]
    exact ⟨rfl, rfl⟩
  · rename_i whole
    exact .inl (Decidable.not_not.mp whole)

theorem drainBuffer_grows (loop : Loop δ) (s : Nat) : Grows s loop (loop.drainBuffer s).1 := by
  unfold drainBuffer
  simp only
  split
  · have written := usSocketWrite_grows loop s (loop.sockets s).buffer.data
    split
    · simp only
      exact written.trans (onBuffer_grows _ s _)
    · simp only
      exact written.trans (onBuffer_grows _ s _)
  · exact Grows.refl loop s

theorem drainBuffer_failed (opened : Opened s loop) :
    ((loop.drainBuffer s).2 = false ∧ Clear s (loop.drainBuffer s).1) ∨
      ((loop.drainBuffer s).2 = true ∧ Failed s (loop.drainBuffer s).1) := by
  have failed := usSocketWrite_failed opened (loop.sockets s).buffer.data
  rw [BackPressure.data_length] at failed
  unfold drainBuffer
  simp only
  split
  · split
    · rename_i less
      rcases failed with whole | failed
      · exact absurd whole (Nat.ne_of_lt less)
      · apply Or.inr
        simp only
        exact ⟨trivial, (onBuffer_grows _ s _).failed failed⟩
    · apply Or.inl
      apply And.intro rfl
      simp only [Clear, onBuffer, modify_same]
      rfl
  · rename_i empty
    rw [Decidable.not_not] at empty
    exact .inl ⟨rfl, empty⟩

theorem writeOut_grows (loop : Loop δ) (s : Nat) (src : Bytes) (optionally : Bool) (nextLength : Nat) :
    Grows s loop (loop.writeOut s src optionally nextLength).1 := by
  have written := usSocketWrite_grows loop s src
  unfold writeOut
  simp only
  split
  · split
    · exact written
    · simp only
      exact written.trans (onBuffer_grows _ s _)
  · exact written

theorem writeOut_failed (opened : Opened s loop) (clear : Clear s loop) (src : Bytes) (optionally : Bool)
    (nextLength : Nat) :
    ((loop.writeOut s src optionally nextLength).2.2 = false ∧ Clear s (loop.writeOut s src optionally nextLength).1) ∨
      ((loop.writeOut s src optionally nextLength).2.2 = true ∧
        Failed s (loop.writeOut s src optionally nextLength).1) := by
  have failed := usSocketWrite_failed opened src
  have sent := (usSocketWrite_sent loop s src).2
  unfold writeOut
  simp only
  split
  · rename_i less
    have failed := failed.resolve_left (Nat.ne_of_lt less)
    apply Or.inr
    split
    · exact ⟨rfl, failed⟩
    · simp only
      exact ⟨trivial, (onBuffer_grows _ s _).failed failed⟩
  · apply Or.inl
    apply And.intro rfl
    rw [Clear, sent.buffer]
    exact clear

/-- What a call that writes leaves: nothing of the socket is buffered, or a write has failed. -/
def Settles (s : Nat) (result : Loop δ × Nat × Bool) : Prop :=
  (result.2.2 = true → Failed s result.1) ∧ (Clear s result.1 ∨ Failed s result.1)

section WriteWith

variable {onCorked : Loop δ → Loop δ × Nat × Bool}

theorem writeWith_grows (grows : ∀ between, Grows s between (onCorked between).1) (src : Bytes) (optionally : Bool)
    (nextLength : Nat) : Grows s loop (loop.writeWith s onCorked src optionally nextLength).1 := by
  have drained := drainBuffer_grows loop s
  unfold writeWith
  split
  · exact Grows.refl loop s
  · simp only
    split
    · split
      · exact drained
      · simp only
        exact drained.trans (onBuffer_grows _ s _)
    · split
      · exact drained
      · split
        · exact drained.trans (grows _)
        · exact drained.trans (writeOut_grows _ s src optionally nextLength)

theorem writeWith_settles (opened : Opened s loop) (src : Bytes) (optionally : Bool) (nextLength : Nat)
    (settles : ∀ between, between.isCorked s = true → Opened s between → Clear s between →
      Settles s (onCorked between)) :
    Settles s (loop.writeWith s onCorked src optionally nextLength) := by
  have failed := drainBuffer_failed opened
  have still := (drainBuffer_grows loop s).opened opened
  unfold writeWith
  rw [if_neg (by rw [opened.1]; exact Bool.false_ne_true)]
  simp only
  generalize loop.drainBuffer s = drained at failed still
  obtain ⟨drained, limited⟩ := drained
  simp only at failed still
  rcases failed with ⟨done, clear⟩ | ⟨limit, failed⟩
  · rw [done]
    simp only [Bool.false_eq_true, if_false]
    split
    · exact ⟨fun wrong => absurd wrong Bool.false_ne_true, .inl clear⟩
    · split
      · rename_i corked
        exact settles drained corked still clear
      · rcases writeOut_failed still clear src optionally nextLength with ⟨fine, clear⟩ | ⟨_, failed⟩
        · exact ⟨fun wrong => absurd (fine.symm.trans wrong) Bool.false_ne_true, .inl clear⟩
        · exact ⟨fun _ => failed, .inr failed⟩
  · rw [limit]
    simp only [if_true]
    split
    · exact ⟨fun _ => failed, .inr failed⟩
    · have grown := (onBuffer_grows drained s (·.append src)).failed failed
      exact ⟨fun _ => grown, .inr grown⟩

end WriteWith

theorem writeUncorked_grows (loop : Loop δ) (s : Nat) (src : Bytes) (optionally : Bool) (nextLength : Nat) :
    Grows s loop (loop.writeUncorked s src optionally nextLength).1 :=
  writeWith_grows (fun between => Grows.refl between s) src optionally nextLength

theorem writeUncorked_settles (opened : Opened s loop) (src : Bytes) (optionally : Bool) (nextLength : Nat) :
    Settles s (loop.writeUncorked s src optionally nextLength) :=
  writeWith_settles opened src optionally nextLength fun _ _ _ clear =>
    ⟨fun wrong => absurd wrong Bool.false_ne_true, .inl clear⟩

theorem Settles.congr {result other : Loop δ × Nat × Bool} (settles : Settles s result) (failed : other.2.2 = result.2.2)
    (sockets : other.1.sockets = result.1.sockets) (flag : other.1.lastWriteFailed = result.1.lastWriteFailed) :
    Settles s other := by
  simp only [Settles, Clear, Failed, failed, sockets, flag] at settles ⊢
  exact settles

theorem uncork_grows (loop : Loop δ) (s : Nat) (src : Bytes) (optionally : Bool) :
    Grows s loop (loop.uncork s src optionally).1 := by
  unfold uncork
  split
  · have freed : Grows s loop { loop with corkedSocket := none } := ⟨rfl, rfl, id, id⟩
    simp only
    split
    · have flushed := freed.trans
        (writeUncorked_grows { loop with corkedSocket := none } s loop.corkBuffer false src.length)
      generalize writeUncorked { loop with corkedSocket := none } s loop.corkBuffer false src.length = result at flushed
      obtain ⟨flushing, written, failed⟩ := result
      have emptied : Grows s flushing { flushing with corkBuffer := [] } := ⟨rfl, rfl, id, id⟩
      have flushed := flushed.trans emptied
      simp only
      split
      · split
        · simp only
          exact flushed.trans (onBuffer_grows _ s _)
        · exact flushed
      · exact flushed.trans (writeUncorked_grows _ s src optionally 0)
    · exact freed.trans (writeUncorked_grows _ s src optionally 0)
  · exact Grows.refl loop s

theorem uncork_settles (opened : Opened s loop) (src : Bytes) (optionally : Bool) (corked : loop.isCorked s = true) :
    Settles s (loop.uncork s src optionally) := by
  have freed : Opened s { loop with corkedSocket := none } := opened
  unfold uncork
  rw [if_pos corked]
  simp only
  split
  · have flushed := writeUncorked_settles freed loop.corkBuffer false src.length
    have still := (writeUncorked_grows { loop with corkedSocket := none } s loop.corkBuffer false src.length).opened freed
    generalize writeUncorked { loop with corkedSocket := none } s loop.corkBuffer false src.length = result
      at flushed still
    obtain ⟨flushing, written, failed⟩ := result
    cases failed with
    | true =>
      have failed : Failed s { flushing with corkBuffer := [] } := flushed.1 rfl
      simp only [if_true]
      split
      · have grown := (onBuffer_grows { flushing with corkBuffer := [] } s (·.append src)).failed failed
        exact ⟨fun _ => grown, .inr grown⟩
      · exact ⟨fun _ => failed, .inr failed⟩
    | false =>
      have still : Opened s { flushing with corkBuffer := [] } := still
      simp only [Bool.false_eq_true, if_false]
      exact writeUncorked_settles still src optionally 0
  · exact writeUncorked_settles freed src optionally 0

theorem write_grows (loop : Loop δ) (s : Nat) (src : Bytes) (optionally : Bool) (nextLength : Nat) :
    Grows s loop (loop.write s src optionally nextLength).1 := by
  apply writeWith_grows
  intro between
  split
  · exact ⟨rfl, rfl, id, id⟩
  · exact uncork_grows between s src optionally

theorem write_settles (opened : Opened s loop) (src : Bytes) (optionally : Bool) (nextLength : Nat) :
    Settles s (loop.write s src optionally nextLength) := by
  apply writeWith_settles opened
  intro between corked still clear
  split
  · exact ⟨fun wrong => absurd wrong Bool.false_ne_true, .inl clear⟩
  · exact uncork_settles still src optionally corked

theorem cork_grows (loop : Loop δ) (s : Nat) : Grows s loop (loop.cork s) := by
  unfold cork
  split
  · exact ⟨rfl, rfl, id, id⟩
  · exact ⟨rfl, rfl, id, id⟩

theorem getSendBuffer_grows (loop : Loop δ) (s : Nat) (data : Bytes) :
    Grows s loop (loop.getSendBuffer s data).1 ∧
      ((loop.getSendBuffer s data).2 ≠ .needsDrain → Clear s (loop.getSendBuffer s data).1) := by
  unfold getSendBuffer
  simp only
  split
  · rename_i free
    have clear : Clear s loop := free.1
    split
    · exact ⟨⟨rfl, rfl, id, id⟩, fun _ => clear⟩
    · have corked := cork_grows loop s
      refine ⟨corked.trans ⟨rfl, rfl, id, id⟩, fun _ => ?_⟩
      simp only [Clear, cork_sockets]
      exact clear
  · refine ⟨?_, fun drains => absurd rfl drains⟩
    split
    · have emptied : Grows s loop { loop with corkBuffer := [] } := ⟨rfl, rfl, id, id⟩
      simp only
      exact emptied.trans (onBuffer_grows _ s _)
    · simp only
      exact onBuffer_grows loop s _

theorem sendBuffered_grows (loop : Loop δ) (s : Nat) (frame : Bytes) : Grows s loop (loop.sendBuffered s frame).1 := by
  obtain ⟨grows, -⟩ := getSendBuffer_grows loop s frame
  unfold sendBuffered
  generalize loop.getSendBuffer s frame = result at grows
  obtain ⟨between, needs⟩ := result
  cases needs with
  | needsNothing => exact grows
  | needsDrain => exact grows.trans (write_grows between s [] false 0)
  | needsUncork => exact grows.trans (uncork_grows between s [] false)

theorem sendBuffered_settles (opened : Opened s loop) (frame : Bytes) :
    Clear s (loop.sendBuffered s frame).1 ∨ Failed s (loop.sendBuffered s frame).1 := by
  obtain ⟨grows, clear⟩ := getSendBuffer_grows loop s frame
  unfold sendBuffered
  generalize loop.getSendBuffer s frame = result at grows clear
  obtain ⟨between, needs⟩ := result
  cases needs with
  | needsNothing => exact .inl (clear SendBufferAttribute.noConfusion)
  | needsDrain => exact (write_settles (grows.opened opened) [] false 0).2
  | needsUncork =>
    cases corked : between.isCorked s with
    | true => exact (uncork_settles (grows.opened opened) [] false corked).2
    | false =>
      simp only [uncork_uncorked [] false corked]
      exact .inl (clear SendBufferAttribute.noConfusion)

theorem usSocketWrite2_grows (loop : Loop δ) (s : Nat) (header payload : Bytes) :
    Grows s loop (loop.usSocketWrite2 s header payload).1 := by
  have sent := bsdSend_grows loop s (header ++ payload)
  unfold usSocketWrite2
  split
  · exact Grows.refl loop s
  · simp only
    split
    · exact sent.trans (pollBoth_grows _ s)
    · exact sent

theorem writeLarge_grows (loop : Loop δ) (s : Nat) (header message : Bytes) :
    Grows s loop (loop.writeLarge s header message).1 := by
  have written := usSocketWrite2_grows loop s header message
  unfold writeLarge
  simp only
  split
  · have freed : ∀ between : Loop δ, Grows s between (between.uncorkWithoutSending s) := by
      intro between
      unfold uncorkWithoutSending
      split
      · exact ⟨rfl, rfl, id, id⟩
      · exact Grows.refl between s
    exact (written.trans (onBuffer_grows _ s _)).trans (freed _)
  · exact written

theorem usSocketWrite2_whole (opened : Opened s loop) (header payload : Bytes)
    (whole : header.length + payload.length ≤ loop.kernel.headD 0) :
    (loop.usSocketWrite2 s header payload).2 = header.length + payload.length := by
  have taken : (loop.bsdSend s (header ++ payload)).2 = header.length + payload.length := by
    simp only [bsdSend, List.length_append]
    exact Nat.min_eq_right whole
  unfold usSocketWrite2
  rw [if_neg (by rw [opened.1, opened.2]; exact Bool.false_ne_true)]
  simp only
  split
  · rename_i part
    exact absurd taken part
  · exact taken

/-- A long frame that is not taken whole is polled for, but nothing says that a write has failed. -/
theorem writeLarge_polls (opened : Opened s loop) (clear : Clear s loop) (header message : Bytes) :
    ((loop.usSocketWrite2 s header message).2 = header.length + message.length ∧
      Clear s (loop.writeLarge s header message).1) ∨
    ((loop.usSocketWrite2 s header message).2 ≠ header.length + message.length ∧
      ((loop.writeLarge s header message).1.sockets s).poll.writable = true) := by
  have sent := (usSocketWrite2_sent loop s header message).2
  have polls : (loop.usSocketWrite2 s header message).2 ≠ header.length + message.length →
      ((loop.usSocketWrite2 s header message).1.sockets s).poll.writable = true := by
    unfold usSocketWrite2
    rw [if_neg (by rw [opened.1, opened.2]; exact Bool.false_ne_true)]
    simp only
    split
    · intro _
      simp only [usPollChange, modify_same]
      rfl
    · rename_i whole
      exact fun part => absurd part whole
  unfold writeLarge
  simp only
  generalize loop.usSocketWrite2 s header message = result at sent polls
  split
  · rename_i part
    refine .inr ⟨part, ?_⟩
    simp only [uncorkWithoutSending_sockets, onBuffer, modify_same]
    exact polls part
  · rename_i whole
    refine .inl ⟨Decidable.not_not.mp whole, ?_⟩
    rw [Clear, sent.buffer]
    exact clear

end Loop

variable {δ : Type} {p : Poller δ} {s t : Nat}

open Loop

theorem sendBuffered_other (loop : Loop δ) (other : t ≠ s) (frame : Bytes) :
    (loop.sendBuffered s frame).1.sockets t = loop.sockets t := by
  have got := getSendBuffer_other loop other frame
  unfold Loop.sendBuffered
  generalize loop.getSendBuffer s frame = result at got
  obtain ⟨between, needs⟩ := result
  rw [← got]
  cases needs with
  | needsNothing => rfl
  | needsDrain => exact write_other between other [] false 0
  | needsUncork => exact uncork_other between other [] false

theorem run_other (call : SocketCall δ) (other : t ≠ s) :
    (call.run s p).loop.sockets t = p.loop.sockets t ∧ (call.run s p).paused t = p.paused t := by
  cases call with
  | cork => exact ⟨congrFun (cork_sockets p.loop s) t, rfl⟩
  | uncork src optionally => exact ⟨uncork_other p.loop other src optionally, rfl⟩
  | write src optionally nextLength => exact ⟨write_other p.loop other src optionally nextLength, rfl⟩
  | send frame => exact ⟨sendBuffered_other p.loop other frame, rfl⟩
  | sendLarge header message => exact ⟨Operation.run_other (.writeLarge header message) p.loop other, rfl⟩
  | pause =>
    simp only [SocketCall.run, Loop.pause, usPollChange, modify_other _ other, Function.update_of_ne other]
    split <;> simp only [modify_other _ other, and_self]
  | resume => simp only [SocketCall.run, Loop.resume, usPollChange, modify_other _ other, Function.update_of_ne other, and_self]
  | adopt => simp only [SocketCall.run, modify_other _ other, and_self]
  | shutdown =>
    simp only [SocketCall.run, usSocketShutdown]
    split <;> simp only [modify_other _ other, and_self]
  | close => simp only [SocketCall.run, usSocketClose, modify_other _ other, and_self]
  | keep f => simp only [SocketCall.run, modify_other _ other, and_self]

/-- What a call leaves on its own socket: an open one is either as it was, or has nothing buffered, or polls. -/
theorem run_own (call : SocketCall δ) (resumes : call.Resumes s p) (flowing : p.Flowing s) :
    (call.run s p).Flowing s := by
  have written : ∀ loop : Loop δ, Grows s p.loop loop → (Opened s p.loop → Clear s loop ∨ Failed s loop) →
      Poller.Flowing { p with loop } s := by
    intro loop grows outcome closed shut _ some
    rcases outcome ⟨grows.closed.symm.trans closed, grows.shutDown.symm.trans shut⟩ with clear | failed
    · exact absurd clear some
    · exact failed.1
  cases call with
  | cork =>
    simp only [Poller.Flowing, SocketCall.run, cork_sockets]
    exact flowing
  | uncork src optionally =>
    cases corked : p.loop.isCorked s with
    | true => exact written _ (uncork_grows p.loop s src optionally) fun opened => (uncork_settles opened src optionally corked).2
    | false =>
      simp only [SocketCall.run, uncork_uncorked src optionally corked]
      exact flowing
  | write src optionally nextLength =>
    exact written _ (write_grows p.loop s src optionally nextLength) fun opened =>
      (write_settles opened src optionally nextLength).2
  | send frame => exact written _ (sendBuffered_grows p.loop s frame) fun opened => sendBuffered_settles opened frame
  | sendLarge header message =>
    simp only [SocketCall.run, Operation.run]
    split
    · rename_i free
      have clear : Clear s p.loop := Nat.sub_eq_zero_of_le ((Nat.le_of_eq free.1).trans (Nat.zero_le _))
      have grows := writeLarge_grows p.loop s header message
      intro closed shut _ some
      rcases writeLarge_polls ⟨grows.closed.symm.trans closed, grows.shutDown.symm.trans shut⟩ clear header message
        with ⟨-, clear⟩ | ⟨-, polls⟩
      · exact absurd clear some
      · exact polls
    · exact flowing
  | pause =>
    intro _ _ running
    simp only [SocketCall.run, Function.update_self] at running
    exact absurd running.symm Bool.false_ne_true
  | resume =>
    intro _ _ _ some
    simp only [SocketCall.run, Loop.resume, usPollChange, modify_same] at some ⊢
    exact resumes.resolve_left some
  | adopt =>
    intro closed shut running some
    simp only [SocketCall.run, modify_same] at closed shut running some ⊢
    exact flowing closed shut running some
  | shutdown =>
    simp only [SocketCall.run, usSocketShutdown]
    split
    · exact flowing
    · intro _ shut
      simp only [modify_same] at shut
      exact absurd shut.symm Bool.false_ne_true
  | close =>
    intro closed
    simp only [SocketCall.run, usSocketClose, modify_same] at closed
    exact absurd closed.symm Bool.false_ne_true
  | keep f =>
    intro closed shut running some
    simp only [SocketCall.run, modify_same] at closed shut running some ⊢
    exact flowing closed shut running some

theorem run_flows (call : SocketCall δ) (resumes : call.Resumes t p) (flows : p.Flows) : (call.run t p).Flows := by
  intro u
  by_cases own : u = t
  · rw [own]
    exact run_own call resumes (flows t)
  · obtain ⟨same, paused⟩ := @run_other _ p _ _ call own
    simp only [Poller.Flowing, same, paused]
    exact flows u

/-- Behind a handler that ends so the loop may stop polling for `s`. -/
def Drained (s : Nat) (p : Poller δ) : Prop := Opened s p.loop → Clear s p.loop ∨ p.loop.lastWriteFailed = true

theorem run_flag (call : SocketCall δ) (flag : p.loop.lastWriteFailed = true) :
    (call.run t p).loop.lastWriteFailed = true := by
  cases call with
  | cork => exact (cork_grows p.loop t).flag flag
  | uncork src optionally => exact (uncork_grows p.loop t src optionally).flag flag
  | write src optionally nextLength => exact (write_grows p.loop t src optionally nextLength).flag flag
  | send frame => exact (sendBuffered_grows p.loop t frame).flag flag
  | sendLarge header message =>
    simp only [SocketCall.run, Operation.run]
    split
    · exact (writeLarge_grows p.loop t header message).flag flag
    · exact flag
  | pause =>
    simp only [SocketCall.run, Loop.pause]
    split <;> exact flag
  | resume => exact flag
  | adopt => exact flag
  | shutdown =>
    simp only [SocketCall.run, usSocketShutdown]
    split <;> exact flag
  | close => exact flag
  | keep f => exact flag

theorem write_drained {loop : Loop δ} (grows : Grows s p.loop loop)
    (outcome : Opened s p.loop → Clear s loop ∨ Failed s loop) : Drained s { p with loop } := by
  intro opened
  rcases outcome ⟨grows.closed.symm.trans opened.1, grows.shutDown.symm.trans opened.2⟩ with clear | failed
  · exact .inl clear
  · exact .inr failed.2

theorem run_writes (call : SocketCall δ) (writes : call.writes = true) : Drained s (call.run s p) := by
  cases call with
  | write src optionally nextLength =>
    exact write_drained (write_grows p.loop s src optionally nextLength) fun opened =>
      (write_settles opened src optionally nextLength).2
  | send frame => exact write_drained (sendBuffered_grows p.loop s frame) fun opened => sendBuffered_settles opened frame
  | _ => exact absurd writes Bool.false_ne_true

theorem run_drained (call : SocketCall δ) (whole : t = s → call.Whole p) (drained : Drained s p) :
    Drained s (call.run t p) := by
  by_cases own : t = s
  · have whole := whole own
    rw [own]
    have kept : ∀ after : Poller δ, (after.loop.sockets s).buffer = (p.loop.sockets s).buffer →
        (Opened s after.loop → Opened s p.loop) → after.loop.lastWriteFailed = p.loop.lastWriteFailed →
        Drained s after := by
      intro after buffer still flag opened
      rw [Clear, buffer, flag]
      exact drained (still opened)
    cases call with
    | cork =>
      apply kept
      · simp only [SocketCall.run, cork_sockets]
      · simp only [SocketCall.run, Opened, cork_sockets]
        exact id
      · simp only [SocketCall.run, Loop.cork]
        split <;> rfl
    | uncork src optionally =>
      cases corked : p.loop.isCorked s with
      | true =>
        exact write_drained (uncork_grows p.loop s src optionally) fun opened => (uncork_settles opened src optionally corked).2
      | false =>
        simp only [SocketCall.run, uncork_uncorked src optionally corked]
        exact drained
    | write src optionally nextLength => exact run_writes (.write src optionally nextLength) rfl
    | send frame => exact run_writes (.send frame) rfl
    | sendLarge header message =>
      simp only [SocketCall.run, Operation.run]
      split
      · rename_i free
        have clear : Clear s p.loop := Nat.sub_eq_zero_of_le ((Nat.le_of_eq free.1).trans (Nat.zero_le _))
        have grows := writeLarge_grows p.loop s header message
        intro opened
        have before : Opened s p.loop := ⟨grows.closed.symm.trans opened.1, grows.shutDown.symm.trans opened.2⟩
        rcases writeLarge_polls before clear header message with ⟨-, clear⟩ | ⟨part, -⟩
        · exact .inl clear
        · exact absurd (usSocketWrite2_whole before header message whole) part
      · exact drained
    | pause =>
      apply kept
      · simp only [SocketCall.run, Loop.pause, usPollChange, modify_same]
        split
        · simp only [modify_same]
        · rfl
      · simp only [SocketCall.run, Loop.pause, usPollChange, Opened, modify_same]
        split
        · simp only [modify_same]
          exact id
        · exact id
      · simp only [SocketCall.run, Loop.pause]
        split <;> rfl
    | resume =>
      apply kept
      · simp only [SocketCall.run, Loop.resume, usPollChange, modify_same]
      · simp only [SocketCall.run, Loop.resume, usPollChange, Opened, modify_same]
        exact id
      · rfl
    | adopt =>
      apply kept
      · simp only [SocketCall.run, modify_same]
      · simp only [SocketCall.run, Opened, modify_same]
        exact id
      · rfl
    | shutdown =>
      simp only [SocketCall.run, usSocketShutdown]
      split
      · exact drained
      · intro opened
        simp only [Opened, modify_same] at opened
        exact absurd opened.2.symm Bool.false_ne_true
    | close =>
      intro opened
      simp only [SocketCall.run, usSocketClose, Opened, modify_same] at opened
      exact absurd opened.1.symm Bool.false_ne_true
    | keep f =>
      apply kept
      · simp only [SocketCall.run, modify_same]
      · simp only [SocketCall.run, Opened, modify_same]
        exact id
      · rfl
  · obtain ⟨same, -⟩ := @run_other _ p _ _ call (fun eq => own eq.symm)
    intro opened
    simp only [Opened, Clear, same] at opened ⊢
    rcases drained opened with clear | flag
    · exact .inl clear
    · exact .inr (run_flag call flag)

/-- A handler that finds the buffer drained, or writes, leaves it so that the loop may stop polling. -/
theorem calls_drained (calls : Calls δ) (meets : MeetsInside s calls p)
    (start : Drained s p ∨ ∃ call ∈ calls, call.1 = s ∧ call.2.writes = true) : Drained s (calls.foldl runCall p) := by
  induction calls generalizing p with
  | nil =>
    rcases start with drained | ⟨call, member, -⟩
    · exact drained
    · exact absurd member List.not_mem_nil
  | cons call calls ih =>
    apply ih meets.2.2.2
    rcases start with drained | ⟨writing, member, own, writes⟩
    · exact .inl (run_drained call.2 meets.2.2.1 drained)
    · rcases List.mem_cons.mp member with first | later
      · rw [first] at own writes
        apply Or.inl
        rw [← own]
        exact run_writes call.2 writes
      · exact .inr ⟨writing, later, own, writes⟩

theorem calls_flow (calls : Calls δ) (meets : MeetsInside s calls p) (flows : p.Flows) :
    (∀ q ∈ calls.scanl runCall p, q.Flows) ∧ (calls.foldl runCall p).Flows := by
  induction calls generalizing p with
  | nil => exact ⟨fun q member => List.mem_singleton.mp member ▸ flows, flows⟩
  | cons call calls ih =>
    obtain ⟨inside, behind⟩ := ih meets.2.2.2 (run_flows call.2 meets.1 flows)
    refine ⟨?_, behind⟩
    rw [List.scanl_cons, List.forall_mem_cons]
    exact ⟨flows, inside⟩

theorem enter_flows (context : Context δ) (flows : p.Flows) : (context.enter t p).1.Flows := by
  cases context with
  | http connectionClose onWritable =>
    cases onWritable with
    | some calls => exact flows
    | none =>
      have drained := run_flows (.write [] true 0) (t := t) trivial flows
      simp only [Context.enter]
      split
      · have shut := run_flows .shutdown (t := t) trivial drained
        exact run_flows .close (t := t) trivial shut
      · exact drained
  | webSocket isShuttingDown drainHandler =>
    have drained := run_flows (.write [] false 0) (t := t) trivial flows
    simp only [Context.enter]
    split
    · exact flows
    · split
      · split
        · exact run_flows .shutdown (t := t) trivial drained
        · exact drained
      · split
        · exact drained
        · exact drained

theorem enter_drained (context : Context δ) (writes : context.Writes t p) :
    Drained t (context.enter t p).1 ∨ ∃ call ∈ (context.enter t p).2, call.1 = t ∧ call.2.writes = true := by
  cases context with
  | http connectionClose onWritable =>
    cases onWritable with
    | some calls =>
      rcases writes with clear | writing
      · exact .inl fun _ => .inl clear
      · exact .inr writing
    | none =>
      have drained : Drained t _ := @run_writes _ p t (.write [] true 0) rfl
      apply Or.inl
      simp only [Context.enter]
      split
      · have shut : Drained t _ := run_drained .shutdown (t := t) (fun _ => trivial) drained
        exact run_drained .close (t := t) (fun _ => trivial) shut
      · exact drained
  | webSocket isShuttingDown drainHandler =>
    have drained : Drained t _ := @run_writes _ p t (.write [] false 0) rfl
    apply Or.inl
    simp only [Context.enter]
    split
    · rename_i shut
      intro opened
      exact absurd (opened.2.symm.trans shut) Bool.false_ne_true
    · split
      · split
        · exact run_drained .shutdown (t := t) (fun _ => trivial) drained
        · exact drained
      · split
        · exact drained
        · exact drained

theorem stopWriting_flows (flows : p.Flows) (drained : Drained t p) : (p.stopWriting t).Flows := by
  unfold Poller.stopWriting
  split
  · exact flows
  · split
    · rename_i stops
      intro u
      by_cases own : u = t
      · intro closed shut _ some
        rw [own] at closed shut some
        simp only [usPollChange, modify_same] at closed shut some
        rcases drained ⟨closed, shut⟩ with clear | flag
        · exact absurd clear some
        · rw [flag, shut] at stops
          exact absurd stops Bool.false_ne_true
      · simp only [Poller.Flowing, usPollChange, modify_other _ own]
        exact flows u
    · exact flows

theorem startWriting_flows (flows : p.Flows) : p.startWriting.Flows := flows

theorem handle_flows (event : PollEvent δ) (meets : event.Meets p) (flows : p.Flows) :
    (∀ q ∈ p.inside event, q.Flows) ∧ (p.handle event).Flows := by
  cases event with
  | call t told => exact ⟨fun _ member => absurd member List.not_mem_nil, run_flows told meets.1 flows⟩
  | writable t context =>
    have entered := enter_flows (t := t) context (startWriting_flows flows)
    have start := enter_drained context meets.1
    obtain ⟨inside, behind⟩ := calls_flow _ meets.2.2 entered
    exact ⟨inside, stopWriting_flows behind (calls_drained _ meets.2.2 start)⟩

theorem visits_flow (events : List (PollEvent δ)) (meets : p.Meets events) (flows : p.Flows) :
    ∀ q ∈ p.visits events, q.Flows := by
  induction events generalizing p with
  | nil => exact fun q member => List.mem_singleton.mp member ▸ flows
  | cons event events ih =>
    obtain ⟨inside, behind⟩ := handle_flows event meets.1 flows
    intro q member
    simp only [Poller.visits, List.cons_append, List.mem_cons, List.mem_append] at member
    rcases member with first | within | later
    · rw [first]
      exact flows
    · exact inside q within
    · exact ih meets.2 behind q later

/-- Where the calls and events of a run meet the condition, no open, running socket is ever left with bytes in its
    buffer and without polling for writable. -/
theorem output_flows (kernel : List Nat) (ext : Nat → δ) (events : List (PollEvent δ))
    (meets : (Poller.fresh kernel ext).Meets events) : ∀ p ∈ (Poller.fresh kernel ext).visits events, p.Flows :=
  visits_flow events meets fun _ _ _ _ some => absurd rfl some

/-- Two bytes of which the kernel takes one, and then the other. -/
theorem drain_flows :
    (Poller.fresh [1, 1] fun _ => ()).Meets [.call 0 (.write [1, 2] false 0), .writable 0 (.webSocket false [])] ∧
      ∀ p ∈ (Poller.fresh [1, 1] fun _ => ()).visits [.call 0 (.write [1, 2] false 0), .writable 0 (.webSocket false [])],
        p.Flows :=
  have meets : (Poller.fresh [1, 1] fun _ => ()).Meets
      [.call 0 (.write [1, 2] false 0), .writable 0 (.webSocket false [])] := ⟨⟨trivial, by decide⟩, ⟨trivial, by decide, trivial⟩, trivial⟩
  ⟨meets, output_flows [1, 1] (fun _ => ()) _ meets⟩

instance (p : Poller δ) (t : Nat) : Decidable (p.Flowing t) := by
  unfold Poller.Flowing
  infer_instance

/-- A long frame that a drain handler sends and the kernel takes in part. -/
theorem large_frame_stalls :
    ¬ ∀ p ∈ (Poller.fresh [1, 1, 4] fun _ => ()).visits [.call 0 (.write [1, 2] false 0),
      .writable 0 (.webSocket false [(0, .sendLarge [130, 126, 64, 0] (List.replicate (16 * 1024) 0))])], p.Flows := by
  intro flows
  have stalls : ∃ p ∈ (Poller.fresh [1, 1, 4] fun _ => ()).visits [.call 0 (.write [1, 2] false 0),
      .writable 0 (.webSocket false [(0, .sendLarge [130, 126, 64, 0] (List.replicate (16 * 1024) 0))])],
      ¬ p.Flowing 0 := by
    decide +kernel
  obtain ⟨p, member, stalled⟩ := stalls
  exact stalled (flows p member 0)

/-- A handler of HTTP that has nothing to write. -/
example : ∃ p ∈ (Poller.fresh [1] fun _ => ()).visits
    [.call 0 (.write [1, 2] false 0), .writable 0 (.http false (some []))], ¬ p.Flowing 0 := by
  decide

/-- A failed write between pause and resume. -/
example : ∃ p ∈ (Poller.fresh [1] fun _ => ()).visits
    [.call 0 .pause, .call 0 (.write [1, 2] false 0), .call 0 .resume], ¬ p.Flowing 0 := by
  decide

end Uws.Socket
