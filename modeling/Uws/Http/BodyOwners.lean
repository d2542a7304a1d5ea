import Uws.Http.ConnectionRuns

namespace Uws.Http

open Uws.Socket
open HttpResponse

/-- A call of a data handler belongs to the request whose handler attached it. -/
def Own : Occurrence → Prop
  | .delivered owner current => owner = current
  | _ => True

/-- No data handler is left on the socket when a request is dispatched. -/
def Cleared : Occurrence → Prop
  | .dispatched _ _ _ _ _ streaming => streaming = false
  | _ => True

/-- A data handler is attached before the end of its body, and a request is dispatched behind that of the last one. -/
def Timely : Occurrence → Prop
  | .attached ended => ended = false
  | .dispatched _ _ _ _ ended _ => ended = true
  | _ => True

instance : DecidablePred Own
  | .delivered owner current => inferInstanceAs (Decidable (owner = current))
  | .dispatched .. | .refused _ | .attached _ | .wrote .. | .failed _ => inferInstanceAs (Decidable True)

instance : DecidablePred Cleared
  | .dispatched _ _ _ _ _ streaming => inferInstanceAs (Decidable (streaming = false))
  | .refused _ | .attached _ | .delivered .. | .wrote .. | .failed _ => inferInstanceAs (Decidable True)

instance : DecidablePred Timely
  | .attached ended => inferInstanceAs (Decidable (ended = false))
  | .dispatched _ _ _ _ ended _ => inferInstanceAs (Decidable (ended = true))
  | .refused _ | .delivered .. | .wrote .. | .failed _ => inferInstanceAs (Decidable True)

/-- The invariant of the data handler that is attached to a connection. -/
structure Streams (c : Connection) : Prop where
  coherent : c.loop.Coherent
  own : (∀ o ∈ c.log, Cleared o) → ∀ o ∈ c.log, Own o
  current : (∀ o ∈ c.log, Cleared o) → c.isClosed = false → ∀ owner, c.data.inStream = some owner → owner = c.current
  cleared : (∀ o ∈ c.log, Timely o) → ∀ o ∈ c.log, Cleared o
  settled : (∀ o ∈ c.log, Timely o) → c.isClosed = false → c.isShutDown = false → c.ended = true →
    c.data.inStream = none

/-- What the code of a user does about the body: the data handler stays, leaves, or is attached to the request
    that was dispatched last. -/
structure Streaming (c after : Connection) : Prop where
  coherent : after.loop.Coherent
  current : after.current = c.current
  ended : after.ended = c.ended
  live : after.isClosed = false → c.isClosed = false
  unshut : after.isClosed = false → after.isShutDown = false → c.isShutDown = false
  log : ∃ notes, after.log = c.log ++ notes ∧ (∀ o ∈ notes, Own o ∧ Cleared o) ∧
    (after.isClosed = false → after.data.inStream = c.data.inStream ∨ after.data.inStream = none ∨
      after.data.inStream = some c.current ∧ .attached c.ended ∈ notes)

section Acts

variable {c between after : Connection}

theorem Streaming.refl (coherent : c.loop.Coherent) : Streaming c c :=
  ⟨coherent, rfl, rfl, id, fun _ => id, [], (List.append_nil _).symm,
    fun _ member => absurd member List.not_mem_nil, fun _ => .inl rfl⟩

theorem Streaming.trans (left : Streaming c between) (right : Streaming between after) : Streaming c after := by
  obtain ⟨first, front, fine, attached⟩ := left.log
  obtain ⟨second, back, good, later⟩ := right.log
  constructor
  · exact right.coherent
  · rw [right.current, left.current]
  · rw [right.ended, left.ended]
  · exact fun live => left.live (right.live live)
  · exact fun live unshut => left.unshut (right.live live) (right.unshut live unshut)
  · refine ⟨first ++ second, ?_, ?_, ?_⟩
    · rw [back, front, List.append_assoc]
    · intro o member
      rcases List.mem_append.mp member with earlier | last
      · exact fine o earlier
      · exact good o last
    · intro live
      rw [left.current, left.ended] at later
      rcases later live with same | none | ⟨own, noted⟩
      · rw [same]
        rcases attached (right.live live) with stays | none | ⟨own, noted⟩
        · exact .inl stays
        · exact .inr (.inl none)
        · exact .inr (.inr ⟨own, List.mem_append_left _ noted⟩)
      · exact .inr (.inl none)
      · exact .inr (.inr ⟨own, List.mem_append_right _ noted⟩)

theorem Streaming.loop (loop : Loop HttpResponseData) (coherent : loop.Coherent)
    (live : (loop.sockets c.socket).closed = false → c.isClosed = false)
    (kept : (loop.sockets c.socket).closed = false → (getHttpResponseData loop c.socket).inStream = c.data.inStream ∧
      ((loop.sockets c.socket).shutDown = false → c.isShutDown = false)) : Streaming c { c with loop } :=
  ⟨coherent, rfl, rfl, live, fun live => (kept live).2, [], (List.append_nil _).symm,
    fun _ member => absurd member List.not_mem_nil, fun live => .inl (kept live).1⟩

theorem Streaming.ends {bytes : Bytes} {response : HttpResponseData} {loop : Loop HttpResponseData}
    (ends : Ends c.socket bytes response c.loop loop) (live : c.isClosed = false)
    (same : response.inStream = c.data.inStream) : Streaming c { c with loop } := by
  apply Streaming.loop loop ends.coherent
  · exact fun _ => live
  · intro _
    rw [ends.response]
    exact ⟨same, ends.unshut⟩

theorem note_streaming (coherent : c.loop.Coherent) (o : Occurrence) (own : Own o) (cleared : Cleared o) :
    Streaming c (c.note o) :=
  ⟨coherent, rfl, rfl, id, fun _ => id, [o], rfl, fun _ member => List.mem_singleton.mp member ▸ ⟨own, cleared⟩,
    fun _ => .inl rfl⟩

@[simp] theorem data_update (c : Connection) (f : HttpResponseData → HttpResponseData) :
    (c.update f).data = f c.data := by
  simp only [Connection.data, Connection.update, HttpResponse.update, getHttpResponseData, Loop.modify_same]

theorem update_coherent (coherent : c.loop.Coherent) (f : HttpResponseData → HttpResponseData) :
    (c.update f).loop.Coherent := (update_moved coherent c.socket f).coherent

theorem update_streaming (coherent : c.loop.Coherent) (f : HttpResponseData → HttpResponseData)
    (same : (f c.data).inStream = c.data.inStream ∨ (f c.data).inStream = none) : Streaming c (c.update f) := by
  refine ⟨update_coherent coherent f, rfl, rfl, ?_, ?_, [], (List.append_nil _).symm, ?_, ?_⟩
  · rw [update_closed]
    exact id
  · rw [update_shutDown]
    exact fun _ => id
  · exact fun _ member => absurd member List.not_mem_nil
  · intro _
    rw [data_update]
    rcases same with same | none
    · exact .inl same
    · exact .inr (.inl none)

theorem attach_streaming (coherent : c.loop.Coherent) {request : Nat} (own : request = c.current) :
    Streaming c ((c.update fun data => { data with inStream := some request }).note (.attached c.ended)) := by
  have same := update_closed c fun data => { data with inStream := some request }
  have shut := update_shutDown c fun data => { data with inStream := some request }
  have data := data_update c fun data => { data with inStream := some request }
  have coherent := update_coherent coherent fun data => { data with inStream := some request }
  generalize shape : c.update (fun data => { data with inStream := some request }) = attached at same shut data coherent
  have kept : attached.current = c.current ∧ attached.ended = c.ended ∧ attached.log = c.log := by
    rw [← shape]
    exact ⟨rfl, rfl, rfl⟩
  refine ⟨coherent, kept.1, kept.2.1, same.symm.trans, fun _ => shut.symm.trans, [.attached c.ended], ?_, ?_, ?_⟩
  · rw [Connection.note, kept.2.2]
  · exact fun _ member => List.mem_singleton.mp member ▸ ⟨trivial, trivial⟩
  · intro _
    refine .inr (.inr ⟨?_, List.mem_singleton_self _⟩)
    rw [← own]
    exact congrArg HttpResponseData.inStream data

theorem Streaming.closed (loop : Loop HttpResponseData) (coherent : loop.Coherent)
    (closed : (loop.sockets c.socket).closed = true) : Streaming c { c with loop } := by
  apply Streaming.loop loop coherent
  · exact fun live => absurd (live.symm.trans closed) Bool.false_ne_true
  · exact fun live => absurd (live.symm.trans closed) Bool.false_ne_true

theorem close_streaming (coherent : c.loop.Coherent) : Streaming c c.close := by
  apply Streaming.closed
  · exact coherent.modify _ rfl
  · exact close_closed c

theorem closeWhenSent_streaming (coherent : c.loop.Coherent) : Streaming c c.closeWhenSent := by
  unfold Connection.closeWhenSent
  split
  · apply Streaming.closed
    · exact Loop.closed_coherent coherent c.socket
    · simp only [Loop.usSocketClose, Loop.modify_same]
  · exact Streaming.refl coherent

theorem respond_streaming (coherent : c.loop.Coherent) (live : c.isClosed = false) (call : Call) :
    Streaming c (c.respond call) := by
  obtain ⟨bytes, response, ends, same⟩ := call_ends ⟨coherent, live⟩ call
  have said := Streaming.ends ends live same
  exact said.trans (note_streaming said.coherent _ trivial trivial)

theorem answerExpectation_streaming (req : HttpRequest) (coherent : c.loop.Coherent) :
    Streaming c (c.answerExpectation req) := by
  unfold Connection.answerExpectation
  split
  · rename_i expected
    rw [Bool.and_eq_true, Bool.not_eq_true'] at expected
    exact respond_streaming coherent expected.1 .writeContinue
  · exact Streaming.refl coherent

theorem ambient_streaming (coherent : c.loop.Coherent) (live : c.isClosed = false) (event : Ambient) :
    Streaming c { c with loop := event.run c.socket c.loop } :=
  Streaming.ends (ambient_emits ⟨coherent, live⟩ event).toEnds live rfl

theorem shutdown_streaming (coherent : c.loop.Coherent) :
    Streaming c { c with loop := c.loop.usSocketShutdown c.socket } := by
  unfold Loop.usSocketShutdown
  split
  · exact Streaming.refl coherent
  · apply Streaming.loop
    · exact coherent.modify _ rfl
    · simp only [Loop.modify_same]
      exact id
    · simp only [Loop.modify_same, getHttpResponseData]
      exact fun _ => ⟨rfl, fun shut => absurd shut.symm Bool.false_ne_true⟩

theorem pollChange_streaming (coherent : c.loop.Coherent) (events : Events) :
    Streaming c { c with loop := c.loop.usPollChange c.socket events } := by
  apply Streaming.loop
  · exact coherent.modify _ rfl
  · simp only [Loop.usPollChange, Loop.modify_same]
    exact id
  · simp only [Loop.usPollChange, Loop.modify_same, getHttpResponseData]
    exact fun _ => ⟨rfl, id⟩

theorem pause_streaming (coherent : c.loop.Coherent) : Streaming c { c with loop := c.loop.pause c.socket } := by
  unfold Loop.pause
  simp only
  split
  · have saved := coherent.modify (s := c.socket)
      (fun socket => { socket with savedEvents := (c.loop.sockets c.socket).poll }) rfl
    apply Streaming.loop
    · exact saved.modify _ rfl
    · simp only [Loop.usPollChange, Loop.modify_same]
      exact id
    · simp only [Loop.usPollChange, Loop.modify_same, getHttpResponseData]
      exact fun _ => ⟨rfl, id⟩
  · exact pollChange_streaming coherent _

theorem upgrade_streaming (coherent : c.loop.Coherent) (headers : List HeadCall) : Streaming c (c.upgrade headers) := by
  have calls : ∀ (calls : List Call) (c : Connection), c.loop.Coherent →
      Streaming c (calls.foldl (fun c call => if c.isClosed then c else c.respond call) c) := by
    intro calls
    induction calls with
    | nil => exact fun c coherent => Streaming.refl coherent
    | cons call calls ih =>
      intro c coherent
      rw [List.foldl_cons]
      split
      · exact ih c coherent
      · rename_i live
        have said := respond_streaming coherent (Bool.eq_false_of_not_eq_true live) call
        exact said.trans (ih _ said.coherent)
  have answered := calls (Connection.upgradeCalls headers) c coherent
  exact ⟨answered.coherent, answered.current, answered.ended, answered.live, answered.unshut, answered.log⟩

theorem act_streaming (act : Act) (coherent : c.loop.Coherent) : Streaming c (act.perform c) := by
  have stay := Streaming.refl coherent
  cases act with
  | call request answer =>
    simp only [Act.perform]
    split
    · rename_i answers
      simp only [Connection.answers, Bool.and_eq_true, Bool.not_eq_true'] at answers
      exact respond_streaming coherent answers.1.1.1 answer
    · exact stay
  | onData request attach =>
    simp only [Act.perform]
    split
    · rename_i answers
      simp only [Connection.answers, Bool.and_eq_true, beq_iff_eq] at answers
      cases attach with
      | true => exact attach_streaming coherent answers.2.symm
      | false => exact update_streaming coherent _ (.inr rfl)
    · exact stay
  | onWritable request =>
    simp only [Act.perform]
    split
    · exact update_streaming coherent _ (.inl rfl)
    · exact stay
  | onAborted request =>
    simp only [Act.perform]
    split
    · exact update_streaming coherent _ (.inl rfl)
    · exact stay
  | upgrade request headers =>
    simp only [Act.perform]
    split
    · exact upgrade_streaming coherent headers
    · exact stay
  | upgradeOther t =>
    simp only [Act.perform]
    split
    · exact ⟨stay.coherent, rfl, rfl, id, fun _ => id, stay.log⟩
    · exact stay
  | close => exact close_streaming coherent
  | shutdown => exact shutdown_streaming coherent
  | pause =>
    simp only [Act.perform]
    split
    · exact stay
    · exact pause_streaming coherent
  | resume =>
    simp only [Act.perform]
    split
    · exact stay
    · exact pollChange_streaming coherent _
  | uncork =>
    simp only [Act.perform]
    split
    · exact stay
    · rename_i live
      have uncorked := ambient_streaming coherent (Bool.eq_false_of_not_eq_true live) .uncork
      exact uncorked.trans (closeWhenSent_streaming uncorked.coherent)
  | ambient event =>
    simp only [Act.perform]
    split
    · exact stay
    · rename_i live
      exact ambient_streaming coherent (Bool.eq_false_of_not_eq_true live) event

theorem perform_streaming (acts : List Act) (coherent : c.loop.Coherent) : Streaming c (c.perform acts) := by
  induction acts generalizing c with
  | nil => exact Streaming.refl coherent
  | cons act acts ih =>
    have first := act_streaming act coherent
    exact first.trans (ih first.coherent)

end Acts

structure Serves (c : Connection) : Prop extends Streams c where
  live : c.isClosed = false
  unshut : c.isShutDown = false

section Handlers

variable {c after : Connection}

theorem Streams.streaming (streams : Streams c) (streaming : Streaming c after) : Streams after := by
  obtain ⟨notes, log, fine, attached⟩ := streaming.log
  have front : ∀ (P : Occurrence → Prop), (∀ o ∈ after.log, P o) → ∀ o ∈ c.log, P o := by
    intro P all o member
    apply all o
    rw [log]
    exact List.mem_append_left _ member
  have whole : ∀ (P : Occurrence → Prop), (∀ o ∈ c.log, P o) → (∀ o ∈ notes, P o) → ∀ o ∈ after.log, P o := by
    intro P early late o member
    rw [log, List.mem_append] at member
    rcases member with earlier | later
    · exact early o earlier
    · exact late o later
  constructor
  · exact streaming.coherent
  · exact fun cleared => whole Own (streams.own (front Cleared cleared)) fun o member => (fine o member).1
  · intro cleared live owner some
    rw [streaming.current]
    rcases attached live with same | none | ⟨own, -⟩
    · rw [same] at some
      exact streams.current (front Cleared cleared) (streaming.live live) owner some
    · rw [none] at some
      exact absurd some (Option.some_ne_none owner).symm
    · exact Option.some.inj (some.symm.trans own)
  · exact fun timely => whole Cleared (streams.cleared (front Timely timely)) fun o member => (fine o member).2
  · intro timely live unshut ended
    rcases attached live with same | none | ⟨-, noted⟩
    · rw [same]
      rw [streaming.ended] at ended
      exact streams.settled (front Timely timely) (streaming.live live) (streaming.unshut live unshut) ended
    · exact none
    · have member : .attached c.ended ∈ after.log := log ▸ List.mem_append_right _ noted
      rw [streaming.ended] at ended
      exact absurd ((timely _ member).symm.trans ended) Bool.false_ne_true

theorem Streams.congr (streams : Streams c) (loop : after.loop = c.loop) (socket : after.socket = c.socket)
    (current : after.current = c.current) (ended : after.ended = c.ended) (log : after.log = c.log) : Streams after := by
  have data : after.data = c.data := by rw [Connection.data, loop, socket]; rfl
  have closed : after.isClosed = c.isClosed := by rw [Connection.isClosed, loop, socket]; rfl
  have shut : after.isShutDown = c.isShutDown := by rw [Connection.isShutDown, loop, socket]; rfl
  constructor
  · rw [loop]
    exact streams.coherent
  · rw [log]
    exact streams.own
  · rw [log, closed, data, current]
    exact streams.current
  · rw [log]
    exact streams.cleared
  · rw [log, closed, shut, data, ended]
    exact streams.settled

theorem startRequest_streams (req : HttpRequest) (serves : Serves c) : Streams (c.startRequest req) := by
  have noted : ∀ P : Occurrence → Prop, (∀ o ∈ (c.startRequest req).log, P o) →
      (∀ o ∈ c.log, P o) ∧ P (.dispatched c.data.responsePending c.isClosed c.isShutDown c.upgraded c.ended
        c.data.inStream.isSome) := by
    intro P all
    exact ⟨fun o member => all o (List.mem_append_left _ member), all _ (List.mem_append_right _ (List.mem_singleton_self _))⟩
  have whole : ∀ P : Occurrence → Prop, (∀ o ∈ c.log, P o) → P (.dispatched c.data.responsePending c.isClosed
      c.isShutDown c.upgraded c.ended c.data.inStream.isSome) → ∀ o ∈ (c.startRequest req).log, P o := by
    intro P early late o member
    rcases List.mem_append.mp member with earlier | last
    · exact early o earlier
    · exact List.mem_singleton.mp last ▸ late
  have same : (c.startRequest req).data.inStream = c.data.inStream := by
    have updated := congrArg HttpResponseData.inStream (data_update c (Connection.dispatchState req))
    exact updated
  constructor
  · exact (update_moved serves.coherent c.socket (Connection.dispatchState req)).coherent
  · exact fun cleared => whole Own (serves.own (noted Cleared cleared).1) trivial
  · intro cleared _ owner some
    have none : c.data.inStream.isSome = false := (noted Cleared cleared).2
    rw [← same, some] at none
    exact absurd none Bool.true_eq_false.mp
  · intro timely
    apply whole Cleared (serves.cleared (noted Timely timely).1)
    have none := serves.settled (noted Timely timely).1 serves.live serves.unshut (noted Timely timely).2
    exact (congrArg Option.isSome none).trans rfl
  · exact fun _ _ _ ended => absurd ended Bool.false_ne_true

theorem route_streams (req : HttpRequest) (streams : Streams c) : Streams (c.route req).1 := by
  unfold Connection.route
  cases c.routes with
  | nil => exact streams
  | cons acts routes =>
    have popped : Streams { c with routes } := streams.congr rfl rfl rfl rfl rfl
    cases acts with
    | none => exact popped
    | some acts =>
      have answered := answerExpectation_streaming req popped.coherent
      exact popped.streaming (answered.trans (perform_streaming acts answered.coherent))

theorem dispatch_streams (req : HttpRequest) (serves : Serves c) :
    Streams (c.dispatch req).1 ∧ ((c.dispatch req).2 = true → Serves (c.dispatch req).1) := by
  have routed := route_streams req (startRequest_streams req serves)
  have refuse : ∀ after : Connection, Streams after →
      Streams (after, false).1 ∧ ((after, false).2 = true → Serves (after, false).1) :=
    fun after streams => ⟨streams, fun same => absurd same Bool.false_ne_true⟩
  unfold Connection.dispatch
  simp only
  generalize (c.startRequest req).route req = result at routed
  split
  · exact refuse _ (routed.streaming (close_streaming routed.coherent))
  · split
    · exact refuse _ routed
    · split
      · exact refuse _ routed
      · rename_i live
        split
        · exact refuse _ routed
        · rename_i unshut
          split
          · exact refuse _ (routed.streaming (close_streaming routed.coherent))
          · exact ⟨routed, fun _ => ⟨routed, Bool.eq_false_of_not_eq_true live, Bool.eq_false_of_not_eq_true unshut⟩⟩

theorem requestHandler_streams (req : HttpRequest) (serves : Serves c) :
    Streams (Connection.requestHandler req c).1 ∧
      ((Connection.requestHandler req c).2 = true → Serves (Connection.requestHandler req c).1) := by
  have started := update_streaming serves.coherent (fun data => { data with offset := 0 }) (.inl rfl)
  unfold Connection.requestHandler
  rw [if_neg (by rw [serves.live]; exact Bool.false_ne_true)]
  simp only
  split
  · generalize c.update _ = before at started
    have closed := started.trans (close_streaming started.coherent)
    have noted := closed.trans (note_streaming closed.coherent (.refused before.close.isClosed) trivial trivial)
    exact ⟨serves.toStreams.streaming noted, fun same => absurd same Bool.false_ne_true⟩
  · apply dispatch_streams
    refine ⟨serves.toStreams.streaming started, ?_, ?_⟩
    · rw [update_closed, serves.live]
    · rw [update_shutDown, serves.unshut]

theorem callInStream_streams (serves : Serves c) (owner : Nat) (attached : c.data.inStream = some owner) :
    Streams (c.callInStream owner) := by
  have noted : Streams (c.note (.delivered owner c.current)) := by
    have front : ∀ P : Occurrence → Prop, (∀ o ∈ (c.note (.delivered owner c.current)).log, P o) → ∀ o ∈ c.log, P o :=
      fun P all o member => all o (List.mem_append_left _ member)
    constructor
    · exact serves.coherent
    · intro cleared o member
      rcases List.mem_append.mp member with earlier | last
      · exact serves.own (front Cleared cleared) o earlier
      · rw [List.mem_singleton.mp last]
        exact serves.current (front Cleared cleared) serves.live owner attached
    · exact fun cleared => serves.current (front Cleared cleared)
    · intro timely o member
      rcases List.mem_append.mp member with earlier | last
      · exact serves.cleared (front Timely timely) o earlier
      · rw [List.mem_singleton.mp last]
        trivial
    · exact fun timely => serves.settled (front Timely timely)
  have popped : Streams { c.note (.delivered owner c.current) with dataHandlers := c.dataHandlers.tail } :=
    noted.congr rfl rfl rfl rfl rfl
  exact popped.streaming (perform_streaming _ popped.coherent)

/-- The end of a body is noted where no handler is left, or the connection has no more to do with bodies. -/
theorem Streams.mark (streams : Streams c) (ended : Bool)
    (left : ended = true → c.ended = false → c.isClosed = false → c.isShutDown = false → c.data.inStream = none) :
    Streams { c with ended } := by
  refine ⟨streams.coherent, streams.own, streams.current, streams.cleared, ?_⟩
  intro timely live unshut done
  cases already : c.ended with
  | true => exact streams.settled timely live unshut already
  | false => exact left done already live unshut

theorem dataHandler_streams (chunk : Bytes) (remaining : Nat) (serves : Serves c) :
    Streams (Connection.dataHandler chunk remaining c).1 ∧
      ((Connection.dataHandler chunk remaining c).2 = true → Serves (Connection.dataHandler chunk remaining c).1) := by
  unfold Connection.dataHandler
  split
  · rename_i none
    have marked := serves.toStreams.mark (c.ended || remaining == 0) fun _ _ _ _ => none
    exact ⟨marked, fun _ => ⟨marked, serves.live, serves.unshut⟩⟩
  · rename_i owner attached
    have called := callInStream_streams serves owner attached
    simp only
    generalize c.callInStream owner = after at called
    split
    · rename_i closed
      have marked := called.mark (after.ended || remaining == 0) fun _ _ live =>
        absurd (live.symm.trans closed) Bool.false_ne_true
      exact ⟨marked, fun same => absurd same Bool.false_ne_true⟩
    · rename_i live
      have live := Bool.eq_false_of_not_eq_true live
      split
      · rename_i shut
        have marked := called.mark (after.ended || remaining == 0) fun _ _ _ unshut =>
          absurd (unshut.symm.trans shut) Bool.false_ne_true
        exact ⟨marked, fun same => absurd same Bool.false_ne_true⟩
      · rename_i unshut
        have unshut := Bool.eq_false_of_not_eq_true unshut
        split
        · -- the handler leaves with the last bytes of its body
          have cleared := called.streaming
            (update_streaming called.coherent (fun data => { data with inStream := none }) (.inr rfl))
          have marked := cleared.mark (after.ended || remaining == 0) fun _ _ _ _ =>
            congrArg HttpResponseData.inStream (data_update after fun data => { data with inStream := none })
          refine ⟨marked, fun _ => ⟨marked, ?_, ?_⟩⟩
          · exact (update_closed after _).trans live
          · exact (update_shutDown after _).trans unshut
        · rename_i more
          have marked := called.mark (after.ended || remaining == 0) fun done already _ _ => by
            rw [already, Bool.false_or, beq_iff_eq] at done
            exact absurd done more
          exact ⟨marked, fun _ => ⟨marked, live, unshut⟩⟩

theorem handlers_stream : Connection.handlers.Keep Serves Streams where
  weaker := fun _ serves => serves.toStreams
  request := fun req _ serves => requestHandler_streams req serves
  data := fun chunk remaining _ serves => dataHandler_streams chunk remaining serves

theorem fail_streams (streams : Streams c) (err : HttpError) : Streams (c.fail err) := by
  obtain ⟨-, sent⟩ := Loop.usSocketWrite_sent c.loop c.socket (httpErrorResponse err)
  have coherent := Loop.closed_coherent (sent.coherent streams.coherent) c.socket
  have shut := @Streaming.closed c _ coherent (by simp only [Loop.usSocketClose, Loop.modify_same])
  have closed := streams.streaming shut
  exact closed.streaming (note_streaming closed.coherent (.failed _) trivial trivial)

theorem uncork_streaming (coherent : c.loop.Coherent) (t : Nat) :
    Streaming c { c with loop := (c.loop.uncork t [] false).1 } := by
  have moved := uncork_moved coherent c.socket t
  cases closed : c.isClosed with
  | true =>
    apply Streaming.closed _ moved.coherent
    by_contra live
    have open' := (moved.live (Bool.eq_false_of_not_eq_true live)).1
    exact Bool.false_ne_true (open'.symm.trans closed)
  | false =>
    by_cases own : t = c.socket
    · rw [own]
      exact ambient_streaming coherent closed .uncork
    · exact Streaming.ends (other_emits ⟨coherent, closed⟩ t (.uncork [] false) own).toEnds closed rfl

theorem leave_streams (streams : Streams c) : Streams c.leave := by
  unfold Connection.leave
  split
  · rename_i t _
    have uncorked := streams.streaming (uncork_streaming streams.coherent t)
    exact uncorked.congr rfl rfl rfl rfl rfl
  · exact streams.streaming (uncork_streaming streams.coherent c.socket)

end Handlers

section Steps

variable {socket : HttpSocket}

theorem onData_streams (maxHeaderSize : Nat) (read : Bytes) (streams : Streams socket.connection)
    (live : socket.connection.isClosed = false) : Streams (socket.onData maxHeaderSize read).connection := by
  unfold HttpSocket.onData
  simp only
  split
  · exact streams
  · rename_i unshut
    generalize socket.connection = c at streams live unshut
    have corked := streams.streaming (ambient_streaming streams.coherent live .cork)
    have serves : Serves { c with loop := c.loop.cork c.socket, isParsingHttp := true } := by
      refine ⟨corked.congr rfl rfl rfl rfl rfl, ?_, ?_⟩
      · rw [Connection.isClosed, Loop.cork_sockets]
        exact live
      · rw [Connection.isShutDown, Loop.cork_sockets]
        exact Bool.eq_false_of_not_eq_true unshut
    obtain ⟨left, -⟩ := consumePostPadded_kept handlers_stream maxHeaderSize socket.parser read _ serves
    generalize consumePostPadded Connection.handlers maxHeaderSize socket.parser read _ = result at left
    obtain ⟨returned, parser, after⟩ := result
    have done : Streams { after with isParsingHttp := false } := left.congr rfl rfl rfl rfl rfl
    cases returned with
    | user =>
      have uncorked := uncork_streaming done.coherent after.socket
      exact done.streaming (uncorked.trans (closeWhenSent_streaming uncorked.coherent))
    | other => exact leave_streams done
    | error err => exact leave_streams (fail_streams done err)

theorem onWritable_streams {c : Connection} (streams : Streams c) (live : c.isClosed = false) : Streams c.onWritable := by
  unfold Connection.onWritable
  split
  · have popped : Streams { c with writableHandlers := c.writableHandlers.tail } := streams.congr rfl rfl rfl rfl rfl
    exact popped.streaming (perform_streaming _ popped.coherent)
  · have drained := ambient_streaming streams.coherent live .drain
    exact streams.streaming (drained.trans (closeWhenSent_streaming drained.coherent))

theorem dispatchReadyPoll_streams {c : Connection} (streams : Streams c) (live : c.isClosed = false) :
    Streams c.dispatchReadyPoll := by
  have fresh : Streams { c with loop := { c.loop with lastWriteFailed := false } } :=
    ⟨⟨streams.coherent.within, streams.coherent.quiet, streams.coherent.idle⟩, streams.own, streams.current,
      streams.cleared, streams.settled⟩
  have handled := onWritable_streams fresh live
  unfold Connection.dispatchReadyPoll
  simp only
  generalize Connection.onWritable _ = after at handled
  split
  · exact handled
  · split
    · exact handled.streaming (pollChange_streaming handled.coherent _)
    · exact handled

theorem step_streams (maxHeaderSize : Nat) (streams : Streams socket.connection) (input : Input) :
    Streams (socket.step maxHeaderSize input).connection := by
  unfold HttpSocket.step
  split
  · exact streams
  · rename_i going
    rw [Bool.or_eq_true, not_or] at going
    have live := Bool.eq_false_of_not_eq_true going.1
    cases input with
    | read bytes => exact onData_streams maxHeaderSize bytes streams live
    | writable => exact dispatchReadyPoll_streams streams live
    | acts acts => exact streams.streaming (perform_streaming acts streams.coherent)
    | close => exact streams.streaming (close_streaming streams.coherent)

theorem run_streams (maxHeaderSize : Nat) (inputs : List Input) (streams : Streams socket.connection) :
    Streams (socket.run maxHeaderSize inputs).connection := by
  induction inputs generalizing socket with
  | nil => exact streams
  | cons input inputs ih => exact ih (step_streams maxHeaderSize streams input)

theorem openConnection_streams (kernel : List Nat) (date : Bytes) (s : Nat) (routes : List (Option (List Act)))
    (dataHandlers writableHandlers : List (List Act)) :
    Streams (openConnection kernel date s routes dataHandlers writableHandlers).connection := by
  have fresh := Loop.fresh_coherent kernel fun _ => ({} : HttpResponseData)
  constructor
  · exact ⟨fresh.within, fresh.quiet, fresh.idle⟩
  · exact fun _ _ member => absurd member List.not_mem_nil
  · exact fun _ _ _ some => absurd some (Option.some_ne_none _).symm
  · exact fun _ _ member => absurd member List.not_mem_nil
  · exact fun _ _ _ _ => rfl

end Steps

/-- Handlers that are attached before the end of their body are gone when the next request is dispatched. -/
theorem handlers_cleared (maxHeaderSize : Nat) (kernel : List Nat) (date : Bytes) (s : Nat)
    (routes : List (Option (List Act))) (dataHandlers writableHandlers : List (List Act)) (inputs : List Input)
    (timely : ∀ o ∈ ((openConnection kernel date s routes dataHandlers writableHandlers).run maxHeaderSize
      inputs).connection.log, Timely o) :
    ∀ o ∈ ((openConnection kernel date s routes dataHandlers writableHandlers).run maxHeaderSize
      inputs).connection.log, Cleared o := by
  have streams := run_streams maxHeaderSize inputs
    (openConnection_streams kernel date s routes dataHandlers writableHandlers)
  exact streams.cleared timely

/-- Where no request is dispatched with a data handler still on the socket, every call of one belongs to the
    request that it was attached for. -/
theorem bodies_owned (maxHeaderSize : Nat) (kernel : List Nat) (date : Bytes) (s : Nat)
    (routes : List (Option (List Act))) (dataHandlers writableHandlers : List (List Act)) (inputs : List Input)
    (cleared : ∀ o ∈ ((openConnection kernel date s routes dataHandlers writableHandlers).run maxHeaderSize
      inputs).connection.log, Cleared o) :
    ∀ o ∈ ((openConnection kernel date s routes dataHandlers writableHandlers).run maxHeaderSize
      inputs).connection.log, Own o := by
  have streams := run_streams maxHeaderSize inputs
    (openConnection_streams kernel date s routes dataHandlers writableHandlers)
  exact streams.own cleared

/-- The body reaches the handler of its request, which is gone when the request behind the body is dispatched. -/
theorem pipelined_owned :
    (∀ o ∈ ((openConnection [1000] [] 0 [some [.onAborted 1, .onData 1 true], some [.onAborted 2]]
      [[.call 1 (.endResponse ⟨ascii "a", by decide⟩ false)]] []).run 4096 [.read pipelinedRead]).connection.log,
      Cleared o) ∧
    ∀ o ∈ ((openConnection [1000] [] 0 [some [.onAborted 1, .onData 1 true], some [.onAborted 2]]
      [[.call 1 (.endResponse ⟨ascii "a", by decide⟩ false)]] []).run 4096 [.read pipelinedRead]).connection.log,
      Own o :=
  ⟨by decide +kernel, bodies_owned 4096 [1000] [] 0 _ _ [] [.read pipelinedRead] (by decide +kernel)⟩

/-- A handler that is attached behind the end of its body, just before the response, is given the body of the
    next request. -/
theorem late_handler_leaks :
    ¬ ∀ o ∈ ((openConnection [1000] [] 0 [some [.onAborted 1], some [.onAborted 2]] [] []).run 4096
      [.read (ascii "GET / HTTP/1.1\r\nHost: a\r\n\r\n"),
        .acts [.onData 1 true, .call 1 (.endResponse ⟨[], by decide⟩ false)], .read pipelinedRead]).connection.log,
      Own o := by
  decide +kernel

end Uws.Http
