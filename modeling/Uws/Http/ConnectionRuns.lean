import Uws.Http.ConnectionBytes

namespace Uws.Http

open Uws.Socket
open HttpResponse

/-- A request is dispatched when the one before it is answered, and one that comes earlier closes the socket. -/
def Orderly : Occurrence → Prop
  | .dispatched pending closed shutDown upgraded _ _ =>
    pending = false ∧ closed = false ∧ shutDown = false ∧ upgraded = false
  | .refused closed => closed = true
  | _ => True

instance : DecidablePred Orderly
  | .dispatched pending closed shutDown upgraded _ _ =>
    inferInstanceAs (Decidable (pending = false ∧ closed = false ∧ shutDown = false ∧ upgraded = false))
  | .refused closed => inferInstanceAs (Decidable (closed = true))
  | .attached _ | .delivered .. | .wrote .. | .failed _ => inferInstanceAs (Decidable True)

structure Behaved (c after : Connection) : Prop where
  accounted : Accounted c → Accounted after
  socket : after.socket = c.socket
  isParsingHttp : after.isParsingHttp = c.isParsingHttp
  dataHandlers : after.dataHandlers = c.dataHandlers
  current : after.current = c.current
  ended : after.ended = c.ended
  log : ∃ notes, after.log = c.log ++ notes ∧ ∀ o ∈ notes, Orderly o
  shown : c.isParsingHttp = true → (c.upgraded = true → c.upgradedWebSocket.isSome = true) →
    after.upgraded = true → after.upgradedWebSocket.isSome = true

section Acts

variable {c between after : Connection}

theorem Behaved.refl (c : Connection) : Behaved c c :=
  ⟨id, rfl, rfl, rfl, rfl, rfl, ⟨[], (List.append_nil _).symm, fun _ member => absurd member List.not_mem_nil⟩,
    fun _ shown => shown⟩

theorem Behaved.trans (left : Behaved c between) (right : Behaved between after) : Behaved c after := by
  obtain ⟨first, front, fine⟩ := left.log
  obtain ⟨second, back, good⟩ := right.log
  constructor
  · exact fun accounted => right.accounted (left.accounted accounted)
  · rw [right.socket, left.socket]
  · rw [right.isParsingHttp, left.isParsingHttp]
  · rw [right.dataHandlers, left.dataHandlers]
  · rw [right.current, left.current]
  · rw [right.ended, left.ended]
  · refine ⟨first ++ second, ?_, ?_⟩
    · rw [back, front, List.append_assoc]
    · intro o member
      rcases List.mem_append.mp member with earlier | later
      · exact fine o earlier
      · exact good o later
  · intro parsing shown
    exact right.shown (left.isParsingHttp.trans parsing) (left.shown parsing shown)

theorem Behaved.loop (loop : Loop HttpResponseData) (moved : c.loop.Coherent → Moved c.socket c.loop loop) :
    Behaved c { c with loop } := by
  constructor
  · intro accounted
    exact accounted.moved (moved accounted.coherent) rfl [] (List.append_nil _).symm
      (fun _ member => absurd member List.not_mem_nil) (Nat.le_refl _)
  · rfl
  · rfl
  · rfl
  · rfl
  · rfl
  · exact ⟨[], (List.append_nil _).symm, fun _ member => absurd member List.not_mem_nil⟩
  · exact fun _ shown => shown

theorem note_behaved (c : Connection) (o : Occurrence) (quiet : o.quiet = true) (orderly : Orderly o) :
    Behaved c (c.note o) := by
  constructor
  · intro accounted
    exact accounted.moved (Moved.refl accounted.coherent _) rfl [o] rfl
      (fun _ member => List.mem_singleton.mp member ▸ quiet) (Nat.le_refl _)
  · rfl
  · rfl
  · rfl
  · rfl
  · rfl
  · exact ⟨[o], rfl, fun _ member => List.mem_singleton.mp member ▸ orderly⟩
  · exact fun _ shown => shown

theorem update_behaved (c : Connection) (f : HttpResponseData → HttpResponseData) : Behaved c (c.update f) :=
  Behaved.loop _ fun coherent => update_moved coherent _ f

theorem close_behaved (c : Connection) : Behaved c c.close := Behaved.loop _ fun coherent => close_moved coherent _

theorem uncork_behaved (c : Connection) : Behaved c c.uncork := Behaved.loop _ fun coherent => uncork_moved coherent _ _

theorem closeWhenSent_behaved (c : Connection) : Behaved c c.closeWhenSent := by
  unfold Connection.closeWhenSent
  split
  · apply Behaved.loop
    intro coherent
    have shut := shutdown_moved coherent c.socket
    exact shut.trans (close_moved shut.coherent _)
  · exact Behaved.refl c

theorem respond_behaved (c : Connection) (live : c.isClosed = false) (call : Call) : Behaved c (c.respond call) := by
  constructor
  · exact fun accounted => accounted.respond live call
  · rfl
  · rfl
  · rfl
  · rfl
  · rfl
  · exact ⟨[_], rfl, fun _ member => List.mem_singleton.mp member ▸ trivial⟩
  · exact fun _ shown => shown

theorem answerExpectation_behaved (req : HttpRequest) (c : Connection) : Behaved c (c.answerExpectation req) := by
  unfold Connection.answerExpectation
  split
  · rename_i expected
    rw [Bool.and_eq_true, Bool.not_eq_true'] at expected
    exact respond_behaved c expected.1 .writeContinue
  · exact Behaved.refl c

theorem upgrade_behaved (c : Connection) (headers : List HeadCall) : Behaved c (c.upgrade headers) := by
  have calls : ∀ (calls : List Call) (c : Connection),
      Behaved c (calls.foldl (fun c call => if c.isClosed then c else c.respond call) c) := by
    intro calls
    induction calls with
    | nil => exact Behaved.refl
    | cons call calls ih =>
      intro c
      rw [List.foldl_cons]
      split
      · exact ih c
      · rename_i live
        exact (respond_behaved c (Bool.eq_false_of_not_eq_true live) call).trans (ih _)
  have answered := calls (Connection.upgradeCalls headers) c
  unfold Connection.upgrade
  simp only
  generalize (Connection.upgradeCalls headers).foldl (fun c call => if c.isClosed then c else c.respond call) c = after
    at answered
  constructor
  · intro accounted
    have kept := answered.accounted accounted
    exact ⟨kept.coherent, kept.stream, kept.wire, kept.sorted, kept.latest⟩
  · exact answered.socket
  · exact answered.isParsingHttp
  · exact answered.dataHandlers
  · exact answered.current
  · exact answered.ended
  · exact answered.log
  · intro parsing _ _
    rw [if_pos (answered.isParsingHttp.trans parsing)]
    rfl

theorem act_behaved (act : Act) (c : Connection) : Behaved c (act.perform c) := by
  cases act with
  | call request answer =>
    simp only [Act.perform]
    split
    · rename_i answers
      simp only [Connection.answers, Bool.and_eq_true, Bool.not_eq_true'] at answers
      exact respond_behaved c answers.1.1.1 answer
    · exact Behaved.refl c
  | onData request attach =>
    simp only [Act.perform]
    split
    · cases attach with
      | true => exact (update_behaved c _).trans (note_behaved _ (.attached _) rfl trivial)
      | false => exact update_behaved c _
    · exact Behaved.refl c
  | onWritable request =>
    simp only [Act.perform]
    split
    · exact update_behaved c _
    · exact Behaved.refl c
  | onAborted request =>
    simp only [Act.perform]
    split
    · exact update_behaved c _
    · exact Behaved.refl c
  | upgrade request headers =>
    simp only [Act.perform]
    split
    · exact upgrade_behaved c headers
    · exact Behaved.refl c
  | upgradeOther t =>
    simp only [Act.perform]
    split
    · exact ⟨fun kept => ⟨kept.coherent, kept.stream, kept.wire, kept.sorted, kept.latest⟩, rfl, rfl, rfl, rfl, rfl,
        ⟨[], (List.append_nil _).symm, fun _ member => absurd member List.not_mem_nil⟩, fun _ _ _ => rfl⟩
    · exact Behaved.refl c
  | close => exact close_behaved c
  | shutdown => exact Behaved.loop _ fun coherent => shutdown_moved coherent _
  | pause =>
    simp only [Act.perform]
    split
    · exact Behaved.refl c
    · exact Behaved.loop _ fun coherent => pause_moved coherent _
  | resume =>
    simp only [Act.perform]
    split
    · exact Behaved.refl c
    · exact Behaved.loop _ fun coherent => pollChange_moved coherent _ _
  | uncork =>
    simp only [Act.perform]
    split
    · exact Behaved.refl c
    · exact (uncork_behaved c).trans (closeWhenSent_behaved _)
  | ambient event =>
    simp only [Act.perform]
    split
    · exact Behaved.refl c
    · rename_i live
      have live := Bool.eq_false_of_not_eq_true live
      exact Behaved.loop _ fun coherent => (ambient_emits ⟨coherent, live⟩ event).toEnds.moved live

theorem perform_behaved (acts : List Act) (c : Connection) : Behaved c (c.perform acts) := by
  induction acts generalizing c with
  | nil => exact Behaved.refl c
  | cons act acts ih => exact (act_behaved act c).trans (ih _)

theorem act_upgraded (act : Act) (c : Connection) (stays : act.upgrades = false) :
    (act.perform c).upgraded = c.upgraded := by
  cases act with
  | upgrade request headers => exact absurd stays.symm Bool.false_ne_true
  | call request answer => simp only [Act.perform]; split <;> rfl
  | onData request attach => simp only [Act.perform]; split <;> [split <;> rfl; rfl]
  | onWritable request => simp only [Act.perform]; split <;> rfl
  | onAborted request => simp only [Act.perform]; split <;> rfl
  | upgradeOther t => simp only [Act.perform]; split <;> rfl
  | close => rfl
  | shutdown => rfl
  | pause => simp only [Act.perform]; split <;> rfl
  | resume => simp only [Act.perform]; split <;> rfl
  | uncork =>
    simp only [Act.perform, Connection.closeWhenSent]
    split
    · rfl
    · split <;> rfl
  | ambient event => simp only [Act.perform]; split <;> rfl

theorem perform_upgraded (acts : List Act) (c : Connection) (stay : ∀ act ∈ acts, act.upgrades = false) :
    (c.perform acts).upgraded = c.upgraded := by
  induction acts generalizing c with
  | nil => rfl
  | cons act acts ih =>
    rw [List.forall_mem_cons] at stay
    rw [Connection.perform, List.foldl_cons]
    exact (ih _ stay.2).trans (act_upgraded act c stay.1)

end Acts

/-- The invariant of a connection whose data handlers do not upgrade it. -/
structure Orders (c : Connection) : Prop where
  accounted : Accounted c
  orderly : ∀ o ∈ c.log, Orderly o
  stays : ∀ acts ∈ c.dataHandlers, ∀ act ∈ acts, act.upgrades = false

structure Parses (c : Connection) : Prop extends Orders c where
  parsing : c.isParsingHttp = true
  live : c.isClosed = false
  unshut : c.isShutDown = false
  http : c.upgraded = false

section Handlers

variable {c after : Connection}

theorem Orders.behaved (orders : Orders c) (behaved : Behaved c after) : Orders after := by
  obtain ⟨notes, log, fine⟩ := behaved.log
  constructor
  · exact behaved.accounted orders.accounted
  · intro o member
    rw [log, List.mem_append] at member
    rcases member with earlier | later
    · exact orders.orderly o earlier
    · exact fine o later
  · rw [behaved.dataHandlers]
    exact orders.stays

@[simp] theorem update_closed (c : Connection) (f : HttpResponseData → HttpResponseData) :
    (c.update f).isClosed = c.isClosed := by
  simp only [Connection.isClosed, Connection.update, HttpResponse.update, Loop.modify_same]

@[simp] theorem update_shutDown (c : Connection) (f : HttpResponseData → HttpResponseData) :
    (c.update f).isShutDown = c.isShutDown := by
  simp only [Connection.isShutDown, Connection.update, HttpResponse.update, Loop.modify_same]

theorem close_closed (c : Connection) : c.close.isClosed = true := by
  simp only [Connection.isClosed, Connection.close, Loop.usSocketClose, Loop.modify_same]

theorem route_orders (req : HttpRequest) (orders : Orders c) (parsing : c.isParsingHttp = true) (http : c.upgraded = false) :
    Orders (c.route req).1 ∧ (c.route req).1.isParsingHttp = true ∧
      ((c.route req).1.upgraded = true → (c.route req).1.upgradedWebSocket.isSome = true) := by
  have still : c.upgraded = true → c.upgradedWebSocket.isSome = true :=
    fun upgraded => absurd (http.symm.trans upgraded) Bool.false_ne_true
  unfold Connection.route
  cases c.routes with
  | nil => exact ⟨orders, parsing, still⟩
  | cons acts routes =>
    have popped : Orders { c with routes } :=
      ⟨⟨orders.accounted.coherent, orders.accounted.stream, orders.accounted.wire, orders.accounted.sorted,
        orders.accounted.latest⟩, orders.orderly, orders.stays⟩
    cases acts with
    | none => exact ⟨popped, parsing, still⟩
    | some acts =>
      have answered := answerExpectation_behaved req { c with routes }
      have behaved := answered.trans (perform_behaved acts _)
      exact ⟨popped.behaved behaved, behaved.isParsingHttp.trans parsing, behaved.shown parsing still⟩

theorem startRequest_orders (req : HttpRequest) (parses : Parses c) (answered : c.data.responsePending = false) :
    Orders (c.startRequest req) := by
  have noted := parses.toOrders.behaved (note_behaved c
    (.dispatched c.data.responsePending c.isClosed c.isShutDown c.upgraded c.ended c.data.inStream.isSome) rfl
    ⟨answered, parses.live, parses.unshut, parses.http⟩)
  have updated := noted.behaved (update_behaved _ (Connection.dispatchState req))
  refine ⟨⟨?_, ?_, ?_, ?_, ?_⟩, updated.orderly, updated.stays⟩
  · exact updated.accounted.coherent
  · exact updated.accounted.stream
  · exact updated.accounted.wire
  · exact updated.accounted.sorted
  · intro number member
    exact Nat.le_succ_of_le (updated.accounted.latest number member)

theorem dispatch_orders (req : HttpRequest) (parses : Parses c) (answered : c.data.responsePending = false) :
    Orders (c.dispatch req).1 ∧ ((c.dispatch req).2 = true → Parses (c.dispatch req).1) := by
  have started := startRequest_orders req parses answered
  have parsing : (c.startRequest req).isParsingHttp = true := parses.parsing
  have http : (c.startRequest req).upgraded = false := parses.http
  unfold Connection.dispatch
  simp only
  generalize c.startRequest req = begun at started parsing http
  obtain ⟨orders, parsing, shown⟩ := route_orders req started parsing http
  have refuse : ∀ after : Connection, Orders after →
      Orders (after, false).1 ∧ ((after, false).2 = true → Parses (after, false).1) :=
    fun after orders => ⟨orders, fun same => absurd same Bool.false_ne_true⟩
  split
  · exact refuse _ (orders.behaved (close_behaved _))
  · split
    · exact refuse _ orders
    · rename_i none
      split
      · exact refuse _ orders
      · rename_i live
        split
        · exact refuse _ orders
        · rename_i unshut
          split
          · exact refuse _ (orders.behaved (close_behaved _))
          · refine ⟨orders, fun _ => ⟨orders, parsing, ?_, ?_, ?_⟩⟩
            · exact Bool.eq_false_of_not_eq_true live
            · exact Bool.eq_false_of_not_eq_true unshut
            · exact Bool.eq_false_of_not_eq_true fun upgraded => none (shown upgraded)

theorem requestHandler_orders (req : HttpRequest) (parses : Parses c) :
    Orders (Connection.requestHandler req c).1 ∧
      ((Connection.requestHandler req c).2 = true → Parses (Connection.requestHandler req c).1) := by
  have started := update_behaved c fun data => { data with offset := 0 }
  unfold Connection.requestHandler
  rw [if_neg (by rw [parses.live]; exact Bool.false_ne_true)]
  simp only
  split
  · generalize c.update _ = before at started
    have closed := started.trans (close_behaved before)
    have noted := closed.trans (note_behaved before.close (.refused before.close.isClosed) rfl (close_closed before))
    exact ⟨parses.toOrders.behaved noted, fun same => absurd same Bool.false_ne_true⟩
  · rename_i answered
    apply dispatch_orders
    · refine ⟨parses.toOrders.behaved started, parses.parsing, ?_, ?_, parses.http⟩
      · rw [update_closed, parses.live]
      · rw [update_shutDown, parses.unshut]
    · exact Bool.eq_false_of_not_eq_true answered

theorem callInStream_orders (orders : Orders c) (owner : Nat) :
    Orders (c.callInStream owner) ∧ (c.callInStream owner).isParsingHttp = c.isParsingHttp ∧
      (c.callInStream owner).upgraded = c.upgraded := by
  have noted := orders.behaved (note_behaved c (.delivered owner c.current) rfl trivial)
  have stays : ∀ act ∈ c.dataHandlers.headD [], act.upgrades = false := by
    cases shape : c.dataHandlers with
    | nil => exact fun _ member => absurd member List.not_mem_nil
    | cons acts handlers => exact orders.stays acts (shape ▸ List.mem_cons_self)
  have popped : Orders { c.note (.delivered owner c.current) with dataHandlers := c.dataHandlers.tail } :=
    ⟨⟨noted.accounted.coherent, noted.accounted.stream, noted.accounted.wire, noted.accounted.sorted,
      noted.accounted.latest⟩, noted.orderly, fun acts member => orders.stays acts (List.mem_of_mem_tail member)⟩
  have behaved := perform_behaved (c.dataHandlers.headD [])
    { c.note (.delivered owner c.current) with dataHandlers := c.dataHandlers.tail }
  exact ⟨popped.behaved behaved, behaved.isParsingHttp, perform_upgraded _ _ stays⟩

theorem dataHandler_orders (chunk : Bytes) (remaining : Nat) (parses : Parses c) :
    Orders (Connection.dataHandler chunk remaining c).1 ∧
      ((Connection.dataHandler chunk remaining c).2 = true → Parses (Connection.dataHandler chunk remaining c).1) := by
  have marked : ∀ (c : Connection) (ended : Bool), Orders c → Orders { c with ended } := fun c ended orders =>
    ⟨⟨orders.accounted.coherent, orders.accounted.stream, orders.accounted.wire, orders.accounted.sorted,
      orders.accounted.latest⟩, orders.orderly, orders.stays⟩
  unfold Connection.dataHandler
  split
  · refine ⟨marked c _ parses.toOrders, fun _ => ⟨marked c _ parses.toOrders, parses.parsing, ?_, ?_, parses.http⟩⟩
    · exact parses.live
    · exact parses.unshut
  · rename_i owner _
    obtain ⟨orders, parsing, http⟩ := callInStream_orders parses.toOrders owner
    simp only
    generalize c.callInStream owner = called at orders parsing http
    have kept := marked called (called.ended || remaining == 0) orders
    generalize shape : { called with ended := called.ended || remaining == 0 } = left at kept
    have flags : left.isParsingHttp = true ∧ left.upgraded = false := by
      rw [← shape]
      exact ⟨parsing.trans parses.parsing, http.trans parses.http⟩
    split
    · exact ⟨kept, fun same => absurd same Bool.false_ne_true⟩
    · rename_i live
      have live := Bool.eq_false_of_not_eq_true live
      split
      · exact ⟨kept, fun same => absurd same Bool.false_ne_true⟩
      · rename_i unshut
        have unshut := Bool.eq_false_of_not_eq_true unshut
        split
        · have cleared := kept.behaved (update_behaved left fun data => { data with inStream := none })
          refine ⟨cleared, fun _ => ⟨cleared, flags.1, ?_, ?_, flags.2⟩⟩
          · rw [update_closed, live]
          · rw [update_shutDown, unshut]
        · exact ⟨kept, fun _ => ⟨kept, flags.1, live, unshut, flags.2⟩⟩

theorem handlers_keep : Connection.handlers.Keep Parses Orders where
  weaker := fun _ parses => parses.toOrders
  request := fun req _ parses => requestHandler_orders req parses
  data := fun chunk remaining _ parses => dataHandler_orders chunk remaining parses

theorem Orders.congr (orders : Orders c) (loop : after.loop = c.loop) (socket : after.socket = c.socket)
    (dataHandlers : after.dataHandlers = c.dataHandlers) (current : after.current = c.current)
    (log : after.log = c.log) : Orders after := by
  constructor
  · apply orders.accounted.moved
    · rw [loop]
      exact Moved.refl orders.accounted.coherent _
    · exact socket
    · exact log.trans (List.append_nil _).symm
    · exact fun _ member => absurd member List.not_mem_nil
    · exact Nat.le_of_eq current.symm
  · rw [log]
    exact orders.orderly
  · rw [dataHandlers]
    exact orders.stays

theorem fail_accounted (accounted : Accounted c) (live : c.isClosed = false) (err : HttpError) :
    Accounted (c.fail err) := by
  obtain ⟨stream, none⟩ := accounted.stream live
  obtain ⟨-, sent⟩ := Loop.usSocketWrite_sent c.loop c.socket (httpErrorResponse err)
  unfold Connection.fail
  simp only
  generalize c.loop.usSocketWrite c.socket (httpErrorResponse err) = result at sent
  have coherent := Loop.closed_coherent (sent.coherent accounted.coherent) c.socket
  have wire : (((result.1.usSocketShutdown c.socket).usSocketClose c.socket).sockets c.socket).wire =
      (result.1.sockets c.socket).wire := by
    unfold Loop.usSocketShutdown Loop.usSocketClose
    split
    · simp only [Loop.modify_same]
    · simp only [Loop.modify_same]
  have closed : (((result.1.usSocketShutdown c.socket).usSocketClose c.socket).sockets c.socket).closed = true := by
    simp only [Loop.usSocketClose, Loop.modify_same]
  generalize (result.1.usSocketShutdown c.socket).usSocketClose c.socket = loop at coherent wire closed
  generalize shape : Connection.note { c with loop } (.failed ((httpErrorResponse err).take result.2)) = failed
  have responses : failed.responses = c.responses := by
    rw [← shape, Connection.note, Connection.responses, List.flatMap_append, List.flatMap_singleton, List.append_nil]
    rfl
  have errors : failed.errors = (httpErrorResponse err).take result.2 := by
    rw [← shape, Connection.note, Connection.errors, List.flatMap_append, List.flatMap_singleton]
    exact congrArg (· ++ _) none
  have numbers : failed.numbers = c.numbers := by
    rw [← shape, Connection.note, Connection.numbers, List.filterMap_append]
    exact List.append_nil _
  have same : failed.loop = loop ∧ failed.socket = c.socket ∧ failed.current = c.current := by
    rw [← shape]
    exact ⟨rfl, rfl, rfl⟩
  constructor
  · rw [same.1]
    exact coherent
  · intro open'
    rw [Connection.isClosed, same.1, same.2.1, closed] at open'
    exact absurd open'.symm Bool.false_ne_true
  · obtain ⟨count, before⟩ := accounted.wire
    rw [none, List.append_nil] at before
    refine ⟨count, ?_⟩
    rw [same.1, same.2.1, wire, sent.wire, before, responses, errors]
  · rw [numbers]
    exact accounted.sorted
  · rw [numbers, same.2.2]
    exact accounted.latest

theorem fail_orders (parses : Parses c) (err : HttpError) : Orders (c.fail err) := by
  constructor
  · exact fail_accounted parses.accounted parses.live err
  · intro o member
    rcases List.mem_append.mp member with earlier | last
    · exact parses.orderly o earlier
    · rw [List.mem_singleton.mp last]
      trivial
  · exact parses.stays

theorem leave_orders (orders : Orders c) : Orders c.leave := by
  unfold Connection.leave
  split
  · rename_i t _
    have uncorked := orders.behaved (Behaved.loop _ fun coherent => uncork_moved coherent c.socket t)
    exact uncorked.congr rfl rfl rfl rfl rfl
  · exact orders.behaved (uncork_behaved c)

end Handlers

section Steps

variable {socket : HttpSocket}

theorem onData_orders (maxHeaderSize : Nat) (read : Bytes) (orders : Orders socket.connection)
    (live : socket.connection.isClosed = false) (http : socket.connection.upgraded = false) :
    Orders (socket.onData maxHeaderSize read).connection := by
  unfold HttpSocket.onData
  simp only
  split
  · exact orders
  · rename_i unshut
    generalize socket.connection = c at orders live http unshut
    have corked := orders.behaved (Behaved.loop (c.loop.cork c.socket) fun coherent =>
      (ambient_emits ⟨coherent, live⟩ .cork).toEnds.moved live)
    have parses : Parses { c with loop := c.loop.cork c.socket, isParsingHttp := true } := by
      refine ⟨corked.congr rfl rfl rfl rfl rfl, rfl, ?_, ?_, http⟩
      · rw [Connection.isClosed, Loop.cork_sockets]
        exact live
      · rw [Connection.isShutDown, Loop.cork_sockets]
        exact Bool.eq_false_of_not_eq_true unshut
    obtain ⟨left, going⟩ := consumePostPadded_kept handlers_keep maxHeaderSize socket.parser read _ parses
    generalize consumePostPadded Connection.handlers maxHeaderSize socket.parser read _ = result at left going
    obtain ⟨returned, parser, after⟩ := result
    have done : Orders { after with isParsingHttp := false } := left.congr rfl rfl rfl rfl rfl
    cases returned with
    | user => exact (done.behaved (uncork_behaved _)).behaved (closeWhenSent_behaved _)
    | other => exact leave_orders done
    | error err =>
      have parses := going (by simp only [ne_eq, reduceCtorEq, not_false_eq_true])
      have failed := fail_orders parses err
      exact leave_orders (failed.congr rfl rfl rfl rfl rfl)

theorem onWritable_orders {c : Connection} (orders : Orders c) (live : c.isClosed = false) : Orders c.onWritable := by
  unfold Connection.onWritable
  split
  · apply Orders.behaved _ (perform_behaved _ _)
    exact orders.congr rfl rfl rfl rfl rfl
  · apply Orders.behaved _ (closeWhenSent_behaved _)
    exact orders.behaved (Behaved.loop _ fun coherent => (ambient_emits ⟨coherent, live⟩ .drain).toEnds.moved live)

theorem dispatchReadyPoll_orders {c : Connection} (orders : Orders c) (live : c.isClosed = false) :
    Orders c.dispatchReadyPoll := by
  have fresh := orders.behaved (Behaved.loop { c.loop with lastWriteFailed := false } fun coherent =>
    ⟨⟨coherent.within, coherent.quiet, coherent.idle⟩, fun live => ⟨live, rfl⟩, fun _ => wire_prefix _ _, fun _ => rfl⟩)
  have handled := onWritable_orders fresh live
  unfold Connection.dispatchReadyPoll
  simp only
  generalize Connection.onWritable _ = after at handled
  split
  · exact handled
  · split
    · exact handled.behaved (Behaved.loop _ fun coherent => pollChange_moved coherent _ _)
    · exact handled

theorem step_orders (maxHeaderSize : Nat) (orders : Orders socket.connection) (input : Input) :
    Orders (socket.step maxHeaderSize input).connection := by
  unfold HttpSocket.step
  split
  · exact orders
  · rename_i going
    rw [Bool.or_eq_true, not_or] at going
    have live := Bool.eq_false_of_not_eq_true going.1
    cases input with
    | read bytes => exact onData_orders maxHeaderSize bytes orders live (Bool.eq_false_of_not_eq_true going.2)
    | writable => exact dispatchReadyPoll_orders orders live
    | acts acts => exact orders.behaved (perform_behaved acts _)
    | close => exact orders.behaved (close_behaved _)

theorem run_orders (maxHeaderSize : Nat) (inputs : List Input) (orders : Orders socket.connection) :
    Orders (socket.run maxHeaderSize inputs).connection := by
  induction inputs generalizing socket with
  | nil => exact orders
  | cons input inputs ih => exact ih (step_orders maxHeaderSize orders input)

theorem openConnection_orders (kernel : List Nat) (date : Bytes) (s : Nat) (routes : List (Option (List Act)))
    (dataHandlers writableHandlers : List (List Act)) (stay : ∀ acts ∈ dataHandlers, ∀ act ∈ acts, act.upgrades = false) :
    Orders (openConnection kernel date s routes dataHandlers writableHandlers).connection := by
  have fresh := Loop.fresh_coherent kernel fun _ => ({} : HttpResponseData)
  refine ⟨⟨⟨fresh.within, fresh.quiet, fresh.idle⟩, fun _ => ⟨rfl, rfl⟩, ⟨0, rfl⟩, List.Pairwise.nil, ?_⟩, ?_, stay⟩
  · exact fun _ member => absurd member List.not_mem_nil
  · exact fun _ member => absurd member List.not_mem_nil

end Steps

def pipelinedRead : Bytes :=
  ascii "POST / HTTP/1.1\r\nHost: a\r\nContent-Length: 1\r\n\r\naGET / HTTP/1.1\r\nHost: a\r\n\r\n"

end Uws.Http
