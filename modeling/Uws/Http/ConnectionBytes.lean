import Uws.Http.HandlerRules
import Uws.Http.HttpContext

namespace Uws.Http

open Uws.Socket
open HttpResponse

section Calls

variable {loop : Loop HttpResponseData} {s : Nat}

theorem afterEnd_inStream (response : HttpResponseData) (data : Bytes) (totalSize written : Nat) (closeConnection : Bool) :
    (afterEnd response data totalSize written closeConnection).inStream = response.inStream := by
  unfold afterEnd
  simp only
  split <;> rfl

theorem internalEnd_ends (ready : Ready loop s) (data : Bytes) (totalSize : Nat)
    (optional allowContentLength closeConnection : Bool) :
    ∃ bytes response, Ends s bytes response loop
      (internalEnd loop s data totalSize optional allowContentLength closeConnection).1 ∧
      response.inStream = (getHttpResponseData loop s).inStream := by
  cases chunked : (getHttpResponseData loop s).writeCalled with
  | true =>
    exact ⟨_, _, internalEnd_chunks ready data totalSize optional allowContentLength closeConnection chunked, rfl⟩
  | false =>
    obtain ⟨written, -, -, ends, -⟩ :=
      internalEnd_length ready data totalSize optional allowContentLength closeConnection chunked
    exact ⟨_, _, ends, afterEnd_inStream _ data _ written closeConnection⟩

theorem call_ends (ready : Ready loop s) (call : Call) :
    ∃ bytes response, Ends s bytes response loop (call.perform s loop) ∧
      response.inStream = (getHttpResponseData loop s).inStream := by
  cases call with
  | head call => exact ⟨_, _, (headCall_emits ready call).toEnds, rfl⟩
  | body call => exact ⟨_, _, (bodyCall_emits ready call).toEnds, by cases call <;> rfl⟩
  | endResponse data closeConnection => exact internalEnd_ends ready _ _ _ _ _
  | endWithoutBody reported closeConnection =>
    cases reported with
    | none => exact internalEnd_ends ready _ _ _ _ _
    | some length => exact internalEnd_ends ready _ _ _ _ _
  | tryEnd body length closeConnection => exact internalEnd_ends ready _ _ _ _ _
  | writeContinue => exact ⟨_, _, (send_emits ready _).toEnds, rfl⟩

end Calls

/-- What happens to the bytes of a socket where nothing is said to its response: none is added, and a closed
    socket sends no more. -/
structure Moved (s : Nat) (loop after : Loop HttpResponseData) : Prop where
  coherent : after.Coherent
  live : (after.sockets s).closed = false → (loop.sockets s).closed = false ∧ after.stream s = loop.stream s
  wire : (loop.sockets s).closed = false → (after.sockets s).wire <+: loop.stream s
  closed : (loop.sockets s).closed = true → (after.sockets s).wire = (loop.sockets s).wire

theorem wire_prefix (loop : Loop HttpResponseData) (s : Nat) : (loop.sockets s).wire <+: loop.stream s :=
  ⟨_, (List.append_assoc _ _ _).symm⟩

section Moves

variable {loop between after : Loop HttpResponseData} {s : Nat}

theorem Moved.refl (coherent : loop.Coherent) (s : Nat) : Moved s loop loop :=
  ⟨coherent, fun live => ⟨live, rfl⟩, fun _ => wire_prefix loop s, fun _ => rfl⟩

theorem Moved.trans (left : Moved s loop between) (right : Moved s between after) : Moved s loop after := by
  constructor
  · exact right.coherent
  · intro live
    obtain ⟨open', same⟩ := right.live live
    obtain ⟨before, stream⟩ := left.live open'
    exact ⟨before, same.trans stream⟩
  · intro live
    cases closed : (between.sockets s).closed with
    | false =>
      rw [← (left.live closed).2]
      exact right.wire closed
    | true =>
      rw [right.closed closed]
      exact left.wire live
  · intro closed
    have still : (between.sockets s).closed = true := by
      by_contra live
      obtain ⟨before, -⟩ := left.live (Bool.eq_false_of_not_eq_true live)
      exact Bool.false_ne_true (before.symm.trans closed)
    rw [right.closed still, left.closed closed]

theorem HttpResponse.Ends.moved {response : HttpResponseData} (ends : Ends s [] response loop after)
    (live : (loop.sockets s).closed = false) : Moved s loop after := by
  have same : after.stream s = loop.stream s := by rw [ends.bytes, List.append_nil]
  constructor
  · exact ends.coherent
  · exact fun _ => ⟨live, same⟩
  · intro _
    rw [← same]
    exact wire_prefix after s
  · exact fun closed => absurd (live.symm.trans closed) Bool.false_ne_true

theorem modify_moved (coherent : loop.Coherent) (s : Nat) (f : UsSocket HttpResponseData → UsSocket HttpResponseData)
    (wire : (f (loop.sockets s)).wire = (loop.sockets s).wire) (buffer : (f (loop.sockets s)).buffer = (loop.sockets s).buffer)
    (closed : (f (loop.sockets s)).closed = false → (loop.sockets s).closed = false) : Moved s loop (loop.modify s f) := by
  have same : ∀ t, (loop.modify s f).stream t = loop.stream t := by
    intro t
    by_cases own : t = s
    · rw [own]
      simp only [Loop.stream, Loop.modify_same, wire, buffer]
      rfl
    · simp only [Loop.stream, Loop.modify_other _ own]
      rfl
  constructor
  · exact coherent.modify f buffer
  · intro live
    rw [Loop.modify_same] at live
    exact ⟨closed live, same s⟩
  · intro _
    rw [← same s]
    exact wire_prefix _ s
  · intro _
    rw [Loop.modify_same, wire]

theorem uncork_moved (coherent : loop.Coherent) (s t : Nat) : Moved s loop (loop.uncork t [] false).1 := by
  by_cases own : t = s
  · rw [own]
    cases closed : (loop.sockets s).closed with
    | false => exact (ambient_emits ⟨coherent, closed⟩ .uncork).toEnds.moved closed
    | true =>
      have kept : (loop.uncork s [] false).1.sockets s = loop.sockets s := by
        cases corked : loop.isCorked s with
        | false => rw [Loop.uncork_uncorked [] false corked]
        | true => rw [Loop.uncork_closed [] false closed corked]
      constructor
      · exact Operation.run_coherent (.uncork [] false) s loop coherent
      · intro live
        rw [kept] at live
        exact absurd (live.symm.trans closed) Bool.false_ne_true
      · intro live
        exact absurd (live.symm.trans closed) Bool.false_ne_true
      · intro _
        rw [kept]
  · have kept := Loop.uncork_other loop (fun same => own same.symm : s ≠ t) [] false
    cases closed : (loop.sockets s).closed with
    | false =>
      exact (other_emits ⟨coherent, closed⟩ t (.uncork [] false) own).toEnds.moved closed
    | true =>
      constructor
      · exact Operation.run_coherent (.uncork [] false) t loop coherent
      · intro live
        rw [kept] at live
        exact absurd (live.symm.trans closed) Bool.false_ne_true
      · intro live
        exact absurd (live.symm.trans closed) Bool.false_ne_true
      · intro _
        rw [kept]

theorem update_moved (coherent : loop.Coherent) (s : Nat) (f : HttpResponseData → HttpResponseData) :
    Moved s loop (HttpResponse.update loop s f) := modify_moved coherent s _ rfl rfl id

theorem close_moved (coherent : loop.Coherent) (s : Nat) : Moved s loop (loop.usSocketClose s) :=
  modify_moved coherent s _ rfl rfl fun live => absurd live.symm Bool.false_ne_true

theorem shutdown_moved (coherent : loop.Coherent) (s : Nat) : Moved s loop (loop.usSocketShutdown s) := by
  unfold Loop.usSocketShutdown
  split
  · exact Moved.refl coherent s
  · exact modify_moved coherent s _ rfl rfl id

theorem pollChange_moved (coherent : loop.Coherent) (s : Nat) (events : Events) :
    Moved s loop (loop.usPollChange s events) := modify_moved coherent s _ rfl rfl id

theorem pause_moved (coherent : loop.Coherent) (s : Nat) : Moved s loop (loop.pause s) := by
  unfold Loop.pause
  simp only
  split
  · have saved := modify_moved coherent s (fun socket => { socket with savedEvents := (loop.sockets s).poll }) rfl rfl id
    exact saved.trans (pollChange_moved saved.coherent s _)
  · exact pollChange_moved coherent s _

end Moves

namespace Connection

def responses (c : Connection) : Bytes := c.log.flatMap fun | .wrote _ bytes => bytes | _ => []
def errors (c : Connection) : Bytes := c.log.flatMap fun | .failed bytes => bytes | _ => []

/-- The requests that the bytes of the responses belong to. -/
def numbers (c : Connection) : List Nat := c.log.filterMap fun | .wrote request _ => some request | _ => none

end Connection

def Occurrence.quiet : Occurrence → Bool
  | .wrote _ _ => false
  | .failed _ => false
  | _ => true

/-- The bytes on the wire are those of the responses in the order of their requests, and then of an error. -/
structure Accounted (c : Connection) : Prop where
  coherent : c.loop.Coherent
  stream : c.isClosed = false → c.loop.stream c.socket = c.responses ∧ c.errors = []
  wire : ∃ count, (c.loop.sockets c.socket).wire = c.responses.take count ++ c.errors
  sorted : c.numbers.Pairwise (· ≤ ·)
  latest : ∀ number ∈ c.numbers, number ≤ c.current

section Accounts

variable {c after : Connection}

theorem quiet_bytes {log : List Occurrence} (quiet : ∀ o ∈ log, o.quiet = true) :
    (log.flatMap fun | .wrote _ bytes => bytes | _ => []) = [] ∧
      (log.flatMap fun | .failed bytes => bytes | _ => []) = [] ∧
      (log.filterMap fun | .wrote request _ => some request | _ => none) = ([] : List Nat) := by
  induction log with
  | nil => exact ⟨rfl, rfl, rfl⟩
  | cons o log ih =>
    rw [List.forall_mem_cons] at quiet
    obtain ⟨own, rest⟩ := quiet
    obtain ⟨responses, errors, numbers⟩ := ih rest
    cases o with
    | wrote request bytes => exact absurd own Bool.false_ne_true
    | failed bytes => exact absurd own Bool.false_ne_true
    | dispatched pending closed shutDown upgraded ended streaming => exact ⟨responses, errors, numbers⟩
    | refused closed => exact ⟨responses, errors, numbers⟩
    | attached ended => exact ⟨responses, errors, numbers⟩
    | delivered owner current => exact ⟨responses, errors, numbers⟩

theorem Accounted.moved (accounted : Accounted c) (moved : Moved c.socket c.loop after.loop)
    (socket : after.socket = c.socket) (notes : List Occurrence) (log : after.log = c.log ++ notes)
    (quiet : ∀ o ∈ notes, o.quiet = true) (current : c.current ≤ after.current) : Accounted after := by
  obtain ⟨responses, errors, numbers⟩ := quiet_bytes quiet
  have responses : after.responses = c.responses := by
    rw [Connection.responses, log, List.flatMap_append, responses, List.append_nil]
    rfl
  have errors : after.errors = c.errors := by
    rw [Connection.errors, log, List.flatMap_append, errors, List.append_nil]
    rfl
  have numbers : after.numbers = c.numbers := by
    rw [Connection.numbers, log, List.filterMap_append, numbers, List.append_nil]
    rfl
  constructor
  · exact moved.coherent
  · intro live
    rw [Connection.isClosed, socket] at live
    obtain ⟨before, stream⟩ := moved.live live
    rw [responses, errors, socket, stream]
    exact accounted.stream before
  · rw [responses, errors, socket]
    cases closed : c.isClosed with
    | false =>
      obtain ⟨stream, none⟩ := accounted.stream closed
      have front := moved.wire closed
      rw [stream, List.prefix_iff_eq_take] at front
      simp only [none, List.append_nil]
      exact ⟨_, front⟩
    | true =>
      rw [moved.closed closed]
      exact accounted.wire
  · rw [numbers]
    exact accounted.sorted
  · intro number member
    rw [numbers] at member
    exact Nat.le_trans (accounted.latest number member) current

theorem Accounted.respond (accounted : Accounted c) (live : c.isClosed = false) (call : Call) :
    Accounted (c.respond call) := by
  obtain ⟨bytes, response, ends, -⟩ := call_ends ⟨accounted.coherent, live⟩ call
  obtain ⟨stream, none⟩ := accounted.stream live
  have said : ((call.perform c.socket c.loop).stream c.socket).drop (c.loop.stream c.socket).length = bytes := by
    rw [ends.bytes, List.drop_left]
  have responses : (c.respond call).responses = c.responses ++ bytes := by
    simp only [Connection.respond, Connection.note, Connection.responses, List.flatMap_append, List.flatMap_singleton, said]
  have errors : (c.respond call).errors = [] := by
    simp only [Connection.respond, Connection.note, Connection.errors, List.flatMap_append, List.flatMap_singleton,
      List.append_nil]
    exact none
  have numbers : (c.respond call).numbers = c.numbers ++ [c.current] := by
    simp only [Connection.respond, Connection.note, Connection.numbers, List.filterMap_append]
    rfl
  have after : (c.respond call).loop.stream c.socket = (c.respond call).responses := by
    rw [responses, ← stream]
    exact ends.bytes
  constructor
  · exact ends.coherent
  · exact fun _ => ⟨after, errors⟩
  · have front := wire_prefix (c.respond call).loop c.socket
    rw [after, List.prefix_iff_eq_take] at front
    simp only [errors, List.append_nil]
    exact ⟨_, front⟩
  · rw [numbers, List.pairwise_append]
    refine ⟨accounted.sorted, List.pairwise_singleton _ _, ?_⟩
    intro number member last own
    rw [List.mem_singleton.mp own]
    exact accounted.latest number member
  · intro number member
    rw [numbers, List.mem_append, List.mem_singleton] at member
    rcases member with earlier | last
    · exact accounted.latest number earlier
    · exact Nat.le_of_eq last

end Accounts

end Uws.Http
