import Uws.Socket.WritableRuns
import Uws.Http.ResponseFraming

namespace Uws.Http

open Uws.Socket
open HttpResponse

/-- What leads from `loop` to `after` are calls on the socket `s`, and no one resumes it. -/
def Reaches (s : Nat) (loop after : Loop HttpResponseData) : Prop :=
  ∃ calls : List (SocketCall HttpResponseData), (∀ call ∈ calls, ∀ p, call.Resumes s p) ∧
    ∀ paused : Nat → Bool, (calls.map (s, ·)).foldl runCall { loop, paused } = { loop := after, paused }

section Reaching

variable {loop between after : Loop HttpResponseData} {s : Nat}

theorem Reaches.refl (loop : Loop HttpResponseData) (s : Nat) : Reaches s loop loop :=
  ⟨[], fun _ member => absurd member List.not_mem_nil, fun _ => rfl⟩

theorem Reaches.trans (left : Reaches s loop between) (right : Reaches s between after) : Reaches s loop after := by
  obtain ⟨first, early, front⟩ := left
  obtain ⟨second, late, back⟩ := right
  refine ⟨first ++ second, ?_, ?_⟩
  · intro call member
    rcases List.mem_append.mp member with earlier | later
    · exact early call earlier
    · exact late call later
  · intro paused
    rw [List.map_append, List.foldl_append, front, back]

theorem Reaches.single (call : SocketCall HttpResponseData) (plain : ∀ p, call.Resumes s p)
    (run : ∀ paused : Nat → Bool, call.run s { loop, paused } = { loop := after, paused }) : Reaches s loop after :=
  ⟨[call], fun _ member => List.mem_singleton.mp member ▸ plain, run⟩

theorem send_reaches (loop : Loop HttpResponseData) (s : Nat) (src : Bytes) : Reaches s loop (send loop s src) :=
  Reaches.single (.write src false 0) (fun _ => trivial) fun _ => rfl

theorem update_reaches (loop : Loop HttpResponseData) (s : Nat) (f : HttpResponseData → HttpResponseData) :
    Reaches s loop (update loop s f) := Reaches.single (.keep f) (fun _ => trivial) fun _ => rfl

theorem closeWhenDone_reaches (loop : Loop HttpResponseData) (s : Nat) : Reaches s loop (closeWhenDone loop s) := by
  unfold closeWhenDone
  simp only
  split
  · have shut : Reaches s loop (loop.usSocketShutdown s) := Reaches.single .shutdown (fun _ => trivial) fun _ => rfl
    exact shut.trans (Reaches.single .close (fun _ => trivial) fun _ => rfl)
  · exact Reaches.refl loop s

theorem writeStatus_reaches (loop : Loop HttpResponseData) (s : Nat) (status : Bytes) :
    Reaches s loop (writeStatus loop s status) := by
  unfold writeStatus
  split
  · exact Reaches.refl loop s
  · have marked := update_reaches loop s fun response => { response with statusCalled := true }
    have version := marked.trans (send_reaches _ s (ascii "HTTP/1.1 "))
    have named := version.trans (send_reaches _ s status)
    exact named.trans (send_reaches _ s crlf)

theorem writeHeader_reaches (loop : Loop HttpResponseData) (s : Nat) (key value : Bytes) :
    Reaches s loop (writeHeader loop s key value) := by
  have status := writeStatus_reaches loop s http200Ok
  have named := status.trans (send_reaches _ s key)
  have parted := named.trans (send_reaches _ s (ascii ": "))
  have valued := parted.trans (send_reaches _ s value)
  exact valued.trans (send_reaches _ s crlf)

theorem sendChunk_reaches (loop : Loop HttpResponseData) (s : Nat) (data : Bytes) :
    Reaches s loop (send (send (writeUnsignedHex (send loop s crlf) s data.length) s crlf) s data) := by
  have started := send_reaches loop s crlf
  have sized := started.trans (send_reaches _ s (unsignedHex data.length))
  have parted := sized.trans (send_reaches _ s crlf)
  exact parted.trans (send_reaches _ s data)

theorem writePieces_reaches (optional : Bool) (fuel : Nat) (loop : Loop HttpResponseData) (s : Nat) (data : Bytes) :
    Reaches s loop (writePieces s optional fuel loop data).1 := by
  induction fuel generalizing loop data with
  | zero => exact Reaches.refl loop s
  | succ fuel ih =>
    have piece : Reaches s loop (loop.write s (data.take intMax) optional 0).1 :=
      Reaches.single (.write (data.take intMax) optional 0) (fun _ => trivial) fun _ => rfl
    unfold writePieces
    split
    · exact Reaches.refl loop s
    · generalize loop.write s (data.take intMax) optional 0 = result at piece
      obtain ⟨next, written, failed⟩ := result
      cases failed with
      | true => exact piece
      | false => exact piece.trans (ih next (data.drop written))

theorem endChunks_reaches (loop : Loop HttpResponseData) (s : Nat) (data : Bytes) :
    Reaches s loop (endChunks loop s data) := by
  have done : ∀ after : Loop HttpResponseData, Reaches s loop after →
      Reaches s loop (closeWhenDone (update after s HttpResponseData.markDone) s) := by
    intro after reaches
    have marked := reaches.trans (update_reaches after s HttpResponseData.markDone)
    exact marked.trans (closeWhenDone_reaches _ s)
  unfold endChunks
  apply done
  split
  · exact send_reaches loop s crlf
  · apply Reaches.trans _ (send_reaches _ s (ascii "\r\n0\r\n\r\n"))
    split
    · exact sendChunk_reaches loop s data
    · exact Reaches.refl loop s

theorem beginEnd_reaches (loop : Loop HttpResponseData) (s : Nat) (totalSize : Nat) (allowContentLength : Bool) :
    Reaches s loop (beginEnd loop s totalSize allowContentLength) := by
  unfold beginEnd
  split
  · exact Reaches.refl loop s
  · have dated := writeHeader_reaches loop s (ascii "Date") loop.date
    simp only
    apply Reaches.trans _ (update_reaches _ s _)
    apply dated.trans
    split
    · have named := send_reaches (writeMark loop s) s (ascii "Content-Length: ")
      have counted := named.trans (send_reaches _ s (u64toa totalSize))
      exact counted.trans (send_reaches _ s (ascii "\r\n\r\n"))
    · exact send_reaches _ s crlf

theorem announceClose_reaches (loop : Loop HttpResponseData) (s : Nat) (closeConnection : Bool) :
    Reaches s loop (announceClose loop s closeConnection) := by
  unfold announceClose
  split
  · simp only
    apply Reaches.trans _ (update_reaches _ s _)
    split
    · exact Reaches.refl loop s
    · exact writeHeader_reaches loop s _ _
  · exact Reaches.refl loop s

theorem internalEnd_reaches (loop : Loop HttpResponseData) (s : Nat) (data : Bytes) (totalSize : Nat)
    (optional allowContentLength closeConnection : Bool) :
    Reaches s loop (internalEnd loop s data totalSize optional allowContentLength closeConnection).1 := by
  have status := writeStatus_reaches loop s http200Ok
  have announced := status.trans (announceClose_reaches _ s closeConnection)
  unfold internalEnd
  simp only
  generalize announceClose (writeStatus loop s http200Ok) s closeConnection = opened at announced
  generalize (if (getHttpResponseData (writeStatus loop s http200Ok) s).methodHead then [] else data) = body
  generalize (if totalSize = 0 then data.length else totalSize) = size
  split
  · exact announced.trans (endChunks_reaches opened s body)
  · have begun := announced.trans
      (beginEnd_reaches opened s size allowContentLength)
    have written := begun.trans (writePieces_reaches optional body.length _ s body)
    have counted := written.trans (update_reaches _ s fun response =>
      { response with offset := response.offset + (writePieces s optional body.length (beginEnd opened s size
        allowContentLength) body).2.1 })
    split
    · have marked := counted.trans (update_reaches _ s HttpResponseData.markDone)
      exact marked.trans (closeWhenDone_reaches _ s)
    · exact counted

theorem beginWrite_reaches (loop : Loop HttpResponseData) (s : Nat) : Reaches s loop (beginWrite loop s) := by
  have status := writeStatus_reaches loop s http200Ok
  unfold beginWrite
  simp only
  split
  · exact status
  · have dated := status.trans (writeHeader_reaches _ s (ascii "Date") (writeStatus loop s http200Ok).date)
    have chunked := dated.trans (writeHeader_reaches _ s (ascii "Transfer-Encoding") (ascii "chunked"))
    exact chunked.trans (update_reaches _ s _)

theorem write_reaches (loop : Loop HttpResponseData) (s : Nat) (data : Bytes) :
    Reaches s loop (HttpResponse.write loop s data).1 := by
  have status := writeStatus_reaches loop s http200Ok
  unfold HttpResponse.write
  simp only
  split
  · exact status
  · have begun := status.trans (beginWrite_reaches _ s)
    split
    · exact begun
    · exact begun.trans (sendChunk_reaches _ s data)

theorem call_reaches (loop : Loop HttpResponseData) (s : Nat) (call : Call) : Reaches s loop (call.perform s loop) := by
  cases call with
  | head call =>
    cases call with
    | writeStatus status => exact writeStatus_reaches loop s status
    | writeHeader key value => exact writeHeader_reaches loop s key value
    | writeNumberHeader key value => exact writeHeader_reaches loop s key (u64toa value)
  | body call =>
    cases call with
    | write data => exact write_reaches loop s data
    | beginWrite => exact beginWrite_reaches loop s
  | endResponse data closeConnection => exact internalEnd_reaches loop s _ _ _ _ _
  | endWithoutBody reported closeConnection =>
    cases reported with
    | none => exact internalEnd_reaches loop s _ _ _ _ _
    | some length => exact internalEnd_reaches loop s _ _ _ _ _
  | tryEnd body length closeConnection => exact internalEnd_reaches loop s _ _ _ _ _
  | writeContinue => exact send_reaches loop s _

end Reaching

/-- So no call of a response leaves an open, running socket with bytes in its buffer and without polling. -/
theorem call_flows {loop : Loop HttpResponseData} {paused : Nat → Bool} (s : Nat) (call : Call)
    (flows : Poller.Flows { loop, paused }) : Poller.Flows { loop := call.perform s loop, paused } := by
  obtain ⟨calls, plain, reached⟩ := call_reaches loop s call
  have runs : ∀ (calls : List (SocketCall HttpResponseData)) (p : Poller HttpResponseData),
      (∀ call ∈ calls, ∀ p, call.Resumes s p) → p.Flows → ((calls.map (s, ·)).foldl runCall p).Flows := by
    intro calls
    induction calls with
    | nil => exact fun _ _ flows => flows
    | cons call calls ih =>
      intro p plain flows
      rw [List.forall_mem_cons] at plain
      exact ih _ plain.2 (run_flows call (plain.1 p) flows)
  rw [← reached paused]
  exact runs calls _ plain flows

end Uws.Http
