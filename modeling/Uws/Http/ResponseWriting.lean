import Uws.Http.HttpResponse

namespace Uws.Http

open Uws.Socket
open Uws.Socket.Loop (Coherent stream Appended)

namespace HttpResponse

variable {loop between after : Loop HttpResponseData} {s : Nat} {bytes first second : Bytes}
  {response middle last : HttpResponseData}

/-- A response can be written to: its socket is open. -/
structure Ready (loop : Loop HttpResponseData) (s : Nat) : Prop where
  coherent : loop.Coherent
  live : (loop.sockets s).closed = false

/-- A call puts `bytes` behind the stream of its socket and leaves `response` on it. -/
structure Ends (s : Nat) (bytes : Bytes) (response : HttpResponseData) (loop after : Loop HttpResponseData) : Prop where
  bytes : after.stream s = loop.stream s ++ bytes
  response : getHttpResponseData after s = response
  coherent : after.Coherent
  unshut : (after.sockets s).shutDown = false → (loop.sockets s).shutDown = false

structure Emits (s : Nat) (bytes : Bytes) (response : HttpResponseData) (loop after : Loop HttpResponseData) : Prop
    extends Ends s bytes response loop after where
  live : (after.sockets s).closed = false
  date : after.date = loop.date

theorem Emits.ready (emits : Emits s bytes response loop after) : Ready after s := ⟨emits.coherent, emits.live⟩

theorem Emits.ends (left : Emits s first middle loop between) (right : Ends s second last between after) :
    Ends s (first ++ second) last loop after := by
  constructor
  · rw [right.bytes, left.bytes, List.append_assoc]
  · exact right.response
  · exact right.coherent
  · exact fun unshut => left.unshut (right.unshut unshut)

theorem Emits.trans (left : Emits s first middle loop between) (right : Emits s second last between after) :
    Emits s (first ++ second) last loop after := by
  constructor
  · exact left.ends right.toEnds
  · exact right.live
  · rw [right.date, left.date]

theorem Emits.none (ready : Ready loop s) : Emits s [] (getHttpResponseData loop s) loop loop :=
  ⟨⟨(List.append_nil _).symm, rfl, ready.coherent, id⟩, ready.live, rfl⟩

theorem Ready.emits (ready : Ready loop s) (appended : Appended s bytes loop after) :
    Emits s bytes (getHttpResponseData loop s) loop after :=
  ⟨⟨appended.own, appended.ext s, appended.coherent, (appended.shutDown s).symm.trans⟩,
    (appended.closed s).trans ready.live, appended.date⟩

theorem send_emits (ready : Ready loop s) (src : Bytes) :
    Emits s src (getHttpResponseData loop s) loop (send loop s src) := by
  obtain ⟨reports, appended⟩ := Loop.write_appended src false 0 ready.coherent ready.live
  rw [reports.take] at appended
  exact ready.emits appended

theorem stream_modify (loop : Loop HttpResponseData) (f : HttpResponseData → HttpResponseData) (t : Nat) :
    (update loop s f).stream t = loop.stream t := by
  by_cases same : t = s
  · rw [same]
    simp only [update, stream, Loop.modify_same]
    rfl
  · simp only [update, stream, Loop.modify_other _ same]
    rfl

theorem update_emits (ready : Ready loop s) (f : HttpResponseData → HttpResponseData) :
    Emits s [] (f (getHttpResponseData loop s)) loop (update loop s f) := by
  constructor
  · constructor
    · rw [stream_modify, List.append_nil]
    · simp only [getHttpResponseData, update, Loop.modify_same]
    · exact ready.coherent.modify _ rfl
    · simp only [update, Loop.modify_same]
      exact id
  · simp only [update, Loop.modify_same]
    exact ready.live
  · rfl

def statusLine (status : Bytes) : Bytes := ascii "HTTP/1.1 " ++ status ++ crlf

def headerLine (key value : Bytes) : Bytes := key ++ ascii ": " ++ value ++ crlf

def statusText (response : HttpResponseData) (status : Bytes) : Bytes :=
  if response.statusCalled then [] else statusLine status

theorem writeStatus_emits (ready : Ready loop s) (status : Bytes) :
    Emits s (statusText (getHttpResponseData loop s) status)
      { getHttpResponseData loop s with statusCalled := true } loop (writeStatus loop s status) := by
  unfold writeStatus statusText
  split
  · rename_i called
    have same : { getHttpResponseData loop s with statusCalled := true } = getHttpResponseData loop s := by
      rw [← called]
    rw [same]
    exact Emits.none ready
  · have marked := update_emits ready fun response => { response with statusCalled := true }
    have version := marked.trans (send_emits marked.ready (ascii "HTTP/1.1 "))
    have named := version.trans (send_emits version.ready status)
    have ended := named.trans (send_emits named.ready crlf)
    rw [named.response, version.response, marked.response] at ended
    exact ended

theorem writeHeader_emits (ready : Ready loop s) (key value : Bytes) :
    Emits s (statusText (getHttpResponseData loop s) http200Ok ++ headerLine key value)
      { getHttpResponseData loop s with statusCalled := true } loop (writeHeader loop s key value) := by
  have status := writeStatus_emits ready http200Ok
  have named := status.trans (send_emits status.ready key)
  have middle := named.trans (send_emits named.ready (ascii ": "))
  have valued := middle.trans (send_emits middle.ready value)
  have ended := valued.trans (send_emits valued.ready crlf)
  rw [valued.response, middle.response, named.response, status.response] at ended
  simp only [List.append_assoc] at ended
  simp only [headerLine, List.append_assoc]
  exact ended

theorem writeNumberHeader_emits (ready : Ready loop s) (key : Bytes) (value : Nat) :
    Emits s (statusText (getHttpResponseData loop s) http200Ok ++ headerLine key (u64toa value))
      { getHttpResponseData loop s with statusCalled := true } loop (writeNumberHeader loop s key value) :=
  writeHeader_emits ready key (u64toa value)

def dateText (date : Bytes) : Bytes := headerLine (ascii "Date") date

theorem writeMark_emits (ready : Ready loop s) :
    Emits s (statusText (getHttpResponseData loop s) http200Ok ++ dateText loop.date)
      { getHttpResponseData loop s with statusCalled := true } loop (writeMark loop s) :=
  writeHeader_emits ready (ascii "Date") loop.date

def chunkedText : Bytes := headerLine (ascii "Transfer-Encoding") (ascii "chunked")

def closeText : Bytes := headerLine (ascii "Connection") (ascii "close")

/-- The first bytes of a body in chunks, behind the header lines. -/
def beginText (response : HttpResponseData) (date : Bytes) : Bytes :=
  statusText response http200Ok ++ if response.writeCalled then [] else dateText date ++ chunkedText

theorem beginWrite_emits (ready : Ready loop s) :
    Emits s (beginText (getHttpResponseData loop s) loop.date)
      { getHttpResponseData loop s with statusCalled := true, writeCalled := true } loop (beginWrite loop s) := by
  have status := writeStatus_emits ready http200Ok
  unfold beginWrite beginText
  simp only [status.response]
  split
  · rename_i called
    have same : { getHttpResponseData loop s with statusCalled := true, writeCalled := true } =
        { getHttpResponseData loop s with statusCalled := true } := by rw [← called]
    rw [same, List.append_nil]
    exact status
  · have marked := status.trans (writeMark_emits status.ready)
    have encoded := marked.trans (writeHeader_emits marked.ready (ascii "Transfer-Encoding") (ascii "chunked"))
    have noted := encoded.trans (update_emits encoded.ready fun response => { response with writeCalled := true })
    rw [encoded.response, marked.response, status.response, status.date] at noted
    simp only [statusText, if_true, List.nil_append, List.append_nil, List.append_assoc] at noted
    exact noted

/-- A chunk with the CRLF in front of it that ends what comes before. -/
def chunkText (data : Bytes) : Bytes := crlf ++ unsignedHex data.length ++ crlf ++ data

theorem sendChunk_emits (ready : Ready loop s) (data : Bytes) :
    Emits s (chunkText data) (getHttpResponseData loop s) loop
      (send (send (writeUnsignedHex (send loop s crlf) s data.length) s crlf) s data) := by
  have ended := send_emits ready crlf
  have sized := ended.trans (send_emits ended.ready (unsignedHex data.length))
  have line := sized.trans (send_emits sized.ready crlf)
  have whole := line.trans (send_emits line.ready data)
  rw [line.response, sized.response, ended.response] at whole
  exact whole

def writeText (response : HttpResponseData) (date data : Bytes) : Bytes :=
  if data = [] then statusText response http200Ok
  else beginText response date ++ if response.methodHead then [] else chunkText data

/-- A response that has begun its body in chunks, if the chunk has bytes. -/
def afterWrite (response : HttpResponseData) (data : Bytes) : HttpResponseData :=
  { response with statusCalled := true, writeCalled := response.writeCalled || !data.isEmpty }

theorem write_emits (ready : Ready loop s) (data : Bytes) :
    Emits s (writeText (getHttpResponseData loop s) loop.date data) (afterWrite (getHttpResponseData loop s) data) loop
      (write loop s data).1 := by
  have status := writeStatus_emits ready http200Ok
  unfold write writeText
  cases data with
  | nil =>
    simp only [List.length_nil, if_true, afterWrite, List.isEmpty_nil, Bool.not_true, Bool.or_false]
    exact status
  | cons first rest =>
    have begun := status.trans (beginWrite_emits status.ready)
    have same : afterWrite (getHttpResponseData loop s) (first :: rest) =
        { getHttpResponseData loop s with statusCalled := true, writeCalled := true } := by
      simp only [afterWrite, List.isEmpty_cons, Bool.not_false, Bool.or_true]
    have front : statusText (getHttpResponseData loop s) http200Ok ++
        beginText { getHttpResponseData loop s with statusCalled := true } loop.date =
          beginText (getHttpResponseData loop s) loop.date := by
      simp only [beginText, statusText, if_true, List.nil_append]
    rw [status.response, status.date, front] at begun
    simp only [List.length_cons, Nat.add_eq_zero_iff, one_ne_zero, and_false, if_false, reduceCtorEq, same]
    rw [begun.response]
    by_cases head : (getHttpResponseData loop s).methodHead = true
    · simp only [if_pos head, List.append_nil]
      exact begun
    · simp only [if_neg head]
      have chunk := begun.trans (sendChunk_emits begun.ready (first :: rest))
      rw [begun.response] at chunk
      exact chunk

/-- What a call that asks for the end of the connection writes for it. -/
def announceText (response : HttpResponseData) (closeConnection : Bool) : Bytes :=
  if closeConnection && !response.connectionClose then closeText else []

theorem announceClose_emits (ready : Ready loop s) (closeConnection : Bool)
    (called : (getHttpResponseData loop s).statusCalled = true) :
    Emits s (announceText (getHttpResponseData loop s) closeConnection)
      { getHttpResponseData loop s with
        connectionClose := (getHttpResponseData loop s).connectionClose || closeConnection } loop
      (announceClose loop s closeConnection) := by
  unfold announceClose announceText
  cases closeConnection with
  | false =>
    simp only [Bool.false_and, Bool.false_eq_true, if_false, Bool.or_false]
    exact Emits.none ready
  | true =>
    simp only [if_true, Bool.true_and, Bool.or_true]
    by_cases close : (getHttpResponseData loop s).connectionClose = true
    · simp only [close, Bool.not_true, Bool.false_eq_true, if_false, if_true]
      exact update_emits ready fun response => { response with connectionClose := true }
    · simp only [close, called, Bool.not_false, Bool.false_eq_true, if_false, if_true]
      have line := writeHeader_emits ready (ascii "Connection") (ascii "close")
      have marked := line.trans (update_emits line.ready fun response => { response with connectionClose := true })
      have same : { getHttpResponseData loop s with statusCalled := true } = getHttpResponseData loop s := by
        rw [← called]
      rw [line.response, same] at marked
      simp only [statusText, called, if_true, List.nil_append, List.append_nil] at marked
      exact marked

theorem closeWhenDone_ends (ready : Ready loop s) :
    Ends s [] (getHttpResponseData loop s) loop (closeWhenDone loop s) := by
  unfold closeWhenDone
  simp only
  split
  · constructor
    · rw [Loop.closed_stream, List.append_nil]
    · unfold Loop.usSocketShutdown Loop.usSocketClose getHttpResponseData
      split <;> simp only [Loop.modify_same]
    · exact Loop.closed_coherent ready.coherent s
    · unfold Loop.usSocketShutdown Loop.usSocketClose
      split
      · simp only [Loop.modify_same]
        exact id
      · simp only [Loop.modify_same]
        exact fun shut => absurd shut.symm Bool.false_ne_true
  · exact (Emits.none ready).toEnds

def endText (response : HttpResponseData) (data : Bytes) : Bytes :=
  if response.methodHead then crlf else (if data = [] then [] else chunkText data) ++ ascii "\r\n0\r\n\r\n"

theorem endChunks_ends (ready : Ready loop s) (data : Bytes) :
    Ends s (endText (getHttpResponseData loop s) data) (getHttpResponseData loop s).markDone loop
      (endChunks loop s data) := by
  have done : ∀ (bytes : Bytes) (after : Loop HttpResponseData), Emits s bytes (getHttpResponseData loop s) loop after →
      Ends s bytes (getHttpResponseData loop s).markDone loop
        (closeWhenDone (update after s HttpResponseData.markDone) s) := by
    intro bytes after emits
    have marked := emits.trans (update_emits emits.ready HttpResponseData.markDone)
    have closed := marked.ends (closeWhenDone_ends marked.ready)
    rw [marked.response, emits.response, List.append_nil, List.append_nil] at closed
    exact closed
  unfold endChunks endText
  by_cases head : (getHttpResponseData loop s).methodHead = true
  · simp only [if_pos head]
    exact done _ _ (send_emits ready crlf)
  · simp only [if_neg head]
    cases data with
    | nil => exact done _ _ (send_emits ready _)
    | cons first rest =>
      have chunk := sendChunk_emits ready (first :: rest)
      have last := chunk.trans (send_emits chunk.ready (ascii "\r\n0\r\n\r\n"))
      rw [chunk.response] at last
      exact done _ _ last

def lengthText (totalSize : Nat) (allowContentLength : Bool) : Bytes :=
  if allowContentLength then ascii "Content-Length: " ++ u64toa totalSize ++ ascii "\r\n\r\n" else crlf

def beginEndText (response : HttpResponseData) (date : Bytes) (totalSize : Nat) (allowContentLength : Bool) : Bytes :=
  if response.endCalled then [] else dateText date ++ lengthText totalSize allowContentLength

theorem beginEnd_emits (ready : Ready loop s) (totalSize : Nat) (allowContentLength : Bool)
    (called : (getHttpResponseData loop s).statusCalled = true) :
    Emits s (beginEndText (getHttpResponseData loop s) loop.date totalSize allowContentLength)
      { getHttpResponseData loop s with endCalled := true } loop (beginEnd loop s totalSize allowContentLength) := by
  unfold beginEnd beginEndText
  by_cases ended : (getHttpResponseData loop s).endCalled = true
  · simp only [if_pos ended]
    have same : { getHttpResponseData loop s with endCalled := true } = getHttpResponseData loop s := by rw [← ended]
    rw [same]
    exact Emits.none ready
  · simp only [if_neg ended]
    have mark := writeMark_emits ready
    have same : { getHttpResponseData loop s with statusCalled := true } = getHttpResponseData loop s := by rw [← called]
    rw [same, statusText, if_pos called, List.nil_append] at mark
    cases allowContentLength with
    | true =>
      simp only [if_true, lengthText]
      have name := mark.trans (send_emits mark.ready (ascii "Content-Length: "))
      have number := name.trans (send_emits name.ready (u64toa totalSize))
      have block := number.trans (send_emits number.ready (ascii "\r\n\r\n"))
      have noted := block.trans (update_emits block.ready fun response => { response with endCalled := true })
      rw [block.response, number.response, name.response, mark.response, List.append_nil] at noted
      simp only [List.append_assoc] at noted ⊢
      exact noted
    | false =>
      simp only [Bool.false_eq_true, if_false, lengthText]
      have block := mark.trans (send_emits mark.ready crlf)
      have noted := block.trans (update_emits block.ready fun response => { response with endCalled := true })
      rw [block.response, mark.response, List.append_nil] at noted
      exact noted

theorem writePieces_emits (optional : Bool) (fuel : Nat) (ready : Ready loop s) (data : Bytes) :
    (writePieces s optional fuel loop data).2.1 ≤ data.length ∧
      Emits s (data.take (writePieces s optional fuel loop data).2.1) (getHttpResponseData loop s) loop
        (writePieces s optional fuel loop data).1 := by
  induction fuel generalizing loop data with
  | zero => exact ⟨Nat.zero_le _, Emits.none ready⟩
  | succ fuel ih =>
    unfold writePieces
    split
    · exact ⟨Nat.zero_le _, Emits.none ready⟩
    · obtain ⟨⟨most, -⟩, appended⟩ := Loop.write_appended (data.take intMax) optional 0 ready.coherent ready.live
      rw [List.length_take] at most
      have fits := Nat.le_trans most (Nat.min_le_right _ _)
      have piece : (data.take intMax).take (loop.write s (data.take intMax) optional 0).2.1 =
          data.take (loop.write s (data.take intMax) optional 0).2.1 := by
        rw [List.take_take, Nat.min_eq_left (Nat.le_trans most (Nat.min_le_left _ _))]
      rw [piece] at appended
      generalize loop.write s (data.take intMax) optional 0 = result at fits appended
      obtain ⟨after, written, failed⟩ := result
      have emits := ready.emits appended
      simp only at fits emits
      cases failed with
      | true => exact ⟨fits, emits⟩
      | false =>
        obtain ⟨rest, more⟩ := ih emits.ready (data.drop written)
        simp only [Bool.false_eq_true, if_false]
        rw [List.length_drop] at rest
        have both := emits.trans more
        rw [emits.response, ← List.take_add] at both
        have bound : written + (writePieces s optional fuel after (data.drop written)).2.1 ≤ data.length := by omega
        exact ⟨bound, both⟩

theorem writePieces_whole (fuel : Nat) (ready : Ready loop s) (data : Bytes) (some : data.length ≤ fuel)
    (short : data.length ≤ intMax) : (writePieces s false fuel loop data).2.1 = data.length := by
  cases fuel with
  | zero => exact (Nat.le_zero.mp some).symm
  | succ fuel =>
    unfold writePieces
    split
    · rename_i empty
      exact empty.symm
    · obtain ⟨⟨-, firm⟩, -⟩ := Loop.write_appended (data.take intMax) false 0 ready.coherent ready.live
      rw [List.take_of_length_le short] at firm ⊢
      have all := firm rfl
      generalize loop.write s data false 0 = result at all
      obtain ⟨after, written, failed⟩ := result
      simp only at all
      cases failed with
      | true => exact all
      | false =>
        simp only [Bool.false_eq_true, if_false]
        have rest : data.drop written = [] := List.drop_of_length_le (Nat.le_of_eq all.symm)
        have none : (writePieces s false fuel after (data.drop written)).2.1 = 0 := by
          rw [rest]
          cases fuel <;> rfl
        rw [none, all]
        rfl

def announced (response : HttpResponseData) (closeConnection : Bool) : HttpResponseData :=
  { response with statusCalled := true, connectionClose := response.connectionClose || closeConnection }

def openingText (response : HttpResponseData) (closeConnection : Bool) : Bytes :=
  statusText response http200Ok ++ announceText response closeConnection

theorem opening_emits (ready : Ready loop s) (closeConnection : Bool) :
    Emits s (openingText (getHttpResponseData loop s) closeConnection)
      (announced (getHttpResponseData loop s) closeConnection) loop
      (announceClose (writeStatus loop s http200Ok) s closeConnection) := by
  have status := writeStatus_emits ready http200Ok
  have announce := status.trans (announceClose_emits status.ready closeConnection (by rw [status.response]))
  rw [status.response] at announce
  exact announce

def bodyOf (response : HttpResponseData) (data : Bytes) : Bytes := if response.methodHead then [] else data

theorem internalEnd_chunks (ready : Ready loop s) (data : Bytes) (totalSize : Nat)
    (optional allowContentLength closeConnection : Bool) (chunked : (getHttpResponseData loop s).writeCalled = true) :
    Ends s (openingText (getHttpResponseData loop s) closeConnection ++
        endText (getHttpResponseData loop s) (bodyOf (getHttpResponseData loop s) data))
      (announced (getHttpResponseData loop s) closeConnection).markDone loop
      (internalEnd loop s data totalSize optional allowContentLength closeConnection).1 := by
  have status := writeStatus_emits ready http200Ok
  have opening := opening_emits ready closeConnection
  have whole := opening.ends (endChunks_ends opening.ready (bodyOf (getHttpResponseData loop s) data))
  unfold internalEnd
  simp only
  rw [status.response]
  rw [opening.response] at whole ⊢
  rw [if_pos (show (announced (getHttpResponseData loop s) closeConnection).writeCalled = true from chunked)]
  exact whole

def afterEnd (response : HttpResponseData) (data : Bytes) (totalSize written : Nat) (closeConnection : Bool) :
    HttpResponseData :=
  let response := { announced response closeConnection with endCalled := true, offset := response.offset + written }
  if response.offset = totalSize ∨ (bodyOf response data).length = 0 then response.markDone else response

theorem settle_ends (emits : Emits s bytes response loop after) (totalSize written : Nat) (data : Bytes) (success : Bool)
    (counted : Loop HttpResponseData)
    (counts : counted = update after s fun response => { response with offset := response.offset + written })
    (settled : HttpResponseData) (settles : settled = { response with offset := response.offset + written }) :
    Ends s bytes (if settled.offset = totalSize ∨ data.length = 0 then settled.markDone else settled) loop
        (if (getHttpResponseData counted s).offset = totalSize ∨ data.length = 0 then
          (closeWhenDone (update counted s HttpResponseData.markDone) s, success) else (counted, success)).1 ∧
      ((if settled.offset = totalSize ∨ data.length = 0 then settled.markDone else settled).responsePending = true →
        Ready (if (getHttpResponseData counted s).offset = totalSize ∨ data.length = 0 then
          (closeWhenDone (update counted s HttpResponseData.markDone) s, success) else (counted, success)).1 s) := by
  have count := emits.trans (update_emits emits.ready fun response => { response with offset := response.offset + written })
  rw [emits.response, List.append_nil, ← counts, ← settles] at count
  rw [count.response]
  by_cases finished : settled.offset = totalSize ∨ data.length = 0
  · simp only [if_pos finished]
    have marked := count.trans (update_emits count.ready HttpResponseData.markDone)
    have closed := marked.ends (closeWhenDone_ends marked.ready)
    rw [marked.response, count.response, List.append_nil, List.append_nil] at closed
    exact ⟨closed, fun pending => absurd pending Bool.false_ne_true⟩
  · simp only [if_neg finished]
    exact ⟨count.toEnds, fun _ => count.ready⟩

theorem internalEnd_length (ready : Ready loop s) (data : Bytes) (totalSize : Nat)
    (optional allowContentLength closeConnection : Bool) (plain : (getHttpResponseData loop s).writeCalled = false) :
    ∃ written, written ≤ (bodyOf (getHttpResponseData loop s) data).length ∧
      (optional = false → data.length ≤ intMax → written = (bodyOf (getHttpResponseData loop s) data).length) ∧
      Ends s (openingText (getHttpResponseData loop s) closeConnection ++
          beginEndText (getHttpResponseData loop s) loop.date (if totalSize = 0 then data.length else totalSize)
            allowContentLength ++ (bodyOf (getHttpResponseData loop s) data).take written)
        (afterEnd (getHttpResponseData loop s) data (if totalSize = 0 then data.length else totalSize) written
          closeConnection) loop
        (internalEnd loop s data totalSize optional allowContentLength closeConnection).1 ∧
      ((afterEnd (getHttpResponseData loop s) data (if totalSize = 0 then data.length else totalSize) written
          closeConnection).responsePending = true →
        Ready (internalEnd loop s data totalSize optional allowContentLength closeConnection).1 s) := by
  have status := writeStatus_emits ready http200Ok
  have opening := opening_emits ready closeConnection
  have begun := opening.trans (beginEnd_emits opening.ready (if totalSize = 0 then data.length else totalSize)
    allowContentLength (by rw [opening.response]; rfl))
  obtain ⟨most, pieces⟩ := writePieces_emits optional (bodyOf (getHttpResponseData loop s) data).length begun.ready
    (bodyOf (getHttpResponseData loop s) data)
  have whole := @writePieces_whole _ s (bodyOf (getHttpResponseData loop s) data).length begun.ready
    (bodyOf (getHttpResponseData loop s) data) (Nat.le_refl _)
  have written := begun.trans pieces
  rw [begun.response, opening.response, opening.date] at written
  unfold internalEnd
  simp only
  rw [status.response, opening.response]
  rw [if_neg (show ¬ (announced (getHttpResponseData loop s) closeConnection).writeCalled = true from
    fun chunked => Bool.false_ne_true (plain.symm.trans chunked))]
  obtain ⟨ends, live⟩ := settle_ends written (if totalSize = 0 then data.length else totalSize) _
    (bodyOf (getHttpResponseData loop s) data) _ _ rfl _ rfl
  have firm : optional = false → data.length ≤ intMax →
      (writePieces s optional (bodyOf (getHttpResponseData loop s) data).length
        (beginEnd (announceClose (writeStatus loop s http200Ok) s closeConnection) s
          (if totalSize = 0 then data.length else totalSize) allowContentLength)
        (bodyOf (getHttpResponseData loop s) data)).2.1 = (bodyOf (getHttpResponseData loop s) data).length := by
    intro sure short
    rw [sure]
    apply whole
    apply Nat.le_trans _ short
    unfold bodyOf
    split
    · exact Nat.zero_le _
    · exact Nat.le_refl _
  exact ⟨_, most, firm, ends, live⟩

end HttpResponse

end Uws.Http
