import Uws.Http.ResponseWriting

namespace Uws.Http

open Uws.Socket

/-- What one call is given: its length is an `int`. -/
abbrev Data := { data : Bytes // data.length < 2 ^ 31 }

inductive HeadCall where
  | writeStatus (status : Bytes)
  | writeHeader (key value : Bytes)
  | writeNumberHeader (key : Bytes) (value : Nat)

inductive BodyCall where
  | write (data : Data)
  | beginWrite

inductive Call where
  | head (call : HeadCall)
  | body (call : BodyCall)
  | endResponse (data : Data) (closeConnection : Bool)
  | endWithoutBody (reportedContentLength : Option Nat) (closeConnection : Bool)
  | tryEnd (body : Bytes) (length : Fin (2 ^ 31)) (closeConnection : Bool)
  | writeContinue

/-- How a response goes on behind its head calls; a slice of `tryEnds` is the bytes of `body` from the write
    offset on, at most as many as it says. -/
inductive Ending where
  | chunks (calls : List BodyCall) (data : Data) (closeConnection : Bool)
  | withoutBody (reportedContentLength : Option Nat) (closeConnection : Bool)
  | tryEnds (body : Bytes) (slices : List (Fin (2 ^ 31) × Bool))

structure LegalResponse where
  head : List HeadCall
  ending : Ending

def Ending.calls : Ending → List Call
  | .chunks calls data closeConnection => calls.map Call.body ++ [.endResponse data closeConnection]
  | .withoutBody reportedContentLength closeConnection => [.endWithoutBody reportedContentLength closeConnection]
  | .tryEnds body slices => slices.map fun slice => .tryEnd body slice.1 slice.2

def LegalResponse.calls (response : LegalResponse) : List Call := response.head.map Call.head ++ response.ending.calls

section Runs

variable (s : Nat)

def HeadCall.perform (loop : Loop HttpResponseData) : HeadCall → Loop HttpResponseData
  | .writeStatus status => HttpResponse.writeStatus loop s status
  | .writeHeader key value => HttpResponse.writeHeader loop s key value
  | .writeNumberHeader key value => HttpResponse.writeNumberHeader loop s key value

def BodyCall.perform (loop : Loop HttpResponseData) : BodyCall → Loop HttpResponseData
  | .write data => (HttpResponse.write loop s data).1
  | .beginWrite => HttpResponse.beginWrite loop s

def Call.perform (loop : Loop HttpResponseData) : Call → Loop HttpResponseData
  | .head call => call.perform s loop
  | .body call => call.perform s loop
  | .endResponse data closeConnection => HttpResponse.endResponse loop s data closeConnection
  | .endWithoutBody reported closeConnection => HttpResponse.endWithoutBody loop s reported closeConnection
  | .tryEnd whole length closeConnection =>
    (HttpResponse.tryEnd loop s ((whole.drop (HttpResponse.getWriteOffset loop s)).take length) whole.length
      closeConnection).1
  | .writeContinue => HttpResponse.writeContinue loop s

/-- What may happen between two calls: the socket is corked, uncorked or drained, and others do what they do. -/
inductive Ambient where
  | cork
  | uncork
  | drain
  | other (t : Nat) (operation : Operation)

def Ambient.run (loop : Loop HttpResponseData) : Ambient → Loop HttpResponseData
  | .cork => loop.cork s
  | .uncork => (loop.uncork s [] false).1
  | .drain => (loop.write s [] true 0).1
  | .other t operation => if t = s then loop else (operation.run t loop).1

def settle (ambients : List Ambient) (loop : Loop HttpResponseData) : Loop HttpResponseData :=
  ambients.foldl (Ambient.run s) loop

/-- The calls in order, the `n`-th behind what `ambient n` says; a closed socket takes none. -/
def respond (ambient : Nat → List Ambient) (calls : List Call) (loop : Loop HttpResponseData) : Loop HttpResponseData :=
  (calls.zipIdx).foldl
    (fun loop call => if (loop.sockets s).closed then loop else call.1.perform s (settle s (ambient call.2) loop)) loop

end Runs

open HttpResponse

def HeadCall.text (called : Bool) : HeadCall → Bytes
  | .writeStatus status => if called then [] else statusLine status
  | .writeHeader key value => (if called then [] else statusLine http200Ok) ++ headerLine key value
  | .writeNumberHeader key value => (if called then [] else statusLine http200Ok) ++ headerLine key (u64toa value)

def headText : List HeadCall → Bytes
  | [] => statusLine http200Ok
  | call :: calls => call.text false ++ calls.flatMap (HeadCall.text true)

def chunkedBody (pieces : List Bytes) : Bytes :=
  pieces.flatMap (fun data => unsignedHex data.length ++ crlf ++ data ++ crlf) ++ ascii "0\r\n\r\n"

/-- The chunk that a call writes, which is none for nothing. -/
def pieceOf (data : Data) : List Bytes := if data.val = [] then [] else [data.val]

def BodyCall.pieces : BodyCall → List Bytes
  | .write data => pieceOf data
  | .beginWrite => []

def BodyCall.begins : BodyCall → Bool
  | .write data => !data.val.isEmpty
  | .beginWrite => true

def lengthLine (length : Nat) : Bytes := headerLine (ascii "Content-Length") (u64toa length)

/-- The header lines behind those of the head calls; `closing` tells that one of them ends the connection. -/
def Ending.fields (date : Bytes) (closing : Bool) : Ending → Bytes
  | .chunks calls data _ =>
    if calls.any BodyCall.begins then dateText date ++ chunkedText ++ if closing then closeText else []
    else (if closing then closeText else []) ++ dateText date ++ lengthLine data.val.length
  | .withoutBody reported _ =>
    (if closing then closeText else []) ++ dateText date ++ (reported.map lengthLine).getD []
  | .tryEnds body _ => (if closing then closeText else []) ++ dateText date ++ lengthLine body.length

def Ending.pieces : Ending → List Bytes
  | .chunks calls data _ => calls.flatMap BodyCall.pieces ++ pieceOf data
  | .withoutBody _ _ => []
  | .tryEnds _ _ => []

def Ending.body : Ending → Bytes
  | .chunks calls data closeConnection =>
    if calls.any BodyCall.begins then chunkedBody (Ending.pieces (.chunks calls data closeConnection)) else data.val
  | .withoutBody _ _ => []
  | .tryEnds body _ => body

def LegalResponse.text (response : LegalResponse) (date : Bytes) (closing methodHead : Bool) (body : Bytes) : Bytes :=
  headText response.head ++ response.ending.fields date closing ++ crlf ++ if methodHead then [] else body

def Ending.sent (offset : Nat) : Ending → Bytes
  | .tryEnds body _ => body.take offset
  | ending => ending.body

/-- Whether the header block is to be there behind `count` calls. -/
def LegalResponse.headed (response : LegalResponse) (count : Nat) : Prop :=
  match response.ending with
  | .tryEnds _ _ => response.head.length < count
  | _ => count = response.calls.length

/-- All that was sent since `start` is the response with `body` for its body. -/
def Sends (s : Nat) (response : LegalResponse) (start loop : Loop HttpResponseData) (body : Bytes) : Prop :=
  ∃ closing, loop.stream s = start.stream s ++
    response.text start.date closing (getHttpResponseData start s).methodHead body

/-- The response has sent what it should, and is pending unless all of it is sent. -/
def FramedAt (s : Nat) (response : LegalResponse) (start : Loop HttpResponseData) (count : Nat)
    (loop : Loop HttpResponseData) : Prop :=
  ((getHttpResponseData loop s).responsePending = false → Sends s response start loop response.ending.body) ∧
    (response.headed count → Sends s response start loop (response.ending.sent (getWriteOffset loop s)))

/-- This holds behind every call. -/
def Framed (s : Nat) (response : LegalResponse) (ambient : Nat → List Ambient) (start : Loop HttpResponseData) : Prop :=
  ∀ count ≤ response.calls.length, FramedAt s response start count (respond s ambient (response.calls.take count) start)

instance sliceSize : NeZero (2 ^ 31 : Nat) := ⟨by decide⟩

/-- A slice that is not empty while bytes of the body are left, and does not announce the end of the connection
    behind the header block. -/
def FineSlice (s : Nat) (body : Bytes) (loop : Loop HttpResponseData) (slice : Fin (2 ^ 31) × Bool) : Prop :=
  (slice.2 = true → (getHttpResponseData loop s).connectionClose = true ∨ (getHttpResponseData loop s).endCalled = false) ∧
    ((getHttpResponseData loop s).methodHead = true ∨ slice.1 ≠ 0 ∨ getWriteOffset loop s = body.length)

/-- The end of the connection is announced before the body begins, and no slice is empty before its end. -/
def Proper (s : Nat) (response : LegalResponse) (ambient : Nat → List Ambient) (start : Loop HttpResponseData) : Prop :=
  match response.ending with
  | .chunks calls _ closeConnection =>
    closeConnection = true → (getHttpResponseData start s).connectionClose = true ∨
      (getHttpResponseData start s).methodHead = true ∨ calls.flatMap BodyCall.pieces = []
  | .withoutBody _ _ => True
  | .tryEnds body slices =>
    ∀ count slice, slices[count]? = some slice →
      let loop := respond s ambient (response.calls.take (response.head.length + count)) start
      (loop.sockets s).closed = false → FineSlice s body loop slice

def dispatched (connectionClose methodHead : Bool) : HttpResponseData :=
  { responsePending := true, connectionClose := connectionClose, methodHead := methodHead, onAborted := true }

def dispatchedOn (kernel : List Nat) (date : Bytes) (before : List (Nat × Operation)) (connectionClose methodHead : Bool) :
    Loop HttpResponseData :=
  { (runOperations before (Loop.fresh kernel fun _ => dispatched connectionClose methodHead)).1 with date := date }

section Steps

variable {s : Nat} {loop : Loop HttpResponseData}

theorem other_emits (ready : Ready loop s) (t : Nat) (operation : Operation) (other : t ≠ s) :
    Emits s [] (getHttpResponseData loop s) loop (operation.run t loop).1 := by
  have appended : ∀ {bytes after}, Loop.Appended t bytes loop after →
      Emits s [] (getHttpResponseData loop s) loop after := by
    intro bytes after appended
    constructor
    · constructor
      · rw [appended.others s other.symm, List.append_nil]
      · exact appended.ext s
      · exact appended.coherent
      · exact (appended.shutDown s).symm.trans
    · exact (appended.closed s).trans ready.live
    · exact appended.date
  by_cases live : (loop.sockets t).closed = false
  · exact appended (operation.run_appended t loop ready.coherent live)
  · have closed : (loop.sockets t).closed = true := Bool.eq_true_of_not_eq_false live
    have written : ∀ src optionally nextLength, loop.write t src optionally nextLength = (loop, src.length, false) := by
      intro src optionally nextLength
      simp only [Loop.write, Loop.writeWith, closed, if_true]
    cases operation with
    | cork => exact appended (Loop.cork_appended ready.coherent)
    | write src optionally nextLength =>
      simp only [Operation.run, written]
      exact Emits.none ready
    | getSendBuffer data => exact appended (Loop.getSendBuffer_appended data ready.coherent)
    | writeLarge header message => exact appended (Operation.writeLarge_run header message t ready.coherent)
    | uncork src optionally =>
      simp only [Operation.run]
      cases corked : loop.isCorked t with
      | false =>
        rw [Loop.uncork_uncorked src optionally corked]
        exact Emits.none ready
      | true =>
        rw [Loop.uncork_closed src optionally closed corked]
        have own : loop.corked s = [] := Loop.corked_not (Loop.isCorked_other corked other.symm)
        have nobody : ∀ u, Loop.corked { loop with corkedSocket := none, corkBuffer := [] } u = [] := by
          intro u
          simp only [Loop.corked, ite_self]
        constructor
        · constructor
          · simp only [Loop.stream, nobody, own, List.append_nil]
          · rfl
          · constructor
            · exact ready.coherent.within
            · intro u some
              exact absurd (nobody u) some
            · intro
              rfl
          · exact id
        · exact ready.live
        · rfl

theorem ambient_emits (ready : Ready loop s) (ambient : Ambient) :
    Emits s [] (getHttpResponseData loop s) loop (ambient.run s loop) := by
  cases ambient with
  | cork => exact ready.emits (Loop.cork_appended ready.coherent)
  | uncork =>
    simp only [Ambient.run]
    cases corked : loop.isCorked s with
    | true =>
      have appended := (Loop.uncork_appended [] false ready.coherent ready.live corked).2
      rw [List.take_nil] at appended
      exact ready.emits appended
    | false =>
      rw [Loop.uncork_uncorked [] false corked]
      exact Emits.none ready
  | drain =>
    have appended := (Loop.write_appended [] true 0 ready.coherent ready.live).2
    rw [List.take_nil] at appended
    exact ready.emits appended
  | other t operation =>
    simp only [Ambient.run]
    split
    · exact Emits.none ready
    · rename_i other
      exact other_emits ready t operation other

theorem settle_emits (ready : Ready loop s) (ambients : List Ambient) :
    Emits s [] (getHttpResponseData loop s) loop (settle s ambients loop) := by
  induction ambients generalizing loop with
  | nil => exact Emits.none ready
  | cons ambient ambients ih =>
    have first := ambient_emits ready ambient
    have rest := first.trans (ih first.ready)
    rw [first.response] at rest
    exact rest

theorem respond_concat (ambient : Nat → List Ambient) (calls : List Call) (call : Call) (start : Loop HttpResponseData) :
    respond s ambient (calls ++ [call]) start =
      if ((respond s ambient calls start).sockets s).closed then respond s ambient calls start
      else call.perform s (settle s (ambient calls.length) (respond s ambient calls start)) := by
  have last : (calls ++ [call]).zipIdx = calls.zipIdx ++ [(call, calls.length)] := by simp [List.zipIdx_append]
  unfold respond
  rw [last, List.foldl_append]
  rfl

theorem respond_emits {ambient : Nat → List Ambient} {calls : List Call} {start : Loop HttpResponseData} {bytes : Bytes}
    {response : HttpResponseData} (emits : Emits s bytes response start (respond s ambient calls start)) (call : Call) :
    ∃ settled, Emits s bytes response start settled ∧ respond s ambient (calls ++ [call]) start = call.perform s settled := by
  have quiet := emits.trans (settle_emits emits.ready (ambient calls.length))
  rw [emits.response, List.append_nil] at quiet
  rw [respond_concat, if_neg (by rw [emits.live]; exact Bool.false_ne_true)]
  exact ⟨_, quiet, rfl⟩

end Steps

def headPart : List HeadCall → Bytes
  | [] => []
  | call :: calls => call.text false ++ calls.flatMap (HeadCall.text true)

theorem headPart_concat (calls : List HeadCall) (call : HeadCall) :
    headPart (calls ++ [call]) = headPart calls ++ call.text (!calls.isEmpty) := by
  cases calls with
  | nil => simp [headPart]
  | cons first calls => simp [headPart]

theorem headCall_emits {loop : Loop HttpResponseData} {s : Nat} (ready : Ready loop s) (call : HeadCall) :
    Emits s (call.text (getHttpResponseData loop s).statusCalled)
      { getHttpResponseData loop s with statusCalled := true } loop (call.perform s loop) := by
  cases call with
  | writeStatus status => exact writeStatus_emits ready status
  | writeHeader key value => exact writeHeader_emits ready key value
  | writeNumberHeader key value => exact writeNumberHeader_emits ready key value

theorem respond_head {s : Nat} {start : Loop HttpResponseData} (ready : Ready start s) (ambient : Nat → List Ambient)
    (fresh : (getHttpResponseData start s).statusCalled = false) (calls : List HeadCall) :
    Emits s (headPart calls) { getHttpResponseData start s with statusCalled := !calls.isEmpty } start
      (respond s ambient (calls.map Call.head) start) := by
  induction calls using List.reverseRecOn with
  | nil =>
    have same : { getHttpResponseData start s with statusCalled := false } = getHttpResponseData start s := by rw [← fresh]
    rw [List.isEmpty_nil, Bool.not_true, same]
    exact Emits.none ready
  | append_singleton calls call ih =>
    rw [List.map_append, List.map_singleton, headPart_concat]
    obtain ⟨settled, quiet, performed⟩ := respond_emits ih (Call.head call)
    have step := quiet.trans (headCall_emits quiet.ready call)
    rw [quiet.response] at step
    rw [performed]
    have more : (calls ++ [call]).isEmpty = false := by simp
    rw [more]
    exact step

end Uws.Http
