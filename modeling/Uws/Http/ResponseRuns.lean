import Uws.Http.ResponseFraming

namespace Uws.Http

open Uws.Socket
open HttpResponse

variable {s : Nat} {loop start : Loop HttpResponseData} {ambient : Nat → List Ambient}

theorem pieceOf_empty {data : Data} (empty : data.val = []) : pieceOf data = [] := by rw [pieceOf, if_pos empty]

theorem pieceOf_some {data : Data} (some : data.val ≠ []) : pieceOf data = [data.val] := by rw [pieceOf, if_neg some]

theorem chunkTexts (pieces : List Bytes) :
    pieces.flatMap chunkText ++ ascii "\r\n0\r\n\r\n" = crlf ++ chunkedBody pieces := by
  induction pieces with
  | nil => rfl
  | cons piece pieces ih =>
    rw [chunkedBody, List.flatMap_cons, List.flatMap_cons, List.append_assoc, ih, chunkedBody]
    simp only [chunkText, List.append_assoc]

theorem bodyCall_emits (ready : Ready loop s) (call : BodyCall) :
    Emits s (if call.begins then beginText (getHttpResponseData loop s) loop.date ++
        (if (getHttpResponseData loop s).methodHead then [] else call.pieces.flatMap chunkText)
        else statusText (getHttpResponseData loop s) http200Ok)
      { getHttpResponseData loop s with
        statusCalled := true, writeCalled := (getHttpResponseData loop s).writeCalled || call.begins } loop
      (call.perform s loop) := by
  cases call with
  | beginWrite =>
    simp only [BodyCall.begins, if_true, BodyCall.pieces, List.flatMap_nil, ite_self, List.append_nil, Bool.or_true]
    exact beginWrite_emits ready
  | write data =>
    have written := write_emits ready data.val
    obtain ⟨data, short⟩ := data
    cases data with
    | nil => exact written
    | cons first rest =>
      have some : pieceOf ⟨first :: rest, short⟩ = [first :: rest] := pieceOf_some (List.cons_ne_nil _ _)
      simp only [BodyCall.begins, List.isEmpty_cons, Bool.not_false, if_true, BodyCall.pieces, some, List.flatMap_singleton]
      exact written

theorem headPart_status (calls : List HeadCall) (response : HttpResponseData) :
    headPart calls ++ statusText { response with statusCalled := !calls.isEmpty } http200Ok = headText calls := by
  cases calls with
  | nil => rfl
  | cons call calls =>
    simp only [List.isEmpty_cons, Bool.not_false, statusText, if_true, List.append_nil]
    rfl

def bodyPart (methodHead : Bool) (date : Bytes) (head : List HeadCall) (calls : List BodyCall) : Bytes :=
  if calls.any BodyCall.begins then
    headText head ++ (dateText date ++ chunkedText) ++
      if methodHead then [] else (calls.flatMap BodyCall.pieces).flatMap chunkText
  else if calls.isEmpty then headPart head
  else headText head

def bodyFlags (response : HttpResponseData) (head : List HeadCall) (calls : List BodyCall) : HttpResponseData :=
  { response with statusCalled := !(head.isEmpty && calls.isEmpty), writeCalled := calls.any BodyCall.begins }

theorem pieces_none {calls : List BodyCall} (none : calls.any BodyCall.begins = false) :
    calls.flatMap BodyCall.pieces = [] := by
  rw [List.flatMap_eq_nil_iff]
  intro call member
  have quiet := (List.any_eq_false.mp none) call member
  cases call with
  | beginWrite => exact absurd rfl quiet
  | write data =>
    apply pieceOf_empty
    simpa only [BodyCall.begins, Bool.not_eq_true, Bool.not_eq_false', List.isEmpty_iff] using quiet

theorem bodyPart_status (response : HttpResponseData) (date : Bytes) (head : List HeadCall) (calls : List BodyCall)
    (none : calls.any BodyCall.begins = false) :
    bodyPart response.methodHead date head calls ++ statusText (bodyFlags response head calls) http200Ok =
      headText head := by
  rw [bodyPart, none, if_neg Bool.false_ne_true]
  cases calls with
  | nil =>
    simp only [List.isEmpty_nil, if_true, bodyFlags, Bool.and_true]
    exact headPart_status head response
  | cons call calls =>
    simp only [List.isEmpty_cons, Bool.false_eq_true, if_false, bodyFlags, Bool.and_false, Bool.not_false, statusText,
      if_true, List.append_nil]

theorem statusText_begun (response : HttpResponseData) (head : List HeadCall) (calls : List BodyCall)
    (begun : calls.any BodyCall.begins = true) : statusText (bodyFlags response head calls) http200Ok = [] := by
  cases calls with
  | nil => exact absurd begun Bool.false_ne_true
  | cons call calls =>
    simp only [bodyFlags, List.isEmpty_cons, Bool.and_false, Bool.not_false, statusText, if_true]

theorem bodyPart_concat (response : HttpResponseData) (date : Bytes) (head : List HeadCall) (calls : List BodyCall)
    (call : BodyCall) :
    bodyPart response.methodHead date head calls ++
        (if call.begins then beginText (bodyFlags response head calls) date ++
          (if response.methodHead then [] else call.pieces.flatMap chunkText)
          else statusText (bodyFlags response head calls) http200Ok) =
      bodyPart response.methodHead date head (calls ++ [call]) := by
  have more : (calls ++ [call]).isEmpty = false := by simp
  have last : (calls ++ [call]).any BodyCall.begins = (calls.any BodyCall.begins || call.begins) := by simp
  cases begun : calls.any BodyCall.begins with
  | false =>
    have status := bodyPart_status response date head calls begun
    have nothing := pieces_none begun
    cases begins : call.begins with
    | false =>
      simp only [Bool.false_eq_true, if_false]
      rw [status, bodyPart, last, begun, begins, more]
      rfl
    | true =>
      simp only [if_true]
      rw [beginText, ← List.append_assoc, ← List.append_assoc, status, bodyPart, last, begun, begins, Bool.or_true, if_pos rfl,
        List.flatMap_append, nothing, List.nil_append, List.flatMap_singleton]
      simp only [bodyFlags, begun, Bool.false_eq_true, if_false]
  | true =>
    have status := statusText_begun response head calls begun
    rw [bodyPart, begun, if_pos rfl, bodyPart, last, begun, Bool.true_or, if_pos rfl, List.flatMap_append,
      List.flatMap_singleton, List.flatMap_append]
    cases begins : call.begins with
    | false =>
      simp only [Bool.false_eq_true, if_false]
      have none : call.pieces = [] := by
        have quiet : [call].any BodyCall.begins = false := by simp [begins]
        simpa using pieces_none quiet
      rw [status, none, List.flatMap_nil, List.append_nil, List.append_nil]
    | true =>
      simp only [if_true]
      rw [beginText, status]
      simp only [bodyFlags, begun, if_true, List.append_nil, List.nil_append]
      split <;> simp only [List.append_nil, List.append_assoc]

/-- A response that was dispatched and not answered yet. -/
structure Unanswered (response : HttpResponseData) : Prop where
  status : response.statusCalled = false
  written : response.writeCalled = false
  ended : response.endCalled = false
  pending : response.responsePending = true
  offset : response.offset = 0

theorem respond_body (ready : Ready start s) (fresh : Unanswered (getHttpResponseData start s)) (head : List HeadCall)
    (calls : List BodyCall) :
    Emits s (bodyPart (getHttpResponseData start s).methodHead start.date head calls)
      (bodyFlags (getHttpResponseData start s) head calls) start
      (respond s ambient (head.map Call.head ++ calls.map Call.body) start) := by
  induction calls using List.reverseRecOn with
  | nil =>
    have begun := respond_head ready ambient fresh.status head
    have same : bodyFlags (getHttpResponseData start s) head [] =
        { getHttpResponseData start s with statusCalled := !head.isEmpty } := by
      simp only [bodyFlags, List.isEmpty_nil, Bool.and_true, List.any_nil]
      rw [← fresh.written]
    rw [same, List.map_nil, List.append_nil]
    exact begun
  | append_singleton calls call ih =>
    rw [List.map_append, List.map_singleton, ← List.append_assoc]
    obtain ⟨settled, quiet, performed⟩ := respond_emits ih (Call.body call)
    have step := quiet.trans (bodyCall_emits quiet.ready call)
    rw [quiet.response, quiet.date] at step
    rw [performed, ← bodyPart_concat]
    have flags : bodyFlags (getHttpResponseData start s) head (calls ++ [call]) =
        { bodyFlags (getHttpResponseData start s) head calls with
          statusCalled := true, writeCalled := calls.any BodyCall.begins || call.begins } := by
      simp [bodyFlags]
    rw [flags]
    exact step

theorem lengthText_line (length : Nat) : lengthText length true = lengthLine length ++ crlf := by
  have name : ascii "Content-Length: " = ascii "Content-Length" ++ ascii ": " := by decide
  have block : ascii "\r\n\r\n" = crlf ++ crlf := by decide
  simp only [lengthText, lengthLine, headerLine, if_true, name, block, List.append_assoc]

theorem endText_body (response : HttpResponseData) (pieces : List Bytes) (data : Data) :
    (if response.methodHead then [] else pieces.flatMap chunkText) ++ endText response (bodyOf response data.val) =
      crlf ++ if response.methodHead then [] else chunkedBody (pieces ++ pieceOf data) := by
  unfold endText bodyOf
  cases response.methodHead with
  | true => rfl
  | false =>
    simp only [Bool.false_eq_true, if_false]
    rw [← chunkTexts, List.flatMap_append, List.append_assoc]
    by_cases empty : data.val = []
    · rw [if_pos empty, pieceOf_empty empty]
      rfl
    · rw [if_neg empty, pieceOf_some empty, List.flatMap_singleton]

/-- The first byte of a header line that ends the connection is that of no other part of a response. -/
theorem closeText_ne {behind : Bytes} {first : UInt8} {rest : Bytes} (other : first ≠ 67) :
    closeText ++ behind ≠ first :: rest := by
  intro same
  have heads := congrArg List.head? same
  have head : (closeText ++ behind).head? = some 67 := rfl
  rw [head] at heads
  exact other (Option.some.inj heads).symm

theorem chunks_ended {head : List HeadCall} {calls : List BodyCall} {data : Data} {closeConnection : Bool}
    (begun : calls.any BodyCall.begins = true)
    (emits : Emits s (bodyPart (getHttpResponseData start s).methodHead start.date head calls)
      (bodyFlags (getHttpResponseData start s) head calls) start loop) :
    Sends s ⟨head, .chunks calls data closeConnection⟩ start ((Call.endResponse data closeConnection).perform s loop)
        (Ending.body (.chunks calls data closeConnection)) ↔
      (closeConnection = true → (getHttpResponseData start s).connectionClose = true ∨
        (getHttpResponseData start s).methodHead = true ∨ calls.flatMap BodyCall.pieces = []) := by
  have whole := internalEnd_chunks emits.ready data.val data.val.length false true closeConnection
    (by rw [emits.response]; exact begun)
  have sent : ((Call.endResponse data closeConnection).perform s loop).stream s = _ := whole.bytes
  rw [emits.response, emits.bytes, openingText, statusText_begun _ head calls begun, List.nil_append, bodyPart, if_pos begun] at sent
  have ending := endText_body (getHttpResponseData start s) (calls.flatMap BodyCall.pieces) data
  have flags : endText (bodyFlags (getHttpResponseData start s) head calls)
      (bodyOf (bodyFlags (getHttpResponseData start s) head calls) data.val) =
        endText (getHttpResponseData start s) (bodyOf (getHttpResponseData start s) data.val) := rfl
  have announce : announceText (bodyFlags (getHttpResponseData start s) head calls) closeConnection =
      announceText (getHttpResponseData start s) closeConnection := rfl
  rw [flags, announce] at sent
  rw [Sends, sent]
  simp only [LegalResponse.text, Ending.fields, Ending.body, Ending.pieces, if_pos begun, List.append_assoc,
    List.append_cancel_left_eq]
  rw [← ending]
  by_cases asks : closeConnection = true ∧ (getHttpResponseData start s).connectionClose = false
  rotate_left
  · have quiet : announceText (getHttpResponseData start s) closeConnection = [] := by
      rw [announceText, if_neg]
      simpa using asks
    rw [quiet, List.nil_append]
    apply iff_of_true
    · exact ⟨false, rfl⟩
    · intro closing
      apply Or.inl
      by_contra other
      exact asks ⟨closing, Bool.eq_false_of_not_eq_true other⟩
  have announces : announceText (getHttpResponseData start s) closeConnection = closeText := by
    rw [announceText, asks.1, asks.2]
    rfl
  rw [announces]
  by_cases early : (getHttpResponseData start s).methodHead = true ∨ calls.flatMap BodyCall.pieces = []
  · have none : (if (getHttpResponseData start s).methodHead then [] else
        (calls.flatMap BodyCall.pieces).flatMap chunkText) = [] := by
      rcases early with head | empty
      · rw [if_pos head]
      · rw [empty, List.flatMap_nil, ite_self]
    rw [none]
    apply iff_of_true
    · exact ⟨true, rfl⟩
    · intro
      exact .inr early
  · apply iff_of_false
    · intro sends
      obtain ⟨closing, same⟩ := sends
      rw [not_or] at early
      rw [if_neg early.1] at same
      cases closing with
      | false =>
        have lengths := congrArg List.length same
        have size : closeText.length = 19 := by decide
        simp only [Bool.false_eq_true, if_false, List.nil_append, List.length_append, size] at lengths
        omega
      | true =>
        obtain ⟨piece, pieces, shape⟩ := List.exists_cons_of_ne_nil early.2
        rw [shape] at same
        simp only [if_true, List.flatMap_cons, chunkText, crlf, List.append_assoc, List.cons_append] at same
        exact closeText_ne (by decide) same.symm
    · intro allowed
      rcases allowed asks.1 with close | rest
      · rw [asks.2] at close
        exact absurd close Bool.false_ne_true
      · exact early rest

theorem data_short (data : Data) : data.val.length ≤ intMax := Nat.le_of_lt_succ data.property

theorem length_sent {head : List HeadCall} {calls : List BodyCall} (fresh : Unanswered (getHttpResponseData start s))
    (plain : calls.any BodyCall.begins = false)
    (emits : Emits s (bodyPart (getHttpResponseData start s).methodHead start.date head calls)
      (bodyFlags (getHttpResponseData start s) head calls) start loop)
    (data : Bytes) (totalSize : Nat) (optional allowContentLength closeConnection : Bool) :
    ∃ written, written ≤ (bodyOf (getHttpResponseData start s) data).length ∧
      (optional = false → data.length ≤ intMax → written = (bodyOf (getHttpResponseData start s) data).length) ∧
      Ends s (headText head ++ (announceText (getHttpResponseData start s) closeConnection ++ dateText start.date ++
          lengthText (if totalSize = 0 then data.length else totalSize) allowContentLength) ++
          (bodyOf (getHttpResponseData start s) data).take written)
        (afterEnd (bodyFlags (getHttpResponseData start s) head calls) data
          (if totalSize = 0 then data.length else totalSize) written closeConnection) start
        (internalEnd loop s data totalSize optional allowContentLength closeConnection).1 ∧
      ((afterEnd (bodyFlags (getHttpResponseData start s) head calls) data
          (if totalSize = 0 then data.length else totalSize) written closeConnection).responsePending = true →
        Ready (internalEnd loop s data totalSize optional allowContentLength closeConnection).1 s) := by
  obtain ⟨written, most, firm, ends, live⟩ := internalEnd_length emits.ready data totalSize optional allowContentLength
    closeConnection (by rw [emits.response]; exact plain)
  have whole := emits.ends ends
  have status := bodyPart_status (getHttpResponseData start s) start.date head calls plain
  rw [emits.response] at most firm whole live
  have ended : (bodyFlags (getHttpResponseData start s) head calls).endCalled = false := fresh.ended
  have text : bodyPart (getHttpResponseData start s).methodHead start.date head calls ++
      (openingText (bodyFlags (getHttpResponseData start s) head calls) closeConnection ++
        beginEndText (bodyFlags (getHttpResponseData start s) head calls) loop.date
          (if totalSize = 0 then data.length else totalSize) allowContentLength ++
        (bodyOf (bodyFlags (getHttpResponseData start s) head calls) data).take written) =
      headText head ++ (announceText (getHttpResponseData start s) closeConnection ++ dateText start.date ++
        lengthText (if totalSize = 0 then data.length else totalSize) allowContentLength) ++
        (bodyOf (getHttpResponseData start s) data).take written := by
    rw [← status, emits.date, beginEndText, ended]
    simp only [openingText, Bool.false_eq_true, if_false, List.append_assoc]
    rfl
  rw [text] at whole
  exact ⟨written, most, firm, whole, live⟩

theorem announceText_closing (response : HttpResponseData) (closeConnection : Bool) :
    announceText response closeConnection = if (closeConnection && !response.connectionClose) then closeText else [] := rfl

theorem plain_ended {head : List HeadCall} {calls : List BodyCall} {data : Data} {closeConnection : Bool}
    (fresh : Unanswered (getHttpResponseData start s)) (plain : calls.any BodyCall.begins = false)
    (emits : Emits s (bodyPart (getHttpResponseData start s).methodHead start.date head calls)
      (bodyFlags (getHttpResponseData start s) head calls) start loop) :
    Sends s ⟨head, .chunks calls data closeConnection⟩ start ((Call.endResponse data closeConnection).perform s loop)
      (Ending.body (.chunks calls data closeConnection)) := by
  obtain ⟨written, -, firm, ends, -⟩ := length_sent fresh plain emits data.val data.val.length false true closeConnection
  have all := firm rfl (data_short data)
  have sent : ((Call.endResponse data closeConnection).perform s loop).stream s = _ := ends.bytes
  rw [all, List.take_length, ite_self, lengthText_line] at sent
  exists closeConnection && !(getHttpResponseData start s).connectionClose
  have none : ¬ calls.any BodyCall.begins = true := fun begun => Bool.false_ne_true (plain.symm.trans begun)
  rw [sent, announceText_closing]
  simp only [LegalResponse.text, Ending.fields, Ending.body, if_neg none, bodyOf, List.append_assoc]

theorem withoutBody_ended {head : List HeadCall} {reported : Option Nat} {closeConnection : Bool}
    (fresh : Unanswered (getHttpResponseData start s))
    (emits : Emits s (bodyPart (getHttpResponseData start s).methodHead start.date head [])
      (bodyFlags (getHttpResponseData start s) head []) start loop) :
    Sends s ⟨head, .withoutBody reported closeConnection⟩ start
      ((Call.endWithoutBody reported closeConnection).perform s loop) [] := by
  have nothing : bodyOf (getHttpResponseData start s) [] = [] := ite_self _
  exists closeConnection && !(getHttpResponseData start s).connectionClose
  cases reported with
  | none =>
    obtain ⟨written, -, -, ends, -⟩ := length_sent fresh rfl emits [] 0 false false closeConnection
    have sent : ((Call.endWithoutBody none closeConnection).perform s loop).stream s = _ := ends.bytes
    rw [sent, announceText_closing, nothing]
    simp only [LegalResponse.text, Ending.fields, ite_self, List.take_nil, List.append_nil, Option.map_none,
      Option.getD_none, lengthText, Bool.false_eq_true, if_false, List.append_assoc]
  | some length =>
    obtain ⟨written, -, -, ends, -⟩ := length_sent fresh rfl emits [] length false true closeConnection
    have sent : ((Call.endWithoutBody (some length) closeConnection).perform s loop).stream s = _ := ends.bytes
    have size : (if length = 0 then ([] : Bytes).length else length) = length := by
      split
      · rename_i zero
        exact zero.symm
      · rfl
    rw [sent, announceText_closing, nothing, size, lengthText_line]
    simp only [LegalResponse.text, Ending.fields, ite_self, List.take_nil, List.append_nil, Option.map_some,
      Option.getD_some, List.append_assoc]

end Uws.Http
