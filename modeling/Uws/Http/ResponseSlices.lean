import Uws.Http.ResponseRuns

namespace Uws.Http

open Uws.Socket
open HttpResponse

variable {s : Nat} {start loop after : Loop HttpResponseData} {head : List HeadCall} {body : Bytes}
  {slices : List (Fin (2 ^ 31) × Bool)} {slice : Fin (2 ^ 31) × Bool} {closing : Bool} {late : Bytes} {written : Nat}
  {response : HttpResponseData}

structure Trying (s : Nat) (head : List HeadCall) (body : Bytes) (slices : List (Fin (2 ^ 31) × Bool))
    (start loop : Loop HttpResponseData) (closing : Bool) : Prop where
  stream : loop.stream s = start.stream s ++ LegalResponse.text ⟨head, .tryEnds body slices⟩ start.date closing
    (getHttpResponseData start s).methodHead (body.take (getWriteOffset loop s))
  called : (getHttpResponseData loop s).statusCalled = true
  plain : (getHttpResponseData loop s).writeCalled = false
  ended : (getHttpResponseData loop s).endCalled = true
  methodHead : (getHttpResponseData loop s).methodHead = (getHttpResponseData start s).methodHead
  within : getWriteOffset loop s ≤ body.length
  done : (getHttpResponseData loop s).responsePending = false →
    (getHttpResponseData start s).methodHead = true ∨ getWriteOffset loop s = body.length
  coherent : loop.Coherent

def sliceOf (body : Bytes) (offset : Nat) (slice : Fin (2 ^ 31) × Bool) : Bytes := (body.drop offset).take slice.1

structure Sliced (s : Nat) (head : List HeadCall) (body : Bytes) (slices : List (Fin (2 ^ 31) × Bool))
    (start : Loop HttpResponseData) (response : HttpResponseData) (slice : Fin (2 ^ 31) × Bool) (closing : Bool)
    (late : Bytes) (written : Nat) (after : Loop HttpResponseData) : Prop where
  plain : response.writeCalled = false
  methodHead : response.methodHead = (getHttpResponseData start s).methodHead
  within : response.offset ≤ body.length
  done : response.responsePending = false →
    (getHttpResponseData start s).methodHead = true ∨ response.offset = body.length
  most : written ≤ (bodyOf response (sliceOf body response.offset slice)).length
  stream : after.stream s = start.stream s ++ (LegalResponse.text ⟨head, .tryEnds body slices⟩ start.date closing
    (getHttpResponseData start s).methodHead (body.take response.offset) ++ late ++
      (bodyOf response (sliceOf body response.offset slice)).take written)
  left : getHttpResponseData after s = afterEnd response (sliceOf body response.offset slice) body.length written slice.2
  coherent : after.Coherent

theorem total_length (body : Bytes) (offset : Nat) (slice : Fin (2 ^ 31) × Bool) :
    (if body.length = 0 then (sliceOf body offset slice).length else body.length) = body.length := by
  split
  · rename_i empty
    rw [List.eq_nil_of_length_eq_zero empty, sliceOf, List.drop_nil, List.take_nil]
  · rfl

theorem first_sliced (fresh : Unanswered (getHttpResponseData start s))
    (emits : Emits s (bodyPart (getHttpResponseData start s).methodHead start.date head [])
      (bodyFlags (getHttpResponseData start s) head []) start loop) :
    ∃ written, Sliced s head body slices start (bodyFlags (getHttpResponseData start s) head []) slice
      (slice.2 && !(getHttpResponseData start s).connectionClose) [] written
      ((Call.tryEnd body slice.1 slice.2).perform s loop) := by
  have offset : getWriteOffset loop s = 0 := by
    unfold getWriteOffset
    rw [emits.response]
    exact fresh.offset
  have nothing : (bodyFlags (getHttpResponseData start s) head []).offset = 0 := fresh.offset
  obtain ⟨written, most, -, ends, -⟩ := length_sent fresh rfl emits (sliceOf body 0 slice) body.length true true slice.2
  have performed : (Call.tryEnd body slice.1 slice.2).perform s loop =
      (internalEnd loop s (sliceOf body 0 slice) body.length true true slice.2).1 := by
    simp only [Call.perform, tryEnd, offset, sliceOf]
  rw [total_length] at ends
  exists written
  constructor
  · rfl
  · rfl
  · rw [nothing]
    exact Nat.zero_le _
  · intro done
    exact absurd (done.symm.trans fresh.pending) Bool.false_ne_true
  · rw [nothing]
    exact most
  · rw [performed, ends.bytes, nothing, lengthText_line, announceText_closing]
    simp only [LegalResponse.text, Ending.fields, List.take_zero, ite_self, List.append_nil, List.append_assoc]
    rfl
  · rw [performed, nothing]
    exact ends.response
  · rw [performed]
    exact ends.coherent

theorem later_sliced (trying : Trying s head body slices start loop closing)
    (live : (loop.sockets s).closed = false) :
    ∃ written, Sliced s head body slices start (getHttpResponseData loop s) slice closing
      (announceText (getHttpResponseData loop s) slice.2) written
      ((Call.tryEnd body slice.1 slice.2).perform s loop) := by
  obtain ⟨written, most, -, ends, -⟩ := internalEnd_length ⟨trying.coherent, live⟩
    (sliceOf body (getWriteOffset loop s) slice) body.length true true slice.2 trying.plain
  have opened : openingText (getHttpResponseData loop s) slice.2 = announceText (getHttpResponseData loop s) slice.2 := by
    rw [openingText, statusText, if_pos trying.called, List.nil_append]
  have begun : beginEndText (getHttpResponseData loop s) loop.date body.length true = [] := by
    rw [beginEndText, if_pos trying.ended]
  rw [total_length, opened, begun, List.append_nil] at ends
  exists written
  constructor
  · exact trying.plain
  · exact trying.methodHead
  · exact trying.within
  · exact trying.done
  · exact most
  · have sent : ((Call.tryEnd body slice.1 slice.2).perform s loop).stream s = _ := ends.bytes
    rw [sent, trying.stream]
    simp only [List.append_assoc]
    rfl
  · exact ends.response
  · exact ends.coherent

theorem afterEnd_offset (response : HttpResponseData) (data : Bytes) (totalSize written : Nat) (closeConnection : Bool) :
    (afterEnd response data totalSize written closeConnection).offset = response.offset + written := by
  unfold afterEnd
  simp only
  split <;> rfl

theorem afterEnd_head (response : HttpResponseData) (data : Bytes) (totalSize written : Nat) (closeConnection : Bool) :
    (afterEnd response data totalSize written closeConnection).methodHead = response.methodHead := by
  unfold afterEnd
  simp only
  split <;> rfl

theorem afterEnd_flags (response : HttpResponseData) (data : Bytes) (totalSize written : Nat) (closeConnection : Bool) :
    (afterEnd response data totalSize written closeConnection).statusCalled = true ∧
      (afterEnd response data totalSize written closeConnection).endCalled = true ∧
      (afterEnd response data totalSize written closeConnection).writeCalled = response.writeCalled := by
  unfold afterEnd
  simp only
  split <;> exact ⟨rfl, rfl, rfl⟩

theorem afterEnd_done {response : HttpResponseData} {data : Bytes} {totalSize written : Nat} {closeConnection : Bool}
    (done : (afterEnd response data totalSize written closeConnection).responsePending = false) :
    response.responsePending = false ∨ response.offset + written = totalSize ∨ bodyOf response data = [] := by
  unfold afterEnd at done
  simp only at done
  split at done
  · rename_i finished
    rcases finished with all | empty
    · exact .inr (.inl all)
    · exact .inr (.inr (List.eq_nil_of_length_eq_zero empty))
  · exact .inl done

theorem Trying.framed (trying : Trying s head body slices start loop closing) (count : Nat) :
    FramedAt s ⟨head, .tryEnds body slices⟩ start count loop := by
  constructor
  · intro done
    exists closing
    rw [trying.stream]
    rcases trying.done done with methodHead | all
    · simp only [LegalResponse.text, methodHead, if_true]
    · rw [all, List.take_length]
      rfl
  · intro
    exists closing
    exact trying.stream

theorem sliceOf_length (body : Bytes) (offset : Nat) (slice : Fin (2 ^ 31) × Bool) :
    (sliceOf body offset slice).length = min slice.1.val (body.length - offset) := by
  rw [sliceOf, List.length_take, List.length_drop]

theorem Sliced.joined (sliced : Sliced s head body slices start response slice closing late written after) :
    LegalResponse.text ⟨head, .tryEnds body slices⟩ start.date closing (getHttpResponseData start s).methodHead
        (body.take response.offset) ++ (bodyOf response (sliceOf body response.offset slice)).take written =
      LegalResponse.text ⟨head, .tryEnds body slices⟩ start.date closing (getHttpResponseData start s).methodHead
        (body.take (response.offset + written)) := by
  have most := sliced.most
  unfold bodyOf at most ⊢
  rw [sliced.methodHead] at most ⊢
  cases methodHead : (getHttpResponseData start s).methodHead with
  | true => simp only [LegalResponse.text, if_true, List.take_nil, List.append_nil]
  | false =>
    rw [methodHead] at most
    simp only [Bool.false_eq_true, if_false, sliceOf_length] at most
    simp only [LegalResponse.text, Bool.false_eq_true, if_false, sliceOf, List.append_assoc]
    rw [List.take_take, Nat.min_eq_left (Nat.le_trans most (Nat.min_le_left _ _)), List.take_add]

/-- What is asked of a slice, when the end of the connection is not its matter. -/
def Filled (methodHead : Bool) (body : Bytes) (offset : Nat) (slice : Fin (2 ^ 31) × Bool) : Prop :=
  methodHead = true ∨ slice.1 ≠ 0 ∨ offset = body.length

theorem Sliced.trying (sliced : Sliced s head body slices start response slice closing [] written after)
    (filled : Filled response.methodHead body response.offset slice) :
    Trying s head body slices start after closing := by
  have offset : getWriteOffset after s = response.offset + written := by
    rw [getWriteOffset, sliced.left, afterEnd_offset]
  have most : written ≤ body.length - response.offset := by
    apply Nat.le_trans sliced.most
    unfold bodyOf
    split
    · exact Nat.zero_le _
    · rw [sliceOf_length]
      exact Nat.min_le_right _ _
  have within := sliced.within
  obtain ⟨called, ended, plain⟩ := afterEnd_flags response (sliceOf body response.offset slice) body.length written slice.2
  constructor
  · rw [sliced.stream, List.append_nil, sliced.joined, offset]
  · rw [sliced.left, called]
  · rw [sliced.left, plain, sliced.plain]
  · rw [sliced.left, ended]
  · rw [sliced.left, afterEnd_head, sliced.methodHead]
  · omega
  · intro done
    rw [sliced.left] at done
    rw [offset]
    rcases afterEnd_done done with before | all | empty
    · rcases sliced.done before with methodHead | all
      · exact .inl methodHead
      · right
        omega
    · exact .inr all
    · rcases filled with methodHead | some | all
      · rw [← sliced.methodHead]
        exact .inl methodHead
      · cases methodHead : response.methodHead with
        | true =>
          rw [← sliced.methodHead]
          exact .inl methodHead
        | false =>
          right
          have lengths := congrArg List.length empty
          have few : slice.1.val ≠ 0 := fun zero => some (Fin.ext zero)
          simp only [bodyOf, methodHead, Bool.false_eq_true, if_false, sliceOf_length, List.length_nil] at lengths
          omega
      · right
        omega
  · exact sliced.coherent

theorem text_cancel {date : Bytes} {other methodHead : Bool} {first second : Bytes}
    (same : LegalResponse.text ⟨head, .tryEnds body slices⟩ date closing methodHead [] ++ first =
      LegalResponse.text ⟨head, .tryEnds body slices⟩ date other methodHead [] ++ second) : first = second := by
  have first_byte : ∃ rest, dateText date = 68 :: rest := ⟨_, rfl⟩
  obtain ⟨rest, shape⟩ := first_byte
  simp only [LegalResponse.text, Ending.fields, ite_self, List.append_nil, List.append_assoc,
    List.append_cancel_left_eq] at same
  cases closing with
  | true =>
    cases other with
    | true =>
      simp only [if_true, List.append_cancel_left_eq] at same
      exact same
    | false =>
      simp only [if_true, Bool.false_eq_true, if_false, List.nil_append, shape, List.cons_append] at same
      exact absurd same (closeText_ne (by decide))
  | false =>
    cases other with
    | true =>
      simp only [if_true, Bool.false_eq_true, if_false, List.nil_append, shape, List.cons_append] at same
      exact absurd same.symm (closeText_ne (by decide))
    | false =>
      simp only [Bool.false_eq_true, if_false, List.nil_append, List.append_cancel_left_eq] at same
      exact same

theorem text_body (response : LegalResponse) (date : Bytes) (closing methodHead : Bool) (body : Bytes) :
    response.text date closing methodHead body =
      response.text date closing methodHead [] ++ if methodHead then [] else body := by
  simp only [LegalResponse.text, ite_self, List.append_nil]

theorem Sliced.spoilt (sliced : Sliced s head body slices start response slice closing late written after) (count : Nat)
    (headed : head.length < count) (framed : FramedAt s ⟨head, .tryEnds body slices⟩ start count after) :
    late = [] ∧ Filled response.methodHead body response.offset slice := by
  have offset : getWriteOffset after s = response.offset + written := by
    rw [getWriteOffset, sliced.left, afterEnd_offset]
  have none : late = [] := by
    obtain ⟨other, sent⟩ := framed.2 headed
    have joined := sliced.joined
    rw [sliced.stream, offset, List.append_cancel_left_eq, text_body _ _ _ _ (body.take response.offset),
      text_body _ _ other _ (Ending.sent _ _), List.append_assoc, List.append_assoc] at sent
    rw [text_body _ _ _ _ (body.take response.offset), text_body _ _ _ _ (body.take (response.offset + written)),
      List.append_assoc, List.append_cancel_left_eq] at joined
    have rest := text_cancel sent
    rw [show Ending.sent (response.offset + written) (.tryEnds body slices) = body.take (response.offset + written) from rfl,
      ← joined] at rest
    have lengths := congrArg List.length rest
    simp only [List.length_append] at lengths
    apply List.eq_nil_of_length_eq_zero
    omega
  apply And.intro none
  by_contra unfilled
  unfold Filled at unfilled
  rw [not_or, not_or] at unfilled
  obtain ⟨notHead, zero, some⟩ := unfilled
  rw [sliced.methodHead] at notHead
  have empty : bodyOf response (sliceOf body response.offset slice) = [] := by
    unfold bodyOf
    rw [sliced.methodHead, if_neg notHead, sliceOf, Decidable.not_not.mp zero]
    rfl
  have done : (getHttpResponseData after s).responsePending = false := by
    rw [sliced.left, afterEnd]
    simp only
    rw [if_pos (.inr (congrArg List.length empty))]
    rfl
  obtain ⟨other, sent⟩ := framed.1 done
  rw [sliced.stream, none, empty, List.take_nil, List.append_nil, List.append_nil, List.append_cancel_left_eq,
    text_body _ _ _ _ (body.take _), text_body _ _ other _ (Ending.body _), if_neg notHead, if_neg notHead] at sent
  have all : body.take response.offset = body := text_cancel sent
  have lengths := congrArg List.length all
  rw [List.length_take] at lengths
  have within := sliced.within
  omega

end Uws.Http
