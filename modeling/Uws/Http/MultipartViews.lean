import Uws.Http.MultipartParts

namespace Uws.Http

open Uws.TextSearch MultipartParser MessageParser

def BodyView.Inside (size : Nat) (view : BodyView) : Prop := view.start + view.text.length ≤ size

/-- All that a part shows is inside of the body. -/
structure MultipartParser.Delivered.Inside (size : Nat) (part : Delivered) : Prop where
  headers : ∀ header ∈ part.headers, header.1.Inside size ∧ header.2.Inside size
  data : ∃ data, part.data = some data ∧ data.Inside size

variable {slots offset size : Nat} {front tail part after : Bytes}

theorem headerValue_inside {name key value : BodyView} {next : Bytes}
    (stored : headerValue (tail.length + 1) name offset (front ++ cr :: tail) = .stored key value next) :
    key = name ∧ ∃ left : Bytes, next = left ++ cr :: tail ∧
      value.start + value.text.length + 2 + left.length = offset + front.length := by
  obtain ⟨blank, dropped⟩ := skipped_value front tail
  have whole := congrArg List.length (List.takeWhile_append_dropWhile (p := isSkipped) (l := front))
  rw [List.length_append] at whole
  unfold headerValue at stored
  dsimp only at stored
  rw [blank, dropped] at stored
  generalize front.dropWhile isSkipped = line at stored whole
  have ends : (line ++ cr :: tail).length - (tail.length + 1) = line.length := by
    rw [List.length_append, List.length_cons, Nat.add_sub_cancel]
  rw [ends, List.take_left] at stored
  generalize line.takeWhile (fun c => decide (c ≠ cr)) = found at stored
  split at stored
  · rename_i both
    have room : found.length + 2 ≤ line.length := by
      by_contra last
      have place : found.length + 1 = line.length := by omega
      have byte := both.2
      rw [place, List.getElem?_append_right (Nat.le_refl _), Nat.sub_self] at byte
      exact absurd (show some cr = some lf from byte) (by decide)
    cases stored
    refine ⟨rfl, line.drop (found.length + 2), List.drop_append_of_le_length room, ?_⟩
    show offset + (front.takeWhile isSkipped).length + found.length + 2 + (line.drop (found.length + 2)).length = _
    rw [List.length_drop]
    omega
  · cases stored

theorem headerRound_inside :
    (∀ consumed, headerRound (tail.length + 1) offset (front ++ cr :: tail) = .ended consumed → consumed ≤ offset + front.length) ∧
      ∀ name value next, headerRound (tail.length + 1) offset (front ++ cr :: tail) = .stored name value next →
        name.Inside (offset + front.length) ∧ ∃ left : Bytes, next = left ++ cr :: tail ∧
          value.start + value.text.length + 2 + left.length = offset + front.length := by
  have key : (front ++ cr :: tail).takeWhile isName = front.takeWhile isName := by
    by_cases all : ∀ c ∈ front, isName c = true
    · rw [List.takeWhile_append_of_pos all, List.takeWhile_cons_of_neg (by decide), List.append_nil,
        List.takeWhile_eq_self_iff.mpr all]
    · rw [List.takeWhile_append, if_neg]
      intro same
      exact all (List.takeWhile_eq_self_iff.mp ((List.takeWhile_prefix isName).eq_of_length same))
  have bound := (List.takeWhile_prefix (l := front) isName).length_le
  unfold headerRound
  dsimp only
  rw [key, List.drop_append_of_le_length bound]
  have rest := List.length_drop (i := (front.takeWhile isName).length) (l := front)
  cases left : front.drop (front.takeWhile isName).length with
  | nil =>
    rw [List.nil_append]
    dsimp only
    rw [if_pos rfl, if_neg fun both => both.1 rfl]
    exact ⟨nofun, nofun⟩
  | cons c line =>
    rw [left, List.length_cons] at rest
    rw [List.cons_append]
    dsimp only
    split
    · split
      · rename_i both
        refine ⟨?_, nofun⟩
        intro consumed ended
        cases ended
        cases line with
        | nil => exact absurd (show some cr = some lf from both.2) (by decide)
        | cons d line =>
          rw [List.length_cons] at rest
          omega
      · exact ⟨nofun, nofun⟩
    · refine ⟨?_, ?_⟩
      · intro consumed ended
        unfold headerValue at ended
        dsimp only at ended
        split at ended <;> cases ended
      · intro name value next stored
        obtain ⟨rfl, left', own, place⟩ := headerValue_inside stored
        refine ⟨?_, left', own, by omega⟩
        show offset + ((front.takeWhile isName).map _).length ≤ _
        rw [List.length_map]
        omega

theorem headersLoop_inside {consumed : Nat} {views : List (BodyView × BodyView)}
    (read : headersLoop (tail.length + 1) slots offset (front ++ cr :: tail) = some (consumed, views)) :
    consumed ≤ offset + front.length ∧
      ∀ header ∈ views, header.1.Inside (offset + front.length) ∧ header.2.Inside (offset + front.length) := by
  induction slots generalizing offset front views with
  | zero => cases read
  | succ slots ih =>
    obtain ⟨ended, stored⟩ := @headerRound_inside offset front tail
    rw [headersLoop] at read
    cases round : headerRound (tail.length + 1) offset (front ++ cr :: tail) with
    | failed =>
      rw [round] at read
      cases read
    | ended last =>
      rw [round] at read
      cases read
      exact ⟨ended _ round, List.forall_mem_nil _⟩
    | stored name value next =>
      rw [round] at read
      obtain ⟨own, left, rfl, place⟩ := stored _ _ _ round
      obtain ⟨⟨last, rest⟩, inner, same⟩ := Option.map_eq_some_iff.mp read
      cases same
      obtain ⟨consumed_, views_⟩ := ih inner
      rw [place] at consumed_ views_
      refine ⟨consumed_, ?_⟩
      intro header member
      rcases List.mem_cons.mp member with rfl | member
      · exact ⟨own, by show value.start + value.text.length ≤ _; omega⟩
      · exact views_ header member

theorem parsePart_inside {delivered : Delivered} (parsed : parsePart offset part after = some delivered)
    (small : part.length < 2 ^ 31) : delivered.Inside (offset + part.length) := by
  unfold parsePart at parsed
  dsimp only at parsed
  split at parsed
  · cases parsed
  · rename_i long
    generalize stripped_ : (part.drop 2).take (part.length - 4) = stripped at parsed
    have size : stripped.length + 4 = part.length := by
      rw [← stripped_, List.length_take, List.length_drop]
      omega
    generalize part.drop (part.length - 1) = last at parsed
    rw [List.cons_append, List.length_cons, MessageParser.getHeaders] at parsed
    cases read : headersLoop ((last ++ after).length + 1) maxHeaders (offset + 2) (stripped ++ cr :: (last ++ after)) with
    | none =>
      rw [read] at parsed
      cases parsed
    | some found =>
      obtain ⟨consumed, views⟩ := found
      obtain ⟨consumed_, views_⟩ := headersLoop_inside read
      rw [read] at parsed
      change stripHeaders _ (UInt32.ofNat (consumed - (offset + 2))) views = some delivered at parsed
      rw [stripHeaders_small (by omega) (by show _ ≤ stripped.length; omega)] at parsed
      split at parsed
      · cases parsed
      cases parsed
      refine ⟨?_, _, rfl, ?_⟩
      · intro header member
        obtain ⟨name, value⟩ := views_ header member
        unfold BodyView.Inside at name value ⊢
        omega
      · show offset + 2 + (consumed - (offset + 2)) + (stripped.drop (consumed - (offset + 2))).length ≤ _
        rw [List.length_drop]
        omega

theorem parsePart_long {delivered : Delivered} (parsed : parsePart offset part after = some delivered) : 4 ≤ part.length := by
  unfold parsePart at parsed
  split at parsed
  · cases parsed
  · rename_i long
    omega

namespace MultipartParser

def AtEnd (size : Nat) (parser : MultipartParser) : Prop := parser.offset + parser.remainingBody.length = size

theorem takeBoundary_atEnd {parser next : MultipartParser} {before : Bytes} (atEnd : parser.AtEnd size)
    (taken : parser.takeBoundary = some (before, next)) :
    next.AtEnd size ∧ parser.offset + before.length ≤ size ∧
      next.remainingBody.length + before.length ≤ parser.remainingBody.length := by
  obtain ⟨⟨front, back⟩, split, own⟩ := Option.map_eq_some_iff.mp taken
  cases own
  have whole := congrArg List.length (splitAtFirst_eq split)
  rw [List.length_append, List.length_append] at whole
  unfold AtEnd at atEnd ⊢
  dsimp only
  omega

theorem getNextPart_inside {parser next : MultipartParser} {part : Delivered} (atEnd : parser.AtEnd size)
    (delivers : parser.getNextPart = (some part, next)) :
    (size < 2 ^ 31 → part.Inside size) ∧ next.AtEnd size ∧ next.remainingBody.length < parser.remainingBody.length := by
  unfold getNextPart at delivers
  dsimp only at delivers
  split at delivers
  · cases delivers
  · split at delivers
    · cases delivers
    · rename_i begun started
      have begun_ : begun.AtEnd size ∧ begun.remainingBody.length ≤ parser.remainingBody.length := by
        split at started
        · obtain ⟨⟨before, behind⟩, taken, own⟩ := Option.map_eq_some_iff.mp started
          cases own
          obtain ⟨atEnd_, -, less⟩ := takeBoundary_atEnd atEnd taken
          exact ⟨atEnd_, Nat.le_trans (Nat.le_add_right _ _) less⟩
        · cases started
          exact ⟨atEnd, Nat.le_refl _⟩
      split at delivers
      · cases delivers
      · rename_i text after taken
        obtain ⟨atEnd_, fits, less⟩ := takeBoundary_atEnd begun_.1 taken
        obtain ⟨parsed, rfl⟩ := Prod.mk.inj delivers
        have long := parsePart_long parsed
        refine ⟨?_, atEnd_, by omega⟩
        intro small
        obtain ⟨headers, data, shown, inside⟩ := parsePart_inside parsed (by omega)
        refine ⟨?_, data, shown, Nat.le_trans inside fits⟩
        intro header member
        exact ⟨Nat.le_trans (headers header member).1 fits, Nat.le_trans (headers header member).2 fits⟩

theorem getParts_inside (fuel : Nat) (parser : MultipartParser) (atEnd : parser.AtEnd size)
    (enough : parser.remainingBody.length < fuel) :
    (getParts fuel parser).2 = true ∧ (size < 2 ^ 31 → ∀ part ∈ (getParts fuel parser).1, part.Inside size) := by
  induction fuel generalizing parser with
  | zero => cases enough
  | succ fuel ih =>
    rw [getParts]
    cases step : parser.getNextPart with
    | mk found next =>
      cases found with
      | none => exact ⟨rfl, fun _ => List.forall_mem_nil _⟩
      | some part =>
        obtain ⟨inside, atEnd_, less⟩ := getNextPart_inside atEnd step
        obtain ⟨ended, rest⟩ := ih next atEnd_ (by omega)
        refine ⟨ended, ?_⟩
        intro small other member
        rcases List.mem_cons.mp member with rfl | member
        · exact inside small
        · exact rest small other member

end MultipartParser

end Uws.Http
