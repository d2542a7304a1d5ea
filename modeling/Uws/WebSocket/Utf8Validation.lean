import Uws.WebSocket.ClosePayload

/-! The validator on the pointer that it moves, with every read of the text visible. -/

namespace Uws.WebSocket

open Uws.Http (Bytes)
open Uws.Utf8

/-- The copy of the next bytes, which must all lie before the end. -/
def copyBytes (s : Bytes) (at_ count : Nat) : Option Bytes :=
  if at_ + count ≤ s.length then some ((s.drop at_).take count) else none

/-- The inner loop over ASCII, up to another byte or the end. -/
def skipAsciiAt (s : Bytes) : Nat → Nat → Option Nat
  | 0, _ => none
  | fuel + 1, at_ => do
    let byte ← s[at_]?
    if byte < 128 then
      if at_ + 1 = s.length then some s.length else skipAsciiAt s fuel (at_ + 1)
    else some at_

def wideAsciiAt (s : Bytes) (at_ : Nat) : Option Bool :=
  if at_ + 16 ≤ s.length then (copyBytes s at_ 16).map (·.all (· < 128)) else some false

/-- `none` stands for a read at or behind the end, and for a loop that is not done after `fuel` rounds. -/
def isValidUtf8At (s : Bytes) : Nat → Nat → Option Bool
  | 0, at_ => if at_ = s.length then some true else none
  | fuel + 1, at_ =>
    if at_ = s.length then some true
    else do
      if ← wideAsciiAt s at_ then isValidUtf8At s fuel (at_ + 16)
      else
        let at_ ← skipAsciiAt s (s.length - at_) at_
        if at_ = s.length then some true
        else
          let a ← s[at_]?
          if a &&& 0x60 == 0x40 then
            if s.length ≤ at_ + 1 then some false
            else
              let b ← s[at_ + 1]?
              if !isTail b || a &&& 0xfe == 0xc0 then some false else isValidUtf8At s fuel (at_ + 2)
          else if a &&& 0xf0 == 0xe0 then
            if s.length ≤ at_ + 2 then some false
            else
              let b ← s[at_ + 1]?
              let c ← s[at_ + 2]?
              if !isTail b || !isTail c || (a == 0xe0 && b &&& 0xe0 == 0x80) || (a == 0xed && b &&& 0xe0 == 0xa0) then
                some false
              else isValidUtf8At s fuel (at_ + 3)
          else if a &&& 0xf8 == 0xf0 then
            if s.length ≤ at_ + 3 then some false
            else
              let b ← s[at_ + 1]?
              let c ← s[at_ + 2]?
              let d ← s[at_ + 3]?
              if !isTail b || !isTail c || !isTail d || (a == 0xf0 && b &&& 0xf0 == 0x80) || (a == 0xf4 && 0x8f < b) ||
                  0xf4 < a then
                some false
              else isValidUtf8At s fuel (at_ + 4)
          else some false

section Reads

variable {s : Bytes}

theorem drop_read {at_ : Nat} {byte : UInt8} (there : s[at_]? = some byte) :
    s.drop at_ = byte :: s.drop (at_ + 1) := by
  obtain ⟨within, rfl⟩ := List.getElem?_eq_some_iff.mp there
  exact List.drop_eq_getElem_cons within

theorem read_of_lt {at_ : Nat} (within : at_ < s.length) : ∃ byte, s[at_]? = some byte :=
  ⟨s[at_], List.getElem?_eq_getElem within⟩

theorem skipAsciiAt_stops (fuel at_ : Nat) (within : at_ < s.length) (enough : s.length ≤ at_ + fuel) :
    ∃ stop, skipAsciiAt s fuel at_ = some stop ∧ at_ ≤ stop ∧ stop ≤ s.length ∧
      (s.drop at_).dropWhile (· < 128) = s.drop stop := by
  induction fuel generalizing at_ with
  | zero => omega
  | succ fuel ih =>
    obtain ⟨byte, there⟩ := read_of_lt within
    unfold skipAsciiAt
    rw [there, Option.bind_eq_bind, Option.bind_some, drop_read there]
    by_cases low : byte < 128
    · rw [if_pos low, List.dropWhile_cons_of_pos (p := fun x : UInt8 => decide (x < 128)) (decide_eq_true low)]
      by_cases last : at_ + 1 = s.length
      · rw [if_pos last]
        refine ⟨s.length, rfl, by omega, Nat.le_refl _, ?_⟩
        rw [last, List.drop_length]
        rfl
      · rw [if_neg last]
        obtain ⟨stop, found, behind, inside, same⟩ := ih (at_ + 1) (by omega) (by omega)
        exact ⟨stop, found, by omega, inside, same⟩
    · rw [if_neg low, List.dropWhile_cons_of_neg (p := fun x : UInt8 => decide (x < 128)) (by rwa [decide_eq_true_eq])]
      exact ⟨at_, rfl, Nat.le_refl _, by omega, (drop_read there).symm⟩

theorem wideAsciiAt_read (at_ : Nat) :
    wideAsciiAt s at_ = some (decide (16 ≤ (s.drop at_).length) && ((s.drop at_).take 16).all (· < 128)) := by
  have length : (s.drop at_).length = s.length - at_ := List.length_drop
  unfold wideAsciiAt
  by_cases room : at_ + 16 ≤ s.length
  · rw [if_pos room, copyBytes, if_pos room, decide_eq_true (by omega), Bool.true_and]
    rfl
  · rw [if_neg room, decide_eq_false (by omega), Bool.false_and]

/-- Every read is in front of the end, and the loop over the pointer is the one over the rest of the text. -/
theorem isValidUtf8At_loop (fuel at_ : Nat) (inside : at_ ≤ s.length) (enough : s.length ≤ at_ + fuel) :
    isValidUtf8At s fuel at_ = some (isValidUtf8Loop fuel (s.drop at_)) := by
  induction fuel generalizing at_ with
  | zero =>
    obtain rfl : at_ = s.length := by omega
    rw [isValidUtf8At, isValidUtf8Loop, if_pos rfl, List.drop_length]
    rfl
  | succ fuel ih =>
    unfold isValidUtf8At isValidUtf8Loop
    by_cases done : at_ = s.length
    · rw [if_pos done, done, List.drop_length]
      rfl
    have within : at_ < s.length := by omega
    have more : (s.drop at_).isEmpty = false := by
      rw [List.isEmpty_eq_false_iff, Ne, List.drop_eq_nil_iff]
      omega
    have length : (s.drop at_).length = s.length - at_ := List.length_drop
    rw [if_neg done, more, if_neg Bool.false_ne_true, wideAsciiAt_read]
    simp only [Option.bind_eq_bind, Option.bind_some]
    by_cases wide : (decide (16 ≤ (s.drop at_).length) && ((s.drop at_).take 16).all (· < 128)) = true
    · rw [if_pos wide, if_pos wide, ih (at_ + 16) ?_ (by omega), List.drop_drop]
      rw [Bool.and_eq_true, decide_eq_true_eq] at wide
      omega
    · rw [if_neg wide, if_neg wide]
      obtain ⟨stop, found, behind, short, same⟩ := skipAsciiAt_stops (s.length - at_) at_ within (by omega)
      rw [found, same, Option.bind_some]
      by_cases end_ : stop = s.length
      · rw [if_pos end_, end_, List.drop_length]
      obtain ⟨a, first⟩ := read_of_lt (show stop < s.length by omega)
      rw [if_neg end_, first, drop_read first, Option.bind_some]
      dsimp only
      -- each branch tests that its bytes are there before it reads them
      by_cases two : (a &&& 0x60 == 0x40) = true
      · rw [if_pos two, if_pos two]
        by_cases cut : s.length ≤ stop + 1
        · rw [if_pos cut, List.drop_eq_nil_of_le cut]
        · obtain ⟨b, second⟩ := read_of_lt (show stop + 1 < s.length by omega)
          rw [if_neg cut, second, drop_read second, Option.bind_some, ih (stop + 2) (by omega) (by omega)]
          exact (apply_ite some _ _ _).symm
      rw [if_neg two, if_neg two]
      by_cases three : (a &&& 0xf0 == 0xe0) = true
      · rw [if_pos three, if_pos three]
        by_cases cut : s.length ≤ stop + 2
        · rw [if_pos cut]
          have short_ : (s.drop (stop + 1)).length < 2 := by
            rw [List.length_drop]
            omega
          generalize s.drop (stop + 1) = rest at short_ ⊢
          rcases rest with _ | ⟨b, _ | ⟨c, rest⟩⟩
          · rfl
          · rfl
          · rw [List.length_cons, List.length_cons] at short_
            omega
        · obtain ⟨b, second⟩ := read_of_lt (show stop + 1 < s.length by omega)
          obtain ⟨c, third⟩ := read_of_lt (show stop + 2 < s.length by omega)
          rw [if_neg cut, second, third, drop_read second, drop_read third, Option.bind_some, Option.bind_some,
            ih (stop + 3) (by omega) (by omega)]
          exact (apply_ite some _ _ _).symm
      rw [if_neg three, if_neg three]
      by_cases four : (a &&& 0xf8 == 0xf0) = true
      · rw [if_pos four, if_pos four]
        by_cases cut : s.length ≤ stop + 3
        · rw [if_pos cut]
          have short_ : (s.drop (stop + 1)).length < 3 := by
            rw [List.length_drop]
            omega
          generalize s.drop (stop + 1) = rest at short_ ⊢
          rcases rest with _ | ⟨b, _ | ⟨c, _ | ⟨d, rest⟩⟩⟩
          · rfl
          · rfl
          · rfl
          · rw [List.length_cons, List.length_cons, List.length_cons] at short_
            omega
        · obtain ⟨b, second⟩ := read_of_lt (show stop + 1 < s.length by omega)
          obtain ⟨c, third⟩ := read_of_lt (show stop + 2 < s.length by omega)
          obtain ⟨d, fourth⟩ := read_of_lt (show stop + 3 < s.length by omega)
          rw [if_neg cut, second, third, fourth, drop_read second, drop_read third, drop_read fourth,
            Option.bind_some, Option.bind_some, Option.bind_some, ih (stop + 4) (by omega) (by omega)]
          exact (apply_ite some _ _ _).symm
      rw [if_neg four, if_neg four]

end Reads

theorem text_sequences (s : Bytes) : Text s ↔ ∃ sequences : List Bytes, (∀ c ∈ sequences, Sequence c) ∧ sequences.flatten = s := by
  constructor
  · rintro ⟨chars, rfl⟩
    refine ⟨chars.map String.utf8EncodeChar, ?_, List.flatMap_def.symm⟩
    intro c member
    obtain ⟨char, -, rfl⟩ := List.mem_map.mp member
    exact sequence_encoded char
  · rintro ⟨sequences, all, rfl⟩
    induction sequences with
    | nil => exact Text.nil
    | cons c sequences ih =>
      rw [List.flatten_cons]
      exact Text.cons (all c List.mem_cons_self) (ih fun d member => all d (List.mem_cons_of_mem _ member))

/-- The validator answers for every text, has read nothing at or behind its end, and accepts the sequences of
    characters only. -/
theorem isValidUtf8At_exact (s : Bytes) :
    ∃ answer, isValidUtf8At s s.length 0 = some answer ∧ isValidUtf8 s = answer ∧
      (answer = true ↔ ∃ sequences : List Bytes, (∀ c ∈ sequences, Sequence c) ∧ sequences.flatten = s) := by
  refine ⟨isValidUtf8 s, ?_, rfl, ?_⟩
  · exact isValidUtf8At_loop s.length 0 (Nat.zero_le _) (by omega)
  · exact (isValidUtf8_iff s).trans (text_sequences s)

end Uws.WebSocket
