import Uws.Library.Utf8
import Uws.WebSocket.Frames

/-! The code and the reason of a close frame, as they are sent and as they are read. -/

namespace Uws.WebSocket

open Uws.Http (Bytes ascii)
open Uws.Utf8

theorem isTail_iff (b : UInt8) : isTail b = true ↔ Tail b := by
  have all : ∀ n < 256, isTail (UInt8.ofNat n) = true ↔ Tail (UInt8.ofNat n) := by decide +kernel
  have own := all b.toNat b.toNat_lt
  rwa [UInt8.ofNat_toNat] at own

theorem first_tests (a : UInt8) (high : 0x80 ≤ a.toNat) :
    ((a &&& 0x60 == 0x40) = true ↔ 0xc0 ≤ a.toNat ∧ a.toNat < 0xe0) ∧
    ((a &&& 0xfe == 0xc0) = true ↔ 0xc0 ≤ a.toNat ∧ a.toNat < 0xc2) ∧
    ((a &&& 0xf0 == 0xe0) = true ↔ 0xe0 ≤ a.toNat ∧ a.toNat < 0xf0) ∧
    ((a &&& 0xf8 == 0xf0) = true ↔ 0xf0 ≤ a.toNat ∧ a.toNat < 0xf8) := by
  have all : ∀ n < 256, 0x80 ≤ n →
      ((UInt8.ofNat n &&& 0x60 == 0x40) = true ↔ 0xc0 ≤ n ∧ n < 0xe0) ∧
      ((UInt8.ofNat n &&& 0xfe == 0xc0) = true ↔ 0xc0 ≤ n ∧ n < 0xc2) ∧
      ((UInt8.ofNat n &&& 0xf0 == 0xe0) = true ↔ 0xe0 ≤ n ∧ n < 0xf0) ∧
      ((UInt8.ofNat n &&& 0xf8 == 0xf0) = true ↔ 0xf0 ≤ n ∧ n < 0xf8) := by decide +kernel
  have own := all a.toNat a.toNat_lt high
  rwa [UInt8.ofNat_toNat] at own

theorem second_tests (b : UInt8) (tail : Tail b) :
    ((b &&& 0xe0 == 0x80) = true ↔ b.toNat < 0xa0) ∧ ((b &&& 0xe0 == 0xa0) = true ↔ 0xa0 ≤ b.toNat) ∧
    ((b &&& 0xf0 == 0x80) = true ↔ b.toNat < 0x90) ∧ (0x8f < b ↔ 0x90 ≤ b.toNat) := by
  have all : ∀ n < 256, Tail (UInt8.ofNat n) →
      ((UInt8.ofNat n &&& 0xe0 == 0x80) = true ↔ n < 0xa0) ∧ ((UInt8.ofNat n &&& 0xe0 == 0xa0) = true ↔ 0xa0 ≤ n) ∧
      ((UInt8.ofNat n &&& 0xf0 == 0x80) = true ↔ n < 0x90) ∧ (0x8f < UInt8.ofNat n ↔ 0x90 ≤ n) := by decide +kernel
  have own := all b.toNat b.toNat_lt
  rw [UInt8.ofNat_toNat] at own
  exact own tail

theorem text_cons {a : UInt8} {s : Bytes} (high : 0x80 ≤ a.toNat) :
    Text (a :: s) ↔
      (∃ b rest, s = b :: rest ∧ Sequence [a, b] ∧ Text rest) ∨
      (∃ b c rest, s = b :: c :: rest ∧ Sequence [a, b, c] ∧ Text rest) ∨
      ∃ b c d rest, s = b :: c :: d :: rest ∧ Sequence [a, b, c, d] ∧ Text rest := by
  constructor
  · intro text
    rcases text.cases_ with empty | ⟨front, rest, sequence, below, same⟩
    · cases empty
    · cases sequence with
      | one first =>
        obtain ⟨rfl, -⟩ := List.cons.inj same
        omega
      | two first second =>
        obtain ⟨rfl, rfl⟩ := List.cons.inj same
        exact .inl ⟨_, _, rfl, .two first second, below⟩
      | three first second third long scalar =>
        obtain ⟨rfl, rfl⟩ := List.cons.inj same
        exact .inr (.inl ⟨_, _, _, rfl, .three first second third long scalar, below⟩)
      | four first second third fourth long scalar =>
        obtain ⟨rfl, rfl⟩ := List.cons.inj same
        exact .inr (.inr ⟨_, _, _, _, rfl, .four first second third fourth long scalar, below⟩)
  · rintro (⟨b, rest, rfl, sequence, below⟩ | ⟨b, c, rest, rfl, sequence, below⟩ | ⟨b, c, d, rest, rfl, sequence, below⟩)
    · exact below.cons sequence
    · exact below.cons sequence
    · exact below.cons sequence

section Sequences

variable {fuel : Nat} {a : UInt8} {s : Bytes}

theorem two_tested (ih : ∀ s : Bytes, s.length ≤ fuel → (isValidUtf8Loop fuel s = true ↔ Text s))
    (range : 0xc0 ≤ a.toNat ∧ a.toNat < 0xe0) (short : (a &&& 0xfe == 0xc0) = true ↔ 0xc0 ≤ a.toNat ∧ a.toNat < 0xc2) :
    s.length ≤ fuel → ((match s with
      | b :: s => if !isTail b || a &&& 0xfe == 0xc0 then false else isValidUtf8Loop fuel s
      | _ => false) = true ↔
      (∃ b rest, s = b :: rest ∧ Sequence [a, b] ∧ Text rest) ∨
      (∃ b c rest, s = b :: c :: rest ∧ Sequence [a, b, c] ∧ Text rest) ∨
      ∃ b c d rest, s = b :: c :: d :: rest ∧ Sequence [a, b, c, d] ∧ Text rest) := by
  intro enough
  constructor
  · intro passed
    match s, enough, passed with
    | b :: rest, enough, passed =>
      simp only at passed
      split at passed
      · cases passed
      · rename_i tested
        rw [Bool.or_eq_true, Bool.not_eq_true', ← Bool.not_eq_true, isTail_iff, short, not_or, not_not] at tested
        rw [ih rest (by rw [List.length_cons] at enough; omega)] at passed
        exact .inl ⟨b, rest, rfl, .two (by omega) tested.1, passed⟩
  · rintro (⟨b, rest, rfl, sequence, below⟩ | ⟨b, c, rest, rfl, sequence, below⟩ | ⟨b, c, d, rest, rfl, sequence, below⟩)
    · cases sequence with
      | two first second =>
        have tested : ¬ (!isTail b || a &&& 0xfe == 0xc0) = true := by
          rw [Bool.or_eq_true, Bool.not_eq_true', ← Bool.not_eq_true, isTail_iff, short, not_or, not_not]
          exact ⟨second, by omega⟩
        simp only [if_neg tested]
        exact (ih rest (by rw [List.length_cons] at enough; omega)).mpr below
    · cases sequence
      omega
    · cases sequence
      omega

theorem three_tested (ih : ∀ s : Bytes, s.length ≤ fuel → (isValidUtf8Loop fuel s = true ↔ Text s))
    (range : 0xe0 ≤ a.toNat ∧ a.toNat < 0xf0) :
    s.length ≤ fuel → ((match s with
      | b :: c :: s =>
        if !isTail b || !isTail c || (a == 0xe0 && b &&& 0xe0 == 0x80) || (a == 0xed && b &&& 0xe0 == 0xa0) then false
        else isValidUtf8Loop fuel s
      | _ => false) = true ↔
      (∃ b rest, s = b :: rest ∧ Sequence [a, b] ∧ Text rest) ∨
      (∃ b c rest, s = b :: c :: rest ∧ Sequence [a, b, c] ∧ Text rest) ∨
      ∃ b c d rest, s = b :: c :: d :: rest ∧ Sequence [a, b, c, d] ∧ Text rest) := by
  intro enough
  have tests : ∀ b c : UInt8,
      (!isTail b || !isTail c || (a == 0xe0 && b &&& 0xe0 == 0x80) || (a == 0xed && b &&& 0xe0 == 0xa0)) = false ↔
        Sequence [a, b, c] := by
    intro b c
    simp only [Bool.or_eq_false_iff, Bool.not_eq_false', isTail_iff, and_assoc]
    constructor
    · rintro ⟨second, third, long, scalar⟩
      obtain ⟨below, above, -⟩ := second_tests b second
      refine .three range second third (fun own => ?_) fun own => ?_
      · have same : a = 0xe0 := UInt8.toNat_inj.mp own
        rw [same] at long
        simp only [beq_self_eq_true, Bool.true_and, ← Bool.not_eq_true, below] at long
        omega
      · have same : a = 0xed := UInt8.toNat_inj.mp own
        rw [same] at scalar
        simp only [beq_self_eq_true, Bool.true_and, ← Bool.not_eq_true, above] at scalar
        omega
    · intro sequence
      cases sequence with
      | three first second third long scalar =>
        obtain ⟨below, above, -⟩ := second_tests b second
        refine ⟨second, third, ?_, ?_⟩
        · rw [Bool.and_eq_false_imp, ← Bool.not_eq_true, below]
          intro own
          have at_ := long (congrArg UInt8.toNat (eq_of_beq own))
          omega
        · rw [Bool.and_eq_false_imp, ← Bool.not_eq_true, above]
          intro own
          have at_ := scalar (congrArg UInt8.toNat (eq_of_beq own))
          omega
  constructor
  · intro passed
    match s, enough, passed with
    | b :: c :: rest, enough, passed =>
      simp only at passed
      split at passed
      · cases passed
      · rename_i tested
        rw [Bool.not_eq_true, tests] at tested
        rw [ih rest (by simp only [List.length_cons] at enough; omega)] at passed
        exact .inr (.inl ⟨b, c, rest, rfl, tested, passed⟩)
  · rintro (⟨b, rest, rfl, sequence, below⟩ | ⟨b, c, rest, rfl, sequence, below⟩ | ⟨b, c, d, rest, rfl, sequence, below⟩)
    · cases sequence
      omega
    · have tested := (tests b c).mpr sequence
      simp only [tested, Bool.false_eq_true, if_false]
      exact (ih rest (by simp only [List.length_cons] at enough; omega)).mpr below
    · cases sequence
      omega

theorem four_tested (ih : ∀ s : Bytes, s.length ≤ fuel → (isValidUtf8Loop fuel s = true ↔ Text s))
    (range : 0xf0 ≤ a.toNat ∧ a.toNat < 0xf8) :
    s.length ≤ fuel → ((match s with
      | b :: c :: d :: s =>
        if !isTail b || !isTail c || !isTail d || (a == 0xf0 && b &&& 0xf0 == 0x80) || (a == 0xf4 && 0x8f < b) ||
            0xf4 < a then false
        else isValidUtf8Loop fuel s
      | _ => false) = true ↔
      (∃ b rest, s = b :: rest ∧ Sequence [a, b] ∧ Text rest) ∨
      (∃ b c rest, s = b :: c :: rest ∧ Sequence [a, b, c] ∧ Text rest) ∨
      ∃ b c d rest, s = b :: c :: d :: rest ∧ Sequence [a, b, c, d] ∧ Text rest) := by
  intro enough
  have last : (decide (0xf4 < a) = false) ↔ a.toNat < 0xf5 := by
    rw [decide_eq_false_iff_not, UInt8.lt_iff_toNat_lt]
    exact Nat.not_lt.trans Nat.lt_succ_iff.symm
  have tests : ∀ b c d : UInt8,
      (!isTail b || !isTail c || !isTail d || (a == 0xf0 && b &&& 0xf0 == 0x80) || (a == 0xf4 && 0x8f < b) ||
          0xf4 < a) = false ↔ Sequence [a, b, c, d] := by
    intro b c d
    simp only [Bool.or_eq_false_iff, Bool.not_eq_false', isTail_iff, and_assoc, last]
    constructor
    · rintro ⟨second, third, fourth, long, scalar, top⟩
      obtain ⟨-, -, below, above⟩ := second_tests b second
      refine .four ⟨range.1, top⟩ second third fourth (fun own => ?_) fun own => ?_
      · have same : a = 0xf0 := UInt8.toNat_inj.mp own
        rw [same] at long
        simp only [beq_self_eq_true, Bool.true_and, ← Bool.not_eq_true, below] at long
        omega
      · have same : a = 0xf4 := UInt8.toNat_inj.mp own
        rw [same] at scalar
        simp only [beq_self_eq_true, Bool.true_and, decide_eq_false_iff_not, above] at scalar
        omega
    · intro sequence
      cases sequence with
      | four first second third fourth long scalar =>
        obtain ⟨-, -, below, above⟩ := second_tests b second
        refine ⟨second, third, fourth, ?_, ?_, first.2⟩
        · rw [Bool.and_eq_false_imp, ← Bool.not_eq_true, below]
          intro own
          have at_ := long (congrArg UInt8.toNat (eq_of_beq own))
          omega
        · rw [Bool.and_eq_false_imp, decide_eq_false_iff_not, above]
          intro own
          have at_ := scalar (congrArg UInt8.toNat (eq_of_beq own))
          omega
  constructor
  · intro passed
    match s, enough, passed with
    | b :: c :: d :: rest, enough, passed =>
      simp only at passed
      split at passed
      · cases passed
      · rename_i tested
        rw [Bool.not_eq_true, tests] at tested
        rw [ih rest (by simp only [List.length_cons] at enough; omega)] at passed
        exact .inr (.inr ⟨b, c, d, rest, rfl, tested, passed⟩)
  · rintro (⟨b, rest, rfl, sequence, below⟩ | ⟨b, c, rest, rfl, sequence, below⟩ | ⟨b, c, d, rest, rfl, sequence, below⟩)
    · cases sequence
      omega
    · cases sequence
      omega
    · have tested := (tests b c d).mpr sequence
      simp only [tested, Bool.false_eq_true, if_false]
      exact (ih rest (by simp only [List.length_cons] at enough; omega)).mpr below

end Sequences

theorem isValidUtf8Loop_iff (fuel : Nat) (s : Bytes) (enough : s.length ≤ fuel) :
    isValidUtf8Loop fuel s = true ↔ Text s := by
  induction fuel generalizing s with
  | zero =>
    obtain rfl := List.length_eq_zero_iff.mp (Nat.le_zero.mp enough)
    exact ⟨fun _ => Text.nil, fun _ => rfl⟩
  | succ fuel ih =>
    have low : ∀ a : UInt8, a < 128 ↔ a.toNat < 0x80 := fun a => UInt8.lt_iff_toNat_lt
    unfold isValidUtf8Loop
    split
    · rename_i empty
      rw [List.isEmpty_iff.mp empty]
      exact ⟨fun _ => Text.nil, fun _ => rfl⟩
    · rename_i more
      split
      · rename_i wide
        rw [Bool.and_eq_true, decide_eq_true_eq, List.all_eq_true] at wide
        have text := Text.ascii_append (s := s.drop 16) fun a member => (low a).mp (of_decide_eq_true (wide.2 a member))
        rw [List.take_append_drop] at text
        rw [ih _ (by rw [List.length_drop]; omega), text]
      · have ascii_ : ∀ a ∈ s.takeWhile (· < 128), a.toNat < 0x80 := by
          intro a member
          have taken := List.mem_takeWhile_imp member
          exact (low a).mp (of_decide_eq_true taken)
        have text := Text.ascii_append (s := s.dropWhile (· < 128)) ascii_
        rw [List.takeWhile_append_dropWhile] at text
        rw [text]
        have shorter := List.IsSuffix.length_le (List.dropWhile_suffix (l := s) (· < 128))
        have stops : ∀ a rest, s.dropWhile (· < 128) = a :: rest → 0x80 ≤ a.toNat := by
          intro a rest same
          have kept := List.head_dropWhile_not (p := (· < (128 : UInt8))) (l := s) (by rw [same]; exact List.cons_ne_nil _ _)
          simp only [same, List.head_cons, decide_eq_false_iff_not] at kept
          rw [low] at kept
          omega
        generalize s.dropWhile (· < 128) = s' at shorter stops ⊢
        cases s' with
        | nil => exact ⟨fun _ => Text.nil, fun _ => rfl⟩
        | cons a s' =>
          have high := stops a s' rfl
          obtain ⟨two, short, three, four⟩ := first_tests a high
          rw [text_cons high]
          have fits : s'.length ≤ fuel := by
            rw [List.length_cons] at shorter
            omega
          simp only
          split
          · rename_i first
            exact two_tested ih (two.mp first) short fits
          · rename_i not_two
            split
            · rename_i first
              exact three_tested ih (three.mp first) fits
            · rename_i not_three
              split
              · rename_i first
                exact four_tested ih (four.mp first) fits
              · rename_i not_four
                have none_ : ¬ (0xc0 ≤ a.toNat ∧ a.toNat < 0xf8) := by
                  intro range
                  by_cases one_ : a.toNat < 0xe0
                  · exact not_two (two.mpr ⟨range.1, one_⟩)
                  · by_cases two_ : a.toNat < 0xf0
                    · exact not_three (three.mpr ⟨by omega, two_⟩)
                    · exact not_four (four.mpr ⟨by omega, range.2⟩)
                constructor
                · intro refused
                  cases refused
                · rintro (⟨b, rest, -, sequence, -⟩ | ⟨b, c, rest, -, sequence, -⟩ | ⟨b, c, d, rest, -, sequence, -⟩)
                  · cases sequence
                    omega
                  · cases sequence
                    omega
                  · cases sequence
                    omega

theorem isValidUtf8_iff (s : Bytes) : isValidUtf8 s = true ↔ Text s := isValidUtf8Loop_iff s.length s (Nat.le_refl _)

def formatClosePayload (code : Nat) (message : Bytes) : Bytes :=
  if code ≠ 0 ∧ code ≠ 1005 ∧ code ≠ 1006 then Frame.bigEndianBytes 2 code ++ message else []

def maxClosePayload : Nat := 123

/-- The payload of the close frame that `end` sends; its code is cut to 16 bits, its message to what fits. -/
def closePayload (code : Int) (message : Bytes) : Bytes :=
  formatClosePayload (code % 65536).toNat (message.take maxClosePayload)

/-- The codes that an endpoint may send. -/
def SendableCode (code : Nat) : Prop :=
  1000 ≤ code ∧ code ≤ 1003 ∨ 1007 ≤ code ∧ code ≤ 1011 ∨ 3000 ≤ code ∧ code ≤ 4999

structure Fitted (reason message : Bytes) : Prop where
  front : message <+: reason
  fits : message.length ≤ maxClosePayload
  text : Text message
  longest : ∀ other, other <+: reason → other.length ≤ maxClosePayload → Text other → other.length ≤ message.length

/-- What is sent is a control frame's payload, and is read as what was to be sent. -/
def Survives (code : Nat) (reason : Bytes) : Prop :=
  (closePayload code reason).length ≤ 125 ∧
    ∃ message, Fitted reason message ∧ parseClosePayload (closePayload code reason) = (code, message)

theorem closePayload_length (code : Int) (message : Bytes) : (closePayload code message).length ≤ 125 := by
  unfold closePayload formatClosePayload
  split
  · rw [List.length_append, bigEndianBytes_length, List.length_take]
    unfold maxClosePayload
    omega
  · exact Nat.zero_le _

theorem parse_closePayload {code : Nat} (sendable : SendableCode code) (message : Bytes) :
    parseClosePayload (closePayload code message) =
      if (1011 < code ∧ code < 4000) ∨ isValidUtf8 (message.take maxClosePayload) = false then
        (1006, errInvalidClosePayload)
      else (code, message.take maxClosePayload) := by
  unfold SendableCode at sendable
  have cut : ((code : Int) % 65536).toNat = code := by omega
  unfold closePayload formatClosePayload
  rw [cut, if_pos (by omega)]
  have length := bigEndianBytes_length 2 code
  have back := bigEndian_bytes 2 code (by omega)
  generalize Frame.bigEndianBytes 2 code = bytes at length back ⊢
  unfold parseClosePayload
  rw [if_neg (by rw [List.length_append]; omega)]
  simp only
  rw [← length, List.take_left, List.drop_left, back]
  simp only [Bool.not_eq_eq_eq_not, Bool.not_true]
  congr 1
  rw [eq_iff_iff]
  cases isValidUtf8 (message.take maxClosePayload) with
  | false => simp
  | true =>
    simp only [Bool.true_eq_false, or_false]
    omega

/-- A close payload comes through exactly where the code is not one of 3000 to 3999 and no character of the reason
    goes over the end of what fits; and a payload with another code or no text is always answered by 1006. -/
theorem close_survives {code : Nat} (sendable : SendableCode code) {reason : Bytes} (text : Text reason) :
    (Survives code reason ↔
      ¬ (3000 ≤ code ∧ code ≤ 3999) ∧ ∀ b, reason[maxClosePayload]? = some b → ¬ Tail b) ∧
    ∀ payload : Bytes, 2 ≤ payload.length →
      (¬ SendableCode (bigEndian (payload.take 2)) ∨ ¬ Text (payload.drop 2)) → (parseClosePayload payload).1 = 1006 := by
  constructor
  · rw [← text.take_iff, ← isValidUtf8_iff]
    unfold Survives
    rw [parse_closePayload sendable]
    unfold SendableCode at sendable
    constructor
    · rintro ⟨-, message, -, parsed⟩
      split at parsed
      · obtain ⟨same, -⟩ := Prod.ext_iff.mp parsed
        simp only at same
        omega
      · rename_i taken
        rw [not_or, Bool.not_eq_false] at taken
        exact ⟨by omega, taken.2⟩
    · rintro ⟨read, whole⟩
      refine ⟨closePayload_length _ _, reason.take maxClosePayload, ?_, ?_⟩
      · refine ⟨List.take_prefix _ _, List.length_take_le _ _, (isValidUtf8_iff _).mp whole, ?_⟩
        intro other front fits _
        rw [List.length_take]
        exact Nat.le_min.mpr ⟨fits, front.length_le⟩
      · rw [if_neg]
        rw [not_or, Bool.not_eq_false]
        exact ⟨by omega, whole⟩
  · intro payload long refused
    unfold parseClosePayload
    rw [if_neg (by omega)]
    simp only
    rw [if_pos]
    rw [← isValidUtf8_iff, Bool.not_eq_true] at refused
    simp only [Bool.not_eq_eq_eq_not, Bool.not_true]
    rcases refused with code_ | broken
    · unfold SendableCode at code_
      omega
    · exact .inr (.inr (.inr (.inr broken)))

theorem plain_survives :
    Survives 1000 (ascii "bye") ∧
      (parseClosePayload [0x0b, 0xb8, 0xff]).1 = 1006 := by
  have sendable : SendableCode 1000 := by
    unfold SendableCode
    omega
  have text : Text (ascii "bye") := ⟨['b', 'y', 'e'], by decide +kernel⟩
  obtain ⟨survives, answered⟩ := close_survives sendable text
  refine ⟨survives.mpr ⟨by omega, by decide +kernel⟩, answered _ (by decide) (.inr ?_)⟩
  rw [← isValidUtf8_iff]
  decide +kernel

def longReason : Bytes := List.replicate 122 0x61 ++ [0xc3, 0xa4]

/-- A registered code, and a character in the way of the cut. -/
theorem close_lost :
    (SendableCode 3000 ∧ Text [] ∧ ¬ Survives 3000 []) ∧
      SendableCode 1000 ∧ Text longReason ∧ ¬ Survives 1000 longReason := by
  have registered : SendableCode 3000 := by
    unfold SendableCode
    omega
  have normal : SendableCode 1000 := by
    unfold SendableCode
    omega
  have text : Text longReason := ⟨List.replicate 122 'a' ++ ['ä'], by decide +kernel⟩
  refine ⟨⟨registered, Text.nil, fun survives => ?_⟩, normal, text, ?_⟩
  · have read := parse_closePayload registered []
    obtain ⟨-, message, -, parsed⟩ := survives
    rw [if_pos (.inl (by omega)), parsed] at read
    cases read
  · rintro ⟨-, message, -, parsed⟩
    have read := parse_closePayload normal longReason
    rw [if_pos (.inr (by decide +kernel)), parsed] at read
    cases read

end Uws.WebSocket
