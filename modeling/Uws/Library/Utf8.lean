import Mathlib

/-! Texts in UTF-8: their byte sequences, and where they may be cut. -/

namespace Uws.Utf8

/-- A byte inside of a sequence. -/
def Tail (b : UInt8) : Prop := 0x80 ≤ b.toNat ∧ b.toNat < 0xc0

instance : DecidablePred Tail := fun b => inferInstanceAs (Decidable (0x80 ≤ b.toNat ∧ b.toNat < 0xc0))

/-- The bytes of one character. What is shorter otherwise, a surrogate and what is above the last character have
    none. -/
inductive Sequence : List UInt8 → Prop where
  | one {a : UInt8} (first : a.toNat < 0x80) : Sequence [a]
  | two {a b : UInt8} (first : 0xc2 ≤ a.toNat ∧ a.toNat < 0xe0) (second : Tail b) : Sequence [a, b]
  | three {a b c : UInt8} (first : 0xe0 ≤ a.toNat ∧ a.toNat < 0xf0) (second : Tail b) (third : Tail c)
      (long : a.toNat = 0xe0 → 0xa0 ≤ b.toNat) (scalar : a.toNat = 0xed → b.toNat < 0xa0) : Sequence [a, b, c]
  | four {a b c d : UInt8} (first : 0xf0 ≤ a.toNat ∧ a.toNat < 0xf5) (second : Tail b) (third : Tail c) (fourth : Tail d)
      (long : a.toNat = 0xf0 → 0x90 ≤ b.toNat) (scalar : a.toNat = 0xf4 → b.toNat < 0x90) : Sequence [a, b, c, d]

def Text (s : List UInt8) : Prop := ∃ chars : List Char, s = chars.flatMap String.utf8EncodeChar

theorem sequence_encoded (c : Char) : Sequence (String.utf8EncodeChar c) := by
  have valid : c.toNat < 0xd800 ∨ 0xdfff < c.toNat ∧ c.toNat < 0x110000 := c.valid
  have value : c.val.toNat = c.toNat := rfl
  unfold String.utf8EncodeChar
  simp only [value]
  generalize c.toNat = v at valid ⊢
  split
  · apply Sequence.one
    simp only [UInt8.toNat_ofNat']
    omega
  · split
    · apply Sequence.two
      · simp only [UInt8.toNat_ofNat']
        omega
      · simp only [Tail, UInt8.toNat_ofNat']
        omega
    · split
      · apply Sequence.three <;> simp only [Tail, UInt8.toNat_ofNat'] <;> omega
      · apply Sequence.four <;> simp only [Tail, UInt8.toNat_ofNat'] <;> omega

theorem encoded_scalar {v : Nat} (valid : v < 0xd800 ∨ 0xdfff < v ∧ v < 0x110000) : ∃ c : Char, c.val.toNat = v :=
  ⟨Char.ofNatAux v (by unfold Nat.isValidChar; omega), rfl⟩

theorem eq_ofNat {a : UInt8} {n : Nat} (same : a.toNat = n % 256) : a = UInt8.ofNat n := by
  apply UInt8.toNat_inj.mp
  rw [same, UInt8.toNat_ofNat']

theorem encoded_sequence {s : List UInt8} (sequence : Sequence s) : ∃ c : Char, s = String.utf8EncodeChar c := by
  cases sequence with
  | @one a first =>
    obtain ⟨c, value⟩ := encoded_scalar (v := a.toNat) (by omega)
    refine ⟨c, ?_⟩
    unfold String.utf8EncodeChar
    simp only [value]
    rw [if_pos (by omega), UInt8.ofNat_toNat]
  | @two a b first second =>
    unfold Tail at second
    obtain ⟨c, value⟩ := encoded_scalar (v := (a.toNat - 0xc0) * 64 + (b.toNat - 0x80)) (by omega)
    refine ⟨c, ?_⟩
    unfold String.utf8EncodeChar
    simp only [value]
    rw [if_neg (by omega), if_pos (by omega)]
    refine congrArg₂ List.cons (eq_ofNat (by omega)) (congrArg₂ List.cons (eq_ofNat (by omega)) rfl)
  | @three a b c first second third long scalar =>
    unfold Tail at second third
    obtain ⟨char, value⟩ := encoded_scalar
      (v := (a.toNat - 0xe0) * 4096 + (b.toNat - 0x80) * 64 + (c.toNat - 0x80)) (by omega)
    refine ⟨char, ?_⟩
    unfold String.utf8EncodeChar
    simp only [value]
    rw [if_neg (by omega), if_neg (by omega), if_pos (by omega)]
    refine congrArg₂ List.cons (eq_ofNat (by omega)) (congrArg₂ List.cons (eq_ofNat (by omega))
      (congrArg₂ List.cons (eq_ofNat (by omega)) rfl))
  | @four a b c d first second third fourth long scalar =>
    unfold Tail at second third fourth
    obtain ⟨char, value⟩ := encoded_scalar
      (v := (a.toNat - 0xf0) * 262144 + (b.toNat - 0x80) * 4096 + (c.toNat - 0x80) * 64 + (d.toNat - 0x80)) (by omega)
    refine ⟨char, ?_⟩
    unfold String.utf8EncodeChar
    simp only [value]
    rw [if_neg (by omega), if_neg (by omega), if_neg (by omega)]
    refine congrArg₂ List.cons (eq_ofNat (by omega)) (congrArg₂ List.cons (eq_ofNat (by omega))
      (congrArg₂ List.cons (eq_ofNat (by omega)) (congrArg₂ List.cons (eq_ofNat (by omega)) rfl)))

/-- How many bytes a sequence has that begins with this one. -/
def sequenceLength (a : UInt8) : Nat :=
  if a.toNat < 0x80 then 1 else if a.toNat < 0xe0 then 2 else if a.toNat < 0xf0 then 3 else 4

namespace Sequence

variable {s : List UInt8}

theorem head (sequence : Sequence s) :
    ∃ a rest, s = a :: rest ∧ s.length = sequenceLength a ∧ ¬ Tail a ∧ ∀ b ∈ rest, Tail b := by
  cases sequence with
  | @one a first =>
    refine ⟨a, [], rfl, ?_, ?_, nofun⟩
    · rw [sequenceLength, if_pos first]
      rfl
    · unfold Tail
      omega
  | @two a b first second =>
    refine ⟨a, [b], rfl, ?_, ?_, ?_⟩
    · rw [sequenceLength, if_neg (by omega), if_pos (by omega)]
      rfl
    · unfold Tail
      omega
    · simp [second]
  | @three a b c first second third =>
    refine ⟨a, [b, c], rfl, ?_, ?_, ?_⟩
    · rw [sequenceLength, if_neg (by omega), if_neg (by omega), if_pos (by omega)]
      rfl
    · unfold Tail
      omega
    · simp [second, third]
  | @four a b c d first second third fourth =>
    refine ⟨a, [b, c, d], rfl, ?_, ?_, ?_⟩
    · rw [sequenceLength, if_neg (by omega), if_neg (by omega), if_neg (by omega)]
      rfl
    · unfold Tail
      omega
    · simp [second, third, fourth]

theorem unique {t left right : List UInt8} (first : Sequence s) (second : Sequence t) (same : s ++ left = t ++ right) :
    s = t ∧ left = right := by
  obtain ⟨a, rest, rfl, length, -⟩ := first.head
  obtain ⟨b, rest', rfl, length', -⟩ := second.head
  obtain rfl : a = b := (List.cons.inj same).1
  exact List.append_inj same (length.trans length'.symm)

end Sequence

namespace Text

theorem nil : Text [] := ⟨[], rfl⟩

theorem cons {c s : List UInt8} (sequence : Sequence c) (text : Text s) : Text (c ++ s) := by
  obtain ⟨char, rfl⟩ := encoded_sequence sequence
  obtain ⟨chars, rfl⟩ := text
  exact ⟨char :: chars, rfl⟩

theorem cases_ {s : List UInt8} (text : Text s) : s = [] ∨ ∃ c rest, Sequence c ∧ Text rest ∧ s = c ++ rest := by
  obtain ⟨chars, rfl⟩ := text
  cases chars with
  | nil => exact .inl rfl
  | cons char chars => exact .inr ⟨_, _, sequence_encoded char, ⟨chars, rfl⟩, rfl⟩

theorem append_iff {c s : List UInt8} (sequence : Sequence c) : Text (c ++ s) ↔ Text s := by
  refine ⟨fun text => ?_, cons sequence⟩
  rcases text.cases_ with empty | ⟨d, rest, other, below, same⟩
  · obtain ⟨a, rest, rfl, -⟩ := sequence.head
    cases empty
  · obtain ⟨-, rfl⟩ := sequence.unique other same
    exact below

theorem ascii_append {front s : List UInt8} (ascii : ∀ a ∈ front, a.toNat < 0x80) : Text (front ++ s) ↔ Text s := by
  induction front with
  | nil => exact Iff.rfl
  | cons a front ih =>
    have first := append_iff (s := front ++ s) (Sequence.one (ascii a List.mem_cons_self))
    exact first.trans (ih fun b member => ascii b (List.mem_cons_of_mem _ member))

/-- A text is a text up to a byte unless this byte is inside of a sequence. -/
theorem take_iff {s : List UInt8} (text : Text s) (n : Nat) : Text (s.take n) ↔ ∀ b, s[n]? = some b → ¬ Tail b := by
  obtain ⟨chars, rfl⟩ := text
  induction chars generalizing n with
  | nil =>
    simp only [List.flatMap_nil, List.take_nil, List.getElem?_nil]
    exact ⟨fun _ => nofun, fun _ => nil⟩
  | cons char chars ih =>
    have sequence := sequence_encoded char
    rw [List.flatMap_cons]
    generalize String.utf8EncodeChar char = c at sequence ⊢
    generalize chars.flatMap String.utf8EncodeChar = rest at ih ⊢
    by_cases whole : c.length ≤ n
    · -- the cut is behind the first character
      have front : (c ++ rest).take n = c ++ rest.take (n - c.length) := by
        rw [List.take_append, List.take_of_length_le whole]
      rw [front, append_iff sequence, ih, List.getElem?_append_right whole]
    · obtain ⟨a, tails, rfl, length, lead, inside⟩ := sequence.head
      cases n with
      | zero =>
        refine ⟨fun _ b there => ?_, fun _ => nil⟩
        obtain rfl : a = b := Option.some.inj there
        exact lead
      | succ n =>
        constructor
        · intro cut
          rcases cut.cases_ with empty | ⟨d, more, other, -, same⟩
          · cases empty
          · -- what is cut off would belong to the sequence that begins here
            obtain ⟨b, tails', rfl, length', -⟩ := other.head
            obtain rfl : a = b := (List.cons.inj same).1
            have lengths := congrArg List.length same
            rw [List.length_take, List.length_append, List.length_append] at lengths
            omega
        · intro free
          have within : n < tails.length := by
            rw [List.length_cons] at whole
            omega
          have there : (a :: tails ++ rest)[n + 1]? = some tails[n] := by
            rw [List.getElem?_append_left (by rw [List.length_cons]; omega), List.getElem?_cons_succ,
              List.getElem?_eq_getElem within]
          exact absurd (inside _ (List.getElem_mem within)) (free _ there)

end Text

end Uws.Utf8
