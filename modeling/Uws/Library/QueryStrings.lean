import Mathlib

/-! Lists of keys and values as text: statements between ampersands, with percent escapes. -/

namespace Uws.QueryString

abbrev ampersand : UInt8 := 38
abbrev equality : UInt8 := 61
abbrev percent : UInt8 := 37
abbrev plus : UInt8 := 43
abbrev blank : UInt8 := 32

def hexDigitValue (c : UInt8) : Option Nat :=
  if 48 ≤ c ∧ c ≤ 57 then some (c.toNat - 48)
  else if 65 ≤ c ∧ c ≤ 70 then some (c.toNat - 55)
  else if 97 ≤ c ∧ c ≤ 102 then some (c.toNat - 87)
  else none

/-- The bytes that a text stands for; none if a percent sign is not followed by two digits. -/
def decode : List UInt8 → Option (List UInt8)
  | [] => some []
  | c :: text =>
    if c = percent then
      match text with
      | a :: b :: text =>
        match hexDigitValue a, hexDigitValue b with
        | some high, some low => (decode text).map (UInt8.ofNat (high * 16 + low) :: ·)
        | _, _ => none
      | _ => none
    else (decode text).map ((if c = plus then blank else c) :: ·)

def valueOf (key statement : List UInt8) : Option (List UInt8) :=
  if equality ∈ statement ∧ statement.takeWhile (· ≠ equality) = key then
    some ((statement.dropWhile (· ≠ equality)).drop 1)
  else none

def findValue (key text : List UInt8) : Option (List UInt8) := (text.splitOn ampersand).findSome? (valueOf key)

/-- The bytes that are written as they are; the others are escaped. -/
structure Escaping where
  plain : UInt8 → Bool
  kept : ∀ c, plain c = true → c ≠ percent ∧ c ≠ plus ∧ c ≠ ampersand ∧ c ≠ 0

def hexDigit (n : Nat) : UInt8 := UInt8.ofNat (if n < 10 then 48 + n else 55 + n)

def Escaping.encode (escaping : Escaping) (text : List UInt8) : List UInt8 :=
  text.flatMap fun c =>
    if escaping.plain c then [c] else [percent, hexDigit (c.toNat / 16), hexDigit (c.toNat % 16)]

def Escaping.statement (escaping : Escaping) (pair : List UInt8 × List UInt8) : List UInt8 :=
  escaping.encode pair.1 ++ equality :: escaping.encode pair.2

def Escaping.query (escaping : Escaping) (pairs : List (List UInt8 × List UInt8)) : List UInt8 :=
  List.intercalate [ampersand] (pairs.map escaping.statement)

section Reading

variable {c : UInt8} {text : List UInt8}

theorem decode_plain (plain_ : c ≠ percent) :
    decode (c :: text) = (decode text).map ((if c = plus then blank else c) :: ·) := by
  match text with
  | [] => simp only [decode, if_neg plain_]
  | [a] => simp only [decode, if_neg plain_]
  | a :: b :: text => rw [decode, if_neg plain_]

theorem decode_escape {a b : UInt8} {high low : Nat} (first : hexDigitValue a = some high) (second : hexDigitValue b = some low) :
    decode (percent :: a :: b :: text) = (decode text).map (UInt8.ofNat (high * 16 + low) :: ·) := by
  simp only [decode, if_pos, first, second]

theorem decode_malformed {a b : UInt8} (wrong : hexDigitValue a = none ∨ hexDigitValue b = none) :
    decode (percent :: a :: b :: text) = none := by
  simp only [decode, if_pos]
  rcases wrong with wrong | wrong
  · rw [wrong]
  · rw [wrong]
    cases hexDigitValue a <;> rfl

theorem hexDigit_value : ∀ n < 16, hexDigitValue (hexDigit n) = some n := by decide

theorem hexDigit_kept : ∀ n < 16, hexDigit n ≠ ampersand ∧ hexDigit n ≠ equality ∧ hexDigit n ≠ 0 := by decide

theorem Escaping.decode_encode (escaping : Escaping) (text : List UInt8) : decode (escaping.encode text) = some text := by
  induction text with
  | nil => rfl
  | cons c text ih =>
    unfold Escaping.encode at ih ⊢
    rw [List.flatMap_cons]
    by_cases plain : escaping.plain c = true
    · obtain ⟨percent_, plus_, -⟩ := escaping.kept c plain
      rw [if_pos plain, List.singleton_append, decode_plain percent_, ih, if_neg plus_]
      rfl
    · have byte := c.toNat_lt
      rw [if_neg plain]
      rw [List.cons_append, List.cons_append, List.cons_append, List.nil_append, decode_escape (hexDigit_value _ (by omega)) (hexDigit_value _ (by omega)), ih,
        show c.toNat / 16 * 16 + c.toNat % 16 = c.toNat by omega, UInt8.ofNat_toNat]
      rfl

theorem Escaping.encode_kept (escaping : Escaping) (text : List UInt8) :
    ampersand ∉ escaping.encode text ∧ 0 ∉ escaping.encode text := by
  have each : ∀ c ∈ escaping.encode text, c ≠ ampersand ∧ c ≠ 0 := by
    intro c member
    obtain ⟨d, -, inside⟩ := List.mem_flatMap.mp member
    by_cases plain : escaping.plain d = true
    · rw [if_pos plain, List.mem_singleton] at inside
      rw [inside]
      exact (escaping.kept d plain).2.2
    · have byte := d.toNat_lt
      rw [if_neg plain] at inside
      rcases List.mem_cons.mp inside with rfl | inside
      · decide
      rcases List.mem_cons.mp inside with rfl | inside
      · have kept := hexDigit_kept (d.toNat / 16) (by omega)
        exact ⟨kept.1, kept.2.2⟩
      · rw [List.mem_singleton.mp inside]
        have kept := hexDigit_kept (d.toNat % 16) (by omega)
        exact ⟨kept.1, kept.2.2⟩
  exact ⟨fun member => (each _ member).1 rfl, fun member => (each _ member).2 rfl⟩

theorem Escaping.encode_plain (escaping : Escaping) (plain : text.all escaping.plain = true) :
    escaping.encode text = text := by
  induction text with
  | nil => rfl
  | cons c text ih =>
    rw [List.all_cons, Bool.and_eq_true] at plain
    show (if escaping.plain c then _ else _) ++ escaping.encode text = _
    rw [if_pos plain.1, ih plain.2]
    rfl

end Reading

section Statements

variable {key statement rest : List UInt8}

theorem findValue_last (none_ : ampersand ∉ statement) : findValue key statement = valueOf key statement := by
  rw [findValue, List.splitOn_eq_singleton none_, List.findSome?_singleton]

theorem findValue_next (none_ : ampersand ∉ statement) :
    findValue key (statement ++ ampersand :: rest) = (valueOf key statement).or (findValue key rest) := by
  rw [findValue, List.splitOn_append_cons_self_of_not_mem none_, List.findSome?_cons]
  cases valueOf key statement <;> rfl

theorem valueOf_split {own value : List UInt8} (none_ : equality ∉ own) :
    valueOf key (own ++ equality :: value) = if own = key then some value else none := by
  have each : ∀ c ∈ own, decide (c ≠ equality) = true := fun c member => by
    rw [decide_eq_true_eq]
    rintro rfl
    exact none_ member
  unfold valueOf
  rw [List.takeWhile_append_of_pos each, List.dropWhile_append_of_pos each]
  simp

/-- The key that a pair is looked up by, escaped or not. -/
def PlainKey (escaping : Escaping) (key : List UInt8) : Prop := key.all escaping.plain = true ∧ equality ∉ key

theorem Escaping.findValue_query (escaping : Escaping) {pairs : List (List UInt8 × List UInt8)}
    (plain : ∀ pair ∈ pairs, PlainKey escaping pair.1) :
    findValue key (escaping.query pairs) = (pairs.lookup key).map escaping.encode := by
  have single : ∀ pair ∈ pairs, ampersand ∉ escaping.statement pair ∧
      valueOf key (escaping.statement pair) = if pair.1 = key then some (escaping.encode pair.2) else none := by
    intro pair member
    obtain ⟨all, none_⟩ := plain pair member
    refine ⟨fun inside => ?_, ?_⟩
    · rcases List.mem_append.mp inside with first | second
      · exact (escaping.encode_kept pair.1).1 first
      · rcases List.mem_cons.mp second with sign | value
        · exact absurd sign (by decide)
        · exact (escaping.encode_kept pair.2).1 value
    · rw [Escaping.statement, escaping.encode_plain all]
      exact valueOf_split none_
  induction pairs with
  | nil =>
    show findValue key [] = none
    rw [findValue_last (List.not_mem_nil), valueOf, if_neg]
    exact fun both => absurd both.1 List.not_mem_nil
  | cons pair pairs ih =>
    obtain ⟨apart, own⟩ := single pair List.mem_cons_self
    have later := ih (fun other member => plain other (List.mem_cons_of_mem _ member))
      (fun other member => single other (List.mem_cons_of_mem _ member))
    have looked : (pair :: pairs).lookup key = (if pair.1 = key then some pair.2 else none).or (pairs.lookup key) := by
      rw [List.lookup_cons]
      by_cases same : pair.1 = key
      · rw [if_pos same, same, beq_self_eq_true]
        rfl
      · rw [if_neg same, show (key == pair.1) = false from beq_eq_false_iff_ne.mpr fun other => same other.symm]
        rfl
    cases pairs with
    | nil =>
      have alone : escaping.query [pair] = escaping.statement pair := by simp [Escaping.query, List.intercalate]
      rw [alone, findValue_last apart, own, looked]
      by_cases same : pair.1 = key
      · rw [if_pos same, if_pos same]
        rfl
      · rw [if_neg same, if_neg same]
        rfl
    | cons next pairs =>
      show findValue key (escaping.statement pair ++ ampersand :: escaping.query (next :: pairs)) = _
      rw [findValue_next apart, own, later, looked]
      by_cases same : pair.1 = key
      · rw [if_pos same, if_pos same]
        rfl
      · rw [if_neg same, if_neg same]
        rfl

end Statements

end Uws.QueryString
