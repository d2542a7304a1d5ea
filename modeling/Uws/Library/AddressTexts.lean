import Mathlib

/-! Texts of internet addresses: how they are read, and which one of them is canonical. -/

namespace Uws.AddressText

abbrev dot : UInt8 := 46
abbrev colon : UInt8 := 58

def digits (base n : Nat) : List UInt8 := (Nat.toDigits base n).map fun c => UInt8.ofNat c.toNat

def join (separator : UInt8) (pieces : List (List UInt8)) : List UInt8 := List.intercalate [separator] pieces

section Reading

def digitValue (c : UInt8) : Option Nat :=
  if 48 ≤ c ∧ c ≤ 57 then some (c.toNat - 48)
  else if 97 ≤ c ∧ c ≤ 102 then some (c.toNat - 87)
  else if 65 ≤ c ∧ c ≤ 70 then some (c.toNat - 55)
  else none

def addDigit (base n : Nat) (c : UInt8) : Option Nat :=
  (digitValue c).bind fun d => if d < base then some (base * n + d) else none

def number? (base : Nat) (text : List UInt8) : Option Nat := text.foldlM (addDigit base) 0

def group? (text : List UInt8) : Option Nat :=
  if 1 ≤ text.length ∧ text.length ≤ 4 then number? 16 text else none

/-- Up to three decimal digits, none of them a leading zero, below 256. -/
def octet? (text : List UInt8) : Option Nat :=
  if 1 ≤ text.length ∧ text.length ≤ 3 ∧ (text.head? = some 48 → text.length = 1) then
    (number? 10 text).filter (· < 256)
  else none

def quad? (text : List UInt8) : Option (List Nat) :=
  match (text.splitOn dot).mapM octet? with
  | some [a, b, c, d] => some [a, b, c, d]
  | _ => none

/-- The two groups that a quad stands for. -/
def quadGroups : List Nat → List Nat
  | [a, b, c, d] => [256 * a + b, 256 * c + d]
  | _ => []

def groups? : List (List UInt8) → Option (List Nat)
  | [] => some []
  | [last] => if dot ∈ last then (quad? last).map quadGroups else (group? last).map fun group => [group]
  | piece :: pieces => (group? piece).bind fun group => (groups? pieces).map (group :: ·)

def splitDouble : List UInt8 → Option (List UInt8 × List UInt8)
  | [] => none
  | [_] => none
  | a :: b :: text =>
    if a = colon ∧ b = colon then some ([], text) else (splitDouble (b :: text)).map fun (left, right) => (a :: left, right)

def side? (text : List UInt8) : Option (List Nat) := if text = [] then some [] else groups? (text.splitOn colon)

def six? (text : List UInt8) : Option (List Nat) :=
  match splitDouble text with
  | none => (groups? (text.splitOn colon)).filter fun groups => groups.length = 8
  | some (left, right) =>
    if dot ∈ left then none
    else
      (side? left).bind fun left => (side? right).bind fun right =>
        if left.length + right.length < 8 then
          some (left ++ List.replicate (8 - left.length - right.length) 0 ++ right)
        else none

/-- The bytes of the address that a text stands for. -/
def address? (text : List UInt8) : Option (List UInt8) :=
  if colon ∈ text then
    (six? text).map fun groups => groups.flatMap fun group => [UInt8.ofNat (group / 256), UInt8.ofNat (group % 256)]
  else (quad? text).map fun quad => quad.map UInt8.ofNat

end Reading

def ZeroRun (groups : List Nat) (start length : Nat) : Prop :=
  start + length ≤ groups.length ∧ ∀ i, start ≤ i → i < start + length → groups[i]? = some 0

/-- The first of the longest ranges of zeros, which has at least two. -/
structure Shortened (groups : List Nat) (start length : Nat) : Prop where
  zeros : ZeroRun groups start length
  two : 2 ≤ length
  longest : ∀ other count, ZeroRun groups other count → count ≤ length
  first : ∀ other, ZeroRun groups other length → start ≤ other

def groupsText (groups : List Nat) : List UInt8 := join colon (groups.map (digits 16))

/-- The recommended text of an address with some groups. -/
inductive Canonical (groups : List Nat) : List UInt8 → Prop where
  | short (start length : Nat) (run : Shortened groups start length) :
      Canonical groups (groupsText (groups.take start) ++ [colon, colon] ++ groupsText (groups.drop (start + length)))
  | full (none_ : ∀ start length, ZeroRun groups start length → length ≤ 1) : Canonical groups (groupsText groups)

/-! Numbers are read back from their digits. -/

/-- A digit of a number in lower case. -/
def Digit (c : UInt8) : Prop := 48 ≤ c.toNat ∧ c.toNat ≤ 57 ∨ 97 ≤ c.toNat ∧ c.toNat ≤ 102

theorem digitChar_read : ∀ d < 16, digitValue (UInt8.ofNat (Nat.digitChar d).toNat) = some d ∧
    Digit (UInt8.ofNat (Nat.digitChar d).toNat) := by
  unfold Digit
  decide

theorem digits_split {base n : Nat} (two : 1 < base) :
    digits base n = if n < base then [UInt8.ofNat (Nat.digitChar n).toNat]
      else digits base (n / base) ++ [UInt8.ofNat (Nat.digitChar (n % base)).toNat] := by
  unfold digits
  rw [Nat.toDigits_eq_if two]
  split
  · rfl
  · rw [List.map_append]
    rfl

theorem digits_digit {base : Nat} (two : 1 < base) (most : base ≤ 16) (n : Nat) : ∀ c ∈ digits base n, Digit c := by
  induction n using Nat.strongRecOn with
  | ind n ih =>
    intro c member
    rw [digits_split two] at member
    split at member
    · rename_i small
      obtain rfl := List.mem_singleton.mp member
      exact (digitChar_read n (by omega)).2
    · rename_i large
      rcases List.mem_append.mp member with member | member
      · exact ih (n / base) (Nat.div_lt_self (by omega) two) c member
      · obtain rfl := List.mem_singleton.mp member
        exact (digitChar_read (n % base) (Nat.lt_of_lt_of_le (Nat.mod_lt n (by omega)) most)).2

theorem number?_digits {base : Nat} (two : 1 < base) (most : base ≤ 16) (n : Nat) : number? base (digits base n) = some n := by
  have last : ∀ front d, d < base → addDigit base front (UInt8.ofNat (Nat.digitChar d).toNat) = some (base * front + d) := by
    intro front d small
    unfold addDigit
    rw [(digitChar_read d (by omega)).1, Option.bind_some, if_pos small]
  induction n using Nat.strongRecOn with
  | ind n ih =>
    unfold number? at ih ⊢
    rw [digits_split two]
    split
    · rename_i small
      rw [List.foldlM_cons, last 0 n small, Nat.mul_zero, Nat.zero_add]
      rfl
    · rename_i large
      rw [List.foldlM_append, ih (n / base) (Nat.div_lt_self (by omega) two)]
      show ([UInt8.ofNat (Nat.digitChar (n % base)).toNat]).foldlM (addDigit base) (n / base) = some n
      rw [List.foldlM_cons, last _ _ (Nat.mod_lt n (by omega)), Nat.div_add_mod]
      rfl

theorem digits_ne_nil (base n : Nat) : digits base n ≠ [] := by
  unfold digits
  exact fun empty => Nat.toDigits_ne_nil (List.map_eq_nil_iff.mp empty)

theorem digits_length {base n k : Nat} (two : 1 < base) (some_ : 0 < k) : (digits base n).length ≤ k ↔ n < base ^ k := by
  unfold digits
  rw [List.length_map]
  exact Nat.length_toDigits_le_iff two some_

theorem Digit.apart {c : UInt8} (digit : Digit c) : c ≠ dot ∧ c ≠ colon := by
  unfold Digit at digit
  constructor
  · rintro rfl
    revert digit
    decide
  · rintro rfl
    revert digit
    decide

theorem colon_digits (n : Nat) : colon ∉ digits 16 n :=
  fun member => (digits_digit (by decide) (by decide) n colon member).apart.2 rfl

theorem dot_digits (n : Nat) : dot ∉ digits 16 n :=
  fun member => (digits_digit (by decide) (by decide) n dot member).apart.1 rfl

theorem group?_digits {n : Nat} (bound : n < 65536) : group? (digits 16 n) = some n := by
  have some_ := List.length_pos_iff.mpr (digits_ne_nil 16 n)
  have short := (@digits_length 16 n 4 (by decide) (by decide)).mpr bound
  rw [group?, if_pos ⟨some_, short⟩, number?_digits (by decide) (by decide)]

theorem octet?_digits {n : Nat} (bound : n < 256) : octet? (digits 10 n) = some n := by
  have all : ∀ n < 256, octet? (digits 10 n) = some n := by decide +kernel
  exact all n bound

section Groups

variable {groups : List Nat}

theorem groups?_digits (bound : ∀ group ∈ groups, group < 65536) : groups? (groups.map (digits 16)) = some groups := by
  induction groups with
  | nil => rfl
  | cons group groups ih =>
    have own := group?_digits (bound group List.mem_cons_self)
    have later := ih fun other member => bound other (List.mem_cons_of_mem _ member)
    cases groups with
    | nil =>
      rw [List.map_singleton, groups?, if_neg (dot_digits group), own]
      rfl
    | cons next groups =>
      rw [List.map_cons, List.map_cons, groups?, own, Option.bind_some]
      · rw [List.map_cons] at later
        rw [later]
        rfl
      · exact List.cons_ne_nil _ _

theorem splitOn_groupsText (some_ : groups ≠ []) : (groupsText groups).splitOn colon = groups.map (digits 16) := by
  apply List.splitOn_intercalate colon
  · intro piece member
    obtain ⟨group, -, rfl⟩ := List.mem_map.mp member
    exact colon_digits group
  · rwa [Ne, List.map_eq_nil_iff]

theorem groupsText_cons_cons (group next : Nat) (groups : List Nat) :
    groupsText (group :: next :: groups) = digits 16 group ++ colon :: groupsText (next :: groups) := by
  unfold groupsText join
  rw [List.map_cons, List.map_cons, List.intercalate_cons_cons, List.append_assoc]
  rfl

@[simp]
theorem groupsText_singleton (group : Nat) : groupsText [group] = digits 16 group := by
  unfold groupsText join
  rw [List.map_singleton, List.intercalate_singleton]

theorem groupsText_ne_nil (some_ : groups ≠ []) : groupsText groups ≠ [] := by
  intro empty
  have pieces := splitOn_groupsText some_
  rw [empty] at pieces
  obtain ⟨group, more, rfl⟩ := List.exists_cons_of_ne_nil some_
  rw [List.splitOn_nil, List.map_cons] at pieces
  exact digits_ne_nil 16 group (List.cons.inj pieces).1.symm

theorem side?_groupsText (bound : ∀ group ∈ groups, group < 65536) : side? (groupsText groups) = some groups := by
  by_cases none_ : groups = []
  · subst none_
    rfl
  · rw [side?, if_neg (groupsText_ne_nil none_), splitOn_groupsText none_, groups?_digits bound]

theorem groupsText_begins (group : Nat) (groups : List Nat) :
    ∃ c text, groupsText (group :: groups) = c :: text ∧ c ≠ colon := by
  obtain ⟨rest, same⟩ : ∃ rest, groupsText (group :: groups) = digits 16 group ++ rest := by
    cases groups with
    | nil => exact ⟨[], by rw [List.append_nil, groupsText_singleton]⟩
    | cons next groups => exact ⟨_, groupsText_cons_cons group next groups⟩
  obtain ⟨c, text, first⟩ := List.exists_cons_of_ne_nil (digits_ne_nil 16 group)
  refine ⟨c, text ++ rest, by rw [same, first, List.cons_append], ?_⟩
  rintro rfl
  exact colon_digits group (first ▸ List.mem_cons_self)

theorem splitDouble_append {piece : List UInt8} (apart : colon ∉ piece) (rest : List UInt8) :
    splitDouble (piece ++ rest) = (splitDouble rest).map fun (left, right) => (piece ++ left, right) := by
  induction piece with
  | nil =>
    rw [List.nil_append]
    cases splitDouble rest <;> rfl
  | cons a piece ih =>
    have own : a ≠ colon := fun same => apart (same ▸ List.mem_cons_self)
    have below := ih fun member => apart (List.mem_cons_of_mem _ member)
    rw [List.cons_append]
    generalize shape : piece ++ rest = text at below
    cases text with
    | nil =>
      obtain ⟨rfl, rfl⟩ := List.append_eq_nil_iff.mp shape
      rfl
    | cons b text =>
      rw [splitDouble, if_neg fun both => own both.1, below]
      cases splitDouble rest <;> rfl

theorem splitDouble_colon {c : UInt8} (apart : c ≠ colon) (text : List UInt8) :
    splitDouble (colon :: c :: text) = (splitDouble (c :: text)).map fun (left, right) => (colon :: left, right) := by
  rw [splitDouble, if_neg fun both => apart both.2]

theorem splitDouble_groupsText (groups : List Nat) : splitDouble (groupsText groups) = none := by
  induction groups with
  | nil => rfl
  | cons group groups ih =>
    cases groups with
    | nil =>
      have own := splitDouble_append (colon_digits group) []
      rw [List.append_nil] at own
      rw [groupsText_singleton]
      exact own
    | cons next groups =>
      obtain ⟨c, text, begins, apart⟩ := groupsText_begins next groups
      rw [begins] at ih
      rw [groupsText_cons_cons, splitDouble_append (colon_digits group), begins, splitDouble_colon apart, ih]
      rfl

theorem splitDouble_short (groups : List Nat) (tail : List UInt8) :
    splitDouble (groupsText groups ++ colon :: colon :: tail) = some (groupsText groups, tail) := by
  induction groups with
  | nil => rw [groupsText, join, List.map_nil, List.intercalate_nil, List.nil_append, splitDouble, if_pos ⟨rfl, rfl⟩]
  | cons group groups ih =>
    cases groups with
    | nil =>
      rw [groupsText_singleton, splitDouble_append (colon_digits group), splitDouble, if_pos ⟨rfl, rfl⟩, Option.map_some]
      dsimp only
      rw [List.append_nil]
    | cons next groups =>
      obtain ⟨c, text, begins, apart⟩ := groupsText_begins next groups
      rw [begins] at ih
      rw [groupsText_cons_cons, List.append_assoc, splitDouble_append (colon_digits group), begins, List.cons_append,
        List.cons_append, splitDouble_colon apart, ← List.cons_append, ih]
      rfl

theorem dot_groupsText (groups : List Nat) : dot ∉ groupsText groups := by
  induction groups with
  | nil => exact List.not_mem_nil
  | cons group groups ih =>
    cases groups with
    | nil =>
      rw [groupsText_singleton]
      exact dot_digits group
    | cons next groups =>
      rw [groupsText_cons_cons, List.mem_append, List.mem_cons]
      rintro (own | same | later)
      · exact dot_digits group own
      · revert same
        decide
      · exact ih later

theorem groupsText_length (bound : ∀ group ∈ groups, group < 65536) : (groupsText groups).length ≤ 5 * groups.length := by
  induction groups with
  | nil => exact Nat.zero_le _
  | cons group groups ih =>
    have own := (@digits_length 16 group 4 (by decide) (by decide)).mpr (bound group List.mem_cons_self)
    have later := ih fun other member => bound other (List.mem_cons_of_mem _ member)
    cases groups with
    | nil =>
      rw [groupsText_singleton, List.length_singleton]
      omega
    | cons next groups =>
      rw [groupsText_cons_cons, List.length_append, List.length_cons]
      simp only [List.length_cons] at later ⊢
      omega

end Groups

section Addresses

variable {groups : List Nat} {text : List UInt8}

theorem ZeroRun.restored {start length : Nat} (zeros : ZeroRun groups start length) :
    groups.take start ++ List.replicate length 0 ++ groups.drop (start + length) = groups := by
  have middle : (groups.drop start).take length = List.replicate length 0 := by
    apply List.ext_getElem?
    intro i
    by_cases within : i < length
    · rw [List.getElem?_take_of_lt within, List.getElem?_drop, zeros.2 (start + i) (by omega) (by omega),
        List.getElem?_replicate_of_lt within]
    · rw [List.getElem?_eq_none (by rw [List.length_take]; omega), List.getElem?_eq_none (by rw [List.length_replicate]; omega)]
  rw [← middle, ← List.drop_drop, List.append_assoc, List.take_append_drop, List.take_append_drop]

theorem Canonical.read (canonical : Canonical groups text) (eight : groups.length = 8)
    (bound : ∀ group ∈ groups, group < 65536) : six? text = some groups := by
  cases canonical with
  | full none_ =>
    have some_ : groups ≠ [] := by
      rintro rfl
      cases eight
    rw [six?, splitDouble_groupsText]
    dsimp only
    rw [splitOn_groupsText some_, groups?_digits bound, Option.filter_some, if_pos (decide_eq_true eight)]
  | short start length run =>
    have inside := run.zeros.1
    have two := run.two
    have front : (groups.take start).length = start := List.length_take_of_le (by omega)
    have back : (groups.drop (start + length)).length = 8 - (start + length) := by rw [List.length_drop, eight]
    have missing : 8 - start - (8 - (start + length)) = length := by omega
    rw [six?, List.append_assoc, List.cons_append, List.cons_append, List.nil_append, splitDouble_short]
    dsimp only
    rw [if_neg (dot_groupsText _), side?_groupsText fun group member => bound group (List.mem_of_mem_take member),
      side?_groupsText fun group member => bound group (List.mem_of_mem_drop member), Option.bind_some, Option.bind_some,
      front, back, if_pos (by omega), missing, run.zeros.restored]

theorem Canonical.colon_mem (canonical : Canonical groups text) (eight : groups.length = 8) : colon ∈ text := by
  cases canonical with
  | short start length run => simp
  | full none_ =>
    match groups, eight with
    | group :: next :: groups, _ =>
      rw [groupsText_cons_cons]
      exact List.mem_append_right _ List.mem_cons_self

theorem Canonical.length_le (canonical : Canonical groups text) (eight : groups.length = 8)
    (bound : ∀ group ∈ groups, group < 65536) : text.length < 64 := by
  cases canonical with
  | full none_ =>
    have most := groupsText_length bound
    omega
  | short start length run =>
    have front := groupsText_length fun group (member : group ∈ groups.take start) => bound group (List.mem_of_mem_take member)
    have back := groupsText_length fun group (member : group ∈ groups.drop (start + length)) =>
      bound group (List.mem_of_mem_drop member)
    rw [List.length_take] at front
    rw [List.length_drop] at back
    simp only [List.length_append, List.length_cons, List.length_nil]
    omega

theorem Canonical.address (canonical : Canonical groups text) (eight : groups.length = 8)
    (bound : ∀ group ∈ groups, group < 65536) :
    address? text = some (groups.flatMap fun group => [UInt8.ofNat (group / 256), UInt8.ofNat (group % 256)]) := by
  rw [address?, if_pos (canonical.colon_mem eight), canonical.read eight bound]
  rfl

def quadText (quad : List UInt8) : List UInt8 := join dot (quad.map fun octet => digits 10 octet.toNat)

theorem quadText_eq (a b c d : UInt8) :
    quadText [a, b, c, d] = digits 10 a.toNat ++ [dot] ++ (digits 10 b.toNat ++ [dot] ++
      (digits 10 c.toNat ++ [dot] ++ digits 10 d.toNat)) := by
  unfold quadText join
  simp only [List.map_cons, List.map_nil, List.intercalate_cons_cons, List.intercalate_singleton]

theorem quadText_read (a b c d : UInt8) : address? (quadText [a, b, c, d]) = some [a, b, c, d] := by
  have apart : ∀ n, ∀ octet ∈ digits 10 n, octet ≠ dot ∧ octet ≠ colon := fun n octet member =>
    (digits_digit (by decide) (by decide) n octet member).apart
  have pieces : (quadText [a, b, c, d]).splitOn dot = [a, b, c, d].map fun octet => digits 10 octet.toNat := by
    apply List.splitOn_intercalate dot
    · intro piece member
      obtain ⟨octet, -, rfl⟩ := List.mem_map.mp member
      exact fun inside => (apart _ _ inside).1 rfl
    · exact List.cons_ne_nil _ _
  have none_ : colon ∉ quadText [a, b, c, d] := by
    intro member
    have other : colon ≠ dot := by decide
    simp only [quadText_eq, List.mem_append, List.mem_singleton, other, or_false] at member
    rcases member with own | own | own | own
    · exact (apart _ _ own).2 rfl
    · exact (apart _ _ own).2 rfl
    · exact (apart _ _ own).2 rfl
    · exact (apart _ _ own).2 rfl
  have octets : ([a, b, c, d].map fun octet => digits 10 octet.toNat).mapM octet? =
      some [a.toNat, b.toNat, c.toNat, d.toNat] := by
    simp [octet?_digits (UInt8.toNat_lt a), octet?_digits (UInt8.toNat_lt b), octet?_digits (UInt8.toNat_lt c),
      octet?_digits (UInt8.toNat_lt d)]
  rw [address?, if_neg none_, quad?, pieces, octets]
  simp

theorem quadText_length (a b c d : UInt8) : (quadText [a, b, c, d]).length < 64 := by
  have short : ∀ octet : UInt8, (digits 10 octet.toNat).length ≤ 3 := fun octet =>
    (digits_length (by decide) (by decide)).mpr (Nat.lt_trans octet.toNat_lt (by decide))
  have first := short a
  have second := short b
  have third := short c
  have fourth := short d
  simp only [quadText_eq, List.length_append, List.length_singleton]
  omega

end Addresses

end Uws.AddressText
