import Uws.Http.Headers
import Uws.Library.AddressTexts

namespace Uws.Socket

open Uws.Http (Bytes ascii)
open Uws.AddressText

def mappedFront : Bytes := List.replicate 10 0 ++ [0xff, 0xff]

def addressGroups (b : Bytes) : List Nat :=
  (List.range 8).map fun i => (b.getD (i * 2) 0).toNat <<< 8 ||| (b.getD (i * 2 + 1) 0).toNat

/-- The search of the longest run of zeros from `i` on, with the longest one so far; a run is taken at once. -/
def findLongest : Nat → List Nat → Nat → Int × Nat → Int × Nat
  | 0, _, _, longest => longest
  | _ + 1, [], _, longest => longest
  | fuel + 1, group :: rest, i, longest =>
    if group ≠ 0 then findLongest fuel rest (i + 1) longest
    else
      let length := ((group :: rest).takeWhile (· = 0)).length
      findLongest fuel ((group :: rest).drop length) (i + length) (if longest.2 < length then (i, length) else longest)

def writeGroups (longest : Int × Nat) : Nat → List Nat → Nat → Bytes → Bytes
  | 0, _, _, buf => buf
  | _ + 1, [], _, buf => buf
  | fuel + 1, group :: rest, i, buf =>
    if 2 ≤ longest.2 ∧ (i : Int) = longest.1 then
      writeGroups longest fuel ((group :: rest).drop longest.2) (i + longest.2) (buf ++ [colon, colon])
    else
      let buf := if buf ≠ [] ∧ buf.getLast? ≠ some colon then buf ++ [colon] else buf
      writeGroups longest fuel rest (i + 1) (buf ++ digits 16 group)

/-- Returns the text representation of an IPv4 or IPv6 address. -/
def addressAsText (binary : Bytes) : Bytes :=
  if binary.length = 0 then []
  else if binary.length = 4 then quadText (binary.take 4)
  else if binary.take 12 = mappedFront then quadText ((binary.drop 12).take 4)
  else
    let groups := addressGroups binary
    writeGroups (findLongest groups.length groups 0 (-1, 0)) groups.length groups 0 []

section Search

variable {groups : List Nat} {i : Nat} {longest : Int × Nat}

structure Best (groups : List Nat) (i : Nat) (longest : Int × Nat) : Prop where
  zeros : 0 < longest.2 → ∃ start : Nat, longest.1 = start ∧ ZeroRun groups start longest.2 ∧ start + longest.2 ≤ i
  most : ∀ start length, ZeroRun groups start length → start + length ≤ i → length ≤ longest.2
  first : ∀ start : Nat, 0 < longest.2 → ZeroRun groups start longest.2 → start + longest.2 ≤ i → longest.1 ≤ start
  edge : ∀ start length, ZeroRun groups start length → start < i → start + length ≤ i

theorem Best.start (groups : List Nat) : Best groups 0 (-1, 0) where
  zeros some_ := absurd some_ (Nat.lt_irrefl 0)
  most start length _ within := by
    show length ≤ 0
    omega
  first _ some_ := absurd some_ (Nat.lt_irrefl 0)
  edge start length _ before := absurd before (Nat.not_lt_zero start)

theorem Best.skip (best : Best groups i longest) (nonzero : groups[i]? ≠ some 0) : Best groups (i + 1) longest := by
  have avoids : ∀ start length, ZeroRun groups start length → start + length ≤ i + 1 → 0 < length →
      start + length ≤ i := by
    intro start length run within some_
    by_contra crossing
    exact nonzero (run.2 i (by omega) (by omega))
  refine ⟨fun some_ => ?_, fun start length run within => ?_, fun start some_ run within => ?_, fun start length run before => ?_⟩
  · obtain ⟨start, own, run, within⟩ := best.zeros some_
    exact ⟨start, own, run, by omega⟩
  · by_cases some_ : 0 < length
    · exact best.most start length run (avoids start length run within some_)
    · omega
  · exact best.first start some_ run (avoids start longest.2 run within some_)
  · by_contra crossing
    exact nonzero (run.2 i (by omega) (by omega))

theorem Best.take (best : Best groups i longest) {length : Nat} (some_ : 0 < length) (run : ZeroRun groups i length)
    (stops : groups[i + length]? ≠ some 0) :
    Best groups (i + length) (if longest.2 < length then ((i : Int), length) else longest) := by
  have edge : ∀ start count, ZeroRun groups start count → start < i + length → start + count ≤ i + length := by
    intro start count other before
    by_contra crossing
    exact stops (other.2 (i + length) (by omega) (by omega))
  by_cases longer : longest.2 < length
  · rw [if_pos longer]
    refine ⟨fun _ => ⟨i, rfl, run, Nat.le_refl _⟩, fun start count other within => ?_, fun start _ other within => ?_, edge⟩
    · by_cases before : start < i
      · have old := best.most start count other (best.edge start count other before)
        show count ≤ length
        omega
      · show count ≤ length
        omega
    · show (i : Int) ≤ start
      change ZeroRun groups start length at other
      by_contra before
      have earlier : start < i := by omega
      have old := best.most start length other (best.edge start length other earlier)
      omega
  · rw [if_neg longer]
    refine ⟨fun filled => ?_, fun start count other within => ?_, fun start filled other within => ?_, edge⟩
    · obtain ⟨start, own, zeros, inside⟩ := best.zeros filled
      exact ⟨start, own, zeros, by omega⟩
    · by_cases before : start < i
      · exact best.most start count other (best.edge start count other before)
      · omega
    · by_cases before : start < i
      · exact best.first start filled other (best.edge start longest.2 other before)
      · obtain ⟨own, place, -, inside⟩ := best.zeros filled
        omega

theorem takeWhile_zeros (rest : List Nat) :
    (∀ j < (rest.takeWhile (· = 0)).length, rest[j]? = some 0) ∧
      rest[(rest.takeWhile (· = 0)).length]? ≠ some 0 ∧ (rest.takeWhile (· = 0)).length ≤ rest.length := by
  induction rest with
  | nil => exact ⟨fun j before => absurd before (Nat.not_lt_zero j), nofun, Nat.le_refl _⟩
  | cons group rest ih =>
    by_cases zero : group = 0
    · obtain ⟨inside, behind, within⟩ := ih
      rw [List.takeWhile_cons_of_pos (by simpa using zero), List.length_cons]
      refine ⟨fun j before => ?_, ?_, by simpa using within⟩
      · cases j with
        | zero => rw [zero]; rfl
        | succ j =>
          rw [List.getElem?_cons_succ]
          exact inside j (by omega)
      · rwa [List.getElem?_cons_succ]
    · rw [List.takeWhile_cons_of_neg (by simpa using zero)]
      refine ⟨fun j before => absurd before (Nat.not_lt_zero j), ?_, Nat.zero_le _⟩
      show some group ≠ some 0
      exact fun same => zero (Option.some.inj same)

theorem findLongest_best (fuel : Nat) (rest : List Nat) (same : groups.drop i = rest) (within : i ≤ groups.length)
    (enough : rest.length ≤ fuel) (best : Best groups i longest) :
    Best groups groups.length (findLongest fuel rest i longest) := by
  have size : rest.length = groups.length - i := by rw [← same, List.length_drop]
  induction fuel generalizing rest i longest with
  | zero =>
    have last : i = groups.length := by omega
    rw [findLongest, ← last]
    exact best
  | succ fuel ih =>
    cases rest with
    | nil =>
      rw [List.length_nil] at size
      have last : i = groups.length := by omega
      rw [findLongest, ← last]
      exact best
    | cons group rest =>
      have place : ∀ j, groups[i + j]? = (group :: rest)[j]? := fun j => by rw [← same, List.getElem?_drop]
      rw [List.length_cons] at size enough
      rw [findLongest]
      by_cases nonzero : group ≠ 0
      · rw [if_pos nonzero]
        have next : groups.drop (i + 1) = rest := by rw [← List.drop_drop, same, List.drop_one, List.tail_cons]
        have here : groups[i]? ≠ some 0 := by
          have first := place 0
          rw [Nat.add_zero] at first
          rw [first]
          exact fun zero => nonzero (Option.some.inj zero)
        exact ih rest next (by omega) (by omega) (best.skip here) (by omega)
      · rw [if_neg nonzero]
        dsimp only
        obtain ⟨inside, behind, short⟩ := takeWhile_zeros (group :: rest)
        have some_ : 0 < ((group :: rest).takeWhile (· = 0)).length := by
          rw [List.takeWhile_cons_of_pos (by simpa using nonzero)]
          exact Nat.succ_pos _
        generalize ((group :: rest).takeWhile (· = 0)).length = length at inside behind short some_ ⊢
        rw [List.length_cons] at short
        have run : ZeroRun groups i length := by
          refine ⟨by omega, fun j behind_ before => ?_⟩
          have there := place (j - i)
          rw [Nat.add_sub_cancel' behind_] at there
          rw [there]
          exact inside (j - i) (by omega)
        have next : groups.drop (i + length) = (group :: rest).drop length := by rw [← List.drop_drop, same]
        refine ih _ next (by omega) ?_ (best.take some_ run (by rw [place]; exact behind)) ?_
        · rw [List.length_drop, List.length_cons]
          omega
        · rw [List.length_drop, List.length_cons]
          omega

end Search

section Output

variable {groups : List Nat} {longest : Int × Nat}

def writePlain (buf : Bytes) (groups : List Nat) : Bytes :=
  groups.foldl (fun buf group =>
    (if buf ≠ [] ∧ buf.getLast? ≠ some colon then buf ++ [colon] else buf) ++ digits 16 group) buf

theorem writePlain_cons (buf : Bytes) (group : Nat) (groups : List Nat) :
    writePlain buf (group :: groups) =
      writePlain ((if buf ≠ [] ∧ buf.getLast? ≠ some colon then buf ++ [colon] else buf) ++ digits 16 group) groups := rfl

theorem writePlain_digits (front : Bytes) (group : Nat) (groups : List Nat) :
    writePlain (front ++ digits 16 group) groups = front ++ groupsText (group :: groups) := by
  induction groups generalizing front group with
  | nil => rw [groupsText_singleton]; rfl
  | cons next groups ih =>
    have filled : front ++ digits 16 group ≠ [] ∧ (front ++ digits 16 group).getLast? ≠ some colon := by
      refine ⟨fun empty => digits_ne_nil 16 group (List.append_eq_nil_iff.mp empty).2, fun last => ?_⟩
      rw [List.getLast?_append_of_ne_nil _ (digits_ne_nil 16 group)] at last
      exact colon_digits group (List.mem_of_getLast? last)
    rw [writePlain_cons, if_pos filled, groupsText_cons_cons, ih, List.append_assoc, List.append_assoc]
    rfl

theorem writePlain_text {buf : Bytes} (begins : buf = [] ∨ buf.getLast? = some colon) (groups : List Nat) :
    writePlain buf groups = buf ++ groupsText groups := by
  cases groups with
  | nil =>
    rw [groupsText, join, List.map_nil, List.intercalate_nil, List.append_nil]
    rfl
  | cons group groups =>
    have bare : ¬ (buf ≠ [] ∧ buf.getLast? ≠ some colon) := by
      rintro ⟨some_, other⟩
      rcases begins with empty | last
      · exact some_ empty
      · exact other last
    rw [writePlain_cons, if_neg bare, writePlain_digits]

theorem writeGroups_plain (front tail : List Nat) {fuel i : Nat} (enough : front.length ≤ fuel) (buf : Bytes)
    (apart : ∀ j, i ≤ j → j < i + front.length → ¬ (2 ≤ longest.2 ∧ (j : Int) = longest.1)) :
    writeGroups longest fuel (front ++ tail) i buf =
      writeGroups longest (fuel - front.length) tail (i + front.length) (writePlain buf front) := by
  induction front generalizing fuel i buf with
  | nil => rfl
  | cons group front ih =>
    rw [List.length_cons] at enough apart
    obtain ⟨fuel, rfl⟩ : ∃ rest, fuel = rest + 1 := ⟨fuel - 1, by omega⟩
    have here := apart i (Nat.le_refl _) (by omega)
    rw [List.cons_append, writeGroups, if_neg here, writePlain_cons,
      ih (by omega) _ fun j from_ before => apart j (by omega) (by omega)]
    congr 1
    · rw [List.length_cons]
      omega
    · rw [List.length_cons]
      omega

theorem writeGroups_nil (fuel i : Nat) (buf : Bytes) : writeGroups longest fuel [] i buf = buf := by
  cases fuel <;> rfl

theorem writeGroups_canonical (best : Best groups groups.length longest) :
    Canonical groups (writeGroups longest groups.length groups 0 []) := by
  by_cases two : 2 ≤ longest.2
  · obtain ⟨start, own, zeros, within⟩ := best.zeros (by omega)
    have front : (groups.take start).length = start := List.length_take_of_le (by omega)
    have back : groups.drop (start + longest.2) = (groups.drop start).drop longest.2 := by rw [List.drop_drop]
    have run : Shortened groups start longest.2 := by
      refine ⟨zeros, two, fun other count run => best.most other count run run.1, fun other run => ?_⟩
      have least := best.first other (by omega) run run.1
      omega
    have before := @writeGroups_plain longest (groups.take start) (groups.drop start) groups.length 0 (by omega) [] (by
      intro j _ earlier
      omega)
    rw [List.take_append_drop, front, Nat.zero_add, writePlain_text (.inl rfl), List.nil_append] at before
    obtain ⟨group, rest, here⟩ : ∃ group rest, groups.drop start = group :: rest := by
      apply List.exists_cons_of_ne_nil
      rw [Ne, List.drop_eq_nil_iff]
      omega
    obtain ⟨fuel, more⟩ : ∃ fuel, groups.length - start = fuel + 1 := ⟨groups.length - start - 1, by omega⟩
    rw [before, here, more, writeGroups, if_pos ⟨two, own.symm⟩, ← here, ← back]
    have after := @writeGroups_plain longest (groups.drop (start + longest.2)) [] fuel (start + longest.2)
      (by rw [List.length_drop]; omega) (groupsText (groups.take start) ++ [colon, colon]) (by
      intro j behind _
      omega)
    rw [List.append_nil, writeGroups_nil, writePlain_text (.inr (by simp))] at after
    rw [after]
    exact .short start longest.2 run
  · have whole := @writeGroups_plain longest groups [] groups.length 0 (Nat.le_refl _) [] (by
      intro j _ _
      omega)
    rw [List.append_nil, writeGroups_nil, writePlain_text (.inl rfl), List.nil_append] at whole
    rw [whole]
    refine .full fun start length run => ?_
    have most := best.most start length run run.1
    omega

end Output

/-- The bytes of an IPv4 or IPv6 address. -/
structure Address where
  binary : Bytes
  sized : binary.length = 4 ∨ binary.length = 16

/-- The address that a text stands for: the IPv4 address for its mapped form. -/
def Address.plain (address : Address) : Bytes :=
  if address.binary.length = 16 ∧ address.binary.take 12 = mappedFront then address.binary.drop 12 else address.binary

theorem group_bytes (x y : UInt8) :
    let group := x.toNat <<< 8 ||| y.toNat
    group < 65536 ∧ UInt8.ofNat (group / 256) = x ∧ UInt8.ofNat (group % 256) = y := by
  intro group
  have low := y.toNat_lt
  have high := x.toNat_lt
  have value : group = x.toNat * 256 + y.toNat := by
    show x.toNat <<< 8 ||| y.toNat = _
    rw [← Nat.shiftLeft_add_eq_or_of_lt low, Nat.shiftLeft_eq]
  refine ⟨by omega, ?_, ?_⟩
  · rw [show group / 256 = x.toNat by omega, UInt8.ofNat_toNat]
  · rw [show group % 256 = y.toNat by omega, UInt8.ofNat_toNat]

theorem addressGroups_bytes {b : Bytes} (sixteen : b.length = 16) :
    (addressGroups b).length = 8 ∧ (∀ group ∈ addressGroups b, group < 65536) ∧
      (addressGroups b).flatMap (fun group => [UInt8.ofNat (group / 256), UInt8.ofNat (group % 256)]) = b := by
  refine ⟨rfl, fun group member => ?_, ?_⟩
  · obtain ⟨i, -, rfl⟩ := List.mem_map.mp member
    exact (group_bytes _ _).1
  · match b, sixteen with
    | [b0, b1, b2, b3, b4, b5, b6, b7, b8, b9, b10, b11, b12, b13, b14, b15], _ =>
      have shape : addressGroups [b0, b1, b2, b3, b4, b5, b6, b7, b8, b9, b10, b11, b12, b13, b14, b15] =
          [(b0, b1), (b2, b3), (b4, b5), (b6, b7), (b8, b9), (b10, b11), (b12, b13), (b14, b15)].map
            fun pair => pair.1.toNat <<< 8 ||| pair.2.toNat := rfl
      rw [shape, List.flatMap_map]
      simp only [group_bytes]
      rfl

/-- Text is written for every address, is the canonical one of an IPv6 address, is read back as the address, and is no
    other address's. -/
theorem addressAsText_canonical (address : Address) :
    (addressAsText address.binary).length < 64 ∧ address? (addressAsText address.binary) = some address.plain ∧
      (address.binary.length = 16 → address.binary.take 12 ≠ mappedFront →
        Canonical (addressGroups address.binary) (addressAsText address.binary)) ∧
      ∀ other : Address, addressAsText other.binary = addressAsText address.binary → other.plain = address.plain := by
  have text : ∀ address : Address,
      (addressAsText address.binary).length < 64 ∧ address? (addressAsText address.binary) = some address.plain ∧
        (address.binary.length = 16 → address.binary.take 12 ≠ mappedFront →
          Canonical (addressGroups address.binary) (addressAsText address.binary)) := by
    rintro ⟨b, sized⟩
    unfold addressAsText Address.plain
    dsimp only
    rcases sized with four | sixteen
    · match b, four with
      | [a, b, c, d], _ => exact ⟨quadText_length a b c d, quadText_read a b c d, nofun⟩
    · rw [if_neg (by omega), if_neg (by omega)]
      by_cases mapped : b.take 12 = mappedFront
      · rw [if_pos mapped, if_pos ⟨sixteen, mapped⟩]
        have back : (b.drop 12).length = 4 := by rw [List.length_drop, sixteen]
        match b.drop 12, back with
        | [a, b, c, d], _ => exact ⟨quadText_length a b c d, quadText_read a b c d, fun _ other => absurd mapped other⟩
      · obtain ⟨eight, bound, bytes⟩ := addressGroups_bytes sixteen
        have best : Best (addressGroups b) (addressGroups b).length
            (findLongest (addressGroups b).length (addressGroups b) 0 (-1, 0)) :=
          findLongest_best _ _ List.drop_zero (Nat.zero_le _) (Nat.le_refl _) (Best.start _)
        have canonical := writeGroups_canonical best
        rw [if_neg mapped, if_neg fun both => mapped both.2]
        have read := canonical.address eight bound
        rw [bytes] at read
        exact ⟨canonical.length_le eight bound, read, fun _ _ => canonical⟩
  obtain ⟨short, read, canonical⟩ := text address
  refine ⟨short, read, canonical, fun other same => ?_⟩
  have back := (text other).2.1
  rw [same, read] at back
  exact (Option.some.inj back).symm

example : addressAsText [0x20, 1, 0xd, 0xb8, 0, 0, 0, 0, 0, 0, 0, 1, 0, 0, 0, 1] = ascii "2001:db8::1:0:1" := by
  decide +kernel

end Uws.Socket
