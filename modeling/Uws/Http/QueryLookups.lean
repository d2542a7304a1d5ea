import Uws.Http.QueryParser

namespace Uws.Http

open Uws.QueryString

section Decoding

variable {length i out : Nat} {scratch text : Bytes}

theorem unsigned_small {n : Nat} (small : n < 2 ^ 32) : unsigned n = n := Nat.mod_eq_of_lt small

/-- A digit has the value that the standard gives it, and nothing else has one. -/
theorem decodeHex_value (c : UInt8) :
    decodeHex c = match hexDigitValue c with
      | some n => (n : Int)
      | none => -1 := by
  unfold decodeHex hexDigitValue
  by_cases digit : 48 ≤ c ∧ c ≤ 57
  · rw [if_pos digit, if_pos digit]
    have least := UInt8.le_iff_toNat_le.mp digit.1
    show (c.toNat : Int) - 48 = ((c.toNat - 48 : Nat) : Int)
    exact (Int.ofNat_sub least).symm
  · rw [if_neg digit, if_neg digit]
    by_cases upper : 65 ≤ c ∧ c ≤ 70
    · rw [if_pos upper, if_pos upper]
      have least : 65 ≤ c.toNat := UInt8.le_iff_toNat_le.mp upper.1
      show (c.toNat : Int) - 65 + 10 = ((c.toNat - 55 : Nat) : Int)
      omega
    · rw [if_neg upper, if_neg upper]
      by_cases lower : 97 ≤ c ∧ c ≤ 102
      · rw [if_pos lower, if_pos lower]
        have least : 97 ≤ c.toNat := UInt8.le_iff_toNat_le.mp lower.1
        show (c.toNat : Int) - 97 + 10 = ((c.toNat - 87 : Nat) : Int)
        omega
      · rw [if_neg lower, if_neg lower]

theorem take_set_out (inside : out < scratch.length) (v : UInt8) : (scratch.set out v).take (out + 1) = scratch.take out ++ [v] := by
  rw [List.take_add_one, List.getElem?_set_self inside, List.take_set_of_le (Nat.le_refl out)]
  rfl

theorem charAt_unread {k : Nat} (unread : scratch.drop i = text) : charAt scratch (i + k) = charAt text k := by
  rw [charAt, charAt, ← unread, List.getD_eq_getElem?_getD, List.getD_eq_getElem?_getD, List.getElem?_drop]

theorem decodeLoop_decode (fuel : Nat) (unread : scratch.drop i = text) (size : scratch.length = length) (behind : out ≤ i)
    (within : i ≤ length) (small : length + 3 ≤ 2 ^ 32) (enough : text.length < fuel) :
    ∃ last, decodeLoop length fuel i out scratch =
      some ((decode (text.takeWhile (· ≠ 0))).map (scratch.take out ++ ·), last) := by
  induction fuel generalizing i out scratch text with
  | zero => omega
  | succ fuel ih =>
    have left : text.length = length - i := by rw [← unread, List.length_drop, size]
    have first : charAt scratch i = charAt text 0 := charAt_unread (k := 0) unread
    rw [decodeLoop]
    dsimp only
    rw [first]
    cases text with
    | nil =>
      rw [if_neg fun both => by rw [List.length_nil] at left; omega]
      refine ⟨scratch, ?_⟩
      rw [List.takeWhile_nil, decode, Option.map_some, List.append_nil]
    | cons c rest =>
      rw [List.length_cons] at left enough
      rw [show charAt (c :: rest) 0 = c from rfl]
      by_cases ends : c = 0
      · rw [if_neg fun both => both.2 ends, ends]
        refine ⟨scratch, ?_⟩
        rw [List.takeWhile_cons_of_neg (by simp), decode, Option.map_some, List.append_nil]
      · rw [if_pos ⟨by omega, ends⟩, List.takeWhile_cons_of_pos (by simpa using ends)]
        -- what a step writes is behind what the next one reads
        have next : ∀ (v : UInt8) (step : Nat) (text : Bytes), scratch.drop (i + step) = text → 1 ≤ step →
            i + step ≤ length → text.length < fuel →
            ∃ last, decodeLoop length fuel (i + step) (out + 1) (scratch.set out v) =
              some ((decode (text.takeWhile (· ≠ 0))).map (scratch.take out ++ v :: ·), last) := by
          intro v step text unread some_ within enough
          obtain ⟨last, run⟩ := @ih (i + step) (out + 1) (scratch.set out v) text
            (by rw [List.drop_set_of_lt (by omega), unread]) (by rw [List.length_set, size]) (by omega) within enough
          refine ⟨last, ?_⟩
          rw [run, take_set_out (by omega)]
          simp only [List.append_assoc, List.singleton_append]
        have tail : ∀ k, scratch.drop (i + (k + 1)) = rest.drop k := by
          intro k
          rw [← List.drop_drop, unread, List.drop_succ_cons]
        by_cases escape : c = percent
        · rw [if_pos escape]
          subst escape
          rcases rest with _ | ⟨a, _ | ⟨b, more⟩⟩
          · rw [List.length_nil] at left
            rw [unsigned_small (by omega), if_pos (by omega)]
            exact ⟨scratch, rfl⟩
          · rw [List.length_singleton] at left
            rw [unsigned_small (by omega), if_pos (by omega)]
            refine ⟨scratch, ?_⟩
            by_cases a_ : a = 0
            · rw [List.takeWhile_cons_of_neg (by simpa using a_)]
              rfl
            · rw [List.takeWhile_cons_of_pos (by simpa using a_)]
              rfl
          · rw [List.length_cons, List.length_cons] at left enough
            have readA : charAt scratch (i + 1) = a := charAt_unread (k := 1) unread
            have readB : charAt scratch (i + 2) = b := charAt_unread (k := 2) unread
            rw [unsigned_small (n := i + 2) (by omega), if_neg (by omega), unsigned_small (n := i + 1) (by omega), readA,
              readB, decodeHex_value, decodeHex_value]
            have refused : hexDigitValue a = none ∨ hexDigitValue b = none →
                decode (percent :: (a :: b :: more).takeWhile (· ≠ 0)) = none := by
              intro wrong
              by_cases a_ : a = 0
              · rw [List.takeWhile_cons_of_neg (by simpa using a_)]
                rfl
              · rw [List.takeWhile_cons_of_pos (by simpa using a_)]
                by_cases b_ : b = 0
                · rw [List.takeWhile_cons_of_neg (by simpa using b_)]
                  rfl
                · rw [List.takeWhile_cons_of_pos (by simpa using b_)]
                  exact decode_malformed wrong
            cases high : hexDigitValue a with
            | none =>
              rw [if_pos (.inl (by decide)), refused (.inl high)]
              exact ⟨scratch, rfl⟩
            | some n =>
              cases low : hexDigitValue b with
              | none =>
                rw [if_pos (.inr (by decide)), refused (.inr low)]
                exact ⟨scratch, rfl⟩
              | some m =>
                have a_ : a ≠ 0 := by
                  rintro rfl
                  cases high
                have b_ : b ≠ 0 := by
                  rintro rfl
                  cases low
                have digits_ : ¬((n : Int) < 0 ∨ (m : Int) < 0) := by omega
                rw [if_neg digits_, unsigned_small (n := i + 3) (by omega), unsigned_small (n := out + 1) (by omega),
                  List.takeWhile_cons_of_pos (by simpa using a_), List.takeWhile_cons_of_pos (by simpa using b_),
                  decode_escape high low, Option.map_map]
                exact next _ 3 more (tail 2) (by omega) (by omega) (by omega)
        · rw [if_neg escape, unsigned_small (n := i + 1) (by omega), unsigned_small (n := out + 1) (by omega),
            decode_plain escape, Option.map_map]
          exact next _ 1 rest (tail 0) (by omega) (by omega) (by omega)

end Decoding

section Statements

variable {key text : Bytes} {c : UInt8} {pos : Nat}

theorem substr_findByte (short : text.length < npos) : substr text pos (findByte text c pos - pos) = (text.drop pos).takeWhile (· ≠ c) := by
  have whole := List.takeWhile_append_dropWhile (p := fun x => decide (x ≠ c)) (l := text.drop pos)
  have cut : ((text.drop pos).takeWhile (· ≠ c) ++ (text.drop pos).dropWhile (· ≠ c)).length = text.length - pos := by
    rw [whole, List.length_drop]
  rw [List.length_append] at cut
  unfold substr findByte
  dsimp only
  by_cases inside : pos + ((text.drop pos).takeWhile (· ≠ c)).length < text.length
  · rw [if_pos inside, Nat.add_sub_cancel_left]
    have front := congrArg (List.take ((text.drop pos).takeWhile (· ≠ c)).length) whole
    rw [List.take_left] at front
    exact front.symm
  · rw [if_neg inside]
    have none_ : (text.drop pos).dropWhile (· ≠ c) = [] := List.eq_nil_of_length_eq_zero (by omega)
    rw [none_, List.append_nil] at whole
    rw [whole]
    apply List.take_of_length_le
    rw [List.length_drop]
    omega

theorem findByte_found (short : text.length < npos) : findByte text c 0 ≠ npos ↔ c ∈ text := by
  have whole := List.takeWhile_append_dropWhile (p := fun x => decide (x ≠ c)) (l := text)
  unfold findByte
  dsimp only
  rw [List.drop_zero, Nat.zero_add]
  by_cases inside : (text.takeWhile (· ≠ c)).length < text.length
  · rw [if_pos inside]
    refine ⟨fun _ => ?_, fun _ => by omega⟩
    by_contra none_
    have all : text.takeWhile (· ≠ c) = text := by
      apply List.takeWhile_eq_self_iff.mpr
      intro x member
      rw [decide_eq_true_eq]
      rintro rfl
      exact none_ member
    rw [all] at inside
    exact Nat.lt_irrefl _ inside
  · rw [if_neg inside]
    refine ⟨fun absurd_ => absurd rfl absurd_, fun member => ?_⟩
    have all : text.takeWhile (· ≠ c) = text := by
      apply List.IsPrefix.eq_of_length_le (List.takeWhile_prefix _)
      omega
    have passed := List.takeWhile_eq_self_iff.mp all c member
    simp at passed

theorem valueOf_first (named : key ≠ []) {value : Bytes} (own : valueOf key text = some value) :
    text.length ≠ 0 ∧ text.head? = key.head? := by
  unfold valueOf at own
  split at own
  · rename_i both
    have front := List.takeWhile_prefix (p := fun x => decide (x ≠ equality)) (l := text)
    rw [both.2] at front
    obtain ⟨rest, rfl⟩ := front
    match key, named with
    | first :: key, _ => exact ⟨by simp, rfl⟩
  · cases own

theorem valueOf_cuts (short : text.length < npos) :
    valueOf key text =
      if findByte text equality 0 ≠ npos ∧ key = substr text 0 (findByte text equality 0) then
        some (text.drop (findByte text equality 0 + 1))
      else none := by
  have own := @substr_findByte text equality 0 short
  rw [Nat.sub_zero, List.drop_zero] at own
  unfold valueOf
  by_cases found : equality ∈ text
  · have place : findByte text equality 0 = (text.takeWhile (· ≠ equality)).length := by
      have some_ := (findByte_found short).mpr found
      unfold findByte at some_ ⊢
      dsimp only at some_ ⊢
      rw [List.drop_zero, Nat.zero_add] at some_ ⊢
      split at some_
      · rename_i inside
        rw [if_pos inside]
      · exact absurd rfl some_
    rw [own]
    by_cases same : text.takeWhile (· ≠ equality) = key
    · rw [if_pos ⟨found, same⟩, if_pos ⟨(findByte_found short).mpr found, same.symm⟩, place, ← List.drop_drop]
      nth_rewrite 3 [← List.takeWhile_append_dropWhile (p := fun x => decide (x ≠ equality)) (l := text)]
      rw [List.drop_left]
    · rw [if_neg fun both => same both.2, if_neg fun both => same both.2.symm]
  · rw [if_neg fun both => found both.1, if_neg fun both => found ((findByte_found short).mp both.1)]

theorem statementLoop_round (named : key ≠ []) (fuel : Nat) (mark : UInt8) (rest scratch : Bytes)
    (short : (mark :: rest).length < npos) :
    statementLoop key (fuel + 1) (mark :: rest) scratch =
      match valueOf key (rest.takeWhile (· ≠ ampersand)) with
      | some value => decodeLoop value.length fuel 0 0 value
      | none => statementLoop key fuel (rest.dropWhile (· ≠ ampersand)) scratch := by
  have cut := @substr_findByte _ ampersand 1 short
  rw [List.drop_succ_cons, List.drop_zero] at cut
  have whole := List.takeWhile_append_dropWhile (p := fun x => decide (x ≠ ampersand)) (l := rest)
  have left : (mark :: rest).drop ((rest.takeWhile (· ≠ ampersand)).length + 1) = rest.dropWhile (· ≠ ampersand) := by
    have behind := congrArg (List.drop (rest.takeWhile (· ≠ ampersand)).length) whole
    rw [List.drop_left] at behind
    exact behind.symm
  have size : (rest.takeWhile (· ≠ ampersand)).length < npos := by
    have prefix_ := (List.takeWhile_prefix (p := fun x => decide (x ≠ ampersand)) (l := rest)).length_le
    rw [List.length_cons] at short
    omega
  rw [statementLoop, if_neg (by rw [List.length_cons]; omega), cut]
  dsimp only
  rw [left]
  generalize rest.takeWhile (· ≠ ampersand) = statement at size ⊢
  rw [valueOf_cuts size]
  cases own : valueOf key statement with
  | none =>
    rw [valueOf_cuts size] at own
    split
    · split
      · rename_i found
        split
        · rename_i same
          rw [if_pos ⟨found, same⟩] at own
          cases own
        · rename_i other
          rw [if_neg fun both => other both.2]
      · rename_i missing
        rw [if_neg fun both => missing both.1]
    · split at own
      · cases own
      · rename_i none_
        rw [if_neg none_]
  | some value =>
    rw [if_pos (valueOf_first named own)]
    rw [valueOf_cuts size] at own
    split at own
    · rename_i both
      rw [if_pos both.1, if_pos both.2, if_pos both]
    · cases own

def queryAnswer (key text : Bytes) : Option Bytes :=
  (findValue key text).bind fun value => decode (value.takeWhile (· ≠ 0))

theorem valueOf_length {value : Bytes} (own : valueOf key text = some value) : value.length + key.length + 1 ≤ text.length := by
  unfold valueOf at own
  split at own
  · rename_i both
    have whole := congrArg List.length (List.takeWhile_append_dropWhile (p := fun x => decide (x ≠ equality)) (l := text))
    rw [both.2, List.length_append] at whole
    have some_ : text.dropWhile (· ≠ equality) ≠ [] := by
      rw [Ne, List.dropWhile_eq_nil_iff]
      intro all
      have sign := all equality both.1
      simp at sign
    have least := List.length_pos_iff.mpr some_
    rw [← Option.some.inj own, List.length_drop]
    omega
  · cases own

theorem statementLoop_answer (named : key ≠ []) (fuel : Nat) (mark : UInt8) (rest scratch : Bytes)
    (short : (mark :: rest).length < 2 ^ 32) (enough : (mark :: rest).length < fuel) :
    ∃ last, statementLoop key fuel (mark :: rest) scratch = some (queryAnswer key rest, last) := by
  induction fuel generalizing mark rest with
  | zero => omega
  | succ fuel ih =>
    have front := (List.takeWhile_prefix (p := fun x => decide (x ≠ ampersand)) (l := rest)).length_le
    have whole := List.takeWhile_append_dropWhile (p := fun x => decide (x ≠ ampersand)) (l := rest)
    have none_ : ampersand ∉ rest.takeWhile (· ≠ ampersand) := by
      intro member
      have passed := List.mem_takeWhile_imp member
      simp at passed
    have some_ := List.length_pos_iff.mpr named
    rw [List.length_cons] at short enough
    rw [statementLoop_round named fuel mark rest scratch (by rw [List.length_cons]; unfold npos; omega)]
    -- the statement that is found, whether it is the last one or not
    have decoded : ∀ value, valueOf key (rest.takeWhile (· ≠ ampersand)) = some value →
        ∃ last, decodeLoop value.length fuel 0 0 value = some (decode (value.takeWhile (· ≠ 0)), last) := by
      intro value own
      have size := valueOf_length own
      obtain ⟨last, run⟩ := @decodeLoop_decode value.length 0 0 value value fuel List.drop_zero rfl (Nat.le_refl _)
        (Nat.zero_le _) (by omega) (by omega)
      refine ⟨last, ?_⟩
      rw [run, List.take_zero]
      simp
    cases tail : rest.dropWhile (· ≠ ampersand) with
    | nil =>
      rw [tail, List.append_nil] at whole
      have found : findValue key rest = valueOf key (rest.takeWhile (· ≠ ampersand)) := by
        conv_lhs => rw [← whole]
        exact findValue_last none_
      unfold queryAnswer
      rw [found]
      cases own : valueOf key (rest.takeWhile (· ≠ ampersand)) with
      | none =>
        obtain ⟨fuel, rfl⟩ : ∃ n, fuel = n + 1 := ⟨fuel - 1, by omega⟩
        exact ⟨scratch, rfl⟩
      | some value => exact decoded value own
    | cons sign more =>
      have own_sign : sign = ampersand := by
        have head := List.head?_dropWhile_not (fun x => decide (x ≠ ampersand)) rest
        rw [tail] at head
        simpa using head
      subst own_sign
      rw [tail] at whole
      have size := congrArg List.length whole
      rw [List.length_append, List.length_cons] at size
      have found : findValue key rest = (valueOf key (rest.takeWhile (· ≠ ampersand))).or (findValue key more) := by
        conv_lhs => rw [← whole]
        exact findValue_next none_
      unfold queryAnswer
      rw [found]
      cases own : valueOf key (rest.takeWhile (· ≠ ampersand)) with
      | none => exact ih ampersand more (by rw [List.length_cons]; omega) (by rw [List.length_cons]; omega)
      | some value => exact decoded value own

theorem getDecodedQueryValue_answer (named : key ≠ []) (mark : UInt8) (scratch : Bytes) {fuel : Nat}
    (short : (mark :: text).length < 2 ^ 32) (enough : (mark :: text).length < fuel) :
    ∃ last, getDecodedQueryValue fuel key (mark :: text) scratch = some (queryAnswer key text, last) := by
  rw [getDecodedQueryValue, if_neg fun empty => named (List.eq_nil_of_length_eq_zero empty)]
  exact statementLoop_answer named fuel mark text scratch short enough

theorem lookups_answers {mark : UInt8} {req : QueryState} (raw : req.value.drop req.querySeparator = mark :: text)
    {keys : List Bytes} (named : ∀ key ∈ keys, key ≠ []) {fuel : Nat} (short : (mark :: text).length < 2 ^ 32)
    (enough : (mark :: text).length < fuel) :
    ∃ queryValue, lookups fuel req keys = some (keys.map (queryAnswer · text), { req with queryValue }) := by
  induction keys generalizing req with
  | nil => exact ⟨req.queryValue, rfl⟩
  | cons key keys ih =>
    obtain ⟨last, first⟩ :=
      getDecodedQueryValue_answer (named key List.mem_cons_self) mark req.queryValue short enough
    obtain ⟨queryValue, later⟩ := @ih { req with queryValue := last } raw
      (fun other member => named other (List.mem_cons_of_mem _ member))
    refine ⟨queryValue, ?_⟩
    rw [lookups, getQuery, raw, first, Option.map_some, Option.bind_some]
    dsimp only
    rw [later]
    rfl

theorem start_raw {path : Bytes} (separated : (63 : UInt8) ∉ path) (text : Bytes) :
    (QueryState.start (path ++ 63 :: text)).value.drop (QueryState.start (path ++ 63 :: text)).querySeparator =
      63 :: text := by
  have each : ∀ c ∈ path, decide (c ≠ (63 : UInt8)) = true := by
    intro c member
    rw [decide_eq_true_eq]
    rintro rfl
    exact separated member
  show (path ++ 63 :: text).drop ((path ++ 63 :: text).takeWhile (· ≠ 63)).length = _
  rw [List.takeWhile_append_of_pos each, List.takeWhile_cons_of_neg (by simp), List.append_nil, List.drop_left]

theorem queryAnswer_query (escaping : Escaping) {pairs : List (Bytes × Bytes)}
    (plain : ∀ pair ∈ pairs, PlainKey escaping pair.1) (key : Bytes) :
    queryAnswer key (escaping.query pairs) = pairs.lookup key := by
  rw [queryAnswer, escaping.findValue_query plain]
  cases pairs.lookup key with
  | none => rfl
  | some value =>
    have all : (escaping.encode value).takeWhile (· ≠ 0) = escaping.encode value := by
      apply List.takeWhile_eq_self_iff.mpr
      intro c member
      rw [decide_eq_true_eq]
      rintro rfl
      exact (escaping.encode_kept value).2 member
    show decode ((escaping.encode value).takeWhile (· ≠ 0)) = some value
    rw [all, escaping.decode_encode]

end Statements

/-- The reference for a value as a whole, whatever bytes it has. -/
def wholeAnswer (key text : Bytes) : Option Bytes := (findValue key text).bind decode

theorem decodeLoop_endless {n : Nat} (long : 2 ^ 32 ≤ n) (fuel : Nat) {i out : Nat} (first : i < 2 ^ 32) (second : out < 2 ^ 32) :
    decodeLoop n fuel i out (List.replicate n 97) = none := by
  induction fuel generalizing i out with
  | zero => rfl
  | succ fuel ih =>
    have read : charAt (List.replicate n 97) i = 97 := by
      rw [charAt, List.getD_eq_getElem?_getD, List.getElem?_replicate, if_pos (by omega)]
      rfl
    have same : (List.replicate n (97 : UInt8)).set out 97 = List.replicate n 97 := by
      apply List.ext_getElem?
      intro k
      rw [List.getElem?_set, List.getElem?_replicate, List.length_replicate]
      split
      · rename_i own
        rw [← own]
      · rfl
    rw [decodeLoop, read, if_pos ⟨by omega, by decide⟩, if_neg (by decide), if_neg (by decide), same]
    exact ih (Nat.mod_lt _ (by decide)) (Nat.mod_lt _ (by decide))

theorem getDecodedQueryValue_endless {n : Nat} (long : 2 ^ 32 ≤ n) (short : n + 3 < npos) (fuel : Nat) :
    getDecodedQueryValue fuel [97] (63 :: 97 :: 61 :: List.replicate n 97) [] = none := by
  rw [getDecodedQueryValue, if_neg (by decide)]
  cases fuel with
  | zero => rfl
  | succ fuel =>
    have all : (97 :: 61 :: List.replicate n 97).takeWhile (fun c => decide (c ≠ ampersand)) =
        97 :: 61 :: List.replicate n (97 : UInt8) := by
      apply List.takeWhile_eq_self_iff.mpr
      intro c member
      rw [List.mem_cons, List.mem_cons, List.mem_replicate] at member
      rcases member with rfl | rfl | ⟨-, rfl⟩ <;> decide
    have own : valueOf [97] (97 :: 61 :: List.replicate n 97) = some (List.replicate n 97) := by
      have split_ := @valueOf_split [97] [97] (List.replicate n 97) (by decide)
      rw [if_pos rfl] at split_
      exact split_
    rw [statementLoop_round (by decide) fuel 63 _ [] (by simpa using short), all, own]
    show decodeLoop (List.replicate n 97).length fuel 0 0 (List.replicate n 97) = none
    rw [List.length_replicate]
    exact decodeLoop_endless long fuel (Nat.two_pow_pos 32) (Nat.two_pow_pos 32)

/-- A null byte ends a value early, and a value of 2 ^ 32 bytes is never decoded to its end. -/
theorem value_not_whole :
    (∃ last, getDecodedQueryValue 20 (ascii "a") (ascii "?a=x" ++ [0] ++ ascii "y") [] = some (some (ascii "x"), last)) ∧
      wholeAnswer (ascii "a") (ascii "a=x" ++ [0] ++ ascii "y") = some (ascii "x" ++ [0] ++ ascii "y") ∧
        ∀ fuel, getDecodedQueryValue fuel [97] (63 :: 97 :: 61 :: List.replicate (2 ^ 32) 97) [] = none := by
  refine ⟨⟨[120, 0, 121], by decide +kernel⟩, by decide +kernel, ?_⟩
  apply getDecodedQueryValue_endless (Nat.le_refl _)
  unfold npos
  omega

/-- Every lookup ends and is the reference's for the query; a lookup changes nothing that a later one reads; and the first
    value of a key is found in what was written with escapes. -/
theorem lookups_reference {path text : Bytes} (separated : (63 : UInt8) ∉ path) (short : text.length + 1 < 2 ^ 32) :
    (∀ key scratch, key ≠ [] → ∀ fuel, text.length + 1 < fuel →
        ∃ last, getDecodedQueryValue fuel key (63 :: text) scratch = some (queryAnswer key text, last)) ∧
      (∀ keys : List Bytes, (∀ key ∈ keys, key ≠ []) → ∀ fuel, text.length + 1 < fuel →
        ∃ queryValue, lookups fuel (.start (path ++ 63 :: text)) keys =
          some (keys.map (queryAnswer · text), { QueryState.start (path ++ 63 :: text) with queryValue })) ∧
        ∀ (escaping : Escaping) (pairs : List (Bytes × Bytes)), (∀ pair ∈ pairs, PlainKey escaping pair.1) →
          text = escaping.query pairs → ∀ key, queryAnswer key text = pairs.lookup key := by
  refine ⟨fun key scratch named fuel enough => ?_, fun keys named fuel enough => ?_, ?_⟩
  · exact getDecodedQueryValue_answer named 63 scratch short enough
  · exact lookups_answers (start_raw separated text) named short enough
  · rintro escaping pairs plain rfl key
    exact queryAnswer_query escaping plain key

theorem lookups_reference_sample :
    queryAnswer (ascii "b") (ascii "a=1&b=%2B+&b=3") = some (ascii "+ ") ∧
      ∃ last, getDecodedQueryValue 20 (ascii "b") (63 :: ascii "a=1&b=%2B+&b=3") [] =
        some (queryAnswer (ascii "b") (ascii "a=1&b=%2B+&b=3"), last) :=
  ⟨by decide +kernel, (@lookups_reference (ascii "/a") (ascii "a=1&b=%2B+&b=3") (by decide +kernel)
    (by decide +kernel)).1 (ascii "b") [] (by decide +kernel) 20 (by decide +kernel)⟩

end Uws.Http
