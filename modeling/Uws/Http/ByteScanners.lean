import Uws.Http.HeaderScan
import Uws.Library.WordLanes

namespace Uws.Http.Scanners

open Uws.WordLanes

/-- Where a scanner stands: the bytes that it passed, as they are in the buffer now, and those from `p` on. -/
structure Scan where
  passed : Bytes
  p : Bytes
  deriving DecidableEq, Repr

def Scan.behind (front : Bytes) (scan : Scan) : Scan := { scan with passed := front ++ scan.passed }

/-- A loop that passes byte after byte and may change a byte it passes in place. It is undefined where it
    would read outside of the buffer. -/
def passWhile (passes : UInt8 → Option UInt8) : Bytes → Option Scan
  | [] => none
  | c :: p =>
    match passes c with
    | some c => (passWhile passes p).map (Scan.behind [c])
    | none => some ⟨[], c :: p⟩

def hasLess (x n : UInt64) : UInt64 := (x - ~~~0 / 255 * n) &&& ~~~x &&& (~~~0 / 255 * 128)

/-- A word as it is copied out of the buffer, the first byte being the lowest one. -/
def loadWord (bytes : Bytes) : UInt64 := UInt64.ofNat (ofLanes (bytes.map UInt8.toBitVec))

def scanWords (n : UInt64) (last : UInt8) : Bytes → Option Scan
  | b₀ :: b₁ :: b₂ :: b₃ :: b₄ :: b₅ :: b₆ :: b₇ :: p =>
    if hasLess (loadWord [b₀, b₁, b₂, b₃, b₄, b₅, b₆, b₇]) n ≠ 0 then
      passWhile (fun c => if last < c then some c else none) (b₀ :: b₁ :: b₂ :: b₃ :: b₄ :: b₅ :: b₆ :: b₇ :: p)
    else (scanWords n last p).map (Scan.behind [b₀, b₁, b₂, b₃, b₄, b₅, b₆, b₇])
  | _ => none

def tryConsumeFieldValue (p : Bytes) : Option Scan := scanWords 32 31 p

/-- The scan of `consumeRequestLine` for the end of the target. -/
def scanTarget (data : Bytes) : Option Scan := scanWords 33 32 data

/-- Compared as the signed `char` that the loops of `consumeFieldName` see. -/
def isUpperChar (c : UInt8) : Bool := 65 ≤ c.toInt8 && c.toInt8 ≤ 90

def isLowerChar (c : UInt8) : Bool := 97 ≤ c.toInt8 && c.toInt8 ≤ 122

/-- Whether the byte belongs to a name, and what is left in its place. -/
def isFieldNameByteFastLowercased (c : UInt8) : Option UInt8 :=
  if (97 ≤ c && c ≤ 122) || c == 45 then some c
  else if 65 ≤ c && c ≤ 90 then some (c ||| 32)
  else if isUnlikelyFieldNameByte c then some c
  else none

/-- The fast path of `consumeFieldName`, and whether it returned on a colon or was left on another byte. -/
def fastPath : Nat → Bytes → Option (Bool × Scan)
  | 0, _ => none
  | fuel + 1, p => do
    let upper ← passWhile (fun c => if isUpperChar c then some (c ||| 32) else none) p
    let lower ← passWhile (fun c => if isLowerChar c then some c else none) upper.p
    let passed := upper.passed ++ lower.passed
    match lower.p with
    | [] => none
    | c :: p =>
      if c = colon then some (true, ⟨passed, c :: p⟩)
      else if c = 45 then (fastPath fuel p).map fun (returned, scan) => (returned, scan.behind (passed ++ [c]))
      else if isUpperChar c then (fastPath fuel (c :: p)).map fun (returned, scan) => (returned, scan.behind passed)
      else some (false, ⟨passed, c :: p⟩)

def consumeFieldName (p : Bytes) : Option Scan := do
  match ← fastPath p.length p with
  | (true, scan) => some scan
  | (false, scan) => (passWhile isFieldNameByteFastLowercased scan.p).map (Scan.behind scan.passed)

/-- The loop of `getHeaders` around `tryConsumeFieldValue`, which goes on behind a TAB: the value up to a
    CR, or nothing where it meets a byte that is not allowed. -/
def fieldValueLoop : Nat → Bytes → Option (Option Scan)
  | 0, _ => none
  | fuel + 1, p => do
    let scan ← tryConsumeFieldValue p
    match scan.p with
    | [] => none
    | c :: p =>
      if c ≠ cr then
        if c = tab then (fieldValueLoop fuel p).map (Option.map (Scan.behind (scan.passed ++ [c])))
        else some none
      else some (some ⟨scan.passed, c :: p⟩)

theorem first_stop (t : UInt8 → Bool) (body : Bytes) {fence : UInt8} (past : Bytes) (stops : t fence = false) :
    ∃ c rest, (body ++ fence :: past).dropWhile t = c :: rest ∧ t c = false ∧ past.length ≤ rest.length := by
  induction body with
  | nil =>
    refine ⟨fence, past, ?_, stops, Nat.le_refl _⟩
    exact List.dropWhile_cons_of_neg (by rw [stops]; decide)
  | cons b body ih =>
    rw [List.cons_append]
    by_cases passes : t b = true
    · rw [List.dropWhile_cons_of_pos passes]
      exact ih
    · refine ⟨b, body ++ fence :: past, List.dropWhile_cons_of_neg passes, eq_false_of_ne_true passes, ?_⟩
      rw [List.length_append, List.length_cons]
      omega

section Loops

variable {passes : UInt8 → Option UInt8} {t : UInt8 → Bool} {f : UInt8 → UInt8}

theorem passWhile_front (table : ∀ c, passes c = if t c then some (f c) else none) (front : Bytes) {c : UInt8} (stops : t c = false)
    (rest : Bytes) :
    passWhile passes (front ++ c :: rest) = some ⟨(front.takeWhile t).map f, front.dropWhile t ++ c :: rest⟩ := by
  induction front with
  | nil =>
    show passWhile passes (c :: rest) = _
    rw [passWhile, table, stops]
    rfl
  | cons b front ih =>
    rw [List.cons_append, passWhile, table]
    by_cases passed : t b = true
    · rw [if_pos passed, List.takeWhile_cons_of_pos passed, List.dropWhile_cons_of_pos passed]
      show (passWhile passes (front ++ c :: rest)).map (Scan.behind [f b]) = _
      rw [ih]
      rfl
    · rw [if_neg passed, List.takeWhile_cons_of_neg passed, List.dropWhile_cons_of_neg passed]
      rfl

theorem passWhile_stop (table : ∀ c, passes c = if t c then some (f c) else none) {front : Bytes} (passed : ∀ b ∈ front, t b = true)
    {c : UInt8} (stops : t c = false) (rest : Bytes) :
    passWhile passes (front ++ c :: rest) = some ⟨front.map f, c :: rest⟩ := by
  rw [passWhile_front table front stops, List.takeWhile_eq_self_iff.mpr passed, List.dropWhile_eq_nil_iff.mpr passed]
  rfl

end Loops

section Words

theorem replicate_lanes (n : UInt64) (small : n.toNat < 256) :
    (~~~0 / 255 * n : UInt64).toNat = ofLanes (List.replicate 8 (BitVec.ofNat 8 n.toNat)) := by
  have ones : (~~~0 / 255 : UInt64).toNat = 0x0101010101010101 := by decide
  rw [UInt64.toNat_mul, ones, Nat.mod_eq_of_lt (by omega)]
  simp only [List.replicate, ofLanes, BitVec.toNat_ofNat, Nat.mod_eq_of_lt small]
  omega

theorem loadWord_toNat (bytes : Bytes) (eight : bytes.length = 8) : (loadWord bytes).toNat = ofLanes (bytes.map UInt8.toBitVec) := by
  have below := ofLanes_lt (bytes.map UInt8.toBitVec)
  rw [List.length_map, eight] at below
  rw [loadWord, UInt64.toNat_ofNat']
  exact Nat.mod_eq_of_lt below

theorem hasLess_iff (bytes : Bytes) (eight : bytes.length = 8) (n : UInt64) (half : n.toNat ≤ 128) :
    hasLess (loadWord bytes) n ≠ 0 ↔ ∃ b ∈ bytes, b.toNat < n.toNat := by
  have length : (bytes.map UInt8.toBitVec).length = 8 := by rw [List.length_map, eight]
  have difference : (loadWord bytes - ~~~0 / 255 * n).toNat = ofLanes (subtract n.toNat 0 (bytes.map UInt8.toBitVec)) := by
    obtain ⟨out, balance⟩ := subtract_lanes n.toNat 0 (by omega) (by omega) (bytes.map UInt8.toBitVec)
    have below := ofLanes_lt (subtract n.toNat 0 (bytes.map UInt8.toBitVec))
    have fits := ofLanes_lt (bytes.map UInt8.toBitVec)
    have taken := ofLanes_lt (List.replicate 8 (BitVec.ofNat 8 n.toNat))
    rw [length] at balance fits
    rw [subtract_length, length] at below
    rw [List.length_replicate] at taken
    rw [UInt64.toNat_sub, replicate_lanes n (by omega), loadWord_toNat bytes eight]
    omega
  have complement : (~~~loadWord bytes).toNat = ofLanes ((bytes.map UInt8.toBitVec).map (~~~ ·)) := by
    have whole := ofLanes_not (bytes.map UInt8.toBitVec)
    rw [length] at whole
    rw [UInt64.toNat_not, loadWord_toNat bytes eight]
    show 2 ^ 64 - 1 - _ = _
    omega
  have top : (~~~0 / 255 * 128 : UInt64).toNat = ofLanes (List.replicate (bytes.map UInt8.toBitVec).length (BitVec.intMin 8)) := by
    rw [length]
    decide
  have lanes : (hasLess (loadWord bytes) n).toNat = ofLanes (marks n.toNat 0 (bytes.map UInt8.toBitVec)) := by
    rw [hasLess, UInt64.toNat_and, UInt64.toNat_and, difference, complement, top, Nat.and_assoc, ofLanes_marks]
  rw [Ne, ← UInt64.toNat_inj, lanes]
  show ¬ ofLanes _ = 0 ↔ _
  have marked : (∃ mark ∈ marks n.toNat 0 (bytes.map UInt8.toBitVec), mark ≠ 0#8) ↔ _ := marks_iff (by decide) n.toNat half _
  rw [ofLanes_eq_zero]
  simp only [not_forall, exists_prop]
  rw [marked]
  simp only [List.mem_map, exists_exists_and_eq_and]
  rfl

theorem scanWords_round (n : UInt64) (last : UInt8) (front p : Bytes) (eight : front.length = 8) :
    scanWords n last (front ++ p) =
      if hasLess (loadWord front) n ≠ 0 then passWhile (fun c => if last < c then some c else none) (front ++ p)
      else (scanWords n last p).map (Scan.behind front) := by
  match front, eight with
  | [_, _, _, _, _, _, _, _], _ => rfl

theorem above_iff {n : UInt64} {last : UInt8} (next : n.toNat = last.toNat + 1) (c : UInt8) : last < c ↔ ¬ c.toNat < n.toNat := by
  rw [UInt8.lt_iff_toNat_lt]
  omega

theorem scanWords_stop {n : UInt64} {last : UInt8} (next : n.toNat = last.toNat + 1) (half : n.toNat ≤ 128) (front : Bytes)
    (passed : ∀ b ∈ front, last < b) {c : UInt8} (stops : ¬ last < c) (rest : Bytes) (readable : 7 ≤ rest.length) :
    scanWords n last (front ++ c :: rest) = some ⟨front, c :: rest⟩ := by
  induction length : front.length using Nat.strong_induction_on generalizing front with
  | _ size ih =>
    subst length
    by_cases short : front.length < 8
    · -- The word that is loaded covers the stop, and ends inside of the buffer.
      have less : hasLess (loadWord ((front ++ c :: rest).take 8)) n ≠ 0 := by
        rw [hasLess_iff _ (by rw [List.length_take, List.length_append, List.length_cons]; omega) n half]
        refine ⟨c, ?_, by rw [above_iff next] at stops; exact not_not.mp stops⟩
        rw [List.take_append, show 8 - front.length = 7 - front.length + 1 by omega, List.take_succ_cons]
        exact List.mem_append_right _ List.mem_cons_self
      have scanned : passWhile (fun c => if last < c then some c else none) (front ++ c :: rest) = some ⟨front.map id, c :: rest⟩ := by
        apply @passWhile_stop _ (fun c => decide (last < c))
        · intro b
          simp only [decide_eq_true_eq]
          rfl
        · intro b member
          exact decide_eq_true (passed b member)
        · exact decide_eq_false stops
      rw [← List.take_append_drop 8 (front ++ c :: rest), scanWords_round n last _ _ (by
        rw [List.length_take, List.length_append, List.length_cons]; omega), if_pos less, List.take_append_drop, scanned, List.map_id]
    · have whole := List.take_append_drop 8 front
      have clear : ¬ hasLess (loadWord (front.take 8)) n ≠ 0 := by
        rw [hasLess_iff _ (by rw [List.length_take]; omega) n half]
        rintro ⟨b, member, less⟩
        exact (above_iff next b).mp (passed b (List.mem_of_mem_take member)) less
      have later := ih (front.drop 8).length (by rw [List.length_drop]; omega) (front.drop 8)
        (fun b member => passed b (List.mem_of_mem_drop member)) rfl
      conv => lhs; rw [← whole, List.append_assoc]
      rw [scanWords_round n last _ _ (by rw [List.length_take]; omega), if_neg clear, later]
      show some (Scan.mk (front.take 8 ++ front.drop 8) (c :: rest)) = _
      rw [whole]

theorem scanWords_eq {n : UInt64} {last : UInt8} (next : n.toNat = last.toNat + 1) (half : n.toNat ≤ 128) (body : Bytes)
    {fence : UInt8} (stops : ¬ last < fence) (past : Bytes) (readable : 7 ≤ past.length) :
    scanWords n last (body ++ fence :: past) =
      some ⟨(body ++ fence :: past).takeWhile (last < ·), (body ++ fence :: past).dropWhile (last < ·)⟩ := by
  obtain ⟨c, rest, cut, ends, longer⟩ := first_stop (last < ·) body past (decide_eq_false stops)
  have whole := List.takeWhile_append_dropWhile (p := fun c => decide (last < c)) (l := body ++ fence :: past)
  rw [cut] at whole ⊢
  conv => lhs; rw [← whole]
  apply scanWords_stop next half
  · intro b member
    have above := List.mem_takeWhile_imp member
    exact of_decide_eq_true above
  · exact of_decide_eq_false ends
  · omega

theorem scanWords_findIdx {n : UInt64} {last below : UInt8} (next : n.toNat = last.toNat + 1) (same : below.toNat = n.toNat)
    (half : n.toNat ≤ 128) (body : Bytes) {fence : UInt8} (stops : fence < below) (past : Bytes) (readable : 7 ≤ past.length) :
    scanWords n last (body ++ fence :: past) =
      some ⟨(body ++ fence :: past).take ((body ++ fence :: past).findIdx (· < below)),
        (body ++ fence :: past).drop ((body ++ fence :: past).findIdx (· < below))⟩ := by
  have opposite : ∀ c : UInt8, last < c ↔ ¬ c < below := by
    intro c
    rw [above_iff next, UInt8.lt_iff_toNat_lt, same]
  have not_above : (fun c : UInt8 => !decide (last < c)) = fun c => decide (c < below) := by
    funext c
    rw [decide_eq_decide.mpr (opposite c), decide_not, Bool.not_not]
  rw [scanWords_eq next half body (fun above => (opposite fence).mp above stops) past readable, List.takeWhile_eq_take_findIdx_not,
    List.dropWhile_eq_drop_findIdx_not, not_above]

end Words

section Names

theorem isUpperChar_eq (c : UInt8) : isUpperChar c = isUpper c := by
  have all : ∀ n < 256, isUpperChar (UInt8.ofNat n) = isUpper (UInt8.ofNat n) := by decide +kernel
  have own := all c.toNat c.toNat_lt
  rwa [UInt8.ofNat_toNat] at own

theorem isLowerChar_eq (c : UInt8) : isLowerChar c = isLower c := by
  have all : ∀ n < 256, isLowerChar (UInt8.ofNat n) = isLower (UInt8.ofNat n) := by decide +kernel
  have own := all c.toNat c.toNat_lt
  rwa [UInt8.ofNat_toNat] at own

theorem isFieldNameByteFast_tchar (c : UInt8) : isFieldNameByteFast c = isTchar c := by
  have all : ∀ n < 256, isFieldNameByteFast (UInt8.ofNat n) = isTchar (UInt8.ofNat n) := by decide +kernel
  have own := all c.toNat c.toNat_lt
  rwa [UInt8.ofNat_toNat] at own

theorem isFieldNameByteFastLowercased_eq (c : UInt8) :
    isFieldNameByteFastLowercased c = if isFieldNameByteFast c then some (lowercased c) else none := by
  have all : ∀ n < 256, isFieldNameByteFastLowercased (UInt8.ofNat n) =
      if isFieldNameByteFast (UInt8.ofNat n) then some (lowercased (UInt8.ofNat n)) else none := by decide +kernel
  have own := all c.toNat c.toNat_lt
  rwa [UInt8.ofNat_toNat] at own

theorem lowercased_upper {c : UInt8} (upper : isUpper c = true) : lowercased c = c ||| 32 := if_pos upper

theorem lowercased_lower {c : UInt8} (lower : isLower c = true) : lowercased c = c := by
  apply if_neg
  rw [isLower, Bool.and_eq_true, decide_eq_true_iff, decide_eq_true_iff] at lower
  rw [isUpper, Bool.and_eq_true, decide_eq_true_iff, decide_eq_true_iff]
  intro upper
  have above := UInt8.le_iff_toNat_le.mp lower.1
  have below := UInt8.le_iff_toNat_le.mp upper.2
  exact absurd (above.trans below) (by decide)

theorem letters_passed (front : Bytes) {c : UInt8} (rest : Bytes) (upper : isUpper c = false) (lower : isLower c = false) :
    ∃ capitals small later, front = capitals ++ (small ++ later) ∧
      passWhile (fun c => if isUpperChar c then some (c ||| 32) else none) (front ++ c :: rest) =
        some ⟨capitals.map lowercased, small ++ later ++ c :: rest⟩ ∧
      passWhile (fun c => if isLowerChar c then some c else none) (small ++ later ++ c :: rest) =
        some ⟨small.map lowercased, later ++ c :: rest⟩ ∧
      (∀ d tail, later = d :: tail → isUpper d = true → capitals ++ small ≠ []) := by
  have raised : (front.takeWhile isUpper).map (· ||| 32) = (front.takeWhile isUpper).map lowercased := by
    apply List.map_congr_left
    intro b member
    exact (lowercased_upper (List.mem_takeWhile_imp member)).symm
  have kept : ((front.dropWhile isUpper).takeWhile isLower).map id = ((front.dropWhile isUpper).takeWhile isLower).map lowercased := by
    apply List.map_congr_left
    intro b member
    exact (lowercased_lower (List.mem_takeWhile_imp member)).symm
  refine ⟨front.takeWhile isUpper, (front.dropWhile isUpper).takeWhile isLower, (front.dropWhile isUpper).dropWhile isLower, ?_, ?_, ?_, ?_⟩
  · rw [List.takeWhile_append_dropWhile, List.takeWhile_append_dropWhile]
  · rw [List.takeWhile_append_dropWhile, ← raised]
    apply passWhile_front _ front upper
    intro b
    rw [isUpperChar_eq]
  · rw [List.takeWhile_append_dropWhile, ← kept]
    apply passWhile_front _ (front.dropWhile isUpper) lower
    intro b
    rw [isLowerChar_eq]
    rfl
  · intro d tail later capital none_
    obtain ⟨capitals, small⟩ := List.append_eq_nil_iff.mp none_
    have start := List.head?_dropWhile_not isUpper front
    have whole := List.takeWhile_append_dropWhile (p := isLower) (l := front.dropWhile isUpper)
    rw [small, later] at whole
    rw [← whole] at start
    simp [capital] at start

theorem fastPath_front (fuel : Nat) (front : Bytes) (field : ∀ b ∈ front, isFieldNameByteFast b = true) {c : UInt8}
    (stops : isFieldNameByteFast c = false) (rest : Bytes) (enough : front.length < fuel) :
    ∃ returned fast slow, front = fast ++ slow ∧
      fastPath fuel (front ++ c :: rest) = some (returned, ⟨fast.map lowercased, slow ++ c :: rest⟩) ∧
      (returned = true → slow = []) := by
  obtain ⟨⟨lower, hyphen⟩, upper⟩ : (isLower c = false ∧ (c == 45) = false) ∧ isUpper c = false := by
    simp only [isFieldNameByteFast, Bool.or_eq_false_iff] at stops
    exact ⟨stops.1.1, stops.1.2⟩
  induction fuel generalizing front with
  | zero => exact absurd enough (Nat.not_lt_zero _)
  | succ fuel ih =>
    obtain ⟨capitals, small, later, rfl, first, second, progress⟩ := letters_passed front rest upper lower
    rw [List.length_append, List.length_append] at enough
    have after : ∀ b ∈ later, isFieldNameByteFast b = true :=
      fun b member => field b (List.mem_append_right _ (List.mem_append_right _ member))
    unfold fastPath
    rw [first]
    simp only [Option.bind_eq_bind, Option.bind_some]
    rw [second]
    simp only [Option.bind_some]
    rw [← List.map_append]
    cases later with
    | nil =>
      rw [List.nil_append]
      dsimp only
      by_cases ended : c = colon
      · rw [if_pos ended]
        exact ⟨true, capitals ++ small, [], by simp, rfl, fun _ => rfl⟩
      · have not_hyphen : ¬ c = 45 := by
          intro same
          rw [same] at hyphen
          cases hyphen
        rw [if_neg ended, if_neg not_hyphen, isUpperChar_eq, upper, if_neg Bool.false_ne_true]
        exact ⟨false, capitals ++ small, [], by simp, rfl, fun _ => rfl⟩
    | cons d tail =>
      have own := after d List.mem_cons_self
      have not_colon : ¬ d = colon := by
        intro same
        rw [same, isFieldNameByteFast_colon] at own
        cases own
      rw [List.cons_append]
      dsimp only
      rw [if_neg not_colon]
      rw [List.length_cons] at enough
      by_cases dash : d = 45
      · subst dash
        obtain ⟨returned, fast, slow, rfl, went, ended⟩ := ih tail (fun b member => after b (List.mem_cons_of_mem _ member)) (by omega)
        rw [if_pos rfl, went]
        have joined : (capitals ++ small ++ 45 :: fast).map lowercased =
            (capitals ++ small).map lowercased ++ [45] ++ fast.map lowercased := by
          rw [List.map_append, List.map_cons, List.append_cons]
          rfl
        refine ⟨returned, capitals ++ small ++ 45 :: fast, slow, by simp, ?_, ended⟩
        rw [joined]
        rfl
      · rw [if_neg dash, isUpperChar_eq]
        by_cases capital : isUpper d = true
        · -- Another round goes on with the capital, behind at least one letter of this round.
          have moved := progress d tail rfl capital
          have some_ : 0 < capitals.length + small.length := by
            rw [← List.length_append]
            exact List.length_pos_iff.mpr moved
          obtain ⟨returned, fast, slow, split, went, ended⟩ := ih (d :: tail) after (by rw [List.length_cons]; omega)
          rw [if_pos capital, ← List.cons_append, went, split]
          refine ⟨returned, capitals ++ small ++ fast, slow, by simp, ?_, ended⟩
          rw [@List.map_append _ _ lowercased (capitals ++ small) fast]
          rfl
        · rw [if_neg capital]
          exact ⟨false, capitals ++ small, d :: tail, by simp, rfl, fun wrong => absurd wrong Bool.false_ne_true⟩

theorem consumeFieldName_stop (front : Bytes) (field : ∀ b ∈ front, isFieldNameByteFast b = true) {c : UInt8}
    (stops : isFieldNameByteFast c = false) (rest : Bytes) :
    consumeFieldName (front ++ c :: rest) = some ⟨front.map lowercased, c :: rest⟩ := by
  obtain ⟨returned, fast, slow, rfl, went, ended⟩ := fastPath_front (front ++ c :: rest).length front field stops rest (by
    rw [List.length_append, List.length_cons]; omega)
  rw [consumeFieldName, went]
  cases returned with
  | true =>
    rw [ended rfl, List.append_nil]
    rfl
  | false =>
    have generic := passWhile_stop isFieldNameByteFastLowercased_eq (fun b member => field b (List.mem_append_right _ member)) stops rest
    show (passWhile isFieldNameByteFastLowercased (slow ++ c :: rest)).map (Scan.behind (fast.map lowercased)) = _
    rw [generic, List.map_append]
    rfl

theorem consumeFieldName_token (body : Bytes) {fence : UInt8} (stops : isTchar fence = false) (past : Bytes) :
    consumeFieldName (body ++ fence :: past) =
        some ⟨((body ++ fence :: past).takeWhile isTchar).map lowercased, (body ++ fence :: past).dropWhile isTchar⟩ ∧
      consumeFieldName (((body ++ fence :: past).takeWhile isTchar).map lowercased ++ (body ++ fence :: past).dropWhile isTchar) =
        some ⟨((body ++ fence :: past).takeWhile isTchar).map lowercased, (body ++ fence :: past).dropWhile isTchar⟩ := by
  obtain ⟨c, rest, cut, ends, -⟩ := first_stop isTchar body past stops
  have whole := List.takeWhile_append_dropWhile (p := isTchar) (l := body ++ fence :: past)
  have field : ∀ b ∈ (body ++ fence :: past).takeWhile isTchar, isFieldNameByteFast b = true := by
    intro b member
    rw [isFieldNameByteFast_tchar]
    exact List.mem_takeWhile_imp member
  have low : ∀ b ∈ ((body ++ fence :: past).takeWhile isTchar).map lowercased, isFieldNameByteFast b = true := by
    intro b member
    obtain ⟨raw, own, rfl⟩ := List.mem_map.mp member
    exact lowercased_field raw (field raw own)
  rw [← isFieldNameByteFast_tchar] at ends
  rw [cut] at whole ⊢
  refine ⟨?_, ?_⟩
  · conv => lhs; rw [← whole]
    exact consumeFieldName_stop _ field ends rest
  · rw [consumeFieldName_stop _ low ends rest, map_lowercased_twice]

end Names

section Fence

theorem takeWhile_fence {t : UInt8 → Bool} (body : Bytes) {fence : UInt8} (stops : t fence = false) (past : Bytes) :
    (body ++ fence :: past).takeWhile t = body.takeWhile t ∧ (body ++ fence :: past).dropWhile t = body.dropWhile t ++ fence :: past := by
  have neg : ¬ t fence = true := by
    rw [stops]
    decide
  induction body with
  | nil => exact ⟨List.takeWhile_cons_of_neg neg, List.dropWhile_cons_of_neg neg⟩
  | cons b body ih =>
    rw [List.cons_append]
    by_cases passes : t b = true
    · rw [List.takeWhile_cons_of_pos passes, List.takeWhile_cons_of_pos passes, List.dropWhile_cons_of_pos passes,
        List.dropWhile_cons_of_pos passes]
      exact ⟨congrArg (List.cons b) ih.1, ih.2⟩
    · rw [List.takeWhile_cons_of_neg passes, List.takeWhile_cons_of_neg passes, List.dropWhile_cons_of_neg passes,
        List.dropWhile_cons_of_neg passes]
      exact ⟨rfl, rfl⟩

variable (p past : Bytes)

theorem consumeFieldName_fence :
    consumeFieldName (p ++ cr :: past) = some ⟨(Http.consumeFieldName p).1, (Http.consumeFieldName p).2 ++ cr :: past⟩ := by
  obtain ⟨taken, left⟩ := @takeWhile_fence isTchar p cr (by decide) past
  have same : isFieldNameByteFast = isTchar := funext isFieldNameByteFast_tchar
  rw [(consumeFieldName_token p (by decide) past).1, taken, left, consumeFieldName_eq, same]

theorem scanTarget_fence (readable : 7 ≤ past.length) :
    scanTarget (p ++ cr :: past) = some ⟨p.takeWhile (32 < ·), p.dropWhile (32 < ·) ++ cr :: past⟩ := by
  obtain ⟨taken, left⟩ := @takeWhile_fence (32 < ·) p cr (by decide) past
  rw [scanTarget, scanWords_eq (by decide) (by decide) p (by decide) past readable, taken, left]

theorem tryConsumeFieldValue_fence (readable : 7 ≤ past.length) :
    tryConsumeFieldValue (p ++ cr :: past) = some ⟨p.takeWhile (31 < ·), p.dropWhile (31 < ·) ++ cr :: past⟩ := by
  obtain ⟨taken, left⟩ := @takeWhile_fence (31 < ·) p cr (by decide) past
  rw [tryConsumeFieldValue, scanWords_eq (by decide) (by decide) p (by decide) past readable, taken, left]

theorem fieldValueLoop_fence (readable : 7 ≤ past.length) (fuel : Nat) (enough : p.length < fuel) :
    fieldValueLoop fuel (p ++ cr :: past) =
      some ((Http.consumeFieldValue p).map fun (value, rest) => ⟨value, rest ++ cr :: past⟩) := by
  induction fuel generalizing p with
  | zero => exact absurd enough (Nat.not_lt_zero _)
  | succ fuel ih =>
    have whole := List.takeWhile_append_dropWhile (p := fun c : UInt8 => decide (31 < c)) (l := p)
    have passed : ∀ c ∈ p.takeWhile fun c => decide (31 < c), isFieldValueByte c := by
      intro c member
      have above := List.mem_takeWhile_imp member
      exact Or.inl (of_decide_eq_true above)
    have start := List.head?_dropWhile_not (fun c : UInt8 => decide (31 < c)) p
    have plain := consumeFieldValue_append _ (p.dropWhile fun c => decide (31 < c)) passed
    rw [whole] at plain
    unfold fieldValueLoop
    rw [tryConsumeFieldValue_fence p past readable, plain]
    simp only [Option.bind_eq_bind, Option.bind_some]
    cases behind : p.dropWhile fun c => decide (31 < c) with
    | nil =>
      rw [List.nil_append, Http.consumeFieldValue]
      simp only [ne_eq, not_true_eq_false, if_false, Option.map_some, List.append_nil, List.nil_append]
    | cons c tail =>
      have low : ¬ 31 < c := by
        rw [behind] at start
        exact of_decide_eq_false (by simpa using start)
      rw [List.cons_append]
      dsimp only
      by_cases ended : c = cr
      · rw [if_neg (not_not_intro ended), ended, consumeFieldValue_cr]
        simp only [Option.map_some, List.append_nil, List.cons_append]
      · rw [if_pos ended]
        by_cases blank : c = tab
        · have shorter : tail.length < fuel := by
            have total := congrArg List.length whole
            rw [behind, List.length_append, List.length_cons] at total
            omega
          have next : Http.consumeFieldValue (c :: tail) = _ := if_pos (Or.inr blank)
          rw [if_pos blank, ih tail shorter, next]
          cases Http.consumeFieldValue tail with
          | none => rfl
          | some found =>
            simp only [Option.map_some, Scan.behind, List.append_assoc]
            rfl
        · have refused : ¬ isFieldValueByte c := fun passes => passes.elim low blank
          rw [if_neg blank, consumeFieldValue_refused tail refused ended]
          rfl

end Fence

/-- The scanners find what byte by byte loops find, in any buffer with a byte that ends the scan. -/
theorem scanners_exact :
    (∀ (body : Bytes) (fence : UInt8) (past : Bytes), fence < 32 → 8 ≤ past.length →
      let p := body ++ fence :: past
      tryConsumeFieldValue p = some ⟨p.take (p.findIdx (· < 32)), p.drop (p.findIdx (· < 32))⟩) ∧
    (∀ (body : Bytes) (fence : UInt8) (past : Bytes), fence < 33 → 8 ≤ past.length →
      let p := body ++ fence :: past
      scanTarget p = some ⟨p.take (p.findIdx (· < 33)), p.drop (p.findIdx (· < 33))⟩) ∧
    (∀ (body : Bytes) (fence : UInt8) (past : Bytes), isTchar fence = false →
      let p := body ++ fence :: past
      let scan : Scan := ⟨(p.takeWhile isTchar).map lowercased, p.dropWhile isTchar⟩
      consumeFieldName p = some scan ∧ consumeFieldName (scan.passed ++ scan.p) = some scan) := by
  refine ⟨?_, ?_, ?_⟩
  · intro body fence past stops readable
    exact scanWords_findIdx (by decide) (by decide) (by decide) body stops past (by omega)
  · intro body fence past stops readable
    exact scanWords_findIdx (by decide) (by decide) (by decide) body stops past (by omega)
  · intro body fence past stops
    exact consumeFieldName_token body stops past

/-- The name of `X-Ab:`, and a value of ten bytes of which two are above 127. -/
theorem scanners_exact_field :
    consumeFieldName [88, 45, 65, 98, 58] = some ⟨[120, 45, 97, 98], [58]⟩ ∧
      tryConsumeFieldValue [48, 200, 49, 50, 51, 52, 53, 255, 54, 55, 13, 10, 0, 0, 0, 0, 0, 0, 0] =
        some ⟨[48, 200, 49, 50, 51, 52, 53, 255, 54, 55], [13, 10, 0, 0, 0, 0, 0, 0, 0]⟩ :=
  ⟨(scanners_exact.2.2 [88, 45, 65, 98] 58 [] (by decide)).1.trans (by decide),
    (scanners_exact.1 [48, 200, 49, 50, 51, 52, 53, 255, 54, 55] 13 [10, 0, 0, 0, 0, 0, 0, 0] (by decide) (by decide)).trans (by decide)⟩

end Uws.Http.Scanners
