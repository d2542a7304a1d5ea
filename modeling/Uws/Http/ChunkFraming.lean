import Uws.Http.ChunkDecoding

namespace Uws.Http

/-- The number that hex digits write behind an already read `value`. -/
def hexValue (value : Nat) (digits : Bytes) : Nat :=
  digits.foldl (fun value digit => 16 * value + (hexDigit digit).getD 0) value

def isHexDigit (digit : UInt8) : Bool := (hexDigit digit).isSome

def lineDigits (line : Bytes) : Bytes := line.takeWhile isHexDigit

/-- The digits that stand first in the reads of a line, up to a semicolon, or nothing if a byte other
    than a digit, a semicolon or a CR stands where a digit is read. -/
def readDigits : List Bytes → Option Bytes
  | [] => some []
  | read :: reads =>
    match (read.dropWhile isHexDigit).head? with
    | none => (readDigits reads).map (read.takeWhile isHexDigit ++ ·)
    | some stop =>
      if stop = 59 then some (read.takeWhile isHexDigit)
      else if stop = cr then (readDigits reads).map (read.takeWhile isHexDigit ++ ·)
      else none

def sizeLinePass : List Bytes → Bytes → BitVec 64 → ChunkPass
  | [], final, state => chunkPass final state
  | piece :: pieces, final, state =>
    let (_, data, state) := getNextChunk piece state
    if isParsingInvalidChunkedEncoding state then .stop data state
    else sizeLinePass pieces final state

/-- The pass over a completed line leads to the error state, or the line had a digit and the word is exactly
    the flags and the digits' value plus two; for the value 0 the final empty chunk is emitted. -/
def LineSound (pass : ChunkPass) (line rest : Bytes) : Prop :=
  let digits := lineDigits line
  match pass with
  | .stop _ state => isParsingInvalidChunkedEncoding state = true
  | .emit chunk left state =>
    chunk = [] ∧ left = rest ∧ state = stateIsTrailer ∧ digits ≠ [] ∧ hexValue 0 digits = 0
  | .again left state =>
    left = rest ∧ digits ≠ [] ∧ hexValue 0 digits ≠ 0 ∧
      state &&& ~~~stateSizeMask = stateHasSize ||| stateIsChunked ∧
      (chunkSize state).toNat = hexValue 0 digits + 2

/-- The line is refused, or it has a digit, a size that leaves room for the chunk's CRLF, and no read
    that adds digits behind a CR. -/
def LineRegular (pieces : List Bytes) (last : Bytes) : Prop :=
  match readDigits (pieces ++ [last]) with
  | none => True
  | some read =>
    let digits := lineDigits (pieces.flatten ++ last)
    2 ^ 60 ≤ hexValue 0 read ∨
      (digits ≠ [] ∧ hexValue 0 read = hexValue 0 digits ∧ hexValue 0 digits + 2 < 2 ^ 60)

@[simp] theorem hexValue_nil (value : Nat) : hexValue value [] = value := rfl

@[simp] theorem hexValue_cons (value : Nat) (digit : UInt8) (digits : Bytes) :
    hexValue value (digit :: digits) = hexValue (16 * value + (hexDigit digit).getD 0) digits := rfl

theorem hexValue_append (value : Nat) (front back : Bytes) :
    hexValue value (front ++ back) = hexValue (hexValue value front) back := by
  simp [hexValue]

theorem le_hexValue (value : Nat) (digits : Bytes) : value ≤ hexValue value digits := by
  induction digits generalizing value with
  | nil => exact Nat.le_refl _
  | cons digit digits ih =>
    have step := ih (16 * value + (hexDigit digit).getD 0)
    simp only [hexValue_cons]
    omega

theorem consumeHexDigits_digits (digits tail : Bytes) (value : Nat) (hex : ∀ d ∈ digits, isHexDigit d)
    (bound : hexValue value digits < 2 ^ 60) :
    consumeHexDigits (digits ++ tail) (word 4#4 value) =
      consumeHexDigits tail (word 4#4 (hexValue value digits)) := by
  induction digits generalizing value with
  | nil => rfl
  | cons digit digits ih =>
    obtain ⟨number, known⟩ := Option.isSome_iff_exists.mp (hex digit (by simp))
    have small := hexDigit_bound known
    simp only [hexValue_cons, known, Option.getD_some] at bound ⊢
    have next := le_hexValue (16 * value + number) digits
    simp only [List.cons_append, consumeHexDigits, known, overflow_word _ _ (show value < 2 ^ 60 by omega),
      decide_eq_true_eq, show ¬ 2 ^ 56 ≤ value by omega, if_false]
    rw [shift_word _ _ _ (by omega) small]
    exact ih _ (fun d member => hex d (by simp [member])) bound

theorem consumeHexDigits_overflow (digits tail : Bytes) (value : Nat) (hex : ∀ d ∈ digits, isHexDigit d)
    (start : value < 2 ^ 60) (large : 2 ^ 60 ≤ hexValue value digits) :
    ∃ rest, consumeHexDigits (digits ++ tail) (word 4#4 value) = (rest, stateIsError, true) := by
  induction digits generalizing value with
  | nil => simp only [hexValue_nil] at large; omega
  | cons digit digits ih =>
    obtain ⟨number, known⟩ := Option.isSome_iff_exists.mp (hex digit (by simp))
    have small := hexDigit_bound known
    simp only [hexValue_cons, known, Option.getD_some] at large
    simp only [List.cons_append, consumeHexDigits, known, overflow_word _ _ start, decide_eq_true_eq]
    by_cases top : 2 ^ 56 ≤ value
    · rw [if_pos top]
      exact ⟨_, rfl⟩
    · rw [if_neg top, shift_word _ _ _ (by omega) small]
      exact ih _ (fun d member => hex d (by simp [member])) (by omega) large

/-- The reading of one piece: the error state, or what is left to skip and the word. -/
def pieceWord (piece : Bytes) (value : Nat) : Option (Bytes × BitVec 64) :=
  let value := hexValue value (piece.takeWhile isHexDigit)
  let tail := piece.dropWhile isHexDigit
  if 2 ^ 60 ≤ value then none
  else
    match tail.head? with
    | none => some ([], word 4#4 value)
    | some stop =>
      if stop = 59 then some (tail.tail, word 6#4 value)
      else if stop = cr ∨ stop = lf then some (tail, word 4#4 value)
      else none

theorem head_not_hex (piece : Bytes) :
    ∀ b ∈ (piece.dropWhile isHexDigit).head?, hexDigit b = none := by
  intro b member
  have stops := List.head?_dropWhile_not isHexDigit piece
  rw [Option.mem_def.mp member] at stops
  simpa [isHexDigit] using stops

theorem consumeHexNumber_plain (piece : Bytes) (value : Nat) :
    consumeHexNumber piece (word 4#4 value) =
      let taken := consumeHexDigits piece (word 4#4 value)
      if taken.2.2 then (taken.1, taken.2.1) else finishSizeLine taken.1 taken.2.1 := by
  simp only [consumeHexNumber, extension_word, show ((4#4 : BitVec 4) &&& 2#4 != 0#4) = false by decide,
    Bool.false_eq_true, if_false]
  rcases consumeHexDigits piece (word 4#4 value) with ⟨rest, state, refused⟩
  cases refused <;> rfl

theorem consumeHexNumber_word (piece : Bytes) (value : Nat) (bound : value < 2 ^ 60) :
    (∃ rest, pieceWord piece value = none ∧ consumeHexNumber piece (word 4#4 value) = (rest, stateIsError)) ∨
      ∃ tail state, pieceWord piece value = some (tail, state) ∧
        consumeHexNumber piece (word 4#4 value) = finishSizeLine tail state := by
  have split : piece.takeWhile isHexDigit ++ piece.dropWhile isHexDigit = piece :=
    List.takeWhile_append_dropWhile
  have hex : ∀ d ∈ piece.takeWhile isHexDigit, isHexDigit d := fun d => List.mem_takeWhile_imp
  have stops := head_not_hex piece
  rw [consumeHexNumber_plain]
  simp only [pieceWord]
  by_cases large : 2 ^ 60 ≤ hexValue value (piece.takeWhile isHexDigit)
  · obtain ⟨rest, refused⟩ := consumeHexDigits_overflow _ (piece.dropWhile isHexDigit) value hex bound large
    rw [split] at refused
    rw [refused, if_pos large]
    exact .inl ⟨rest, rfl, rfl⟩
  · have digits := consumeHexDigits_digits _ (piece.dropWhile isHexDigit) value hex (by omega)
    rw [split] at digits
    rw [digits, if_neg large]
    generalize hexValue value (piece.takeWhile isHexDigit) = after
    cases tail : piece.dropWhile isHexDigit with
    | nil => exact .inr ⟨[], _, rfl, rfl⟩
    | cons stop more =>
      rw [tail] at stops
      have none := stops stop rfl
      simp only [List.head?_cons, List.tail_cons, consumeHexDigits, none]
      by_cases semicolon : stop = 59
      · simp [semicolon, word_or_extension]
      · by_cases ending : stop = cr ∨ stop = lf
        · simp [semicolon, ending]
        · simp [semicolon, ending]

theorem finishSizeLine_open (data : Bytes) (state : BitVec 64) (unended : lf ∉ data) :
    finishSizeLine data state = ([], state) := by
  have none : data.dropWhile (· ≠ lf) = [] := by
    rw [List.dropWhile_eq_nil_iff]
    intro b member
    simpa using fun same : b = lf => unended (same ▸ member)
  simp only [finishSizeLine, none]

def lineEndWord (value : Nat) : BitVec 64 :=
  if value + 2 < 2 ^ 60 then word 12#4 (value + 2) else word 13#4 (value + 2 - 2 ^ 60)

theorem enable_word_carry (flags : BitVec 4) (n : Nat) (line : flags = 4#4 ∨ flags = 6#4) (bound : n < 2 ^ 60)
    (large : 2 ^ 60 ≤ n + 2) :
    ((word flags n + 2#64) &&& ~~~stateIsExtension) ||| (stateHasSize ||| stateIsChunked) =
      word 13#4 (n + 2 - 2 ^ 60) := by
  have sum : word flags n + 2#64 = word (flags + 1#4) (n + 2 - 2 ^ 60) :=
    PackedWord.pack_add_carry flags n 2 bound large (by omega) (by rcases line with rfl | rfl <;> decide)
  have cleared : word (flags + 1#4) (n + 2 - 2 ^ 60) &&& ~~~stateIsExtension =
      word ((flags + 1#4) &&& 13#4) (n + 2 - 2 ^ 60) := by
    rw [notExtension_word]
    exact PackedWord.pack_and_flags _ 13#4 _
  rw [sum, cleared, stateHasSize_word, stateIsChunked_word, word_or, word_or]
  rcases line with rfl | rfl <;> rfl

theorem finishSizeLine_ended (tail rest : Bytes) (flags : BitVec 4) (value : Nat)
    (line : flags = 4#4 ∨ flags = 6#4) (unended : lf ∉ tail) (bound : value < 2 ^ 60) :
    finishSizeLine (tail ++ lf :: rest) (word flags value) = (rest, lineEndWord value) := by
  have skip : (tail ++ lf :: rest).dropWhile (· ≠ lf) = lf :: rest := by
    rw [List.dropWhile_append_of_pos]
    · simp
    · intro b member
      simpa using fun same : b = lf => unended (same ▸ member)
  simp only [finishSizeLine, skip, lineEndWord]
  by_cases small : value + 2 < 2 ^ 60
  · rw [if_pos small, enable_word flags value line small]
  · rw [if_neg small, enable_word_carry flags value line bound (by omega)]

def linePass (rest : Bytes) (value : Nat) : ChunkPass :=
  if value = 0 then .emit [] rest stateIsTrailer else .again rest (lineEndWord value)

theorem chunkPass_consumed {data rest : Bytes} {state after : BitVec 64}
    (line : ∃ flags value, (flags = 4#4 ∨ flags = 6#4) ∧ state = word flags value)
    (consumed : consumeHexNumber data state = (rest, after)) :
    chunkPass data state =
      if isParsingInvalidChunkedEncoding after then .stop rest after
      else if hasChunkSize after ∧ chunkSize after = 2#64 then .emit [] rest stateIsTrailer
      else .again rest after := by
  obtain ⟨flags, value, form, rfl⟩ := line
  have plain : (word flags value &&& stateIsTrailer != 0#64) = false ∧ hasChunkSize (word flags value) = false := by
    rcases form with rfl | rfl <;> simp
  simp only [chunkPass, plain.1, plain.2, Bool.false_eq_true, if_false, Bool.not_false, if_true, consumed]

theorem chunkPass_ended {data rest : Bytes} {state : BitVec 64} {value : Nat} (bound : value < 2 ^ 60)
    (line : ∃ flags value, (flags = 4#4 ∨ flags = 6#4) ∧ state = word flags value)
    (consumed : consumeHexNumber data state = (rest, lineEndWord value)) :
    chunkPass data state = linePass rest value := by
  rw [chunkPass_consumed line consumed]
  by_cases small : value + 2 < 2 ^ 60
  · have valid := invalid_word 12#4 (value + 2) small (by decide)
    simp only [lineEndWord, small, if_true, valid, Bool.false_eq_true, if_false, hasChunkSize_word,
      chunkSize_eq_two value small, linePass]
    by_cases zero : value = 0 <;> simp [zero]
  · have valid := invalid_word 13#4 (value + 2 - 2 ^ 60) (by omega) (by decide)
    have size := chunkSize_toNat 13#4 (value + 2 - 2 ^ 60) (by omega)
    have other : chunkSize (word 13#4 (value + 2 - 2 ^ 60)) ≠ 2#64 := by
      intro two
      rw [two] at size
      simp only [BitVec.toNat_ofNat] at size
      omega
    simp only [lineEndWord, small, if_false, valid, Bool.false_eq_true, other, and_false, linePass,
      show value ≠ 0 by omega]

theorem getNextChunk_open {data : Bytes} {state after : BitVec 64}
    (line : ∃ flags value, (flags = 4#4 ∨ flags = 6#4) ∧ state = word flags value)
    (stays : ∃ flags value, (flags = 4#4 ∨ flags = 6#4) ∧ value < 2 ^ 60 ∧ after = word flags value)
    (consumed : consumeHexNumber data state = ([], after)) (same : data = [] → after = state) :
    getNextChunk data state = (none, [], after) := by
  obtain ⟨flags, value, form, bound, rfl⟩ := stays
  have plain : isParsingInvalidChunkedEncoding (word flags value) = false ∧
      hasChunkSize (word flags value) = false := by
    refine ⟨invalid_word _ _ bound ?_, ?_⟩ <;> rcases form with rfl | rfl <;> simp
  cases data with
  | nil => rw [same rfl]; rfl
  | cons b data =>
    have pass := chunkPass_consumed line consumed
    simp only [plain.1, plain.2, Bool.false_eq_true, if_false, false_and] at pass
    simp only [getNextChunk, List.length_cons, getNextChunkLoop, List.isEmpty_cons, Bool.false_eq_true, if_false,
      pass]
    cases data.length <;> rfl

theorem getNextChunk_error {data rest : Bytes} {state : BitVec 64} (some : data ≠ [])
    (line : ∃ flags value, (flags = 4#4 ∨ flags = 6#4) ∧ state = word flags value)
    (consumed : consumeHexNumber data state = (rest, stateIsError)) :
    getNextChunk data state = (none, rest, stateIsError) := by
  have pass := chunkPass_consumed line consumed
  rw [if_pos (show isParsingInvalidChunkedEncoding stateIsError = true by decide)] at pass
  cases data with
  | nil => exact absurd rfl some
  | cons b data =>
    simp only [getNextChunk, List.length_cons, getNextChunkLoop, List.isEmpty_cons, Bool.false_eq_true, if_false,
      pass]

theorem pieceWord_line {piece tail : Bytes} {value : Nat} {state : BitVec 64}
    (read : pieceWord piece value = some (tail, state)) :
    ∃ flags after, (flags = 4#4 ∨ flags = 6#4) ∧ after < 2 ^ 60 ∧ state = word flags after ∧
      (∀ b ∈ tail, b ∈ piece) := by
  have within : ∀ b ∈ piece.dropWhile isHexDigit, b ∈ piece := fun b => (List.dropWhile_suffix _).mem
  simp only [pieceWord] at read
  split at read
  · cases read
  · rename_i small
    split at read
    · cases read
      exact ⟨4#4, _, .inl rfl, by omega, rfl, by simp⟩
    · split at read
      · cases read
        exact ⟨6#4, _, .inr rfl, by omega, rfl, fun b member => within b (List.mem_of_mem_tail member)⟩
      · split at read
        · cases read
          exact ⟨4#4, _, .inl rfl, by omega, rfl, within⟩
        · cases read

theorem pieceWord_final (last rest : Bytes) (value : Nat) :
    pieceWord (last ++ lf :: rest) value =
      (pieceWord last value).map fun read => (read.1 ++ lf :: rest, read.2) := by
  have stop : isHexDigit lf = false := by decide
  have front : (last ++ lf :: rest).takeWhile isHexDigit = last.takeWhile isHexDigit := by
    rw [List.takeWhile_append]
    split
    · rename_i all
      have whole := (List.takeWhile_prefix isHexDigit).eq_of_length all
      simp [stop, whole]
    · rfl
  have back : (last ++ lf :: rest).dropWhile isHexDigit = last.dropWhile isHexDigit ++ lf :: rest := by
    rw [List.dropWhile_append]
    split
    · rename_i all
      simp [stop, List.isEmpty_iff.mp all]
    · rfl
  simp only [pieceWord, front, back]
  split
  · rfl
  · cases last.dropWhile isHexDigit with
    | nil => simp [show lf ≠ 59 by decide]
    | cons b tail =>
      simp only [List.cons_append, List.head?_cons, List.tail_cons]
      split
      · rfl
      · split <;> rfl

theorem readDigits_cons (piece : Bytes) (pieces : List Bytes) (value : Nat) (unended : lf ∉ piece) :
    (pieceWord piece value = none ∧
        (readDigits (piece :: pieces) = none ∨
          ∃ digits, readDigits (piece :: pieces) = some digits ∧ 2 ^ 60 ≤ hexValue value digits)) ∨
      (∃ tail, pieceWord piece value = some (tail, word 4#4 (hexValue value (piece.takeWhile isHexDigit))) ∧
        readDigits (piece :: pieces) = (readDigits pieces).map (piece.takeWhile isHexDigit ++ ·) ∧
        (piece = [] → tail = [])) ∨
      ∃ tail, pieceWord piece value = some (tail, word 6#4 (hexValue value (piece.takeWhile isHexDigit))) ∧
        readDigits (piece :: pieces) = some (piece.takeWhile isHexDigit) ∧ piece ≠ [] := by
  simp only [pieceWord, readDigits]
  have within : ∀ b ∈ piece.dropWhile isHexDigit, b ∈ piece := fun b => (List.dropWhile_suffix _).mem
  by_cases large : 2 ^ 60 ≤ hexValue value (piece.takeWhile isHexDigit)
  · rw [if_pos large]
    refine .inl ⟨rfl, ?_⟩
    have grows : ∀ more, 2 ^ 60 ≤ hexValue value (piece.takeWhile isHexDigit ++ more) := by
      intro more
      rw [hexValue_append]
      exact Nat.le_trans large (le_hexValue _ _)
    split
    · cases readDigits pieces with
      | none => exact .inl rfl
      | some more => exact .inr ⟨_, rfl, grows more⟩
    · split
      · exact .inr ⟨_, rfl, large⟩
      · split
        · cases readDigits pieces with
          | none => exact .inl rfl
          | some more => exact .inr ⟨_, rfl, grows more⟩
        · exact .inl rfl
  · rw [if_neg large]
    cases tail : piece.dropWhile isHexDigit with
    | nil => exact .inr (.inl ⟨[], rfl, rfl, fun _ => rfl⟩)
    | cons stop more =>
      have member : stop ∈ piece := within stop (by rw [tail]; simp)
      have some : piece ≠ [] := List.ne_nil_of_mem member
      by_cases semicolon : stop = 59
      · refine .inr (.inr ⟨more, ?_, ?_, some⟩) <;> simp [semicolon]
      · by_cases ending : stop = cr
        · refine .inr (.inl ⟨cr :: more, ?_, ?_, fun none => absurd none some⟩) <;>
            simp [ending, show cr ≠ 59 by decide]
        · have other : stop ≠ lf := fun same => unended (same ▸ member)
          refine .inl ⟨?_, .inl ?_⟩ <;> simp [semicolon, ending, other]

theorem sizeLinePass_extension (pieces : List Bytes) (last rest : Bytes) (value : Nat) (bound : value < 2 ^ 60)
    (unended : ∀ piece ∈ pieces ++ [last], lf ∉ piece) :
    sizeLinePass pieces (last ++ lf :: rest) (word 6#4 value) = linePass rest value := by
  have skips : ∀ data, consumeHexNumber data (word 6#4 value) = finishSizeLine data (word 6#4 value) := by
    intro data
    simp [consumeHexNumber]
  induction pieces with
  | nil =>
    refine chunkPass_ended bound ⟨6#4, value, .inr rfl, rfl⟩ ?_
    rw [skips, finishSizeLine_ended _ _ _ _ (.inr rfl) (unended last (by simp)) bound]
  | cons piece pieces ih =>
    have stays : getNextChunk piece (word 6#4 value) = (none, [], word 6#4 value) := by
      refine getNextChunk_open ⟨6#4, value, .inr rfl, rfl⟩ ⟨6#4, value, .inr rfl, bound, rfl⟩ ?_ fun _ => rfl
      rw [skips, finishSizeLine_open _ _ (unended piece (by simp))]
    simp only [sizeLinePass, stays, invalid_word 6#4 value bound (by decide), Bool.false_eq_true, if_false]
    exact ih fun p member => unended p (by simp only [List.cons_append, List.mem_cons]; exact .inr member)

theorem pieceWord_small {piece tail : Bytes} {value : Nat} {state : BitVec 64}
    (read : pieceWord piece value = some (tail, state)) :
    hexValue value (piece.takeWhile isHexDigit) < 2 ^ 60 := by
  simp only [pieceWord] at read
  split at read
  · cases read
  · omega

theorem consumeHexNumber_read {piece tail : Bytes} {value : Nat} {state : BitVec 64} (unended : lf ∉ piece)
    (bound : value < 2 ^ 60) (read : pieceWord piece value = some (tail, state)) :
    hexValue value (piece.takeWhile isHexDigit) < 2 ^ 60 ∧
      consumeHexNumber piece (word 4#4 value) = ([], state) := by
  refine ⟨pieceWord_small read, ?_⟩
  obtain ⟨flags, after, form, small, same, within⟩ := pieceWord_line read
  rcases consumeHexNumber_word piece value bound with ⟨left, none, -⟩ | ⟨t, s, some, passed⟩
  · rw [read] at none
    cases none
  · rw [read] at some
    cases some
    rw [passed, finishSizeLine_open tail state fun member => unended (within _ member)]

theorem sizeLinePass_digits (pieces : List Bytes) (last rest : Bytes) (value : Nat) (bound : value < 2 ^ 60)
    (unended : ∀ piece ∈ pieces ++ [last], lf ∉ piece) :
    ((readDigits (pieces ++ [last]) = none ∨
          ∃ digits, readDigits (pieces ++ [last]) = some digits ∧ 2 ^ 60 ≤ hexValue value digits) ∧
        ∃ data, sizeLinePass pieces (last ++ lf :: rest) (word 4#4 value) = .stop data stateIsError) ∨
      ∃ digits, readDigits (pieces ++ [last]) = some digits ∧ hexValue value digits < 2 ^ 60 ∧
        sizeLinePass pieces (last ++ lf :: rest) (word 4#4 value) = linePass rest (hexValue value digits) := by
  have line : ∃ flags v, (flags = 4#4 ∨ flags = 6#4) ∧ word 4#4 value = word flags v := ⟨4#4, value, .inl rfl, rfl⟩
  induction pieces generalizing value with
  | nil =>
    have own := unended last (by simp)
    have final := pieceWord_final last rest value
    rcases readDigits_cons last [] value own with ⟨refused, digits⟩ | ⟨tail, read, digits, -⟩ | ⟨tail, read, digits, -⟩
    · rw [refused] at final
      rcases consumeHexNumber_word (last ++ lf :: rest) value bound with ⟨left, -, failed⟩ | ⟨t, s, some, -⟩
      · refine .inl ⟨digits, left, ?_⟩
        rw [sizeLinePass, chunkPass_consumed line failed]
        rfl
      · rw [final] at some
        cases some
    all_goals
      rw [read] at final
      obtain ⟨flags, after, form, small, same, within⟩ := pieceWord_line read
      rcases consumeHexNumber_word (last ++ lf :: rest) value bound with ⟨left, none, -⟩ | ⟨t, s, some, passed⟩
      · rw [final] at none
        cases none
      · rw [final] at some
        cases some
        have positions := word_inj (pieceWord_small read) small same
        rw [same, finishSizeLine_ended tail rest flags after form
          (fun member => own (within _ member)) small] at passed
        refine .inr ⟨last.takeWhile isHexDigit, by simpa [readDigits] using digits, by omega, ?_⟩
        rw [sizeLinePass, positions.2]
        exact chunkPass_ended small line passed
  | cons piece pieces ih =>
    have own := unended piece (by simp)
    have others : ∀ p ∈ pieces ++ [last], lf ∉ p := fun p member =>
      unended p (by simp only [List.cons_append, List.mem_cons]; exact .inr member)
    simp only [List.cons_append]
    rcases readDigits_cons piece (pieces ++ [last]) value own with
      ⟨refused, digits⟩ | ⟨tail, read, digits, empty⟩ | ⟨tail, read, digits, some⟩
    · have nonempty : piece ≠ [] := by
        rintro rfl
        simp only [pieceWord, List.takeWhile_nil, hexValue_nil, Nat.not_le.mpr bound, if_false] at refused
        cases refused
      rcases consumeHexNumber_word piece value bound with ⟨left, -, failed⟩ | ⟨t, s, some, -⟩
      · refine .inl ⟨digits, left, ?_⟩
        simp only [sizeLinePass, getNextChunk_error nonempty line failed]
        rfl
      · rw [refused] at some
        cases some
    · obtain ⟨small, passed⟩ := consumeHexNumber_read own bound read
      have stays : getNextChunk piece (word 4#4 value) =
          (none, [], word 4#4 (hexValue value (piece.takeWhile isHexDigit))) := by
        refine getNextChunk_open line ⟨4#4, _, .inl rfl, small, rfl⟩ passed ?_
        rintro rfl
        rfl
      simp only [sizeLinePass, stays, invalid_word 4#4 _ small (by decide), Bool.false_eq_true, if_false, digits]
      rcases ih _ small others ⟨4#4, _, .inl rfl, rfl⟩ with ⟨refused, data, stops⟩ | ⟨more, known, fits, passes⟩
      · refine .inl ⟨?_, data, stops⟩
        rcases refused with none | ⟨more, known, large⟩
        · exact .inl (by rw [none]; rfl)
        · exact .inr ⟨_, by rw [known]; rfl, by rw [hexValue_append]; exact large⟩
      · exact .inr ⟨_, by rw [known]; rfl, by rw [hexValue_append]; exact fits,
          by rw [hexValue_append]; exact passes⟩
    · obtain ⟨small, passed⟩ := consumeHexNumber_read own bound read
      have stays : getNextChunk piece (word 4#4 value) =
          (none, [], word 6#4 (hexValue value (piece.takeWhile isHexDigit))) :=
        getNextChunk_open line ⟨6#4, _, .inr rfl, small, rfl⟩ passed fun empty => absurd empty some
      simp only [sizeLinePass, stays, invalid_word 6#4 _ small (by decide), Bool.false_eq_true, if_false, digits]
      exact .inr ⟨_, rfl, small, sizeLinePass_extension pieces last rest _ small others⟩

theorem lineSound_iff (pieces : List Bytes) (last rest : Bytes)
    (unended : ∀ piece ∈ pieces ++ [last], lf ∉ piece) :
    LineSound (sizeLinePass pieces (last ++ lf :: rest) stateIsChunked) (pieces.flatten ++ last) rest ↔
      LineRegular pieces last := by
  have outcome := sizeLinePass_digits pieces last rest 0 (by decide) unended
  rw [← stateIsChunked_word] at outcome
  simp only [LineSound, LineRegular]
  generalize lineDigits (pieces.flatten ++ last) = digits
  rcases outcome with ⟨refused, data, stops⟩ | ⟨read, known, fits, passes⟩
  · have error : isParsingInvalidChunkedEncoding stateIsError = true := by decide
    rw [stops]
    rcases refused with none | ⟨read, known, large⟩
    · simp [none, error]
    · rw [known]
      exact ⟨fun _ => .inl large, fun _ => error⟩
  · rw [passes, known]
    simp only [Nat.not_le.mpr fits, false_or, linePass]
    by_cases zero : hexValue 0 read = 0
    · simp only [zero, if_true, true_and]
      constructor
      · rintro ⟨some, value⟩
        exact ⟨some, value.symm, by omega⟩
      · rintro ⟨some, value, -⟩
        exact ⟨some, value.symm⟩
    · simp only [zero, if_false, true_and, lineEndWord]
      by_cases small : hexValue 0 read + 2 < 2 ^ 60
      · rw [if_pos small, chunkSize_toNat _ _ small]
        have flags : word 12#4 (hexValue 0 read + 2) &&& ~~~stateSizeMask = stateHasSize ||| stateIsChunked := by
          rw [notSizeMask_word, word_and]
          decide
        constructor
        · rintro ⟨some, -, -, size⟩
          exact ⟨some, by omega, by omega⟩
        · rintro ⟨some, value, -⟩
          exact ⟨some, by omega, flags, by omega⟩
      · rw [if_neg small]
        have flags : word 13#4 (hexValue 0 read + 2 - 2 ^ 60) &&& ~~~stateSizeMask ≠
            stateHasSize ||| stateIsChunked := by
          rw [notSizeMask_word, word_and]
          decide
        constructor
        · rintro ⟨-, -, same, -⟩
          exact absurd same flags
        · rintro ⟨-, value, room⟩
          omega

/-- Where the loop of `getNextChunk` can stand when a stream is decoded in reads, with the earlier reads of
    the chunk-size line it stands in, the rest of the read and the word. -/
inductive DecoderAt : List Bytes → Bytes → BitVec 64 → Prop where
  | start : DecoderAt [] [] stateIsChunked
  | read {pieces : List Bytes} {state : BitVec 64} (data : Bytes) (here : DecoderAt pieces [] state) :
      DecoderAt pieces data state
  | again {pieces : List Bytes} {data rest : Bytes} {state after : BitVec 64}
      (here : DecoderAt pieces data state) (some : data ≠ []) (pass : chunkPass data state = .again rest after) :
      DecoderAt (if hasChunkSize state || hasChunkSize after then [] else pieces ++ [data]) rest after
  | emit {pieces : List Bytes} {data chunk rest : Bytes} {state after : BitVec 64}
      (here : DecoderAt pieces data state) (some : data ≠ []) (pass : chunkPass data state = .emit chunk rest after) :
      DecoderAt [] rest after
  | stop {pieces : List Bytes} {data rest : Bytes} {state after : BitVec 64}
      (here : DecoderAt pieces data state) (some : data ≠ []) (pass : chunkPass data state = .stop rest after) :
      DecoderAt [] rest after

/-- A word in which a size line is open, reached by the reads of that line alone. -/
def LineOpen (pieces : List Bytes) (state : BitVec 64) : Prop :=
  (∃ flags value, (flags = 4#4 ∨ flags = 6#4) ∧ value < 2 ^ 60 ∧ state = word flags value) ∧
    (∀ piece ∈ pieces, lf ∉ piece) ∧
    ∀ more final, sizeLinePass (pieces ++ more) final stateIsChunked = sizeLinePass more final state

/-- Where the decoder stands is in a trailer, in a chunk, or in an open size line. -/
def DecoderSound (pieces : List Bytes) (state : BitVec 64) : Prop :=
  (state &&& stateIsTrailer != 0#64) = true ∨ hasChunkSize state = true ∨ LineOpen pieces state

theorem lineOpen_start : LineOpen [] stateIsChunked := by
  refine ⟨⟨4#4, 0, .inl rfl, by decide, stateIsChunked_word⟩, ?_, ?_⟩
  · simp
  · intro more final
    rfl

theorem LineOpen.unsized {pieces : List Bytes} {state : BitVec 64} (opened : LineOpen pieces state) :
    hasChunkSize state = false := by
  obtain ⟨⟨flags, value, form, -, rfl⟩, -, -⟩ := opened
  rcases form with rfl | rfl <;> simp

theorem consumeHexNumber_open (data : Bytes) (flags : BitVec 4) (value : Nat) (line : flags = 4#4 ∨ flags = 6#4)
    (bound : value < 2 ^ 60) (unended : lf ∉ data) :
    (∃ rest, data ≠ [] ∧ consumeHexNumber data (word flags value) = (rest, stateIsError)) ∨
      ∃ more after, (more = 4#4 ∨ more = 6#4) ∧ after < 2 ^ 60 ∧
        consumeHexNumber data (word flags value) = ([], word more after) ∧
        (data = [] → word more after = word flags value) := by
  rcases line with rfl | rfl
  · cases read : pieceWord data value with
    | none =>
      have some : data ≠ [] := by
        rintro rfl
        simp only [pieceWord, List.takeWhile_nil, hexValue_nil, Nat.not_le.mpr bound, if_false] at read
        cases read
      rcases consumeHexNumber_word data value bound with ⟨rest, -, failed⟩ | ⟨t, s, known, -⟩
      · exact .inl ⟨rest, some, failed⟩
      · rw [read] at known
        cases known
    | some found =>
      obtain ⟨more, after, form, small, same, -⟩ := pieceWord_line read
      have passed := (consumeHexNumber_read unended bound read).2
      rw [same] at passed
      refine .inr ⟨more, after, form, small, passed, ?_⟩
      rintro rfl
      have nothing : consumeHexNumber [] (word 4#4 value) = ([], word 4#4 value) := by
        rw [consumeHexNumber_plain]
        rfl
      exact (Prod.mk.inj (passed.symm.trans nothing)).2
  · refine .inr ⟨6#4, value, .inr rfl, bound, ?_, fun _ => rfl⟩
    simp only [consumeHexNumber, extension_word, show ((6#4 : BitVec 4) &&& 2#4 != 0#4) = true by decide, if_true]
    exact finishSizeLine_open data _ unended

theorem LineOpen.extend {pieces : List Bytes} {data : Bytes} {state after : BitVec 64}
    (opened : LineOpen pieces state) (unended : lf ∉ data) (read : getNextChunk data state = (none, [], after))
    (valid : isParsingInvalidChunkedEncoding after = false)
    (line : ∃ flags value, (flags = 4#4 ∨ flags = 6#4) ∧ value < 2 ^ 60 ∧ after = word flags value) :
    LineOpen (pieces ++ [data]) after := by
  obtain ⟨-, earlier, passes⟩ := opened
  refine ⟨line, ?_, ?_⟩
  · intro piece member
    rcases List.mem_append.mp member with old | new
    · exact earlier piece old
    · rw [List.mem_singleton.mp new]
      exact unended
  · intro more final
    have step := passes (data :: more) final
    simp only [sizeLinePass, read, valid, Bool.false_eq_true, if_false] at step
    rw [List.append_assoc]
    exact step

theorem chunkPass_open {pieces : List Bytes} {data : Bytes} {state : BitVec 64} (opened : LineOpen pieces state)
    (unended : lf ∉ data) :
    (∃ rest, chunkPass data state = .stop rest stateIsError) ∨
      ∃ after, chunkPass data state = .again [] after ∧ hasChunkSize after = false ∧
        LineOpen (pieces ++ [data]) after := by
  have whole := opened
  obtain ⟨⟨flags, value, form, bound, rfl⟩, -, -⟩ := opened
  have line : ∃ flags' value', (flags' = 4#4 ∨ flags' = 6#4) ∧ word flags value = word flags' value' :=
    ⟨flags, value, form, rfl⟩
  rcases consumeHexNumber_open data flags value form bound unended with
    ⟨rest, -, failed⟩ | ⟨more, after, next, small, passed, same⟩
  · refine .inl ⟨rest, ?_⟩
    rw [chunkPass_consumed line failed]
    rfl
  · have valid : isParsingInvalidChunkedEncoding (word more after) = false := by
      refine invalid_word _ _ small ?_
      rcases next with rfl | rfl <;> decide
    have plain : hasChunkSize (word more after) = false := by rcases next with rfl | rfl <;> simp
    refine .inr ⟨word more after, ?_, plain, ?_⟩
    · rw [chunkPass_consumed line passed]
      simp [valid, plain]
    · exact whole.extend unended (getNextChunk_open line ⟨more, after, next, small, rfl⟩ passed same) valid
        ⟨more, after, next, small, rfl⟩

theorem chunkPass_ending {pieces : List Bytes} {last : Bytes} {state : BitVec 64}
    (opened : LineOpen pieces state) (unended : lf ∉ last) (rest : Bytes) :
    (∃ left, chunkPass (last ++ lf :: rest) state = .stop left stateIsError) ∨
      ∃ value, chunkPass (last ++ lf :: rest) state = linePass rest value := by
  obtain ⟨⟨flags, value, form, bound, rfl⟩, -, -⟩ := opened
  rcases form with rfl | rfl
  · rcases sizeLinePass_digits [] last rest value bound (by simpa using unended) with
      ⟨-, left, stops⟩ | ⟨digits, -, -, passes⟩
    · exact .inl ⟨left, stops⟩
    · exact .inr ⟨_, passes⟩
  · exact .inr ⟨value, sizeLinePass_extension [] last rest value bound (by simpa using unended)⟩

theorem hasChunkSize_lineEndWord (value : Nat) : hasChunkSize (lineEndWord value) = true := by
  unfold lineEndWord
  split <;> simp

theorem hasChunkSize_bit (state : BitVec 64) : hasChunkSize state = state.getLsbD 63 := by
  have flag : stateHasSize = BitVec.twoPow 64 63 := by decide
  rw [hasChunkSize, flag, BitVec.and_twoPow]
  cases state.getLsbD 63 <;> decide

theorem hasChunkSize_continue (state : BitVec 64) (n : Nat) (sized : hasChunkSize state = true) :
    hasChunkSize (decChunkSize state n ||| stateIsChunked) = true := by
  have kept : (~~~stateSizeMask).getLsbD 63 = true := by decide
  rw [hasChunkSize_bit] at sized ⊢
  simp only [decChunkSize, BitVec.getLsbD_or, BitVec.getLsbD_and, sized, kept, Bool.and_self, Bool.true_or]

theorem completeChunk_cases (data : Bytes) (state : BitVec 64) :
    (∃ rest, completeChunk data state = .stop rest stateIsError) ∨
      (∃ chunk rest, completeChunk data state = .emit chunk rest stateIsChunked) ∨
        ∃ rest, completeChunk data state = .again rest stateIsChunked := by
  simp only [completeChunk]
  split
  · exact .inl ⟨_, rfl⟩
  · split
    · exact .inr (.inl ⟨_, _, rfl⟩)
    · exact .inr (.inr ⟨_, rfl⟩)

theorem continueChunk_cases (data : Bytes) {state : BitVec 64} (sized : hasChunkSize state = true) :
    (∃ rest after, continueChunk data state = .stop rest after ∧ hasChunkSize after = true) ∨
      ∃ chunk rest, continueChunk data state = .emit chunk rest (decChunkSize state data.length ||| stateIsChunked) := by
  simp only [continueChunk]
  generalize (if 2#64 < chunkSize state then data.take (chunkSize state - 2#64).toNat else []) = emitSoon
  split
  · exact .inl ⟨_, _, rfl, by decide⟩
  · split
    · exact .inl ⟨_, _, rfl, hasChunkSize_continue state _ sized⟩
    · exact .inr ⟨_, _, rfl⟩

theorem chunkPass_sized {data : Bytes} {state : BitVec 64} (sized : hasChunkSize state = true) :
    (∃ rest after, chunkPass data state = .stop rest after ∧ hasChunkSize after = true) ∨
      (∃ chunk rest after, chunkPass data state = .emit chunk rest after ∧
        (hasChunkSize after = true ∨ after = stateIsChunked)) ∨
        ∃ rest, chunkPass data state = .again rest stateIsChunked := by
  simp only [chunkPass, sized, Bool.not_true, Bool.false_eq_true, if_false]
  split
  · exact .inl ⟨_, _, rfl, sized⟩
  · split
    · rcases completeChunk_cases data state with ⟨rest, stops⟩ | ⟨chunk, rest, emits⟩ | ⟨rest, again⟩
      · exact .inl ⟨rest, _, stops, by decide⟩
      · exact .inr (.inl ⟨chunk, rest, _, emits, .inr rfl⟩)
      · exact .inr (.inr ⟨rest, again⟩)
    · rcases continueChunk_cases data sized with ⟨rest, after, stops⟩ | ⟨chunk, rest, emits⟩
      · exact .inl ⟨rest, after, stops⟩
      · exact .inr (.inl ⟨chunk, rest, _, emits, .inl (hasChunkSize_continue state _ sized)⟩)

theorem chunkPass_stopped {data : Bytes} {state : BitVec 64} (trailer : (state &&& stateIsTrailer != 0#64) = true) :
    chunkPass data state = .stop data state := by
  simp [chunkPass, trailer]

theorem chunkPass_lineOpen {pieces : List Bytes} {data : Bytes} {state : BitVec 64}
    (opened : LineOpen pieces state) :
    (∃ rest, chunkPass data state = .stop rest stateIsError) ∨
      (∃ after, chunkPass data state = .again [] after ∧ hasChunkSize after = false ∧
        LineOpen (pieces ++ [data]) after) ∨
      (∃ rest after, chunkPass data state = .again rest after ∧ hasChunkSize after = true) ∨
        ∃ rest, chunkPass data state = .emit [] rest stateIsTrailer := by
  by_cases ended : lf ∈ data
  · obtain ⟨last, rest, rfl, before⟩ := List.eq_append_cons_of_mem ended
    rcases chunkPass_ending opened before rest with ⟨left, stops⟩ | ⟨value, passes⟩
    · exact .inl ⟨left, stops⟩
    · rw [passes]
      unfold linePass
      split
      · exact .inr (.inr (.inr ⟨rest, rfl⟩))
      · exact .inr (.inr (.inl ⟨rest, _, rfl, hasChunkSize_lineEndWord value⟩))
  · rcases chunkPass_open opened ended with ⟨rest, stops⟩ | ⟨after, passes⟩
    · exact .inl ⟨rest, stops⟩
    · exact .inr (.inl ⟨after, passes⟩)

/-- What a pass leaves is sound again, whether it stops, hands on a chunk or goes on. -/
theorem DecoderSound.pass {pieces : List Bytes} {state : BitVec 64} (sound : DecoderSound pieces state) (data : Bytes) :
    (∀ rest after, chunkPass data state = .stop rest after → DecoderSound [] after) ∧
      (∀ chunk rest after, chunkPass data state = .emit chunk rest after → DecoderSound [] after) ∧
        ∀ rest after, chunkPass data state = .again rest after →
          DecoderSound (if hasChunkSize state || hasChunkSize after then [] else pieces ++ [data]) after := by
  rcases sound with trailer | sized | opened
  · rw [chunkPass_stopped trailer]
    refine ⟨fun _ _ same => ?_, nofun, nofun⟩
    cases same
    exact .inl trailer
  · rcases chunkPass_sized sized with ⟨rest, after, stops, kept⟩ | ⟨chunk, rest, after, emits, kept⟩ | ⟨rest, again⟩
    · rw [stops]
      refine ⟨fun _ _ same => ?_, nofun, nofun⟩
      cases same
      exact .inr (.inl kept)
    · rw [emits]
      refine ⟨nofun, fun _ _ _ same => ?_, nofun⟩
      cases same
      rcases kept with sized | rfl
      · exact .inr (.inl sized)
      · exact .inr (.inr lineOpen_start)
    · rw [again]
      refine ⟨nofun, nofun, fun _ _ same => ?_⟩
      cases same
      rw [sized]
      exact .inr (.inr lineOpen_start)
  · have unsized : hasChunkSize state = false := opened.unsized
    rcases chunkPass_lineOpen opened with ⟨rest, stops⟩ | ⟨after, again, plain, extended⟩ | ⟨rest, after, again, sized⟩ |
      ⟨rest, emits⟩
    · rw [stops]
      refine ⟨fun _ _ same => ?_, nofun, nofun⟩
      cases same
      exact .inr (.inl (by decide))
    · rw [again]
      refine ⟨nofun, nofun, fun _ _ same => ?_⟩
      cases same
      rw [unsized, plain]
      exact .inr (.inr extended)
    · rw [again]
      refine ⟨nofun, nofun, fun _ _ same => ?_⟩
      cases same
      exact .inr (.inl sized)
    · rw [emits]
      refine ⟨nofun, fun _ _ _ same => ?_, nofun⟩
      cases same
      exact .inl (by decide)

/-- The standing of the decoder is sound over all passes and reads. -/
theorem DecoderAt.sound {pieces : List Bytes} {data : Bytes} {state : BitVec 64}
    (here : DecoderAt pieces data state) : DecoderSound pieces state := by
  induction here with
  | start => exact .inr (.inr lineOpen_start)
  | read data here ih => exact ih
  | again here some pass ih => exact (ih.pass _).2.2 _ _ pass
  | emit here some pass ih => exact (ih.pass _).2.1 _ _ _ pass
  | stop here some pass ih => exact (ih.pass _).1 _ _ pass

theorem DecoderAt.lineSound_iff {pieces : List Bytes} {last rest : Bytes} {state : BitVec 64}
    (here : DecoderAt pieces (last ++ lf :: rest) state) (unended : lf ∉ last)
    (unsized : hasChunkSize state = false) (body : (state &&& stateIsTrailer != 0#64) = false) :
    LineSound (chunkPass (last ++ lf :: rest) state) (pieces.flatten ++ last) rest ↔ LineRegular pieces last := by
  rcases here.sound with trailer | sized | ⟨-, earlier, passes⟩
  · simp [trailer] at body
  · simp [sized] at unsized
  · have whole := passes [] (last ++ lf :: rest)
    simp only [List.append_nil, sizeLinePass] at whole
    rw [← whole]
    refine Http.lineSound_iff pieces last rest fun piece member => ?_
    rcases List.mem_append.mp member with old | new
    · exact earlier piece old
    · rw [List.mem_singleton.mp new]
      exact unended

end Uws.Http
