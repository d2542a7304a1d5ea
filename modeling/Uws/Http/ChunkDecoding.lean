import Uws.Http.ChunkPhases

namespace Uws.Http

open ChunkPhase

theorem hexDigit_bound {digit : UInt8} {number : Nat} (h : hexDigit digit = some number) : number < 16 := by
  unfold hexDigit at h
  split at h
  · rename_i range
    have high := UInt8.le_iff_toNat_le.mp range.2
    simp only [UInt8.reduceToNat, Option.some.injEq] at high h
    omega
  · split at h
    · rename_i range
      have high := UInt8.le_iff_toNat_le.mp range.2
      simp only [UInt8.reduceToNat, Option.some.injEq] at high h
      omega
    · split at h
      · rename_i range
        have high := UInt8.le_iff_toNat_le.mp range.2
        simp only [UInt8.reduceToNat, Option.some.injEq] at high h
        omega
      · cases h

/-- What the digit loop does with the digits of a line, told by the phases. -/
inductive DigitsTaken (value : Nat) (data : Bytes) : Bytes × BitVec 64 × Bool → Prop where
  | error (rest : Bytes) (failed : ((ChunkPhase.size value).feed data).1 = .error) :
      DigitsTaken value data (rest, stateIsError, true)
  | digits (used rest : Bytes) (after : Nat) (split : data = used ++ rest)
      (taken : (ChunkPhase.size value).feed used = (.size after, [], [])) (bound : after < 2 ^ 60)
      (stop : ∀ b ∈ rest.head?, b = cr ∨ b = lf) : DigitsTaken value data (rest, word 4#4 after, false)
  | extension (used rest : Bytes) (after : Nat) (split : data = used ++ rest)
      (taken : (ChunkPhase.size value).feed used = (.extension after, [], [])) (bound : after < 2 ^ 60) :
      DigitsTaken value data (rest, word 6#4 after, false)

theorem DigitsTaken.cons {value next : Nat} {digit : UInt8} {data : Bytes}
    {result : Bytes × BitVec 64 × Bool}
    (step : (ChunkPhase.size value).step digit = (.size next, []))
    (taken : DigitsTaken next data result) : DigitsTaken value (digit :: data) result := by
  have feed : ∀ rest, (ChunkPhase.size value).feed (digit :: rest) = (ChunkPhase.size next).feed rest := by
    intro rest
    rw [feed_cons rfl, step]
    simp
  cases taken with
  | error rest failed => exact .error rest (by rw [feed]; exact failed)
  | digits used rest after split taken bound stop =>
    exact .digits (digit :: used) rest after (by rw [split]; rfl) (by rw [feed]; exact taken) bound stop
  | extension used rest after split taken bound =>
    exact .extension (digit :: used) rest after (by rw [split]; rfl) (by rw [feed]; exact taken) bound

theorem consumeHexDigits_taken (data : Bytes) (value : Nat) (bound : value < 2 ^ 60) :
    DigitsTaken value data (consumeHexDigits data (word 4#4 value)) := by
  induction data generalizing value with
  | nil => exact .digits [] [] value rfl rfl bound (by simp)
  | cons digit data ih =>
    cases hex : hexDigit digit with
    | some number =>
      have small := hexDigit_bound hex
      simp only [consumeHexDigits, hex, overflow_word _ _ bound, decide_eq_true_eq]
      by_cases large : 2 ^ 56 ≤ value
      · rw [if_pos large]
        exact .error _ (by rw [feed_cons rfl, step_digit hex, if_pos large, feed_error])
      · rw [if_neg large, shift_word _ _ _ (by omega) small]
        exact (ih (16 * value + number) (by omega)).cons (by rw [step_digit hex, if_neg large])
    | none =>
      simp only [consumeHexDigits, hex]
      split
      · rename_i semicolon
        subst semicolon
        rw [word_or_extension]
        exact .extension [59] data value rfl rfl bound
      · rename_i semicolon
        split
        · rename_i ending
          exact .digits [] (digit :: data) value rfl rfl bound (by simpa using ending)
        · rename_i ending
          rw [not_or] at ending
          refine .error _ ?_
          rw [feed_cons rfl]
          simp [ChunkPhase.step, hex, semicolon, ending]

def ChunkPhase.lineValue : ChunkPhase → Option Nat
  | .size value | .sizeCr value | .extension value => some value
  | _ => none

theorem ChunkPhase.Holds.line {phase : ChunkPhase} {state : BitVec 64} {value : Nat}
    (holds : phase.Holds state) (line : phase.lineValue = some value) :
    value < 2 ^ 60 ∧ (state = word 4#4 value ∨ state = word 6#4 value) := by
  cases holds <;> simp_all [ChunkPhase.lineValue]

theorem ChunkPhase.step_lf {phase : ChunkPhase} {value : Nat} (line : phase.lineValue = some value) :
    phase.step lf = endLine value := by
  cases phase with
  | size | sizeCr | extension => cases line; rfl
  | _ => cases line

theorem ChunkPhase.line_going {phase : ChunkPhase} {value : Nat} (line : phase.lineValue = some value) :
    phase.stopped = false := by
  cases phase <;> simp_all [ChunkPhase.lineValue, stopped]

theorem finishSizeLine_cons {b : UInt8} (data : Bytes) (state : BitVec 64) (other : b ≠ lf) :
    finishSizeLine (b :: data) state = finishSizeLine data state := by
  simp [finishSizeLine, other]

theorem finishSizeLine_lf {state : BitVec 64} {value : Nat} (data : Bytes)
    (form : state = word 4#4 value ∨ state = word 6#4 value) (bound : value + 2 < 2 ^ 60) :
    finishSizeLine (lf :: data) state = (data, word 12#4 (value + 2)) := by
  rcases form with rfl | rfl
  · simpa [finishSizeLine] using enable_word 4#4 value (.inl rfl) bound
  · simpa [finishSizeLine] using enable_word 6#4 value (.inr rfl) bound

/-- What the skipping half of `consumeHexNumber` does with the rest of a line. -/
inductive LineFinished (phase : ChunkPhase) (value : Nat) (data : Bytes) (state : BitVec 64) :
    Bytes × BitVec 64 → Prop where
  | open_ (next : ChunkPhase) (line : next.lineValue = some value) (holds : next.Holds state)
      (taken : phase.feed data = (next, [], [])) : LineFinished phase value data state ([], state)
  | closed (used rest : Bytes) (split : data = used ++ rest) (some : used ≠ []) (bound : value + 2 < 2 ^ 60)
      (taken : phase.feed used = ((endLine value).1, (endLine value).2, [])) :
      LineFinished phase value data state (rest, word 12#4 (value + 2))

theorem LineFinished.cons {phase next : ChunkPhase} {value : Nat} {b : UInt8} {data : Bytes}
    {state : BitVec 64} {result : Bytes × BitVec 64} (going : phase.stopped = false)
    (step : phase.step b = (next, [])) (finished : LineFinished next value data state result) :
    LineFinished phase value (b :: data) state result := by
  have feed : ∀ rest, phase.feed (b :: rest) = next.feed rest := by
    intro rest
    rw [feed_cons going, step]
    simp
  cases finished with
  | open_ last line holds taken => exact .open_ last line holds (by rw [feed]; exact taken)
  | closed used rest split some bound taken =>
    exact .closed (b :: used) rest (by rw [split]; rfl) (by simp) bound (by rw [feed]; exact taken)

theorem LineFinished.lf {phase : ChunkPhase} {value : Nat} {data : Bytes} {state : BitVec 64}
    (holds : phase.Holds state) (line : phase.lineValue = some value)
    (regular : (phase.feed (lf :: data)).1 ≠ .irregular) :
    LineFinished phase value (Http.lf :: data) state (finishSizeLine (Http.lf :: data) state) := by
  have bound : value + 2 < 2 ^ 60 := by
    by_contra large
    rw [feed_cons (line_going line), step_lf line] at regular
    rw [endLine_irregular (Nat.not_lt.mp large), feed_irregular] at regular
    exact regular rfl
  rw [finishSizeLine_lf data (holds.line line).2 bound]
  refine .closed [Http.lf] data rfl (by simp) bound ?_
  rw [feed_cons (line_going line), step_lf line]
  simp

theorem finishSizeLine_skips (data : Bytes) (phase : ChunkPhase) (value : Nat) (state : BitVec 64)
    (holds : phase.Holds state) (line : phase.lineValue = some value) (skips : phase ≠ .size value)
    (regular : (phase.feed data).1 ≠ .irregular) :
    LineFinished phase value data state (finishSizeLine data state) := by
  induction data with
  | nil => exact .open_ phase line holds rfl
  | cons b data ih =>
    by_cases ending : b = lf
    · subst ending
      exact LineFinished.lf holds line regular
    · have stays : phase.step b = (phase, []) := by
        cases phase with
        | sizeCr v =>
          simp only [ChunkPhase.step, ending, if_false] at regular ⊢
          split
          · rfl
          · rename_i other
            rw [feed_cons rfl] at regular
            simp [ChunkPhase.step, ending, other] at regular
        | extension v => simp [ChunkPhase.step, ending]
        | size v => simp_all [ChunkPhase.lineValue]
        | _ => simp [ChunkPhase.lineValue] at line
      rw [feed_cons (line_going line), stays] at regular
      rw [finishSizeLine_cons _ _ ending]
      exact (ih regular).cons (line_going line) stays

theorem finishSizeLine_digits (data : Bytes) (value : Nat) (bound : value < 2 ^ 60)
    (stop : ∀ b ∈ data.head?, b = cr ∨ b = lf)
    (regular : ((ChunkPhase.size value).feed data).1 ≠ .irregular) :
    LineFinished (.size value) value data (word 4#4 value) (finishSizeLine data (word 4#4 value)) := by
  cases data with
  | nil => exact .open_ _ rfl (.size value bound) rfl
  | cons b data =>
    rcases stop b (by simp) with rfl | rfl
    · have step : (ChunkPhase.size value).step cr = (.sizeCr value, []) := rfl
      rw [feed_cons rfl, step] at regular
      rw [finishSizeLine_cons _ _ (by decide)]
      exact (finishSizeLine_skips data _ value _ (.sizeCr value bound) rfl (by simp) regular).cons rfl step
    · exact LineFinished.lf (.size value bound) rfl regular

/-- What one call of `consumeHexNumber` does with non-empty data in a size line. -/
inductive NumberConsumed (phase : ChunkPhase) (data : Bytes) : Bytes × BitVec 64 → Prop where
  | error (rest : Bytes) (failed : (phase.feed data).1 = .error) : NumberConsumed phase data (rest, stateIsError)
  | partial_ (next : ChunkPhase) (state : BitVec 64) (value : Nat) (line : next.lineValue = some value)
      (holds : next.Holds state) (taken : phase.feed data = (next, [], [])) : NumberConsumed phase data ([], state)
  | line (used rest : Bytes) (value : Nat) (split : data = used ++ rest) (some : used ≠ [])
      (bound : value + 2 < 2 ^ 60) (taken : phase.feed used = ((endLine value).1, (endLine value).2, [])) :
      NumberConsumed phase data (rest, word 12#4 (value + 2))

theorem LineFinished.consumed {phase : ChunkPhase} {value : Nat} {data : Bytes} {state : BitVec 64}
    {result : Bytes × BitVec 64} (finished : LineFinished phase value data state result) :
    NumberConsumed phase data result := by
  cases finished with
  | open_ next line holds taken => exact .partial_ next state value line holds taken
  | closed used rest split some bound taken => exact .line used rest value split some bound taken

theorem NumberConsumed.prepend {phase next : ChunkPhase} {used data : Bytes} {result : Bytes × BitVec 64}
    (taken : phase.feed used = (next, [], [])) (consumed : NumberConsumed next data result) :
    NumberConsumed phase (used ++ data) result := by
  have feed : ∀ rest, phase.feed (used ++ rest) = next.feed rest := by
    intro rest
    rw [feed_append taken]
    simp
  cases consumed with
  | error rest failed => exact .error rest (by rw [feed]; exact failed)
  | partial_ last state value line holds taken =>
    exact .partial_ last state value line holds (by rw [feed]; exact taken)
  | line more rest value split some bound taken =>
    refine .line (used ++ more) rest value (by rw [split, List.append_assoc]) ?_ bound (by rw [feed]; exact taken)
    exact fun none => some (List.append_eq_nil_iff.mp none).2

theorem consumeHexNumber_size (data : Bytes) (value : Nat) (bound : value < 2 ^ 60)
    (regular : ((ChunkPhase.size value).feed data).1 ≠ .irregular) :
    NumberConsumed (.size value) data (consumeHexNumber data (word 4#4 value)) := by
  have digits := consumeHexDigits_taken data value bound
  simp only [consumeHexNumber, extension_word, show ((4#4 : BitVec 4) &&& 2#4 != 0#4) = false by decide,
    Bool.false_eq_true, if_false]
  generalize consumeHexDigits data (word 4#4 value) = result at digits
  cases digits with
  | error rest failed => exact .error rest failed
  | digits used rest after split taken bound' stop =>
    subst split
    rw [feed_append taken] at regular
    exact (finishSizeLine_digits rest after bound' stop regular).consumed.prepend taken
  | extension used rest after split taken bound' =>
    subst split
    rw [feed_append taken] at regular
    exact (finishSizeLine_skips rest _ after _ (.extension after bound') rfl (by simp) regular).consumed.prepend taken

theorem consumeHexNumber_extension (data : Bytes) (phase : ChunkPhase) (value : Nat)
    (holds : phase.Holds (word 6#4 value)) (line : phase.lineValue = some value)
    (skips : phase ≠ .size value) (regular : (phase.feed data).1 ≠ .irregular) :
    NumberConsumed phase data (consumeHexNumber data (word 6#4 value)) := by
  simp only [consumeHexNumber, extension_word, show ((6#4 : BitVec 4) &&& 2#4 != 0#4) = true by decide,
    if_true]
  exact (finishSizeLine_skips data phase value _ holds line skips regular).consumed

theorem consumeHexNumber_ending {b : UInt8} (data : Bytes) (value : Nat) (ending : b = cr ∨ b = lf) :
    consumeHexNumber (b :: data) (word 4#4 value) = finishSizeLine (b :: data) (word 4#4 value) := by
  rcases ending with rfl | rfl <;> simp [consumeHexNumber, consumeHexDigits, hexDigit, cr, lf]

/-- Behind a CR the word reads digits again: the next byte must be one that it does not take for a digit. -/
theorem consumeHexNumber_sizeCr (data : Bytes) (value : Nat) (bound : value < 2 ^ 60)
    (regular : ((ChunkPhase.sizeCr value).feed data).1 ≠ .irregular) :
    NumberConsumed (.sizeCr value) data (consumeHexNumber data (word 4#4 value)) := by
  cases data with
  | nil =>
    have shape : consumeHexNumber [] (word 4#4 value) = ([], word 4#4 value) := by
      simp [consumeHexNumber, consumeHexDigits, finishSizeLine]
    rw [shape]
    exact .partial_ (.sizeCr value) _ value rfl (.sizeCr value bound) rfl
  | cons b data =>
    have harmless : b = lf ∨ b = cr ∨ b = 59 := by
      by_contra other
      simp only [not_or] at other
      rw [feed_cons rfl] at regular
      simp [ChunkPhase.step, other] at regular
    rcases harmless with rfl | rfl | rfl
    · rw [consumeHexNumber_ending _ _ (.inr rfl)]
      exact (finishSizeLine_skips _ _ value _ (.sizeCr value bound) rfl (by simp) regular).consumed
    · rw [consumeHexNumber_ending _ _ (.inl rfl)]
      exact (finishSizeLine_skips _ _ value _ (.sizeCr value bound) rfl (by simp) regular).consumed
    · have shape : consumeHexNumber (59 :: data) (word 4#4 value) =
          finishSizeLine data (word 6#4 value) := by
        simp [consumeHexNumber, consumeHexDigits, hexDigit, word_or_extension]
      have step : (ChunkPhase.sizeCr value).feed [59] = (.sizeCr value, [], []) := rfl
      rw [show (59 :: data) = [59] ++ data by rfl, feed_append step] at regular
      rw [shape]
      exact (finishSizeLine_skips data _ value _ (.sizeCrExtension value bound) rfl (by simp)
        regular).consumed.prepend step

theorem consumeHexNumber_consumed (data : Bytes) (phase : ChunkPhase) (value : Nat) (state : BitVec 64)
    (holds : phase.Holds state) (line : phase.lineValue = some value)
    (regular : (phase.feed data).1 ≠ .irregular) :
    NumberConsumed phase data (consumeHexNumber data state) := by
  cases holds with
  | size v bound => exact consumeHexNumber_size data v bound regular
  | sizeCr v bound => exact consumeHexNumber_sizeCr data v bound regular
  | sizeCrExtension v bound =>
    exact consumeHexNumber_extension data _ v (.sizeCrExtension v bound) rfl (by simp) regular
  | extension v bound =>
    exact consumeHexNumber_extension data _ v (.extension v bound) rfl (by simp) regular
  | data | dataCr | dataLf | trailer => cases line

inductive PassTaken (phase : ChunkPhase) (data : Bytes) : ChunkPass → Prop where
  | error (rest : Bytes) (failed : (phase.feed data).1 = .error) : PassTaken phase data (.stop rest stateIsError)
  | stop (rest : Bytes) (state : BitVec 64) (passed : phase.Passed data [] rest state)
      (ended : rest = [] ∨ state = stateIsTrailer) : PassTaken phase data (.stop rest state)
  | emit (chunk rest : Bytes) (state : BitVec 64) (passed : phase.Passed data (chunkParts chunk) rest state)
      (less : rest.length < data.length) : PassTaken phase data (.emit chunk rest state)
  | again (rest : Bytes) (state : BitVec 64) (passed : phase.Passed data [] rest state)
      (less : rest.length < data.length) : PassTaken phase data (.again rest state)

theorem feed_data (chunk : Bytes) (left : Nat) (some : 0 < left) (within : chunk.length ≤ left) :
    (ChunkPhase.data left).feed chunk =
      (if chunk.length = left then .dataCr else .data (left - chunk.length), chunk.map .byte, []) := by
  induction chunk generalizing left with
  | nil => simp [show ¬ 0 = left by omega]
  | cons b chunk ih =>
    rw [feed_cons rfl]
    simp only [List.length_cons] at within
    by_cases last : left ≤ 1
    · have empty : chunk = [] := List.eq_nil_of_length_eq_zero (by omega)
      subst empty
      simp [ChunkPhase.step, show left = 1 by omega]
    · simp only [ChunkPhase.step, last, if_false]
      rw [ih (left - 1) (by omega) (by omega)]
      simp only [List.length_cons, List.map_cons, List.singleton_append, Prod.mk.injEq, and_true]
      by_cases full : chunk.length + 1 = left
      · rw [if_pos full, if_pos (by omega)]
      · simp [full, show ¬ chunk.length = left - 1 by omega, Nat.sub_sub, Nat.add_comm]

theorem chunkSize_sub (size k : Nat) (bound : size < 2 ^ 60) (within : k ≤ size) :
    (chunkSize (word 12#4 size) - BitVec.ofNat 64 k).toNat = size - k := by
  have rest : chunkSize (word 12#4 size) - BitVec.ofNat 64 k = word 0#4 (size - k) := by
    rw [chunkSize_word, BitVec.sub_eq_iff_eq_add, word_add _ _ _ (by omega), Nat.sub_add_cancel within]
  rw [rest, word_toNat _ _ (by omega)]
  simp

theorem two_le_chunkSize (size : Nat) (bound : size < 2 ^ 60) :
    2#64 ≤ chunkSize (word 12#4 size) ↔ 2 ≤ size := by
  rw [BitVec.le_def, chunkSize_toNat _ _ bound]
  rfl

theorem two_lt_chunkSize (size : Nat) (bound : size < 2 ^ 60) :
    2#64 < chunkSize (word 12#4 size) ↔ 2 < size := by
  rw [BitVec.lt_def, chunkSize_toNat _ _ bound]
  rfl

theorem completeChunk_word (data : Bytes) (size : Nat) (bound : size < 2 ^ 60) (some : 0 < size) :
    completeChunk data (word 12#4 size) =
      if (2 ≤ size ∧ data.getD (size - 2) 0 ≠ cr) ∨ data.getD (size - 1) 0 ≠ lf then .stop data stateIsError
      else if 2 < size then .emit (data.take (size - 2)) (data.drop size) (word 4#4 0)
      else .again (data.drop size) (word 4#4 0) := by
  have one : (chunkSize (word 12#4 size) - 1#64).toNat = size - 1 := chunkSize_sub size 1 bound some
  have whole : (chunkSize (word 12#4 size)).toNat = size := chunkSize_toNat _ _ bound
  simp only [completeChunk, two_le_chunkSize size bound, two_lt_chunkSize size bound, one, whole,
    stateIsChunked_word]
  by_cases two : 2 ≤ size
  · have rest : (chunkSize (word 12#4 size) - 2#64).toNat = size - 2 := chunkSize_sub size 2 bound two
    simp only [rest]
  · simp [two, show ¬ 2 < size by omega]

theorem continueChunk_word (data : Bytes) (size : Nat) (bound : size < 2 ^ 60) (less : data.length < size) :
    continueChunk data (word 12#4 size) =
      if data.length = size - 1 ∧ data.getLastD 0 ≠ cr then .stop data stateIsError
      else if (if 2 < size then data.take (size - 2) else []).length = 0 then
        .stop [] (word 12#4 (size - data.length))
      else .emit (if 2 < size then data.take (size - 2) else []) [] (word 12#4 (size - data.length)) := by
  have one : (chunkSize (word 12#4 size) - 1#64).toNat = size - 1 := chunkSize_sub size 1 bound (by omega)
  simp only [continueChunk, one, two_lt_chunkSize size bound, dec_word size data.length bound less]
  by_cases two : 2 < size
  · have rest : (chunkSize (word 12#4 size) - 2#64).toNat = size - 2 :=
      chunkSize_sub size 2 bound (by omega)
    simp only [two, if_true, rest]
  · simp only [two, if_false]

theorem feed_crlf (x y : UInt8) (rest : Bytes) :
    ChunkPhase.dataCr.feed (x :: y :: rest) =
      if x ≠ cr ∨ y ≠ lf then (.error, [], if x ≠ cr then y :: rest else rest)
      else (ChunkPhase.size 0).feed rest := by
  rw [feed_cons rfl]
  by_cases first : x = cr
  · rw [show ChunkPhase.dataCr.step x = (.dataLf, []) by simp [ChunkPhase.step, first], feed_cons rfl]
    by_cases second : y = lf
    · simp [ChunkPhase.step, first, second]
    · simp [ChunkPhase.step, first, second]
  · simp [ChunkPhase.step, first]

theorem chunkParts_some {chunk : Bytes} (some : chunk ≠ []) : chunkParts chunk = chunk.map .byte := by
  simp [chunkParts, some]

theorem completeChunk_data (data : Bytes) (left : Nat) (some : 0 < left) (bound : left + 2 < 2 ^ 60)
    (full : left + 2 ≤ data.length) :
    PassTaken (.data left) data (completeChunk data (word 12#4 (left + 2))) := by
  have split := List.take_append_drop left data
  have long := List.length_take_of_le (show left ≤ data.length by omega)
  obtain ⟨x, y, rest, tail⟩ : ∃ x y rest, data.drop left = x :: y :: rest := by
    have two : 2 ≤ (data.drop left).length := by rw [List.length_drop]; omega
    match data.drop left, two with
    | x :: y :: rest, _ => exact ⟨x, y, rest, rfl⟩
  generalize data.take left = chunk at split long
  rw [tail] at split
  subst split
  have taken := feed_data chunk left some (by omega)
  rw [if_pos long] at taken
  have first : (chunk ++ x :: y :: rest).getD left 0 = x := by simp [← long]
  have second : (chunk ++ x :: y :: rest).getD (left + 1) 0 = y := by simp [← long]
  have front : (chunk ++ x :: y :: rest).take left = chunk := by simp [← long]
  have back : (chunk ++ x :: y :: rest).drop (left + 2) = rest := by simp [← long]
  rw [completeChunk_word _ _ bound (by omega)]
  simp only [show left + 2 - 2 = left by omega, show left + 2 - 1 = left + 1 by omega, first, second, front, back,
    show 2 < left + 2 by omega, show 2 ≤ left + 2 by omega, true_and, if_true]
  by_cases ending : x ≠ cr ∨ y ≠ lf
  · rw [if_pos ending]
    exact .error _ (by rw [feed_append taken, feed_crlf, if_pos ending])
  · rw [if_neg ending]
    have nonempty : chunk ≠ [] := fun none => by simp [none] at long; omega
    refine .emit chunk rest _ ⟨chunk ++ [x, y], .size 0, by simp, ?_, .size 0 (by decide)⟩ (by simp; omega)
    rw [feed_append taken, feed_crlf, if_neg ending, chunkParts_some nonempty]
    simp

theorem completeChunk_dataCr (data : Bytes) (full : 2 ≤ data.length) :
    PassTaken .dataCr data (completeChunk data (word 12#4 2)) := by
  obtain ⟨x, y, rest, rfl⟩ : ∃ x y rest, data = x :: y :: rest := by
    match data, full with
    | x :: y :: rest, _ => exact ⟨x, y, rest, rfl⟩
  rw [completeChunk_word _ _ (by decide) (by decide)]
  simp only [Nat.le_refl, Nat.sub_self, List.getD_cons_zero, true_and, Nat.add_one_sub_one, List.getD_cons_succ,
    Nat.lt_irrefl, if_false, List.drop_succ_cons, List.drop_zero]
  by_cases ending : x ≠ cr ∨ y ≠ lf
  · rw [if_pos ending]
    exact .error _ (by rw [feed_crlf, if_pos ending])
  · rw [if_neg ending]
    refine .again rest _ ⟨[x, y], .size 0, rfl, ?_, .size 0 (by decide)⟩ (by simp only [List.length_cons]; omega)
    rw [feed_crlf, if_neg ending]
    simp

theorem completeChunk_dataLf (data : Bytes) (full : 1 ≤ data.length) :
    PassTaken .dataLf data (completeChunk data (word 12#4 1)) := by
  obtain ⟨y, rest, rfl⟩ : ∃ y rest, data = y :: rest := by
    match data, full with
    | y :: rest, _ => exact ⟨y, rest, rfl⟩
  rw [completeChunk_word _ _ (by decide) (by decide)]
  simp only [show ¬ 2 ≤ 1 by decide, false_and, false_or, Nat.sub_self, List.getD_cons_zero,
    show ¬ 2 < 1 by decide, if_false, List.drop_succ_cons, List.drop_zero]
  by_cases ending : y ≠ lf
  · rw [if_pos ending]
    exact .error _ (by rw [feed_cons rfl]; simp [ChunkPhase.step, ending])
  · rw [if_neg ending]
    refine .again rest _ ⟨[y], .size 0, rfl, ?_, .size 0 (by decide)⟩ (by simp)
    rw [feed_cons rfl]
    simp [ChunkPhase.step, not_not.mp ending]

theorem continueChunk_data (data : Bytes) (left : Nat) (some : 0 < left) (bound : left + 2 < 2 ^ 60)
    (nonempty : data ≠ []) (less : data.length < left + 2) :
    PassTaken (.data left) data (continueChunk data (word 12#4 (left + 2))) := by
  have positive : 0 < data.length := List.length_pos_iff.mpr nonempty
  rw [continueChunk_word data _ bound less]
  simp only [show 2 < left + 2 by omega, if_true, show left + 2 - 2 = left by omega,
    show left + 2 - 1 = left + 1 by omega]
  have emits : (data.take left).length ≠ 0 := by rw [List.length_take]; omega
  have chunk : data.take left ≠ [] := fun none => emits (by rw [none]; rfl)
  by_cases whole : data.length ≤ left
  · rw [if_neg (by omega), if_neg emits]
    have all : data.take left = data := List.take_of_length_le whole
    refine .emit _ _ _ ⟨data, if data.length = left then .dataCr else .data (left - data.length), by simp, ?_, ?_⟩
      (by simpa using positive)
    · rw [chunkParts_some chunk, all]
      exact feed_data data left some whole
    · by_cases full : data.length = left
      · rw [if_pos full, full, show left + 2 - left = 2 by omega]
        exact .dataCr
      · rw [if_neg full, show left + 2 - data.length = left - data.length + 2 by omega]
        exact .data _ (by omega) (by omega)
  · have split := List.take_append_drop left data
    have long := List.length_take_of_le (show left ≤ data.length by omega)
    obtain ⟨x, tail⟩ : ∃ x, data.drop left = [x] := by
      have one : (data.drop left).length = 1 := by rw [List.length_drop]; omega
      exact List.length_eq_one_iff.mp one
    rw [tail] at split
    have taken := feed_data (data.take left) left some (by omega)
    rw [if_pos long] at taken
    have last : data.getLastD 0 = x := by rw [← split]; simp
    rw [last]
    by_cases ending : x ≠ cr
    · rw [if_pos ⟨by omega, ending⟩]
      refine .error _ ?_
      rw [← split, feed_append taken, feed_cons rfl]
      simp [ChunkPhase.step, ending]
    · rw [if_neg (fun bad => ending bad.2), if_neg emits]
      refine .emit _ _ _ ⟨data, .dataLf, by simp, ?_, ?_⟩ (by simpa using positive)
      · rw [← split, feed_append taken, feed_cons rfl, List.take_left' long, chunkParts_some chunk]
        simp [ChunkPhase.step, not_not.mp ending]
      · rw [show left + 2 - data.length = 1 by omega]
        exact .dataLf

theorem continueChunk_dataCr (data : Bytes) (nonempty : data ≠ []) (less : data.length < 2) :
    PassTaken .dataCr data (continueChunk data (word 12#4 2)) := by
  obtain ⟨x, rfl⟩ : ∃ x, data = [x] := by
    have positive : 0 < data.length := List.length_pos_iff.mpr nonempty
    exact List.length_eq_one_iff.mp (by omega)
  rw [continueChunk_word _ _ (by decide) less]
  by_cases ending : x = cr
  · subst ending
    exact .stop [] _ ⟨[cr], .dataLf, rfl, rfl, .dataLf⟩ (.inl rfl)
  · rw [if_pos ⟨rfl, ending⟩]
    exact .error _ (by rw [feed_cons rfl]; simp [ChunkPhase.step, ending])

theorem chunkSize_eq_two (value : Nat) (bound : value + 2 < 2 ^ 60) :
    chunkSize (word 12#4 (value + 2)) = 2#64 ↔ value = 0 := by
  have size := chunkSize_toNat 12#4 (value + 2) bound
  constructor
  · intro two
    rw [two] at size
    simp only [BitVec.toNat_ofNat] at size
    omega
  · rintro rfl
    decide

theorem chunkPass_line (data : Bytes) (phase : ChunkPhase) (value : Nat) (state : BitVec 64)
    (holds : phase.Holds state) (line : phase.lineValue = some value) (nonempty : data ≠ [])
    (regular : (phase.feed data).1 ≠ .irregular) : PassTaken phase data (chunkPass data state) := by
  have consumed := consumeHexNumber_consumed data phase value state holds line regular
  have positive : 0 < data.length := List.length_pos_iff.mpr nonempty
  have noTrailer : (state &&& stateIsTrailer != 0#64) = false := by
    rcases (holds.line line).2 with rfl | rfl <;> simp
  have noSize : hasChunkSize state = false := by
    rcases (holds.line line).2 with rfl | rfl <;> simp
  simp only [chunkPass, noTrailer, noSize, Bool.false_eq_true, if_false, Bool.not_false, if_true]
  generalize consumeHexNumber data state = result at consumed
  cases consumed with
  | error rest failed =>
    rw [if_pos (show isParsingInvalidChunkedEncoding stateIsError = true by decide)]
    exact .error rest failed
  | partial_ next state value line holds taken =>
    have sizeless : hasChunkSize state = false := by
      rcases (holds.line line).2 with rfl | rfl <;> simp
    simp only [holds.valid, sizeless, Bool.false_eq_true, if_false, false_and]
    exact .again [] state ⟨data, next, by simp, taken, holds⟩ (by simpa using positive)
  | line used rest value split some bound taken =>
    have valid := invalid_word 12#4 (value + 2) bound (by decide)
    have less : rest.length < data.length := by
      have front : 0 < used.length := List.length_pos_iff.mpr some
      rw [split, List.length_append]
      omega
    simp only [valid, Bool.false_eq_true, if_false, hasChunkSize_word, chunkSize_eq_two value bound]
    by_cases zero : value = 0
    · subst zero
      rw [if_pos (by decide)]
      exact .emit [] rest _ ⟨used, .trailer, split, taken, .trailer⟩ less
    · rw [if_neg (by simp [zero])]
      refine .again rest _ ⟨used, .data value, split, ?_, .data value (by omega) bound⟩ less
      rw [taken, endLine_data zero bound]

theorem chunkPass_data (data : Bytes) (size : Nat) (bound : size < 2 ^ 60) :
    chunkPass data (word 12#4 size) =
      if size ≤ data.length then completeChunk data (word 12#4 size)
      else continueChunk data (word 12#4 size) := by
  simp [chunkPass, word_toNat 0#4 size bound]

theorem chunkPass_taken (data : Bytes) (phase : ChunkPhase) (state : BitVec 64) (holds : phase.Holds state)
    (nonempty : data ≠ []) (regular : (phase.feed data).1 ≠ .irregular) :
    PassTaken phase data (chunkPass data state) := by
  have positive : 0 < data.length := List.length_pos_iff.mpr nonempty
  cases holds with
  | size v bound => exact chunkPass_line data _ v _ (.size v bound) rfl nonempty regular
  | sizeCr v bound => exact chunkPass_line data _ v _ (.sizeCr v bound) rfl nonempty regular
  | sizeCrExtension v bound => exact chunkPass_line data _ v _ (.sizeCrExtension v bound) rfl nonempty regular
  | extension v bound => exact chunkPass_line data _ v _ (.extension v bound) rfl nonempty regular
  | data left some bound =>
    rw [chunkPass_data data _ bound]
    by_cases full : left + 2 ≤ data.length
    · rw [if_pos full]
      exact completeChunk_data data left some bound full
    · rw [if_neg full]
      exact continueChunk_data data left some bound nonempty (by omega)
  | dataCr =>
    rw [chunkPass_data data _ (by decide)]
    by_cases full : 2 ≤ data.length
    · rw [if_pos full]
      exact completeChunk_dataCr data full
    · rw [if_neg full]
      exact continueChunk_dataCr data nonempty (by omega)
  | dataLf =>
    rw [chunkPass_data data _ (by decide), if_pos (show 1 ≤ data.length from positive)]
    exact completeChunk_dataLf data positive
  | trailer =>
    have shape : chunkPass data (word 1#4 0) = .stop data (word 1#4 0) := by simp [chunkPass]
    rw [shape]
    exact .stop data _ ⟨[], .trailer, rfl, rfl, .trailer⟩ (.inr rfl)

/-- What `getNextChunk` returns, told by the phases. -/
inductive NextTaken (phase : ChunkPhase) (data : Bytes) : Option Bytes × Bytes × BitVec 64 → Prop where
  | error (rest : Bytes) (failed : (phase.feed data).1 = .error) : NextTaken phase data (none, rest, stateIsError)
  | none (rest : Bytes) (state : BitVec 64) (passed : phase.Passed data [] rest state)
      (ended : rest = [] ∨ state = stateIsTrailer) : NextTaken phase data (none, rest, state)
  | some (chunk rest : Bytes) (state : BitVec 64) (passed : phase.Passed data (chunkParts chunk) rest state)
      (less : rest.length < data.length) : NextTaken phase data (some chunk, rest, state)

theorem ChunkPhase.Passed.trans {phase : ChunkPhase} {data rest last : Bytes} {parts more : List BodyPart}
    {state final : BitVec 64} (first : phase.Passed data parts rest state)
    (second : ∀ next : ChunkPhase, next.Holds state →
      phase.feed data = ((next.feed rest).1, parts ++ (next.feed rest).2.1, (next.feed rest).2.2) →
      next.Passed rest more last final) : phase.Passed data (parts ++ more) last final := by
  obtain ⟨used, next, rfl, taken, holds⟩ := first
  obtain ⟨used', next', rfl, taken', holds'⟩ := second next holds (feed_append taken rest)
  refine ⟨used ++ used', next', by rw [List.append_assoc], ?_, holds'⟩
  rw [feed_append taken, taken']

theorem NextTaken.prepend {phase : ChunkPhase} {data rest : Bytes} {state : BitVec 64}
    {result : Option Bytes × Bytes × BitVec 64} (passed : phase.Passed data [] rest state)
    (shorter : rest.length ≤ data.length)
    (next : ∀ next : ChunkPhase, next.Holds state → (phase.feed data).1 = (next.feed rest).1 →
      NextTaken next rest result) : NextTaken phase data result := by
  obtain ⟨used, mid, rfl, taken, holds⟩ := passed
  have whole := feed_append taken rest
  have after := next mid holds (by rw [whole])
  have joined : ∀ {more last final}, mid.Passed rest more last final →
      phase.Passed (used ++ rest) more last final := by
    rintro more last final ⟨used', next', rfl, taken', holds'⟩
    exact ⟨used ++ used', next', by rw [List.append_assoc], by rw [feed_append taken, taken']; rfl, holds'⟩
  cases after with
  | error last failed => exact .error last (by rw [whole]; exact failed)
  | none last final passed ended => exact .none last final (joined passed) ended
  | some chunk last final passed less => exact .some chunk last final (joined passed) (by omega)

theorem getNextChunkLoop_taken (fuel : Nat) (data : Bytes) (phase : ChunkPhase) (state : BitVec 64)
    (holds : phase.Holds state) (enough : data.length ≤ fuel) (regular : (phase.feed data).1 ≠ .irregular) :
    NextTaken phase data (getNextChunkLoop fuel data state) := by
  induction fuel generalizing data phase state with
  | zero =>
    have empty : data = [] := List.eq_nil_of_length_eq_zero (by omega)
    subst empty
    exact .none [] state ⟨[], phase, rfl, rfl, holds⟩ (.inl rfl)
  | succ fuel ih =>
    by_cases empty : data = []
    · subst empty
      exact .none [] state ⟨[], phase, rfl, rfl, holds⟩ (.inl rfl)
    · have taken := chunkPass_taken data phase state holds empty regular
      have going : data.isEmpty = false := by simpa using empty
      simp only [getNextChunkLoop, going, Bool.false_eq_true, if_false]
      generalize chunkPass data state = pass at taken
      cases taken with
      | error rest failed => exact .error rest failed
      | stop rest state passed ended => exact .none rest state passed ended
      | emit chunk rest state passed less => exact .some chunk rest state passed less
      | again rest after passed less =>
        refine NextTaken.prepend passed (by omega) fun next holds same => ?_
        exact ih rest next after holds (by omega) (by rw [← same]; exact regular)

theorem getNextChunk_taken (data : Bytes) (phase : ChunkPhase) (state : BitVec 64) (holds : phase.Holds state)
    (regular : (phase.feed data).1 ≠ .irregular) : NextTaken phase data (getNextChunk data state) :=
  getNextChunkLoop_taken _ data phase state holds (by omega) regular

theorem ChunkPhase.Holds.eq_trailer {phase : ChunkPhase} {state : BitVec 64} (holds : phase.Holds state)
    (trailer : state = stateIsTrailer) : phase = .trailer := by
  rw [stateIsTrailer_word] at trailer
  cases holds with
  | trailer => rfl
  | size value bound | sizeCr value bound | sizeCrExtension value bound | extension value bound
  | data left some bound => exact absurd (word_inj bound (by decide) trailer).1 (by decide)
  | dataCr | dataLf => exact absurd (word_inj (by decide) (by decide) trailer).1 (by decide)

/-- What a walk over one read leaves, told by the phases. -/
inductive ReadTaken (phase : ChunkPhase) (data : Bytes) : List Bytes × Bytes × BitVec 64 → Prop where
  | error (chunks : List Bytes) (rest : Bytes) (failed : (phase.feed data).1 = .error) :
      ReadTaken phase data (chunks, rest, stateIsError)
  | done (chunks : List Bytes) (rest : Bytes) (next : ChunkPhase) (state : BitVec 64) (holds : next.Holds state)
      (taken : phase.feed data = (next, chunks.flatMap chunkParts, rest)) :
      ReadTaken phase data (chunks, rest, state)

theorem chunkIteratorLoop_taken (fuel : Nat) (data : Bytes) (phase : ChunkPhase) (state : BitVec 64)
    (holds : phase.Holds state) (enough : data.length < fuel) (regular : (phase.feed data).1 ≠ .irregular) :
    ReadTaken phase data (chunkIteratorLoop fuel data state) := by
  induction fuel generalizing data phase state with
  | zero => omega
  | succ fuel ih =>
    have taken := getNextChunk_taken data phase state holds regular
    simp only [chunkIteratorLoop]
    generalize getNextChunk data state = result at taken
    cases taken with
    | error rest failed => exact .error [] rest failed
    | none rest after passed ended =>
      obtain ⟨next, holds, whole⟩ := passed.feed
      rcases ended with rfl | trailer
      · exact .done [] [] next after holds (by simpa using whole)
      · have last := holds.eq_trailer trailer
        subst last
        exact .done [] rest .trailer after holds (by simpa using whole)
    | some chunk rest after passed less =>
      obtain ⟨next, holds, whole⟩ := passed.feed
      have same : (phase.feed data).1 = (next.feed rest).1 := by rw [whole]
      have tail := ih rest next after holds (by omega) (by rw [← same]; exact regular)
      dsimp only
      generalize chunkIteratorLoop fuel rest after = walked at tail ⊢
      cases tail with
      | error chunks last failed => exact .error _ last (by rw [same]; exact failed)
      | done chunks last final state holds taken =>
        refine .done _ last final state holds ?_
        rw [whole, taken]
        rfl

theorem chunkIterator_taken (data : Bytes) (phase : ChunkPhase) (state : BitVec 64) (holds : phase.Holds state)
    (regular : (phase.feed data).1 ≠ .irregular) : ReadTaken phase data (chunkIterator data state) :=
  chunkIteratorLoop_taken _ data phase state holds (by omega) regular

end Uws.Http
