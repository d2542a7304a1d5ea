import Uws.Http.StreamPhases

namespace Uws.Http

open Uws.Machine StreamPhase

inductive Event where
  | request (req : HttpRequest)
  | data (chunk : Bytes) (remaining : Nat)
  deriving DecidableEq, Repr

/-- Handlers that always return the user and keep a log of their calls. -/
def logging : Handlers (List Event) where
  requestHandler req log := (log ++ [.request req], true)
  dataHandler chunk remaining log := (log ++ [.data chunk remaining], true)

@[simp] theorem logging_request (req : HttpRequest) (log : List Event) :
    logging.requestHandler req log = (log ++ [.request req], true) := rfl

@[simp] theorem logging_data (chunk : Bytes) (remaining : Nat) (log : List Event) :
    logging.dataHandler chunk remaining log = (log ++ [.data chunk remaining], true) := rfl

def dataParts (chunk : Bytes) (remaining : Nat) : List StreamPart :=
  (chunk.map BodyPart.byte ++ if remaining = 0 then [BodyPart.fin] else []).map .body

def eventParts : Event → List StreamPart
  | .request req => [.request req]
  | .data chunk remaining => dataParts chunk remaining

def logParts (log : List Event) : List StreamPart := log.flatMap eventParts

theorem logParts_append (log more : List Event) : logParts (log ++ more) = logParts log ++ logParts more :=
  List.flatMap_append

variable {maxHeaderSize : Nat}

def Reading (maxHeaderSize : Nat) (read : Bytes) : Prop :=
  (∃ buffer, getHeaders read = .incomplete buffer) ∧ (read = [] ∨ read.length < maxHeaderSize)

theorem reading_nil : Reading maxHeaderSize [] := ⟨⟨[], rfl⟩, .inl rfl⟩

/-- What the phases do with more bytes of a head, told by what `getHeaders` finds in all of it. -/
inductive HeadTaken (maxHeaderSize : Nat) (read data : Bytes) (final : StreamPhase × List StreamPart) :
    HeadersResult → Prop where
  | irregular (result : HeadersResult) (entered : final.1 = .irregular) : HeadTaken maxHeaderSize read data final result
  | failed (err : HttpError) (entered : final.1 = .error) : HeadTaken maxHeaderSize read data final (.failed err)
  | long (buffer : Bytes) (entered : final.1 = .error) (size : maxHeaderSize ≤ (read ++ data).length) :
      HeadTaken maxHeaderSize read data final (.incomplete buffer)
  | incomplete (buffer : Bytes) (stays : final = (.head (read ++ data), []))
      (small : (read ++ data).length < maxHeaderSize) : HeadTaken maxHeaderSize read data final (.incomplete buffer)
  | longComplete (req : HttpRequest) (rest : Bytes) (entered : final.1 = .error)
      (size : maxHeaderSize + rest.length < (read ++ data).length) :
      HeadTaken maxHeaderSize read data final (.complete req rest)
  | refused (req : HttpRequest) (rest : Bytes) (err : HttpError) (checked : checkHeaders req = .error err)
      (entered : final.1 = .error) : HeadTaken maxHeaderSize read data final (.complete req rest)
  | complete (req checked : HttpRequest) (used rest : Bytes) (split : data = used ++ rest) (some : used ≠ [])
      (small : (read ++ used).length ≤ maxHeaderSize) (passed : checkHeaders req = .ok checked)
      (taken : final =
        ((run (step maxHeaderSize) (ofRequest checked).1 rest).1,
          .request checked :: (ofRequest checked).2.map .body ++
            (run (step maxHeaderSize) (ofRequest checked).1 rest).2)) :
      HeadTaken maxHeaderSize read data final (.complete req rest)

theorem getHeaders_complete_append {p rest : Bytes} {req : HttpRequest} (complete : getHeaders p = .complete req rest)
    (q : Bytes) : getHeaders (p ++ q) = .complete req (rest ++ q) := by
  obtain ⟨proxy, head, rfl, -, found⟩ := getHeaders_complete complete
  rw [List.append_assoc]
  exact (found (rest ++ q)).2

theorem getHeaders_complete_later {p q rest buffer : Bytes} {req : HttpRequest}
    (before : getHeaders p = .incomplete buffer) (complete : getHeaders (p ++ q) = .complete req rest) :
    rest.length < q.length := by
  obtain ⟨proxy, head, split, -, found⟩ := getHeaders_complete complete
  by_contra long
  have within : q <:+ rest := by
    apply List.suffix_of_suffix_length_le (List.suffix_append p q) (split ▸ List.suffix_append _ rest)
    omega
  obtain ⟨front, rfl⟩ := within
  rw [← List.append_assoc] at split
  have same := List.append_cancel_right split
  have earlier := (found front).2
  rw [← same, before] at earlier
  cases earlier

theorem HeadTaken.cons {read data : Bytes} {b : UInt8} {final : StreamPhase × List StreamPart} {result : HeadersResult}
    (taken : HeadTaken maxHeaderSize (read ++ [b]) data final result) :
    HeadTaken maxHeaderSize read (b :: data) final result := by
  have whole : read ++ [b] ++ data = read ++ b :: data := by simp
  cases taken with
  | irregular _ entered => exact .irregular _ entered
  | failed err entered => exact .failed err entered
  | long buffer entered size => exact .long buffer entered (whole ▸ size)
  | incomplete buffer stays small => exact .incomplete buffer (whole ▸ stays) (whole ▸ small)
  | longComplete req rest entered size => exact .longComplete req rest entered (whole ▸ size)
  | refused req rest err checked entered => exact .refused req rest err checked entered
  | complete req checked used rest split some small passed taken =>
    have front : read ++ [b] ++ used = read ++ b :: used := by simp
    exact .complete req checked (b :: used) rest (by rw [split]; rfl) (by simp) (front ▸ small) passed taken

theorem run_head (read data : Bytes) (some : data ≠ []) (reading : Reading maxHeaderSize read) :
    HeadTaken maxHeaderSize read data (run (step maxHeaderSize) (.head read) data) (getHeaders (read ++ data)) := by
  induction data generalizing read with
  | nil => exact absurd rfl some
  | cons b data ih =>
    obtain ⟨⟨buffer, before⟩, small⟩ := reading
    have whole : read ++ b :: data = (read ++ [b]) ++ data := by simp
    have size : (read ++ b :: data).length = (read ++ [b]).length + data.length := by
      rw [whole, List.length_append]
    rw [run_cons, step]
    cases found : getHeaders (read ++ [b]) with
    | complete req rest =>
      have last := getHeaders_complete_later before found
      have none : rest = [] := List.eq_nil_of_length_eq_zero (Nat.lt_one_iff.mp last)
      subst none
      have all := getHeaders_complete_append found data
      rw [whole, all, List.nil_append]
      by_cases long : maxHeaderSize < (read ++ [b]).length
      · apply HeadTaken.longComplete
        · rw [ofHeaders, if_pos long, run_error]
        · omega
      · rw [ofHeaders, if_neg long]
        cases passed : checkHeaders req with
        | error err => exact .refused req data err passed (by rw [run_error])
        | ok checked => exact .complete req checked [b] data rfl (by simp) (Nat.not_lt.mp long) passed rfl
    | failed err =>
      rw [ofHeaders]
      by_cases target : crTarget (read ++ [b]) = true
      · rw [if_pos target]
        exact .irregular _ (by rw [run_irregular])
      · rcases getHeaders_failed found data with stays | target'
        · rw [whole, stays, if_neg target]
          exact .failed err (by rw [run_error])
        · exact absurd target' target
    | incomplete next =>
      rw [ofHeaders]
      by_cases long : maxHeaderSize ≤ (read ++ [b]).length
      · rw [if_pos long, run_error]
        cases all : getHeaders (read ++ b :: data) with
        | incomplete buffer => exact .long buffer rfl (by omega)
        | failed err => exact .failed err rfl
        | complete req rest =>
          have later := getHeaders_complete_later found (whole ▸ all)
          exact .longComplete req rest rfl (by omega)
      · rw [if_neg long, List.nil_append]
        cases data with
        | nil =>
          rw [found]
          exact .incomplete next rfl (Nat.not_le.mp long)
        | cons c data =>
          have later := ih (read ++ [b]) (by simp) ⟨⟨next, found⟩, .inr (Nat.not_le.mp long)⟩
          rw [whole]
          exact later.cons

/-- What a part of a call does with the bytes of a read, told by the phases. -/
inductive PartTaken (maxHeaderSize : Nat) (phase : StreamPhase) (data : Bytes) (base : List StreamPart) :
    Parsed (List Event) → Prop where
  | failed (err : HttpError) (parser : HttpParser) (rest : Bytes) (after : List Event)
      (entered : (run (step maxHeaderSize) phase data).1 = .error) :
      PartTaken maxHeaderSize phase data base ⟨some (.error err), parser, rest, after⟩
  | user (next : StreamPhase) (added : List StreamPart) (parser : HttpParser) (rest : Bytes) (after : List Event)
      (holds : next.Holds maxHeaderSize parser) (taken : run (step maxHeaderSize) phase data = (next, added))
      (parts : logParts after = base ++ added) :
      PartTaken maxHeaderSize phase data base ⟨some .user, parser, rest, after⟩
  | going (next : StreamPhase) (added : List StreamPart) (parser : HttpParser) (rest : Bytes) (after : List Event)
      (holds : next.Holds maxHeaderSize parser)
      (taken : run (step maxHeaderSize) phase data =
        ((run (step maxHeaderSize) next rest).1, added ++ (run (step maxHeaderSize) next rest).2))
      (parts : logParts after = base ++ added) (ended : rest = [] ∨ next = .head [])
      (less : rest.length ≤ data.length) :
      PartTaken maxHeaderSize phase data base ⟨none, parser, rest, after⟩

theorem consumeChunkedTrailer_taken (parser : HttpParser) (data : Bytes)
    (word : parser.remainingStreamingBytes = stateIsTrailer) (empty : parser.fallback = []) :
    ∃ next, Holds maxHeaderSize next (consumeChunkedTrailer parser data).1 ∧
      run (step maxHeaderSize) (.trailer parser.trailerTail) data =
        run (step maxHeaderSize) next (consumeChunkedTrailer parser data).2 ∧
      ((consumeChunkedTrailer parser data).2 = [] ∨ next = .head []) ∧
      (consumeChunkedTrailer parser data).2.length ≤ data.length ∧
      isParsingInvalidChunkedEncoding (consumeChunkedTrailer parser data).1.remainingStreamingBytes = false := by
  induction data generalizing parser with
  | nil =>
    refine ⟨_, .trailer parser word empty, rfl, .inl rfl, Nat.le_refl _, ?_⟩
    rw [consumeChunkedTrailer, word]
    decide
  | cons c data ih =>
    rw [consumeChunkedTrailer, if_pos word, run_cons, step]
    cases trailerStep parser.trailerTail c with
    | none =>
      have valid : isParsingInvalidChunkedEncoding 0#64 = false := by decide
      exact ⟨.head [], .start _ rfl empty, by simp, .inr rfl, Nat.le_succ _, valid⟩
    | some tail =>
      obtain ⟨next, holds, taken, ended, less, valid⟩ := ih { parser with trailerTail := tail } word empty
      exact ⟨next, holds, by simpa using taken, ended, Nat.le_succ_of_le less, valid⟩

def chunkEvent (chunk : Bytes) : Event := .data chunk (if chunk.length ≠ 0 then uint64Max else 0)

theorem eventParts_chunk (chunk : Bytes) : eventParts (chunkEvent chunk) = (chunkParts chunk).map .body := by
  cases chunk with
  | nil => rfl
  | cons b chunk =>
    have more : uint64Max ≠ 0 := by decide
    simp [chunkEvent, eventParts, dataParts, chunkParts, more]

theorem logParts_chunks (chunks : List Bytes) :
    logParts (chunks.map chunkEvent) = (chunks.flatMap chunkParts).map .body := by
  induction chunks with
  | nil => rfl
  | cons chunk chunks ih =>
    have own := eventParts_chunk chunk
    simp only [logParts, List.map_cons, List.flatMap_cons, List.map_append, own] at ih ⊢
    rw [ih]

theorem emitChunks_logging (fuel : Nat) (data : Bytes) (word : BitVec 64) (log : List Event) :
    emitChunks logging fuel data word log =
      (true, (chunkIteratorLoop fuel data word).2.1, (chunkIteratorLoop fuel data word).2.2,
        log ++ (chunkIteratorLoop fuel data word).1.map chunkEvent) := by
  induction fuel generalizing data word log with
  | zero => simp [emitChunks, chunkIteratorLoop]
  | succ fuel ih =>
    simp only [emitChunks, chunkIteratorLoop]
    rcases getNextChunk data word with ⟨chunk, rest, after⟩
    cases chunk with
    | none => simp
    | some chunk =>
      have own : log ++ [Event.data chunk (if chunk.length ≠ 0 then uint64Max else 0)] = log ++ [chunkEvent chunk] := rfl
      simp only [logging_data, if_true, own]
      rw [ih]
      simp

theorem feed_going {phase : ChunkPhase} {data : Bytes} (going : (phase.feed data).1.stopped = false) :
    (phase.feed data).2.2 = [] := by
  induction data generalizing phase with
  | nil => rfl
  | cons b data ih =>
    by_cases stops : phase.stopped = true
    · rw [ChunkPhase.feed_stopped stops] at going
      rw [stops] at going
      cases going
    · have own : phase.stopped = false := by simpa using stops
      rw [ChunkPhase.feed_cons own] at going ⊢
      exact ih going

theorem consumeChunked_taken (phase : ChunkPhase) (parser : HttpParser) (data : Bytes) (log : List Event)
    (word : phase.Holds parser.remainingStreamingBytes) (start : phase = .trailer ∨ parser.trailerTail = 0)
    (empty : parser.fallback = [])
    (regular : (run (step maxHeaderSize) (ofChunk parser.trailerTail phase) data).1 ≠ .irregular) :
    PartTaken maxHeaderSize (ofChunk parser.trailerTail phase) data (logParts log)
      (consumeChunked logging parser data log) := by
  have whole := run_ofChunk maxHeaderSize phase parser.trailerTail data start
  have fine : (phase.feed data).1 ≠ .irregular := by
    intro bad
    rw [whole, bad] at regular
    exact regular (by simp [ofChunk])
  have taken := chunkIterator_taken data phase parser.remainingStreamingBytes word fine
  simp only [consumeChunked, emitChunks_logging]
  change ReadTaken phase data (chunkIteratorLoop (data.length + 1) data parser.remainingStreamingBytes) at taken
  generalize chunkIteratorLoop (data.length + 1) data parser.remainingStreamingBytes = walked at taken ⊢
  cases taken with
  | error chunks rest failed =>
    have stays : consumeChunkedTrailer { parser with remainingStreamingBytes := stateIsError } rest =
        ({ parser with remainingStreamingBytes := stateIsError }, rest) := by
      cases rest with
      | nil => rfl
      | cons c rest =>
        rw [consumeChunkedTrailer, if_neg (show stateIsError ≠ stateIsTrailer by decide)]
    have invalid : isParsingInvalidChunkedEncoding stateIsError = true := by decide
    simp only [Bool.not_true, Bool.false_eq_true, if_false, stays, invalid, if_true]
    apply PartTaken.failed
    rw [whole, failed]
    simp [ofChunk]
  | done chunks rest next after holds taken =>
    have size := runUntil_length ChunkPhase.step ChunkPhase.stopped phase data
    change (phase.feed data).2.2.length ≤ data.length at size
    rw [taken] at whole fine size
    have parts : logParts (log ++ chunks.map chunkEvent) = logParts log ++ (chunks.flatMap chunkParts).map .body := by
      rw [logParts_append, logParts_chunks]
    by_cases last : next = .trailer
    · subst last
      have ending := holds.word_trailer
      obtain ⟨last, holds', same, ended, less, valid⟩ := consumeChunkedTrailer_taken
        { parser with remainingStreamingBytes := after } rest ending empty
      simp only [Bool.not_true, Bool.false_eq_true, if_false, valid]
      apply PartTaken.going last _ _ _ _ holds' _ parts ended (Nat.le_trans less size)
      rw [whole]
      simp only [ofChunk, same]
    · have live : next.stopped = false := by
        cases holds <;> first | rfl | exact absurd rfl last
      have none : rest = [] := by
        have left := @feed_going phase data (by rw [taken]; exact live)
        rw [taken] at left
        exact left
      subst none
      have wrapped : ∀ tail, ofChunk tail next = .chunked next := by
        intro tail
        cases next <;> first | rfl | cases live
      have zero : parser.trailerTail = 0 := by
        rcases start with trailer | zero
        · subst trailer
          rw [ChunkPhase.feed_trailer] at taken
          exact absurd (congrArg Prod.fst taken).symm last
        · exact zero
      simp only [consumeChunkedTrailer, Bool.not_true, Bool.false_eq_true, if_false, holds.valid]
      have resumed : Holds maxHeaderSize (.chunked next) { parser with remainingStreamingBytes := after } :=
        .chunked next _ live holds zero empty
      apply PartTaken.going (.chunked next) _ _ _ _ resumed _ parts (.inl rfl) (Nat.zero_le _)
      rw [whole]
      simp [wrapped]

theorem run_fixed (left : Nat) (data : Bytes) (some : 0 < left) (within : data.length ≤ left) :
    run (step maxHeaderSize) (.fixed left) data =
      (if data.length = left then .head [] else .fixed (left - data.length),
        dataParts data (left - data.length)) := by
  induction data generalizing left with
  | nil => simp [Nat.ne_of_lt some, Nat.ne_of_gt some, dataParts]
  | cons b data ih =>
    simp only [List.length_cons] at within
    rw [run_cons, step]
    by_cases last : left ≤ 1
    · have none : data = [] := List.eq_nil_of_length_eq_zero (by omega)
      subst none
      have one : left = 1 := by omega
      subst one
      rfl
    · have later := ih (left - 1) (by omega) (by omega)
      have less : left - 1 - data.length = left - (data.length + 1) := by omega
      have same : data.length = left - 1 ↔ data.length + 1 = left := by omega
      simp only [last, if_false, later, same, less, List.length_cons]
      simp [dataParts]

theorem ofNat_word {n : Nat} (bound : n < 2 ^ 60) : BitVec.ofNat 64 n = word 0#4 n := by
  apply BitVec.eq_of_toNat_eq
  rw [word_toNat 0#4 n bound, BitVec.toNat_ofNat, Nat.mod_eq_of_lt (by omega)]
  simp

theorem isParsingChunkedEncoding_ofNat {n : Nat} (bound : n < 2 ^ 60) :
    isParsingChunkedEncoding (BitVec.ofNat 64 n) = false := by
  rw [ofNat_word bound]
  simp

theorem toNat_ofNat_small {n : Nat} (bound : n < 2 ^ 60) : (BitVec.ofNat 64 n).toNat = n := by
  rw [BitVec.toNat_ofNat]
  exact Nat.mod_eq_of_lt (by omega)

theorem logParts_data (log : List Event) (chunk : Bytes) (remaining : Nat) :
    logParts (log ++ [.data chunk remaining]) = logParts log ++ dataParts chunk remaining := by
  rw [logParts_append]
  simp [logParts, eventParts]

theorem holds_left {left used : Nat} {parser : HttpParser} (bound : left < 2 ^ 60) (within : used ≤ left)
    (empty : parser.fallback = []) :
    Holds maxHeaderSize (if used = left then .head [] else .fixed (left - used))
      { parser with remainingStreamingBytes := BitVec.ofNat 64 (left - used) } := by
  by_cases full : used = left
  · rw [if_pos full, full, Nat.sub_self]
    exact .start _ rfl empty
  · rw [if_neg full]
    exact .fixed _ _ (by omega) (by omega) rfl empty

theorem run_fixed_take (left : Nat) (data : Bytes) (some : 0 < left) (long : left < data.length) :
    run (step maxHeaderSize) (.fixed left) data =
      ((run (step maxHeaderSize) (.head []) (data.drop left)).1,
        dataParts (data.take left) 0 ++ (run (step maxHeaderSize) (.head []) (data.drop left)).2) := by
  have size : (data.take left).length = left := List.length_take_of_le (Nat.le_of_lt long)
  have front := @run_fixed maxHeaderSize left (data.take left) some (Nat.le_of_eq size)
  rw [if_pos size, size, Nat.sub_self] at front
  conv => lhs; rw [← List.take_append_drop left data]
  rw [run_append, front]

theorem consumeStreamingBody_fixed (left : Nat) (parser : HttpParser) (data : Bytes) (log : List Event)
    (some : 0 < left) (bound : left < 2 ^ 60) (word : parser.remainingStreamingBytes = BitVec.ofNat 64 left)
    (empty : parser.fallback = []) :
    PartTaken maxHeaderSize (.fixed left) data (logParts log) (consumeStreamingBody logging parser data log) := by
  simp only [consumeStreamingBody, word, isParsingChunkedEncoding_ofNat bound, toNat_ofNat_small bound,
    Bool.false_eq_true, if_false, logging_data, if_true]
  by_cases within : data.length ≤ left
  · rw [if_pos within]
    have taken := @run_fixed maxHeaderSize left data some within
    have holds := @holds_left maxHeaderSize _ _ _ bound within empty
    exact .user _ _ _ _ _ holds taken (logParts_data log data _)
  · rw [if_neg within]
    have long : left < data.length := Nat.lt_of_not_le within
    have idle : Holds maxHeaderSize (.head []) { parser with remainingStreamingBytes := 0#64 } := .start _ rfl empty
    exact .going _ _ _ _ _ idle (run_fixed_take left data some long) (logParts_data log _ 0) (.inr rfl)
      (by simp)

theorem toUnsignedIntegerLoop_bound (str : Bytes) (value : BitVec 64) (digits : Nat) (small : value.toNat < 10 ^ digits)
    (short : digits + str.length ≤ 18) :
    toUnsignedIntegerLoop str value = BitVec.allOnes 64 ∨
      (toUnsignedIntegerLoop str value).toNat < 10 ^ (digits + str.length) := by
  induction str generalizing value digits with
  | nil => exact .inr small
  | cons c str ih =>
    rw [toUnsignedIntegerLoop]
    split
    · exact .inl rfl
    · rename_i digit
      rw [not_or] at digit
      simp only [List.length_cons] at short
      have low := UInt8.not_lt.mp digit.1
      have high := UInt8.not_lt.mp digit.2
      rw [UInt8.le_iff_toNat_le] at low high
      simp only [UInt8.reduceToNat] at low high
      have power : 10 ^ digits ≤ 10 ^ 17 := Nat.pow_le_pow_right (by decide) (by omega)
      have next : (value * 10#64 + BitVec.ofNat 64 (c.toNat - 48)).toNat = value.toNat * 10 + (c.toNat - 48) := by
        simp only [BitVec.toNat_add, BitVec.toNat_mul, BitVec.toNat_ofNat]
        omega
      have bound : (value * 10#64 + BitVec.ofNat 64 (c.toNat - 48)).toNat < 10 ^ (digits + 1) := by
        rw [next, Nat.pow_succ]
        omega
      have later := ih _ (digits + 1) bound (by omega)
      rw [List.length_cons, show digits + (str.length + 1) = digits + 1 + str.length by omega]
      exact later

theorem toUnsignedInteger_bound (str : Bytes) :
    (toUnsignedInteger str).toNat = uint64Max ∨ (toUnsignedInteger str).toNat < 2 ^ 60 := by
  have all : (BitVec.allOnes 64).toNat = uint64Max := by decide
  unfold toUnsignedInteger
  split
  · exact .inl all
  · rename_i short
    rcases toUnsignedIntegerLoop_bound str 0#64 0 (by decide) (by omega) with ones | small
    · exact .inl (by rw [ones]; exact all)
    · have power : 10 ^ (0 + str.length) ≤ 10 ^ 18 := Nat.pow_le_pow_right (by decide) (by omega)
      exact .inr (by omega)

theorem startBody_taken (req : HttpRequest) (parser : HttpParser) (data : Bytes) (log : List Event)
    (idle : parser.remainingStreamingBytes = 0#64) (empty : parser.fallback = [])
    (regular : (run (step maxHeaderSize) (ofRequest req).1 data).1 ≠ .irregular) :
    PartTaken maxHeaderSize (ofRequest req).1 data (logParts log ++ (ofRequest req).2.map .body)
      (startBody logging false req parser data log) := by
  unfold startBody
  unfold ofRequest at regular ⊢
  split
  · rename_i encoded
    rw [if_pos encoded] at regular
    have word : (ChunkPhase.size 0).Holds stateIsChunked := by
      rw [stateIsChunked_word]
      exact .size 0 (by decide)
    have taken := @consumeChunked_taken maxHeaderSize (.size 0)
      { parser with remainingStreamingBytes := stateIsChunked, trailerTail := 0 } data log word (.inr rfl) empty regular
    rw [List.map_nil, List.append_nil]
    exact taken
  · split
    · rcases toUnsignedInteger_bound req.contentLengthString with invalid | bound
      · simp only [invalid, if_true]
        exact .failed _ _ _ _ (by rw [run_error])
      · have valid : (toUnsignedInteger req.contentLengthString).toNat ≠ uint64Max := by
          have most : 2 ^ 60 < uint64Max := by decide
          omega
        simp only [valid, if_false, Bool.not_false, if_true, logging_data]
        generalize (toUnsignedInteger req.contentLengthString).toNat = length at bound
        have parts := logParts_data log (data.take (min length data.length)) (length - min length data.length)
        by_cases zero : length = 0
        · subst zero
          have holds : Holds maxHeaderSize (.head [])
              { parser with remainingStreamingBytes := BitVec.ofNat 64 (0 - min 0 data.length) } := .start _ (by simp) empty
          rw [Nat.zero_min, List.take_zero] at parts
          rw [if_pos rfl, Nat.zero_min, List.take_zero, List.drop_zero]
          rw [Nat.zero_min] at holds
          exact .going (.head []) [] _ _ _ holds (by simp) (by rw [parts, List.append_nil]; rfl) (.inr rfl)
            (Nat.le_refl _)
        · simp only [zero, if_false, List.map_nil, List.append_nil]
          have some : 0 < length := Nat.pos_of_ne_zero zero
          by_cases within : data.length ≤ length
          · rw [Nat.min_eq_right within, List.take_length] at parts
            rw [Nat.min_eq_right within, List.take_length, List.drop_length]
            have taken := @run_fixed maxHeaderSize length data some within
            have holds := @holds_left maxHeaderSize _ _ _ bound within empty
            exact .going _ _ _ _ _ holds (by rw [taken]; simp) parts (.inl rfl) (Nat.zero_le _)
          · have long : length < data.length := Nat.lt_of_not_le within
            rw [Nat.min_eq_left (Nat.le_of_lt long), Nat.sub_self] at parts ⊢
            exact .going (.head []) _ _ _ _ (.start _ rfl empty) (run_fixed_take length data some long) parts (.inr rfl)
              (by simp)
    · have parts := logParts_data log [] 0
      simp only [logging_data, if_true]
      exact .going (.head []) [] _ _ _ (.start parser idle empty) (by simp) (by simpa [dataParts] using parts) (.inr rfl)
        (Nat.le_refl _)

theorem startBody_minimally (req : HttpRequest) (parser : HttpParser) (data : Bytes) (log : List Event)
    (idle : parser.remainingStreamingBytes = 0#64) :
    (∃ err after last, startBody logging true req parser data log = ⟨some (.error err), last, data, after⟩ ∧
        (ofRequest req).1 = .error) ∨
      ∃ after last, startBody logging true req parser data log = ⟨none, last, data, after⟩ ∧
        Holds maxHeaderSize (ofRequest req).1 { last with fallback := [] } ∧
        logParts after = logParts log ++ (ofRequest req).2.map .body := by
  unfold startBody ofRequest
  split
  · have word : (ChunkPhase.size 0).Holds stateIsChunked := by
      rw [stateIsChunked_word]
      exact .size 0 (by decide)
    exact .inr ⟨log, _, rfl, .chunked _ _ rfl word rfl rfl, by simp⟩
  · split
    · rcases toUnsignedInteger_bound req.contentLengthString with invalid | bound
      · simp only [invalid, if_true]
        exact .inl ⟨_, _, _, rfl, trivial⟩
      · have valid : (toUnsignedInteger req.contentLengthString).toNat ≠ uint64Max := by
          have most : 2 ^ 60 < uint64Max := by decide
          omega
        simp only [valid, if_false, Bool.not_true, Bool.false_eq_true, logging_data, if_true]
        have word : toUnsignedInteger req.contentLengthString =
            BitVec.ofNat 64 (toUnsignedInteger req.contentLengthString).toNat := by simp
        generalize toUnsignedInteger req.contentLengthString = length at bound word
        have parts := logParts_data log [] 0
        by_cases zero : length.toNat = 0
        · simp only [zero, if_true]
          have none : length = 0#64 := by rw [word, zero]
          exact .inr ⟨_, _, rfl, .start _ none rfl, parts⟩
        · simp only [zero, if_false]
          exact .inr ⟨_, _, rfl, .fixed _ _ (Nat.pos_of_ne_zero zero) bound word rfl, by simp⟩
    · have parts := logParts_data log [] 0
      simp only [logging_data, if_true]
      exact .inr ⟨_, _, rfl, .start _ idle rfl, parts⟩

theorem consumeChunked_returned (parser : HttpParser) (data : Bytes) (log : List Event) :
    (consumeChunked logging parser data log).returned ≠ some .user := by
  unfold consumeChunked
  simp only [emitChunks_logging, Bool.not_true, Bool.false_eq_true, if_false]
  split <;> simp

theorem startBody_returned (req : HttpRequest) (parser : HttpParser) (data : Bytes) (log : List Event) :
    (startBody logging false req parser data log).returned ≠ some .user := by
  unfold startBody
  split
  · exact consumeChunked_returned _ data log
  · simp only [logging_data]
    split
    · split <;> simp
    · simp

/-- What the loop over the heads of a read leaves, told by the phases. -/
inductive FenceTaken (maxHeaderSize : Nat) (data : Bytes) (base : List StreamPart) : Parsed (List Event) → Prop where
  | failed (err : HttpError) (parser : HttpParser) (rest : Bytes) (after : List Event)
      (entered : (run (step maxHeaderSize) (.head []) data).1 = .error) :
      FenceTaken maxHeaderSize data base ⟨some (.error err), parser, rest, after⟩
  | done (next : StreamPhase) (added : List StreamPart) (parser : HttpParser) (after : List Event)
      (holds : next.Holds maxHeaderSize parser) (taken : run (step maxHeaderSize) (.head []) data = (next, added))
      (parts : logParts after = base ++ added) : FenceTaken maxHeaderSize data base ⟨none, parser, [], after⟩
  | open_ (read buffer : Bytes) (added : List StreamPart) (parser : HttpParser) (after : List Event) (some : read ≠ [])
      (got : getHeaders read = .incomplete buffer) (idle : parser.remainingStreamingBytes = 0#64)
      (empty : parser.fallback = [])
      (taken : run (step maxHeaderSize) (.head []) data =
        ((run (step maxHeaderSize) (.head []) read).1, added ++ (run (step maxHeaderSize) (.head []) read).2))
      (parts : logParts after = base ++ added) : FenceTaken maxHeaderSize data base ⟨none, parser, buffer, after⟩

theorem FenceTaken.prepend {data rest : Bytes} {base added : List StreamPart} {result : Parsed (List Event)}
    (taken : run (step maxHeaderSize) (.head []) data =
      ((run (step maxHeaderSize) (.head []) rest).1, added ++ (run (step maxHeaderSize) (.head []) rest).2))
    (later : FenceTaken maxHeaderSize rest (base ++ added) result) : FenceTaken maxHeaderSize data base result := by
  cases later with
  | failed err parser rest after entered =>
    exact .failed err parser rest after (by rw [taken]; exact entered)
  | done next more parser after holds taken' parts =>
    exact .done next (added ++ more) parser after holds (by rw [taken, taken']) (by rw [parts, List.append_assoc])
  | open_ read buffer more parser after some got idle empty taken' parts =>
    exact .open_ read buffer (added ++ more) parser after some got idle empty
      (by rw [taken, taken']; simp [List.append_assoc]) (by rw [parts, List.append_assoc])

theorem StreamPhase.Holds.idle {parser : HttpParser} (holds : Holds maxHeaderSize (.head []) parser) :
    parser.remainingStreamingBytes = 0#64 ∧ parser.fallback = [] := by
  cases holds with
  | start _ idle empty => exact ⟨idle, empty⟩
  | head _ _ some => exact absurd rfl some

theorem logParts_request (log : List Event) (req : HttpRequest) :
    logParts (log ++ [.request req]) = logParts log ++ [.request req] := by
  rw [logParts_append]
  rfl

theorem fenceLoop_taken (fuel : Nat) (parser : HttpParser) (data : Bytes) (log : List Event)
    (enough : data.length ≤ fuel) (idle : parser.remainingStreamingBytes = 0#64) (empty : parser.fallback = [])
    (regular : (run (step maxHeaderSize) (.head []) data).1 ≠ .irregular) :
    FenceTaken maxHeaderSize data (logParts log) (fenceLoop logging false maxHeaderSize fuel parser data log) := by
  induction fuel generalizing parser data log with
  | zero =>
    have none : data = [] := List.eq_nil_of_length_eq_zero (by omega)
    subst none
    exact .done (.head []) [] parser log (.start parser idle empty) rfl (by simp)
  | succ fuel ih =>
    by_cases none : data = []
    · subst none
      exact .done (.head []) [] parser log (.start parser idle empty) rfl (by simp)
    · have going : data.isEmpty = false := by simpa using none
      have taken := @run_head maxHeaderSize [] data none reading_nil
      rw [List.nil_append] at taken
      simp only [fenceLoop, going, Bool.false_eq_true, if_false]
      cases found : getHeaders data with
      | incomplete buffer => exact .open_ data buffer [] _ log none found idle empty rfl (by simp)
      | failed err =>
        rw [found] at taken
        cases taken with
        | irregular _ entered => exact absurd entered regular
        | failed _ entered => exact .failed err _ _ _ entered
      | complete req rest =>
        rw [found] at taken
        cases taken with
        | irregular _ entered => exact absurd entered regular
        | longComplete _ _ entered size =>
          simp only [List.nil_append] at size
          have long : maxHeaderSize < data.length - rest.length := by omega
          simp only [long, if_true]
          exact .failed _ _ _ _ entered
        | refused _ _ err checked entered =>
          simp only [checked]
          split <;> exact .failed _ _ _ _ entered
        | complete _ checked used _ split some small passed taken =>
          subst split
          have short : ¬ maxHeaderSize < (used ++ rest).length - rest.length := by
            simp only [List.nil_append, List.length_append] at small ⊢
            omega
          have less : 0 < used.length := List.length_pos_of_ne_nil some
          rw [taken] at regular
          simp only [short, if_false, passed, logging_request, Bool.not_true, Bool.false_eq_true, Bool.or_false]
          have body := @startBody_taken maxHeaderSize checked
            { parser with reserved := (parser.reserved.parse (used ++ rest)).1 } rest (log ++ [.request checked]) idle
            empty regular
          have other := startBody_returned checked
            { parser with reserved := (parser.reserved.parse (used ++ rest)).1 } rest (log ++ [.request checked])
          generalize startBody logging false checked
            { parser with reserved := (parser.reserved.parse (used ++ rest)).1 } rest (log ++ [.request checked]) =
            result at body other
          cases body with
          | failed err last left after entered => exact .failed err last left after (by rw [taken]; exact entered)
          | user next added last left after holds taken' parts => exact absurd rfl other
          | going next added last left after holds taken' parts ended fewer =>
            simp only [Option.isSome_none, Bool.false_eq_true, if_false]
            rw [logParts_request] at parts
            have parts' : logParts after =
                logParts log ++ (.request checked :: (ofRequest checked).2.map .body ++ added) := by
              rw [parts]
              simp
            rw [taken'] at taken regular
            rcases ended with empty | start
            · subst empty
              have nothing : fenceLoop logging false maxHeaderSize fuel last [] after = ⟨Option.none, last, [], after⟩ := by
                cases fuel <;> rfl
              rw [nothing]
              exact .done next _ last after holds (by rw [taken, run_nil]; simp) parts'
            · subst start
              have left_le : left.length ≤ fuel := by
                simp only [List.length_append] at enough
                omega
              have later := ih last left after left_le holds.idle.1 holds.idle.2 regular
              rw [parts'] at later
              exact later.prepend (by rw [taken]; simp)

/-- What a call does with a read, told by the phases. -/
inductive CallTaken (maxHeaderSize : Nat) (phase : StreamPhase) (data : Bytes) (base : List StreamPart) :
    Returned × HttpParser × List Event → Prop where
  | failed (err : HttpError) (parser : HttpParser) (after : List Event)
      (entered : (run (step maxHeaderSize) phase data).1 = .error) :
      CallTaken maxHeaderSize phase data base (.error err, parser, after)
  | user (next : StreamPhase) (added : List StreamPart) (parser : HttpParser) (after : List Event)
      (holds : next.Holds maxHeaderSize parser) (taken : run (step maxHeaderSize) phase data = (next, added))
      (parts : logParts after = base ++ added) : CallTaken maxHeaderSize phase data base (.user, parser, after)

theorem CallTaken.prepend {phase next : StreamPhase} {data rest : Bytes} {base added : List StreamPart}
    {result : Returned × HttpParser × List Event}
    (taken : run (step maxHeaderSize) phase data =
      ((run (step maxHeaderSize) next rest).1, added ++ (run (step maxHeaderSize) next rest).2))
    (later : CallTaken maxHeaderSize next rest (base ++ added) result) :
    CallTaken maxHeaderSize phase data base result := by
  cases later with
  | failed err parser after entered => exact .failed err parser after (by rw [taken]; exact entered)
  | user last more parser after holds taken' parts =>
    exact .user last (added ++ more) parser after holds (by rw [taken, taken']) (by rw [parts, List.append_assoc])

theorem FenceTaken.saved {data : Bytes} {base : List StreamPart} {consumed : Parsed (List Event)}
    (fenced : FenceTaken maxHeaderSize data base consumed)
    (regular : (run (step maxHeaderSize) (.head []) data).1 ≠ .irregular) :
    CallTaken maxHeaderSize (.head []) data base
      (match consumed.returned with
        | some returned => (returned, consumed.parser, consumed.state)
        | none =>
          if consumed.data.length ≠ 0 then
            if consumed.data.length < maxHeaderSize then
              (.user, { consumed.parser with fallback := consumed.parser.fallback ++ consumed.data }, consumed.state)
            else (.error .requestHeaderFieldsTooLarge, consumed.parser, consumed.state)
          else (.user, consumed.parser, consumed.state)) := by
  cases fenced with
  | failed err last rest after entered => exact .failed err last after entered
  | done next added last after holds taken parts => exact .user next added last after holds taken parts
  | open_ read buffer added last after some got idle empty taken parts =>
    have size := (getHeaders_incomplete got).1
    have long : read.length ≠ 0 := fun zero => some (List.eq_nil_of_length_eq_zero zero)
    have later := @run_head maxHeaderSize [] read some reading_nil
    rw [List.nil_append, got] at later
    simp only [size, if_pos long]
    rw [taken] at regular
    cases later with
    | irregular _ entered => exact absurd entered regular
    | long _ entered wide =>
      rw [List.nil_append] at wide
      rw [if_neg (Nat.not_lt.mpr wide)]
      exact .failed _ _ _ (by rw [taken]; exact entered)
    | incomplete _ stays small =>
      rw [List.nil_append] at small stays
      rw [if_pos small]
      have held : Holds maxHeaderSize (.head read) { last with fallback := last.fallback ++ buffer } :=
        .head read _ some small idle (by rw [empty]; exact got)
      exact .user (.head read) added _ after held (by rw [taken, stays]; simp) parts

theorem consumeHeads_taken (parser : HttpParser) (data : Bytes) (log : List Event)
    (holds : Holds maxHeaderSize (.head []) parser)
    (regular : (run (step maxHeaderSize) (.head []) data).1 ≠ .irregular) :
    CallTaken maxHeaderSize (.head []) data (logParts log) (consumeHeads logging maxHeaderSize parser data log) := by
  have fenced := fenceLoop_taken data.length parser data log (Nat.le_refl _) holds.idle.1 holds.idle.2 regular
  exact fenced.saved regular

theorem consumeBodyAndHeads_taken (phase : StreamPhase) (parser : HttpParser) (data : Bytes) (log : List Event)
    (holds : phase.Holds maxHeaderSize parser) (streaming : parser.remainingStreamingBytes ≠ 0#64)
    (regular : (run (step maxHeaderSize) phase data).1 ≠ .irregular) :
    CallTaken maxHeaderSize phase data (logParts log)
      (consumeBodyAndHeads logging maxHeaderSize parser data log) := by
  have body : PartTaken maxHeaderSize phase data (logParts log) (consumeStreamingBody logging parser data log) := by
    cases holds with
    | start _ idle => exact absurd idle streaming
    | head _ _ _ _ idle => exact absurd idle streaming
    | fixed left _ some bound word empty => exact consumeStreamingBody_fixed left parser data log some bound word empty
    | chunked phase _ going word start empty =>
      have wrapped : ofChunk parser.trailerTail phase = .chunked phase := by
        cases phase <;> first | rfl | cases going
      have chunked := word.chunked
      rw [← wrapped] at regular ⊢
      simp only [consumeStreamingBody, chunked, if_true]
      exact consumeChunked_taken phase parser data log word (.inr start) empty regular
    | trailer _ word empty =>
      have held : ChunkPhase.trailer.Holds parser.remainingStreamingBytes := by
        rw [word, stateIsTrailer_word]
        exact .trailer
      have chunked := held.chunked
      simp only [consumeStreamingBody, chunked, if_true]
      exact consumeChunked_taken .trailer parser data log held (.inl rfl) empty regular
  simp only [consumeBodyAndHeads]
  generalize consumeStreamingBody logging parser data log = result at body
  cases body with
  | failed err last rest after entered => exact .failed err last after entered
  | user next added last rest after holds taken parts => exact .user next added last after holds taken parts
  | going next added last rest after holds taken parts ended fewer =>
    rw [taken] at regular
    rcases ended with empty | start
    · subst empty
      have nothing : consumeHeads logging maxHeaderSize last [] after = (.user, last, after) := rfl
      simp only [nothing]
      exact .user next added last after holds (by rw [taken, run_nil]; simp) parts
    · subst start
      have later := consumeHeads_taken last rest after holds regular
      rw [parts] at later
      exact later.prepend taken

end Uws.Http
