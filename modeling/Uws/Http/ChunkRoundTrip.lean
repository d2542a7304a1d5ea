import Uws.Http.ChunkFraming

namespace Uws.Http

open Uws.Machine

/-- A chunk-size line without its CRLF. -/
structure SizeLine where
  digits : Bytes
  extension : Bytes
  hex : ∀ d ∈ digits, isHexDigit d
  written : digits ≠ []
  extended : extension = [] ∨ extension.head? = Option.some 59
  unended : lf ∉ extension

structure EncodedChunk extends SizeLine where
  data : Bytes
  nonempty : data ≠ []
  value : hexValue 0 digits = data.length

def SizeLine.encode (line : SizeLine) : Bytes := line.digits ++ line.extension ++ [cr, lf]

def EncodedChunk.encode (chunk : EncodedChunk) : Bytes := chunk.toSizeLine.encode ++ (chunk.data ++ [cr, lf])

structure LastLine extends SizeLine where
  zero : hexValue 0 digits = 0

def encodeChunks (chunks : List EncodedChunk) (final : LastLine) : Bytes :=
  chunks.flatMap EncodedChunk.encode ++ final.encode

def encodedData (chunks : List EncodedChunk) : Bytes := chunks.flatMap EncodedChunk.data

def decodeReads : List Bytes → BitVec 64 → List Bytes × BitVec 64
  | [], state => ([], state)
  | read :: reads, state =>
    ((chunkIterator read state).1 ++ (decodeReads reads (chunkIterator read state).2.2).1,
      (decodeReads reads (chunkIterator read state).2.2).2)

/-- The reads give the bytes of `data`, then one final empty chunk, and no error. -/
def DecodesTo (reads : List Bytes) (data : Bytes) : Prop :=
  ∃ chunks, decodeReads reads stateIsChunked = (chunks ++ [[]], stateIsTrailer) ∧ chunks.flatten = data ∧
    [] ∉ chunks

theorem feed_digits (digits rest : Bytes) (value : Nat) (hex : ∀ d ∈ digits, isHexDigit d)
    (bound : hexValue value digits < 2 ^ 60) :
    (ChunkPhase.size value).feed (digits ++ rest) = (ChunkPhase.size (hexValue value digits)).feed rest := by
  induction digits generalizing value with
  | nil => rfl
  | cons digit digits ih =>
    obtain ⟨number, known⟩ := Option.isSome_iff_exists.mp (hex digit (by simp))
    simp only [hexValue_cons, known, Option.getD_some] at bound ⊢
    have next := le_hexValue (16 * value + number) digits
    have step : (ChunkPhase.size value).step digit = (.size (16 * value + number), []) := by
      rw [ChunkPhase.step_digit known, if_neg (show ¬ 2 ^ 56 ≤ value by omega)]
    rw [List.cons_append, ChunkPhase.feed_cons rfl, step, ih _ (fun d member => hex d (by simp [member])) bound]
    simp

theorem feed_extension (text rest : Bytes) (value : Nat) (unended : lf ∉ text) :
    (ChunkPhase.extension value).feed (text ++ lf :: rest) =
      (((ChunkPhase.endLine value).1.feed rest).1,
        (ChunkPhase.endLine value).2 ++ ((ChunkPhase.endLine value).1.feed rest).2.1,
        ((ChunkPhase.endLine value).1.feed rest).2.2) := by
  induction text with
  | nil =>
    rw [List.nil_append, ChunkPhase.feed_cons rfl]
    rfl
  | cons b text ih =>
    simp only [List.mem_cons, not_or] at unended
    have stays : (ChunkPhase.extension value).step b = (.extension value, []) := by
      simp [ChunkPhase.step, Ne.symm unended.1]
    rw [List.cons_append, ChunkPhase.feed_cons rfl, stays, ih unended.2]
    simp

theorem SizeLine.feed (line : SizeLine) (rest : Bytes) (bound : hexValue 0 line.digits < 2 ^ 60) :
    (ChunkPhase.size 0).feed (line.encode ++ rest) =
      (((ChunkPhase.endLine (hexValue 0 line.digits)).1.feed rest).1,
        (ChunkPhase.endLine (hexValue 0 line.digits)).2 ++
          ((ChunkPhase.endLine (hexValue 0 line.digits)).1.feed rest).2.1,
        ((ChunkPhase.endLine (hexValue 0 line.digits)).1.feed rest).2.2) := by
  have shape : line.encode ++ rest = line.digits ++ (line.extension ++ [cr] ++ lf :: rest) := by
    simp [SizeLine.encode]
  rw [shape, feed_digits _ _ _ line.hex bound]
  rcases line.extended with none | semicolon
  · have first : ∀ value, (ChunkPhase.size value).step cr = (.sizeCr value, []) := fun _ => rfl
    have second : ∀ value, (ChunkPhase.sizeCr value).step lf = ChunkPhase.endLine value := fun _ => rfl
    simp only [none, List.nil_append, List.singleton_append]
    rw [ChunkPhase.feed_cons rfl, first, ChunkPhase.feed_cons rfl, second]
    rfl
  · obtain ⟨text, extension⟩ := List.head?_eq_some_iff.mp semicolon
    have first : ∀ value, (ChunkPhase.size value).step 59 = (.extension value, []) := fun _ => rfl
    have own := line.unended
    rw [extension] at own ⊢
    simp only [List.mem_cons, not_or] at own
    simp only [List.cons_append]
    rw [ChunkPhase.feed_cons rfl, first, feed_extension]
    · simp
    · simp only [List.mem_append, List.mem_singleton, not_or]
      exact ⟨own.2, by decide⟩

theorem EncodedChunk.feed (chunk : EncodedChunk) (rest : Bytes) (fits : chunk.data.length + 2 < 2 ^ 60) :
    (ChunkPhase.size 0).feed (chunk.encode ++ rest) =
      (((ChunkPhase.size 0).feed rest).1, chunk.data.map .byte ++ ((ChunkPhase.size 0).feed rest).2.1,
        ((ChunkPhase.size 0).feed rest).2.2) := by
  have size := chunk.value
  have positive : chunk.data.length ≠ 0 := fun zero => chunk.nonempty (List.eq_nil_of_length_eq_zero zero)
  have ending := ChunkPhase.endLine_data positive fits
  have bytes := feed_data chunk.data chunk.data.length (by omega) (Nat.le_refl _)
  rw [if_pos rfl] at bytes
  rw [EncodedChunk.encode, List.append_assoc, chunk.toSizeLine.feed _ (by omega), size, ending, List.append_assoc]
  simp only [ChunkPhase.feed_append bytes, List.cons_append, List.nil_append, feed_crlf]
  simp

theorem LastLine.feed (final : LastLine) (rest : Bytes) :
    (ChunkPhase.size 0).feed (final.encode ++ rest) = (.trailer, [.fin], rest) := by
  have ending : ChunkPhase.endLine 0 = (.trailer, [.fin]) := rfl
  rw [final.toSizeLine.feed _ (by rw [final.zero]; decide), final.zero, ending]
  simp

theorem encodedChunks_feed (chunks : List EncodedChunk) (rest : Bytes)
    (fits : ∀ chunk ∈ chunks, chunk.data.length + 2 < 2 ^ 60) :
    (ChunkPhase.size 0).feed (chunks.flatMap EncodedChunk.encode ++ rest) =
      (((ChunkPhase.size 0).feed rest).1, (encodedData chunks).map .byte ++ ((ChunkPhase.size 0).feed rest).2.1,
        ((ChunkPhase.size 0).feed rest).2.2) := by
  induction chunks with
  | nil => rfl
  | cons chunk chunks ih =>
    rw [List.flatMap_cons, List.append_assoc, chunk.feed _ (fits chunk (by simp)),
      ih fun c member => fits c (by simp [member])]
    simp [encodedData]

theorem chunkIterator_follows {phase : ChunkPhase} {state : BitVec 64} (read : Bytes) (holds : phase.Holds state)
    (regular : (phase.feed read).1 ≠ .irregular) (fine : (phase.feed read).1 ≠ .error) :
    (phase.feed read).1.Holds (chunkIterator read state).2.2 ∧
      (chunkIterator read state).1.flatMap chunkParts = (phase.feed read).2.1 ∧
      (chunkIterator read state).2.1 = (phase.feed read).2.2 := by
  have taken := chunkIterator_taken read phase state holds regular
  generalize chunkIterator read state = walked at taken ⊢
  cases taken with
  | error chunks rest failed => exact absurd failed fine
  | done chunks rest next after holds taken => simp [taken, holds]

theorem decodeReads_feed (reads : List Bytes) (phase : ChunkPhase) (state : BitVec 64) (holds : phase.Holds state)
    (ends : (phase.feed reads.flatten).1 = .trailer) :
    ∃ chunks, decodeReads reads state = (chunks, stateIsTrailer) ∧
      chunks.flatMap chunkParts = (phase.feed reads.flatten).2.1 := by
  induction reads generalizing phase state with
  | nil =>
    simp only [List.flatten_nil, ChunkPhase.feed_nil] at ends
    subst ends
    exact ⟨[], by rw [holds.word_trailer]; rfl, rfl⟩
  | cons read reads ih =>
    have resumed := runUntil_resume ChunkPhase.step ChunkPhase.stopped phase read reads.flatten
    obtain ⟨last, parts⟩ := runUntil_left ChunkPhase.step ChunkPhase.stopped phase read reads.flatten
    have whole : (phase.feed (read ++ reads.flatten)).1 = ((phase.feed read).1.feed reads.flatten).1 ∧
        (phase.feed (read ++ reads.flatten)).2.1 =
          (phase.feed read).2.1 ++ ((phase.feed read).1.feed reads.flatten).2.1 := by
      simp only [ChunkPhase.feed, resumed, last, parts, and_self]
    rw [List.flatten_cons, whole.1] at ends
    have avoids : ∀ bad : ChunkPhase, bad.stopped = true → bad ≠ .trailer → (phase.feed read).1 ≠ bad := by
      intro bad stops other reached
      rw [reached, ChunkPhase.feed_stopped stops] at ends
      exact other ends
    obtain ⟨next, own, -⟩ :=
      chunkIterator_follows read holds (avoids .irregular rfl (by simp)) (avoids .error rfl (by simp))
    obtain ⟨chunks, decoded, rest⟩ := ih _ _ next ends
    refine ⟨(chunkIterator read state).1 ++ chunks, ?_, ?_⟩
    · simp only [decodeReads, decoded]
    · rw [List.flatten_cons, whole.2, List.flatMap_append, own, rest]

theorem bytes_prefix (chunk data : Bytes) (rest : List BodyPart)
    (same : chunk.map .byte ++ rest = data.map .byte ++ [.fin]) :
    ∃ more, data = chunk ++ more ∧ rest = more.map .byte ++ [.fin] := by
  induction chunk generalizing data with
  | nil => exact ⟨data, rfl, same⟩
  | cons b chunk ih =>
    cases data with
    | nil => simp at same
    | cons c data =>
      simp only [List.map_cons, List.cons_append, List.cons.injEq, BodyPart.byte.injEq] at same
      obtain ⟨more, split, left⟩ := ih data same.2
      exact ⟨more, by rw [same.1, split]; rfl, left⟩

/-- Chunks that carry bytes and then the end are non-empty ones with these bytes, and a last empty one. -/
theorem chunks_of_parts (chunks : List Bytes) (data : Bytes)
    (parts : chunks.flatMap chunkParts = data.map .byte ++ [.fin]) :
    ∃ front, chunks = front ++ [[]] ∧ front.flatten = data ∧ [] ∉ front := by
  induction chunks generalizing data with
  | nil => simp at parts
  | cons chunk chunks ih =>
    by_cases empty : chunk = []
    · subst empty
      cases data with
      | nil =>
        simp only [List.flatMap_cons, chunkParts, List.isEmpty_nil, if_true, List.map_nil, List.nil_append,
          List.cons_append, List.cons.injEq, true_and, List.flatMap_eq_nil_iff] at parts
        have none : chunks = [] := by
          cases chunks with
          | nil => rfl
          | cons c chunks =>
            have nothing := parts c (by simp)
            split at nothing
            · cases nothing
            · rename_i some
              simp_all
        exact ⟨[], by simp [none], rfl, by simp⟩
      | cons b data => simp [chunkParts] at parts
    · have bytes : chunkParts chunk = chunk.map .byte := by simp [chunkParts, empty]
      rw [List.flatMap_cons, bytes] at parts
      obtain ⟨more, rfl, rest⟩ := bytes_prefix chunk data _ parts
      obtain ⟨front, rfl, rfl, nonempty⟩ := ih more rest
      exact ⟨chunk :: front, rfl, rfl, by simp [Ne.symm empty, nonempty]⟩

theorem encodeChunks_decodes (chunks : List EncodedChunk) (final : LastLine) (more : Bytes) (reads : List Bytes)
    (cut : reads.flatten = encodeChunks chunks final ++ more)
    (fits : ∀ chunk ∈ chunks, chunk.data.length + 2 < 2 ^ 60) : DecodesTo reads (encodedData chunks) := by
  have taken : (ChunkPhase.size 0).feed reads.flatten =
      (.trailer, (encodedData chunks).map .byte ++ [.fin], more) := by
    rw [cut, encodeChunks, List.append_assoc, encodedChunks_feed chunks _ fits, final.feed]
  have start : (ChunkPhase.size 0).Holds stateIsChunked := by
    rw [stateIsChunked_word]
    exact .size 0 (by decide)
  obtain ⟨decoded, walked, parts⟩ := decodeReads_feed reads _ _ start (by rw [taken])
  rw [taken] at parts
  obtain ⟨front, rfl, bytes, nonempty⟩ := chunks_of_parts decoded _ parts
  exact ⟨front, walked, bytes, nonempty⟩

theorem getNextChunkLoop_trailer (fuel : Nat) (data : Bytes) (state : BitVec 64)
    (trailer : (state &&& stateIsTrailer != 0#64) = true) :
    getNextChunkLoop fuel data state = (none, data, state) := by
  cases fuel with
  | zero => rfl
  | succ fuel =>
    simp only [getNextChunkLoop, chunkPass_stopped trailer]
    split <;> rfl

theorem readDigits_line (line : SizeLine) :
    readDigits [line.digits ++ line.extension ++ [cr]] = some line.digits := by
  obtain ⟨stop, tail, shape, ending⟩ : ∃ stop tail, line.extension ++ [cr] = stop :: tail ∧
      (stop = 59 ∨ stop = cr) := by
    rcases line.extended with none | semicolon
    · exact ⟨cr, [], by rw [none]; rfl, .inr rfl⟩
    · obtain ⟨text, extension⟩ := List.head?_eq_some_iff.mp semicolon
      exact ⟨59, text ++ [cr], by rw [extension]; rfl, .inl rfl⟩
  have other : isHexDigit stop = false := by rcases ending with rfl | rfl <;> decide
  simp only [readDigits, List.append_assoc, shape, List.takeWhile_append_of_pos line.hex,
    List.dropWhile_append_of_pos line.hex, List.takeWhile_cons, List.dropWhile_cons, other, Bool.false_eq_true,
    if_false, List.append_nil, List.head?_cons]
  rcases ending with rfl | rfl <;> simp [show cr ≠ 59 by decide]

theorem SizeLine.encode_line (line : SizeLine) (rest : Bytes) :
    line.encode ++ rest = line.digits ++ line.extension ++ [cr] ++ lf :: rest := by
  simp [SizeLine.encode]

theorem isHexDigit_lf : isHexDigit lf = false := by decide

theorem SizeLine.unended_line (line : SizeLine) : lf ∉ line.digits ++ line.extension ++ [cr] := by
  intro member
  simp only [List.mem_append, List.mem_singleton] at member
  rcases member with (digit | text) | last
  · have hex := line.hex lf digit
    simp [isHexDigit_lf] at hex
  · exact line.unended text
  · exact absurd last (by decide)

theorem large_not_trailer (line : SizeLine) (rest : Bytes) (large : 2 ^ 60 ≤ hexValue 0 line.digits + 2) :
    (chunkIterator (line.encode ++ rest) stateIsChunked).2.2 ≠ stateIsTrailer := by
  have pass := sizeLinePass_digits [] (line.digits ++ line.extension ++ [cr]) rest 0 (by decide)
    (by simpa using line.unended_line)
  have some : (line.encode ++ rest).isEmpty = false := by simp [line.encode_line]
  have size : (line.encode ++ rest).length = line.digits.length + line.extension.length + 1 + 1 + rest.length := by
    simp only [line.encode_line, List.length_append, List.length_cons, List.length_nil]
    omega
  rw [← stateIsChunked_word, ← line.encode_line] at pass
  simp only [sizeLinePass, List.nil_append, readDigits_line] at pass
  rcases pass with ⟨-, left, stops⟩ | ⟨digits, same, fits, passes⟩
  · have next : getNextChunk (line.encode ++ rest) stateIsChunked = (none, left, stateIsError) := by
      rw [getNextChunk, size, Nat.add_right_comm, getNextChunkLoop, some, stops]
      rfl
    simp only [chunkIterator, chunkIteratorLoop, next]
    decide
  · cases same
    have last : lineEndWord (hexValue 0 line.digits) = word 13#4 (hexValue 0 line.digits + 2 - 2 ^ 60) := by
      rw [lineEndWord, if_neg (by omega)]
    have next : getNextChunk (line.encode ++ rest) stateIsChunked =
        (none, rest, word 13#4 (hexValue 0 line.digits + 2 - 2 ^ 60)) := by
      rw [getNextChunk, size, Nat.add_right_comm, getNextChunkLoop, some, passes, linePass,
        if_neg (show hexValue 0 line.digits ≠ 0 by omega), last]
      exact getNextChunkLoop_trailer _ _ _ (by simp)
    simp only [chunkIterator, chunkIteratorLoop, next, stateIsTrailer_word]
    intro same
    exact absurd (word_inj (by omega) (by decide) same).1 (by decide)

theorem exists_first_large (chunks : List EncodedChunk) (chunk : EncodedChunk) (member : chunk ∈ chunks)
    (large : 2 ^ 60 ≤ chunk.data.length + 2) :
    ∃ front first back, chunks = front ++ first :: back ∧ (∀ c ∈ front, c.data.length + 2 < 2 ^ 60) ∧
      2 ^ 60 ≤ first.data.length + 2 := by
  induction chunks with
  | nil => cases member
  | cons c chunks ih =>
    by_cases here : 2 ^ 60 ≤ c.data.length + 2
    · exact ⟨[], c, chunks, rfl, by simp, here⟩
    · have later : chunk ∈ chunks := by
        rcases List.mem_cons.mp member with rfl | later
        · exact absurd large here
        · exact later
      obtain ⟨front, first, back, rfl, fits, bound⟩ := ih later
      refine ⟨c :: front, first, back, rfl, ?_, bound⟩
      intro d member
      rcases List.mem_cons.mp member with rfl | member
      · omega
      · exact fits d member

theorem encodeChunks_large (chunks : List EncodedChunk) (final : LastLine) (more : Bytes) (chunk : EncodedChunk)
    (member : chunk ∈ chunks) (large : 2 ^ 60 ≤ chunk.data.length + 2) :
    ∃ reads : List Bytes, reads.flatten = encodeChunks chunks final ++ more ∧
      ¬ DecodesTo reads (encodedData chunks) := by
  obtain ⟨front, first, back, rfl, fits, bound⟩ := exists_first_large chunks chunk member large
  let rest := first.data ++ [cr, lf] ++ (encodeChunks back final ++ more)
  refine ⟨[front.flatMap EncodedChunk.encode, first.toSizeLine.encode ++ rest], ?_, ?_⟩
  · simp [rest, encodeChunks, EncodedChunk.encode]
  · rintro ⟨walked, decoded, -, -⟩
    have start : (ChunkPhase.size 0).Holds stateIsChunked := by
      rw [stateIsChunked_word]
      exact .size 0 (by decide)
    have taken := encodedChunks_feed front [] fits
    rw [List.append_nil, ChunkPhase.feed_nil] at taken
    obtain ⟨holds, -, -⟩ := chunkIterator_follows (front.flatMap EncodedChunk.encode) start
      (by rw [taken]; simp) (by rw [taken]; simp)
    rw [taken] at holds
    have state : (chunkIterator (front.flatMap EncodedChunk.encode) stateIsChunked).2.2 = stateIsChunked := by
      rw [stateIsChunked_word]
      rw [stateIsChunked_word] at holds
      generalize (chunkIterator (front.flatMap EncodedChunk.encode) (word 4#4 0)).2.2 = after at holds
      cases holds
      rfl
    have final := congrArg Prod.snd decoded
    simp only [decodeReads, state] at final
    exact large_not_trailer first.toSizeLine rest (by rw [first.value]; exact bound) final

/-- Where a size line is completed it is sound exactly when it is regular, and an encoding decodes in all reads
    exactly when every chunk leaves room for its CRLF. -/
theorem chunked_framing {pieces : List Bytes} {last rest : Bytes} {state : BitVec 64}
    (here : DecoderAt pieces (last ++ lf :: rest) state) (unended : lf ∉ last) (unsized : hasChunkSize state = false)
    (body : (state &&& stateIsTrailer != 0#64) = false) (chunks : List EncodedChunk) (final : LastLine)
    (more : Bytes) :
    (LineSound (chunkPass (last ++ lf :: rest) state) (pieces.flatten ++ last) rest ↔ LineRegular pieces last) ∧
      ((∀ reads : List Bytes, reads.flatten = encodeChunks chunks final ++ more →
          DecodesTo reads (encodedData chunks)) ↔
        ∀ chunk ∈ chunks, chunk.data.length + 2 < 2 ^ 60) := by
  refine ⟨here.lineSound_iff unended unsized body, ?_⟩
  constructor
  · intro decodes chunk member
    by_cases large : 2 ^ 60 ≤ chunk.data.length + 2
    · obtain ⟨reads, cut, fails⟩ := encodeChunks_large chunks final more chunk member large
      exact absurd (decodes reads cut) fails
    · omega
  · intro fits reads cut
    exact encodeChunks_decodes chunks final more reads cut fits

/-- The line `FFFFFFFFFFFFFFE` in one read, whose size sets the trailer flag. -/
theorem sizeLine_leaks :
    ¬ ∀ (pieces : List Bytes) (last rest : Bytes) (state : BitVec 64),
      DecoderAt pieces (last ++ lf :: rest) state → lf ∉ last → hasChunkSize state = false →
      (state &&& stateIsTrailer != 0#64) = false →
      LineSound (chunkPass (last ++ lf :: rest) state) (pieces.flatten ++ last) rest := by
  intro sound
  have leak := sound [] (List.replicate 14 70 ++ [69, cr]) [] stateIsChunked (.read _ .start)
    (by decide) (by decide) (by decide)
  have passed : chunkPass ((List.replicate 14 70 ++ [69, cr]) ++ lf :: []) stateIsChunked =
      .again [] (word 13#4 0) := by decide
  rw [passed] at leak
  exact absurd leak.2.2.2.1 (by decide)

theorem not_extended : ([] : Bytes) = [] ∨ ([] : Bytes).head? = Option.some 59 := .inl rfl

def zeroLine : LastLine where
  digits := [48]
  extension := []
  hex := by simp [show isHexDigit 48 = true by decide]
  written := by decide
  extended := not_extended
  unended := by decide
  zero := by decide

theorem chunked_framing_five :
    LineSound (chunkPass ([53, cr] ++ [lf]) stateIsChunked) [53, cr] [] ∧ DecodesTo [[48, cr], [lf]] [] := by
  have framed := chunked_framing (.read ([53, cr] ++ [lf]) .start) (by decide) (by decide) (by decide) [] zeroLine []
  exact ⟨framed.1.mpr (.inr ⟨by decide, rfl, by decide⟩), framed.2.mpr (by simp) _ rfl⟩

end Uws.Http
