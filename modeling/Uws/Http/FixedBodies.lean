import Uws.Http.StreamReads

/-! Bodies with a length: the value of the header, the calls of the data handler, and where the next request starts. -/

namespace Uws.Http

open StreamPhase

/-- One to eighteen digits. -/
def DecimalLength (value : Bytes) : Prop :=
  1 ≤ value.length ∧ value.length ≤ 18 ∧ ∀ c ∈ value, 48 ≤ c.toNat ∧ c.toNat ≤ 57

instance : DecidablePred DecimalLength := fun value =>
  inferInstanceAs (Decidable (1 ≤ value.length ∧ value.length ≤ 18 ∧ ∀ c ∈ value, 48 ≤ c.toNat ∧ c.toNat ≤ 57))

def decimal (value : Bytes) : Nat := Nat.ofDigits 10 (value.reverse.map fun c => c.toNat - 48)

theorem decimal_append (value : Bytes) (c : UInt8) : decimal (value ++ [c]) = decimal value * 10 + (c.toNat - 48) := by
  unfold decimal
  rw [List.reverse_append, List.reverse_singleton, List.singleton_append, List.map_cons, Nat.ofDigits_cons]
  omega

theorem decimal_lt (value : Bytes) (digits : ∀ c ∈ value, 48 ≤ c.toNat ∧ c.toNat ≤ 57) :
    decimal value < 10 ^ value.length := by
  have below := Nat.ofDigits_lt_base_pow_length (b := 10) (l := value.reverse.map fun c => c.toNat - 48) (by decide) (by
    intro digit member
    obtain ⟨c, there, rfl⟩ := List.mem_map.mp member
    have range := digits c (List.mem_reverse.mp there)
    omega)
  rwa [List.length_map, List.length_reverse] at below

theorem decimal_bound {value : Bytes} (valid : DecimalLength value) : decimal value < 2 ^ 60 := by
  have below := decimal_lt value valid.2.2
  have power : 10 ^ value.length ≤ 10 ^ 18 := Nat.pow_le_pow_right (by decide) valid.2.1
  omega

theorem toUnsignedIntegerLoop_digits (front str : Bytes) (digits : ∀ c ∈ front ++ str, 48 ≤ c.toNat ∧ c.toNat ≤ 57)
    (short : (front ++ str).length ≤ 18) :
    toUnsignedIntegerLoop str (BitVec.ofNat 64 (decimal front)) = BitVec.ofNat 64 (decimal (front ++ str)) := by
  induction str generalizing front with
  | nil => rw [toUnsignedIntegerLoop, List.append_nil]
  | cons c str ih =>
    have range := digits c (List.mem_append_right _ List.mem_cons_self)
    have digit : ¬ (c < 48 ∨ 57 < c) := by
      rw [UInt8.lt_iff_toNat_lt, UInt8.lt_iff_toNat_lt]
      simp only [UInt8.reduceToNat]
      omega
    rw [toUnsignedIntegerLoop, if_neg digit]
    have next : BitVec.ofNat 64 (decimal front) * 10#64 + BitVec.ofNat 64 (c.toNat - 48) =
        BitVec.ofNat 64 (decimal (front ++ [c])) := by
      rw [decimal_append, BitVec.ofNat_add, BitVec.ofNat_mul]
    rw [List.append_cons] at digits short ⊢
    rw [next, ih _ digits short]

theorem toUnsignedIntegerLoop_refused (str : Bytes) (value : BitVec 64) (bad : ∃ c ∈ str, ¬ (48 ≤ c.toNat ∧ c.toNat ≤ 57)) :
    toUnsignedIntegerLoop str value = BitVec.allOnes 64 := by
  induction str generalizing value with
  | nil =>
    obtain ⟨c, member, -⟩ := bad
    cases member
  | cons c str ih =>
    rw [toUnsignedIntegerLoop]
    split
    · rfl
    · rename_i digit
      rw [UInt8.lt_iff_toNat_lt, UInt8.lt_iff_toNat_lt] at digit
      simp only [UInt8.reduceToNat] at digit
      obtain ⟨b, member, other⟩ := bad
      rcases List.mem_cons.mp member with rfl | later
      · omega
      · exact ih _ ⟨b, later, other⟩

theorem toUnsignedInteger_decimal {value : Bytes} (valid : DecimalLength value) :
    toUnsignedInteger value = BitVec.ofNat 64 (decimal value) := by
  unfold toUnsignedInteger
  rw [if_neg (Nat.not_lt.mpr valid.2.1)]
  exact toUnsignedIntegerLoop_digits [] value valid.2.2 valid.2.1

theorem toUnsignedInteger_refused {value : Bytes} (some_ : value ≠ []) (invalid : ¬ DecimalLength value) :
    toUnsignedInteger value = BitVec.allOnes 64 := by
  unfold toUnsignedInteger
  by_cases long : 18 < value.length
  · rw [if_pos long]
  · rw [if_neg long]
    apply toUnsignedIntegerLoop_refused
    by_contra all
    apply invalid
    refine ⟨List.length_pos_iff.mpr some_, Nat.not_lt.mp long, fun c member => ?_⟩
    by_contra other
    exact all ⟨c, member, other⟩

section Fuel

theorem consumeHexDigits_length (data : Bytes) (state : BitVec 64) : (consumeHexDigits data state).1.length ≤ data.length := by
  induction data generalizing state with
  | nil => exact Nat.le_refl _
  | cons digit data ih =>
    unfold consumeHexDigits
    split
    · split
      · exact Nat.le_refl _
      · exact Nat.le_succ_of_le (ih _)
    · split
      · exact Nat.le_succ _
      · split <;> exact Nat.le_refl _

theorem finishSizeLine_length (data : Bytes) (state : BitVec 64) : (finishSizeLine data state).1.length ≤ data.length := by
  have shorter := List.IsSuffix.length_le (List.dropWhile_suffix (l := data) (· ≠ lf))
  unfold finishSizeLine
  split
  · exact Nat.zero_le _
  · rename_i line rest same
    rw [same, List.length_cons] at shorter
    exact Nat.le_of_succ_le shorter

theorem consumeHexNumber_length (data : Bytes) (state : BitVec 64) :
    (consumeHexNumber data state).1.length ≤ data.length := by
  have shorter := consumeHexDigits_length data state
  unfold consumeHexNumber
  split
  · exact finishSizeLine_length data state
  · split
    · rename_i same
      rw [same] at shorter
      exact shorter
    · rename_i same
      rw [same] at shorter
      exact Nat.le_trans (finishSizeLine_length _ _) shorter

def ChunkPass.left : ChunkPass → Bytes
  | .stop data _ => data
  | .emit _ data _ => data
  | .again data _ => data

theorem chunkPass_length (data : Bytes) (state : BitVec 64) : (chunkPass data state).left.length ≤ data.length := by
  have sizeLine := consumeHexNumber_length data state
  unfold chunkPass
  split
  · exact Nat.le_refl _
  · split
    · dsimp only
      split
      · exact sizeLine
      · split <;> exact sizeLine
    · split
      · unfold completeChunk
        dsimp only
        split
        · exact Nat.le_refl _
        · split <;> exact (List.drop_suffix _ data).length_le
      · unfold continueChunk
        dsimp only
        split
        · exact Nat.le_refl _
        · generalize (if 2#64 < chunkSize state then data.take (chunkSize state - 2#64).toNat else []) = emitSoon
          split <;> exact Nat.zero_le _

theorem getNextChunkLoop_length (fuel : Nat) (data : Bytes) (state : BitVec 64) :
    (getNextChunkLoop fuel data state).2.1.length ≤ data.length := by
  induction fuel generalizing data state with
  | zero => exact Nat.le_refl _
  | succ fuel ih =>
    have pass := chunkPass_length data state
    unfold getNextChunkLoop
    split
    · exact Nat.le_refl _
    · split
      · rename_i same
        rw [same] at pass
        exact pass
      · rename_i same
        rw [same] at pass
        exact pass
      · rename_i same
        rw [same] at pass
        exact Nat.le_trans (ih _ _) pass

variable {σ : Type} (h : Handlers σ)

theorem emitChunks_length (fuel : Nat) (data : Bytes) (word : BitVec 64) (state : σ) :
    (emitChunks h fuel data word state).2.1.length ≤ data.length := by
  induction fuel generalizing data word state with
  | zero => exact Nat.le_refl _
  | succ fuel ih =>
    have next := getNextChunkLoop_length data.length data word
    change (getNextChunk data word).2.1.length ≤ data.length at next
    unfold emitChunks
    generalize getNextChunk data word = found at next ⊢
    obtain ⟨chunk, rest, after⟩ := found
    cases chunk with
    | none => exact next
    | some chunk =>
      dsimp only at next ⊢
      cases same : (h.dataHandler chunk (if chunk.length ≠ 0 then uint64Max else 0) state).2 with
      | true =>
        rw [if_pos rfl]
        exact Nat.le_trans (ih rest after _) next
      | false => exact next

theorem consumeChunkedTrailer_length (parser : HttpParser) (data : Bytes) :
    (consumeChunkedTrailer parser data).2.length ≤ data.length := by
  induction data generalizing parser with
  | nil => exact Nat.le_refl _
  | cons c data ih =>
    unfold consumeChunkedTrailer
    split
    · split
      · exact Nat.le_succ _
      · exact Nat.le_succ_of_le (ih _)
    · exact Nat.le_refl _

theorem consumeChunked_length (parser : HttpParser) (data : Bytes) (state : σ) :
    (consumeChunked h parser data state).data.length ≤ data.length := by
  have emitted := emitChunks_length h (data.length + 1) data parser.remainingStreamingBytes state
  unfold consumeChunked
  generalize emitChunks h (data.length + 1) data parser.remainingStreamingBytes state = found at emitted ⊢
  obtain ⟨same, rest, word, after⟩ := found
  have trailer := Nat.le_trans
    (consumeChunkedTrailer_length { parser with remainingStreamingBytes := word } rest) emitted
  dsimp only
  split
  · exact emitted
  · split <;> exact trailer

theorem startBody_length (consumeMinimally : Bool) (req : HttpRequest) (parser : HttpParser) (data : Bytes) (state : σ) :
    (startBody h consumeMinimally req parser data state).data.length ≤ data.length := by
  unfold startBody
  split
  · dsimp only
    split
    · exact Nat.le_refl _
    · exact consumeChunked_length h _ data state
  · split
    · dsimp only
      split
      · exact Nat.le_refl _
      · split
        · split
          · exact Nat.le_refl _
          · exact (List.drop_suffix _ data).length_le
        · split <;> exact Nat.le_refl _
    · exact Nat.le_refl _

theorem getHeaders_complete_length {data rest : Bytes} {req : HttpRequest} (complete : getHeaders data = .complete req rest) :
    rest.length < data.length := by
  have empty : getHeaders [] = .incomplete [] := rfl
  have later := getHeaders_complete_later (q := data) empty complete
  exact later

theorem fenceLoop_fuel (consumeMinimally : Bool) (maxHeaderSize : Nat) {more fuel : Nat} (parser : HttpParser)
    (data : Bytes) (state : σ) (enough : data.length ≤ fuel) (more_ : data.length ≤ more) :
    fenceLoop h consumeMinimally maxHeaderSize more parser data state =
      fenceLoop h consumeMinimally maxHeaderSize fuel parser data state := by
  induction fuel generalizing more parser data state with
  | zero =>
    obtain rfl := List.length_eq_zero_iff.mp (Nat.le_zero.mp enough)
    cases more <;> rfl
  | succ fuel ih =>
    cases more with
    | zero =>
      obtain rfl := List.length_eq_zero_iff.mp (Nat.le_zero.mp more_)
      rfl
    | succ more =>
      unfold fenceLoop
      split
      · rfl
      · dsimp only
        cases complete : getHeaders data with
        | incomplete buffer => rfl
        | failed err => rfl
        | complete req rest =>
          have shorter := getHeaders_complete_length complete
          dsimp only
          split
          · rfl
          · cases checkHeaders req with
            | error err => rfl
            | ok checked =>
              dsimp only
              split
              · rfl
              · have body := startBody_length h consumeMinimally checked
                  { parser with reserved := (parser.reserved.parse data).1 } rest (h.requestHandler checked state).1
                generalize startBody h consumeMinimally checked
                  { parser with reserved := (parser.reserved.parse data).1 } rest (h.requestHandler checked state).1 =
                  started at body ⊢
                split
                · rfl
                · exact ih _ _ _ (by omega) (by omega)

end Fuel

/-- Handlers that always return the user they are given. -/
structure Handlers.SameUser {σ : Type} (h : Handlers σ) : Prop where
  request : ∀ req state, (h.requestHandler req state).2 = true
  data : ∀ chunk remaining state, (h.dataHandler chunk remaining state).2 = true

def Handlers.called {σ : Type} (h : Handlers σ) (state : σ) : Event → σ
  | .request req => (h.requestHandler req state).1
  | .data chunk remaining => (h.dataHandler chunk remaining state).1

def Handlers.deliver {σ : Type} (h : Handlers σ) (state : σ) (events : List Event) : σ := events.foldl h.called state

def dataCalls : Nat → List Bytes → List Event
  | _, [] => []
  | left, chunk :: chunks => .data chunk (left - chunk.length) :: dataCalls (left - chunk.length) chunks

def Event.ends : Event → Bool
  | .data _ remaining => remaining == 0
  | .request _ => false

section Delivery

variable {σ : Type} {h : Handlers σ} (same : h.SameUser) {maxHeaderSize : Nat} {parser : HttpParser}
include same

theorem SameUser.request_eq (req : HttpRequest) (state : σ) :
    h.requestHandler req state = (h.called state (.request req), true) :=
  Prod.ext rfl (same.request req state)

theorem SameUser.data_eq (chunk : Bytes) (remaining : Nat) (state : σ) :
    h.dataHandler chunk remaining state = (h.called state (.data chunk remaining), true) :=
  Prod.ext rfl (same.data chunk remaining state)

omit same in
theorem consumePostPadded_idle (idle : parser.remainingStreamingBytes = 0#64) (empty : parser.fallback = [])
    (data : Bytes) (state : σ) :
    consumePostPadded h maxHeaderSize parser data state = consumeHeads h maxHeaderSize parser data state := by
  unfold consumePostPadded
  rw [if_neg (not_not.mpr idle), if_neg (by rw [empty]; exact fun filled => filled rfl)]

omit same in
theorem consumePostPadded_streaming (streaming : parser.remainingStreamingBytes ≠ 0#64) (data : Bytes) (state : σ) :
    consumePostPadded h maxHeaderSize parser data state = consumeBodyAndHeads h maxHeaderSize parser data state :=
  if_pos streaming

omit same in
theorem consumeReads_congr {parser' : HttpParser} {read read' : Bytes} {state state' : σ}
    (call : consumePostPadded h maxHeaderSize parser read state = consumePostPadded h maxHeaderSize parser' read' state')
    (reads : List Bytes) :
    consumeReads h maxHeaderSize (read :: reads) parser state = consumeReads h maxHeaderSize (read' :: reads) parser' state' := by
  rw [consumeReads, consumeReads, call]

omit same in
theorem consumeHeads_nil (parser : HttpParser) (state : σ) :
    consumeHeads h maxHeaderSize parser [] state = (.user, parser, state) := rfl

theorem consumeBodyAndHeads_within {left : Nat} (bound : left < 2 ^ 60)
    (word : parser.remainingStreamingBytes = BitVec.ofNat 64 left) {data : Bytes} (within : data.length ≤ left) (state : σ) :
    consumeBodyAndHeads h maxHeaderSize parser data state =
      (.user, { parser with remainingStreamingBytes := BitVec.ofNat 64 (left - data.length) },
        h.called state (.data data (left - data.length))) := by
  unfold consumeBodyAndHeads consumeStreamingBody
  simp only [word, isParsingChunkedEncoding_ofNat bound, toNat_ofNat_small bound, Bool.false_eq_true, if_false,
    if_pos within, SameUser.data_eq same, if_true]

theorem consumeBodyAndHeads_beyond {left : Nat} (bound : left < 2 ^ 60)
    (word : parser.remainingStreamingBytes = BitVec.ofNat 64 left) {data : Bytes} (beyond : left < data.length) (state : σ) :
    consumeBodyAndHeads h maxHeaderSize parser data state =
      consumeHeads h maxHeaderSize { parser with remainingStreamingBytes := 0#64 } (data.drop left)
        (h.called state (.data (data.take left) 0)) := by
  unfold consumeBodyAndHeads consumeStreamingBody
  simp only [word, isParsingChunkedEncoding_ofNat bound, toNat_ofNat_small bound, Bool.false_eq_true, if_false,
    if_neg (Nat.not_le.mpr beyond), SameUser.data_eq same, if_true]

omit same in
theorem ofNat_ne_zero {left : Nat} (some_ : 0 < left) (bound : left < 2 ^ 60) : BitVec.ofNat 64 left ≠ 0#64 := by
  intro zero
  have value := toNat_ofNat_small bound
  rw [zero] at value
  exact absurd value (Nat.ne_of_lt some_)

theorem consumeReads_within {left : Nat} (bound : left < 2 ^ 60)
    (word : parser.remainingStreamingBytes = BitVec.ofNat 64 left) (reads : List Bytes) (within : reads.flatten.length < left)
    (state : σ) :
    consumeReads h maxHeaderSize reads parser state =
        (.user, { parser with remainingStreamingBytes := BitVec.ofNat 64 (left - reads.flatten.length) },
          h.deliver state (dataCalls left reads)) ∧
      (dataCalls left reads).countP Event.ends = 0 := by
  induction reads generalizing left parser state with
  | nil =>
    refine ⟨?_, rfl⟩
    have whole : { parser with remainingStreamingBytes := BitVec.ofNat 64 (left - 0) } = parser := by
      rw [Nat.sub_zero, ← word]
    exact congrArg (fun last => (Returned.user, last, state)) whole.symm
  | cons read reads ih =>
    rw [List.flatten_cons, List.length_append] at within
    have less : left - read.length - reads.flatten.length = left - (read ++ reads.flatten).length := by
      rw [List.length_append]
      omega
    obtain ⟨run, ends⟩ := @ih { parser with remainingStreamingBytes := BitVec.ofNat 64 (left - read.length) }
      (left - read.length) (by omega) rfl (by omega) (h.called state (.data read (left - read.length)))
    refine ⟨?_, ?_⟩
    · rw [consumeReads, consumePostPadded_streaming (by rw [word]; exact ofNat_ne_zero (by omega) bound),
        consumeBodyAndHeads_within same bound word (by omega)]
      rw [less] at run
      exact run
    · have going : ¬ left - read.length = 0 := by omega
      rw [dataCalls, List.countP_cons, ends]
      simp [Event.ends, going]

theorem consumeReads_beyond {left : Nat} (some_ : 0 < left) (bound : left < 2 ^ 60)
    (word : parser.remainingStreamingBytes = BitVec.ofNat 64 left) (empty : parser.fallback = []) (reads : List Bytes)
    (beyond : left ≤ reads.flatten.length) (state : σ) :
    ∃ chunks rest later, chunks.flatten = reads.flatten.take left ∧ rest ++ later.flatten = reads.flatten.drop left ∧
      later <:+ reads ∧ (dataCalls left chunks).countP Event.ends = 1 ∧
      consumeReads h maxHeaderSize reads parser state =
        consumeReads h maxHeaderSize (rest :: later) { parser with remainingStreamingBytes := 0#64 }
          (h.deliver state (dataCalls left chunks)) := by
  induction reads generalizing left parser state with
  | nil =>
    rw [List.flatten_nil, List.length_nil] at beyond
    omega
  | cons read reads ih =>
    have streaming : parser.remainingStreamingBytes ≠ 0#64 := by
      rw [word]
      exact ofNat_ne_zero some_ bound
    rw [List.flatten_cons] at beyond ⊢
    rcases Nat.lt_trichotomy read.length left with less | full | more
    · rw [List.length_append] at beyond
      obtain ⟨chunks, rest, later, body, next, suffix, ends, run⟩ :=
        @ih { parser with remainingStreamingBytes := BitVec.ofNat 64 (left - read.length) } (left - read.length) (by omega)
          (by omega) rfl empty (by omega) (h.called state (.data read (left - read.length)))
      have going : ¬ left - read.length = 0 := by omega
      refine ⟨read :: chunks, rest, later, ?_, ?_, suffix.trans (List.suffix_cons _ _), ?_, ?_⟩
      · rw [List.flatten_cons, body, List.take_append, List.take_of_length_le (Nat.le_of_lt less)]
      · rw [next, List.drop_append, List.drop_of_length_le (Nat.le_of_lt less), List.nil_append]
      · rw [dataCalls, List.countP_cons, ends]
        simp [Event.ends, going]
      · rw [consumeReads, consumePostPadded_streaming streaming,
          consumeBodyAndHeads_within same bound word (Nat.le_of_lt less)]
        exact run
    · subst full
      refine ⟨[read], [], reads, ?_, ?_, List.suffix_cons _ _, ?_, ?_⟩
      · rw [List.flatten_singleton, List.take_left]
      · rw [List.drop_left, List.nil_append]
      · simp [dataCalls, Event.ends]
      · apply consumeReads_congr
        rw [consumePostPadded_streaming streaming, consumeBodyAndHeads_within same bound word (Nat.le_refl _), Nat.sub_self,
          @consumePostPadded_idle σ h maxHeaderSize { parser with remainingStreamingBytes := 0#64 } rfl empty, consumeHeads_nil]
        simp [dataCalls, Handlers.deliver]
    · refine ⟨[read.take left], read.drop left, reads, ?_, ?_, List.suffix_cons _ _, ?_, ?_⟩
      · rw [List.flatten_singleton, List.take_append_of_le_length (Nat.le_of_lt more)]
      · rw [List.drop_append_of_le_length (Nat.le_of_lt more)]
      · simp [dataCalls, Event.ends, List.length_take_of_le (Nat.le_of_lt more)]
      · apply consumeReads_congr
        rw [consumePostPadded_streaming streaming, consumeBodyAndHeads_beyond same bound word more,
          @consumePostPadded_idle σ h maxHeaderSize { parser with remainingStreamingBytes := 0#64 } rfl empty]
        simp [dataCalls, Handlers.deliver, List.length_take_of_le (Nat.le_of_lt more)]

structure FixedHead (maxHeaderSize : Nat) (parser : HttpParser) (begun ending : Bytes) (checked : HttpRequest)
    (value : Bytes) : Prop where
  holds : Holds maxHeaderSize (.head begun) parser
  complete : ∃ req, getHeaders (begun ++ ending) = .complete req [] ∧ checkHeaders req = .ok checked
  small : (begun ++ ending).length ≤ maxHeaderSize
  plain : checked.transferEncodingString = []
  length : checked.getHeader contentLengthName = some value

section Started

variable {checked : HttpRequest} {value : Bytes}

omit same in
theorem startBody_refused (plain : checked.transferEncodingString = []) (length : checked.contentLengthString = value)
    (some_ : value ≠ []) (refused : toUnsignedInteger value = BitVec.allOnes 64) (consumeMinimally : Bool) (data : Bytes)
    (state : σ) :
    startBody h consumeMinimally checked parser data state =
      ⟨some (.error .badRequest), { parser with remainingStreamingBytes := BitVec.allOnes 64 }, data, state⟩ := by
  have filled : value.length ≠ 0 := fun none_ => some_ (List.length_eq_zero_iff.mp none_)
  have ones : (BitVec.allOnes 64).toNat = uint64Max := by decide
  unfold startBody
  rw [plain, length]
  simp only [List.length_nil, ne_eq, not_true_eq_false, if_false, filled, not_false_eq_true, if_true, refused, ones]

theorem startBody_zero (plain : checked.transferEncodingString = []) (length : checked.contentLengthString = value)
    (some_ : value ≠ []) (number : toUnsignedInteger value = 0#64) (consumeMinimally : Bool) (data : Bytes)
    (state : σ) :
    startBody h consumeMinimally checked parser data state =
      ⟨none, { parser with remainingStreamingBytes := 0#64 }, data, h.called state (.data [] 0)⟩ := by
  have filled : value.length ≠ 0 := fun none_ => some_ (List.length_eq_zero_iff.mp none_)
  have valid : ¬ 0 = uint64Max := by decide
  unfold startBody
  rw [plain, length]
  simp only [List.length_nil, ne_eq, not_true_eq_false, if_false, filled, not_false_eq_true, if_true, number,
    show (0#64).toNat = 0 from rfl, valid, Nat.zero_min, List.take_zero, List.drop_zero, Nat.sub_self,
    SameUser.data_eq same, Bool.not_true, Bool.false_eq_true]
  cases consumeMinimally <;> rfl

theorem startBody_some {n : Nat} (plain : checked.transferEncodingString = [])
    (length : checked.contentLengthString = value) (some_ : value ≠ []) (bound : n < 2 ^ 60) (more : 0 < n)
    (number : toUnsignedInteger value = BitVec.ofNat 64 n) (data : Bytes) (state : σ) :
    startBody h true checked parser data state =
        ⟨none, { parser with remainingStreamingBytes := BitVec.ofNat 64 n }, data, state⟩ ∧
      startBody h false checked parser data state =
        ⟨none, { parser with remainingStreamingBytes := BitVec.ofNat 64 (n - min n data.length) },
          data.drop (min n data.length),
          h.called state (.data (data.take (min n data.length)) (n - min n data.length))⟩ := by
  have filled : value.length ≠ 0 := fun none_ => some_ (List.length_eq_zero_iff.mp none_)
  have most : 2 ^ 60 < uint64Max := by decide
  have valid : ¬ n = uint64Max := by omega
  have going : ¬ n = 0 := by omega
  unfold startBody
  rw [plain, length]
  constructor
  · simp only [List.length_nil, ne_eq, not_true_eq_false, if_false, filled, not_false_eq_true, if_true, number,
      toNat_ofNat_small bound, valid, going, Bool.not_true, Bool.false_eq_true]
  · simp only [List.length_nil, ne_eq, not_true_eq_false, if_false, filled, not_false_eq_true, if_true, number,
      toNat_ofNat_small bound, valid, Bool.not_false, SameUser.data_eq same, Bool.not_true, Bool.false_eq_true]

end Started

section Heads

variable {req checked : HttpRequest} {data rest : Bytes}

theorem fenceLoop_complete (complete : getHeaders data = .complete req rest)
    (small : ¬ maxHeaderSize < data.length - rest.length) (passed : checkHeaders req = .ok checked) (consumeMinimally : Bool)
    (fuel : Nat) (state : σ) :
    fenceLoop h consumeMinimally maxHeaderSize (fuel + 1) parser data state =
      (let body := startBody h consumeMinimally checked { parser with reserved := (parser.reserved.parse data).1 } rest
        (h.called state (.request checked))
      if body.returned.isSome || consumeMinimally then body
      else fenceLoop h consumeMinimally maxHeaderSize fuel body.parser body.data body.state) := by
  have filled : data.isEmpty = false := by
    rw [List.isEmpty_eq_false_iff]
    rintro rfl
    cases complete
  rw [fenceLoop]
  simp only [filled, complete, passed, if_neg small, SameUser.request_eq same, Bool.false_eq_true, Bool.not_true, if_false]

theorem consumeHeads_complete (complete : getHeaders data = .complete req rest)
    (small : ¬ maxHeaderSize < data.length - rest.length) (passed : checkHeaders req = .ok checked) (state : σ) :
    let body := startBody h false checked { parser with reserved := (parser.reserved.parse data).1 } rest
      (h.called state (.request checked))
    consumeHeads h maxHeaderSize parser data state =
      match body.returned with
      | some returned => (returned, body.parser, body.state)
      | none => consumeHeads h maxHeaderSize body.parser body.data body.state := by
  intro body
  have shorter := getHeaders_complete_length complete
  have left := startBody_length h false checked { parser with reserved := (parser.reserved.parse data).1 } rest
    (h.called state (.request checked))
  change body.data.length ≤ rest.length at left
  obtain ⟨fuel, length⟩ : ∃ fuel, data.length = fuel + 1 := ⟨data.length - 1, by omega⟩
  have whole : fenceAndConsumePostPadded h false maxHeaderSize parser data state =
      if body.returned.isSome then body
      else fenceAndConsumePostPadded h false maxHeaderSize body.parser body.data body.state := by
    have round := @fenceLoop_complete σ h same maxHeaderSize parser req checked data rest complete small passed false fuel state
    have enough : body.data.length ≤ fuel := by omega
    unfold fenceAndConsumePostPadded
    rw [length, round, ← fenceLoop_fuel h false maxHeaderSize body.parser body.data body.state (Nat.le_refl _) enough]
    dsimp only
    rw [Bool.or_false]
  unfold consumeHeads
  rw [whole]
  cases returned : body.returned with
  | none => rfl
  | some returned => simp only [Option.isSome_some, if_true, returned]

omit same in
theorem take_ending {ending front : Bytes} {count : Nat} (enough : ending.length ≤ count) :
    (ending ++ front).take count = ending ++ front.take (count - ending.length) := by
  rw [List.take_append, List.take_of_length_le enough]

theorem consumeFallback_complete {begun ending : Bytes} (begun_ : begun ≠ [])
    (got : getHeaders begun = .incomplete parser.fallback) (complete : getHeaders (begun ++ ending) = .complete req [])
    (small : (begun ++ ending).length ≤ maxHeaderSize) (passed : checkHeaders req = .ok checked) (front : Bytes) (state : σ) :
    ∃ part reserved fallback,
      let body := startBody h true checked { parser with reserved := reserved } part (h.called state (.request checked))
      (∀ returned, body.returned = some returned →
        consumeFallback h maxHeaderSize parser (ending ++ front) state =
          (returned, { body.parser with fallback := fallback }, body.state)) ∧
      (body.returned = none → body.data = part →
        consumeFallback h maxHeaderSize parser (ending ++ front) state =
          if body.parser.remainingStreamingBytes ≠ 0#64 then
            consumeBodyAndHeads h maxHeaderSize { body.parser with fallback := [] } front body.state
          else consumeHeads h maxHeaderSize { body.parser with fallback := [] } front body.state) := by
  obtain ⟨had, after⟩ := getHeaders_fallback got
    ((ending ++ front).take (min (maxHeaderSize - begun.length) (ending ++ front).length))
  have room : ending.length ≤ min (maxHeaderSize - begun.length) (ending ++ front).length := by
    rw [List.length_append] at small ⊢
    omega
  have taken := @take_ending ending front _ room
  have filled : begun.length ≠ 0 := fun none_ => begun_ (List.length_eq_zero_iff.mp none_)
  generalize count : min (maxHeaderSize - begun.length) (ending ++ front).length = most at room taken after
  generalize front.take (most - ending.length) = part at taken
  rw [taken, ← List.append_assoc begun, getHeaders_complete_append complete, List.nil_append] at after
  have joined : (parser.fallback ++ (ending ++ part)).length = begun.length + ending.length + part.length := by
    rw [List.length_append, List.length_append, had]
    omega
  have short : ¬ maxHeaderSize < (parser.fallback ++ (ending ++ part)).length - part.length := by
    rw [List.length_append] at small
    omega
  obtain ⟨fuel, length⟩ : ∃ fuel, (parser.fallback ++ (ending ++ part)).length = fuel + 1 :=
    ⟨(parser.fallback ++ (ending ++ part)).length - 1, by omega⟩
  have round := @fenceLoop_complete σ h same maxHeaderSize parser req checked _ part after short passed true fuel state
  refine ⟨part, (parser.reserved.parse (parser.fallback ++ (ending ++ part))).1, parser.fallback ++ (ending ++ part), ?_⟩
  intro body
  have fenced : fenceAndConsumePostPadded h true maxHeaderSize parser (parser.fallback ++ (ending ++ part)) state = body := by
    unfold fenceAndConsumePostPadded
    rw [length, round]
    dsimp only
    rw [Bool.or_true, if_pos rfl]
  unfold consumeFallback
  simp only [had, count, taken, fenced]
  refine ⟨fun returned stopped => by simp only [stopped], fun going kept => ?_⟩
  have first : (parser.fallback ++ (ending ++ part)).length - body.data.length = begun.length + ending.length := by
    rw [kept]
    omega
  have next : begun.length + ending.length ≠ 0 := by omega
  have dropped : (ending ++ front).drop (begun.length + ending.length - begun.length) = front := by
    rw [Nat.add_sub_cancel_left, List.drop_left]
  simp only [going, first, if_pos next, dropped]

end Heads

section Started

variable {begun ending : Bytes} {checked : HttpRequest} {value : Bytes}

omit same in
theorem FixedHead.lengthString (head : FixedHead maxHeaderSize parser begun ending checked value) :
    checked.contentLengthString = value := by
  unfold HttpRequest.contentLengthString
  rw [head.length]
  rfl

omit same in
theorem getHeaders_front {begun ending : Bytes} {req : HttpRequest} (complete : getHeaders (begun ++ ending) = .complete req [])
    (front : Bytes) : getHeaders (begun ++ (ending ++ front)) = .complete req front := by
  rw [← List.append_assoc, getHeaders_complete_append complete, List.nil_append]

theorem FixedHead.call (head : FixedHead maxHeaderSize parser begun ending checked value) (front : Bytes) (state : σ) :
    (parser.fallback = [] ∧ ∃ reserved,
      let body := startBody h false checked { parser with reserved := reserved } front (h.called state (.request checked))
      consumePostPadded h maxHeaderSize parser (ending ++ front) state =
        match body.returned with
        | some returned => (returned, body.parser, body.state)
        | none => consumeHeads h maxHeaderSize body.parser body.data body.state) ∨
    ∃ part reserved fallback,
      let body := startBody h true checked { parser with reserved := reserved } part (h.called state (.request checked))
      (∀ returned, body.returned = some returned →
        consumePostPadded h maxHeaderSize parser (ending ++ front) state =
          (returned, { body.parser with fallback := fallback }, body.state)) ∧
      (body.returned = none → body.data = part →
        consumePostPadded h maxHeaderSize parser (ending ++ front) state =
          if body.parser.remainingStreamingBytes ≠ 0#64 then
            consumeBodyAndHeads h maxHeaderSize { body.parser with fallback := [] } front body.state
          else consumeHeads h maxHeaderSize { body.parser with fallback := [] } front body.state) := by
  obtain ⟨req, complete, passed⟩ := head.complete
  cases head.holds with
  | start _ idle empty =>
    have whole := getHeaders_front complete front
    have short := head.small
    rw [List.nil_append] at whole short
    have small : ¬ maxHeaderSize < (ending ++ front).length - front.length := by
      rw [List.length_append]
      omega
    refine .inl ⟨empty, (parser.reserved.parse (ending ++ front)).1, ?_⟩
    rw [consumePostPadded_idle idle empty]
    exact consumeHeads_complete same whole small passed state
  | head _ _ begun_ _ idle got =>
    have filled : parser.fallback.length ≠ 0 := by
      rw [(getHeaders_incomplete got).1]
      exact fun none_ => begun_ (List.length_eq_zero_iff.mp none_)
    have call : consumePostPadded h maxHeaderSize parser (ending ++ front) state =
        consumeFallback h maxHeaderSize parser (ending ++ front) state := by
      unfold consumePostPadded
      rw [if_neg (not_not.mpr idle), if_pos filled]
    rw [call]
    exact .inr (consumeFallback_complete same begun_ got complete head.small passed front state)

theorem FixedHead.refused (head : FixedHead maxHeaderSize parser begun ending checked value) (some_ : value ≠ [])
    (number : toUnsignedInteger value = BitVec.allOnes 64) (front : Bytes) (state : σ) :
    ∃ last, consumePostPadded h maxHeaderSize parser (ending ++ front) state =
      (.error .badRequest, last, h.called state (.request checked)) := by
  rcases head.call same front state with ⟨-, reserved, call⟩ | ⟨part, reserved, fallback, stops, -⟩
  · rw [startBody_refused head.plain head.lengthString some_ number] at call
    exact ⟨_, call⟩
  · rw [startBody_refused head.plain head.lengthString some_ number] at stops
    exact ⟨_, stops _ rfl⟩

theorem FixedHead.zero (head : FixedHead maxHeaderSize parser begun ending checked value) (some_ : value ≠ [])
    (number : toUnsignedInteger value = 0#64) (front : Bytes) (state : σ) :
    ∃ last : HttpParser, last.remainingStreamingBytes = 0#64 ∧ last.fallback = [] ∧
      consumePostPadded h maxHeaderSize parser (ending ++ front) state =
        consumePostPadded h maxHeaderSize last front (h.deliver state [.request checked, .data [] 0]) := by
  rcases head.call same front state with ⟨empty, reserved, call⟩ | ⟨part, reserved, fallback, -, goes⟩
  · rw [startBody_zero same head.plain head.lengthString some_ number] at call
    refine ⟨{ parser with reserved := reserved, remainingStreamingBytes := 0#64 }, rfl, empty, call.trans ?_⟩
    exact (@consumePostPadded_idle σ h maxHeaderSize { parser with reserved := reserved, remainingStreamingBytes := 0#64 } rfl
      empty front _).symm
  · rw [startBody_zero same head.plain head.lengthString some_ number] at goes
    refine ⟨{ parser with reserved := reserved, remainingStreamingBytes := 0#64, fallback := [] }, rfl, rfl,
      (goes rfl rfl).trans ?_⟩
    exact (@consumePostPadded_idle σ h maxHeaderSize
      { parser with reserved := reserved, remainingStreamingBytes := 0#64, fallback := [] } rfl rfl front _).symm

theorem FixedHead.going (head : FixedHead maxHeaderSize parser begun ending checked value) (some_ : value ≠ []) {n : Nat}
    (more : 0 < n) (bound : n < 2 ^ 60) (number : toUnsignedInteger value = BitVec.ofNat 64 n) (front : Bytes) (state : σ) :
    ∃ last : HttpParser, last.remainingStreamingBytes = BitVec.ofNat 64 n ∧ last.fallback = [] ∧
      consumePostPadded h maxHeaderSize parser (ending ++ front) state =
        consumePostPadded h maxHeaderSize last front (h.deliver state [.request checked]) := by
  have streaming := ofNat_ne_zero more bound
  rcases head.call same front state with ⟨empty, reserved, call⟩ | ⟨part, reserved, fallback, -, goes⟩
  · rw [(startBody_some same head.plain head.lengthString some_ bound more number front _).2] at call
    refine ⟨{ parser with reserved := reserved, remainingStreamingBytes := BitVec.ofNat 64 n }, rfl, empty, call.trans ?_⟩
    rw [consumePostPadded_streaming streaming]
    by_cases within : front.length ≤ n
    · rw [consumeBodyAndHeads_within same bound rfl within, Nat.min_eq_right within, List.drop_length, List.take_length]
      rfl
    · have beyond : n < front.length := Nat.lt_of_not_le within
      rw [consumeBodyAndHeads_beyond same bound rfl beyond, Nat.min_eq_left (Nat.le_of_lt beyond), Nat.sub_self]
      rfl
  · rw [(startBody_some same head.plain head.lengthString some_ bound more number part _).1] at goes
    refine ⟨{ parser with reserved := reserved, remainingStreamingBytes := BitVec.ofNat 64 n, fallback := [] }, rfl, rfl,
      (goes rfl rfl).trans ?_⟩
    rw [consumePostPadded_streaming streaming, if_pos streaming]
    rfl

theorem FixedHead.without (head : FixedHead maxHeaderSize parser begun ending checked []) (state : σ) :
    ∃ last state', consumePostPadded h maxHeaderSize parser (ending ++ []) state = (.user, last, state') := by
  have plain := head.plain
  have length := head.lengthString
  have body : ∀ (consumeMinimally : Bool) (parser : HttpParser) (data : Bytes) (state : σ),
      startBody h consumeMinimally checked parser data state = ⟨none, parser, data, h.called state (.data [] 0)⟩ := by
    intro consumeMinimally parser data state
    unfold startBody
    rw [plain, length]
    simp only [List.length_nil, ne_eq, not_true_eq_false, if_false, SameUser.data_eq same, if_true]
  rcases head.call same [] state with ⟨empty, reserved, call⟩ | ⟨part, reserved, fallback, -, goes⟩
  · rw [body] at call
    exact ⟨_, _, call⟩
  · rw [body] at goes
    have idle : ¬ parser.remainingStreamingBytes ≠ 0#64 := by
      cases head.holds with
      | start _ idle => exact not_not.mpr idle
      | head _ _ _ _ idle => exact not_not.mpr idle
    have called := goes rfl rfl
    rw [if_neg idle] at called
    exact ⟨_, _, called⟩

end Started

/-- What the reads of a request with a length do, from the one that completes its head: the data handler gets the bytes
    behind the head, told in each call how many are still to come, once that it is none; the next head starts behind
    them. A value that is not a number is refused. -/
def FixedDelivery {σ : Type} (h : Handlers σ) (maxHeaderSize : Nat) (parser : HttpParser) (ending : Bytes)
    (checked : HttpRequest) (value : Bytes) : Prop :=
  ∀ (state : σ) (front : Bytes) (more : List Bytes),
    (DecimalLength value →
      let length := decimal value
      let following := front ++ more.flatten
      toUnsignedInteger value = BitVec.ofNat 64 length ∧ length < 2 ^ 64 ∧
      (∀ left ≤ length, isParsingChunkedEncoding (BitVec.ofNat 64 left) = false) ∧
      (following.length < length →
        ∃ chunks last, chunks.flatten = following ∧ (dataCalls length chunks).countP Event.ends = 0 ∧
          last.remainingStreamingBytes = BitVec.ofNat 64 (length - following.length) ∧
          consumeReads h maxHeaderSize ((ending ++ front) :: more) parser state =
            (.user, last, h.deliver state (.request checked :: dataCalls length chunks))) ∧
      (length ≤ following.length →
        ∃ chunks rest later last, chunks.flatten = following.take length ∧ (dataCalls length chunks).countP Event.ends = 1 ∧
          rest ++ later.flatten = following.drop length ∧ later <:+ front :: more ∧
          last.remainingStreamingBytes = 0#64 ∧ last.fallback = [] ∧
          consumeReads h maxHeaderSize ((ending ++ front) :: more) parser state =
            consumeReads h maxHeaderSize (rest :: later) last
              (h.deliver state (.request checked :: dataCalls length chunks)))) ∧
    (¬ DecimalLength value →
      ∃ last, consumeReads h maxHeaderSize ((ending ++ front) :: more) parser state =
        (.error .badRequest, last, h.deliver state [.request checked]))

/-- The length is read and the body delivered as they should, unless the value of the header is empty, which counts as no
    length at all. -/
theorem fixedDelivery_iff {begun ending : Bytes} {checked : HttpRequest} {value : Bytes}
    (head : FixedHead maxHeaderSize parser begun ending checked value) (start : σ) :
    FixedDelivery h maxHeaderSize parser ending checked value ↔ value ≠ [] := by
  constructor
  · rintro delivery rfl
    obtain ⟨last, refused⟩ := (delivery start [] []).2 (by decide)
    obtain ⟨last', state', user⟩ := head.without same start
    rw [consumeReads, user] at refused
    cases refused
  · intro some_ state front more
    refine ⟨fun valid => ?_, fun invalid => ?_⟩
    · have bound := decimal_bound valid
      have number := toUnsignedInteger_decimal valid
      refine ⟨number, by omega, fun left within => isParsingChunkedEncoding_ofNat (by omega), ?_, ?_⟩
      · intro within
        obtain ⟨last, word, empty, call⟩ := head.going same some_ (by omega) bound number front state
        obtain ⟨run, ends⟩ := @consumeReads_within σ h same maxHeaderSize last _ bound word (front :: more) within
          (h.deliver state [.request checked])
        refine ⟨front :: more,
          { last with remainingStreamingBytes := BitVec.ofNat 64 (decimal value - (front :: more).flatten.length) }, rfl, ends, rfl,
          ?_⟩
        exact (consumeReads_congr call more).trans run
      · intro beyond
        by_cases zero : decimal value = 0
        · rw [zero] at number ⊢
          obtain ⟨last, word, empty, call⟩ := head.zero same some_ number front state
          exact ⟨[[]], front, more, last, rfl, rfl, rfl, List.suffix_cons _ _, word, empty, consumeReads_congr call more⟩
        · obtain ⟨last, word, empty, call⟩ := head.going same some_ (Nat.pos_of_ne_zero zero) bound number front state
          obtain ⟨chunks, rest, later, body, next, suffix, ends, run⟩ := @consumeReads_beyond σ h same maxHeaderSize last _
            (Nat.pos_of_ne_zero zero) bound word empty (front :: more) beyond (h.deliver state [.request checked])
          exact ⟨chunks, rest, later, { last with remainingStreamingBytes := 0#64 }, body, ends, next, suffix, rfl, empty,
            (consumeReads_congr call more).trans run⟩
    · obtain ⟨last, call⟩ := head.refused same some_ (toUnsignedInteger_refused some_ invalid) front state
      refine ⟨last, ?_⟩
      rw [consumeReads, call]
      rfl

end Delivery

theorem logging_sameUser : logging.SameUser := ⟨fun _ _ => rfl, fun _ _ _ => rfl⟩

def postHead (length : Bytes) : Bytes :=
  ascii "POST / HTTP/1.1\r\nHost: x\r\nContent-Length: " ++ length ++ ascii "\r\n\r\n"

def postRequest (length : Bytes) : HttpRequest where
  method := ascii "POST"
  target := ascii "/"
  headers := [⟨hostName, ascii "x"⟩, ⟨contentLengthName, length⟩]

def postChecked (length : Bytes) : HttpRequest :=
  { postRequest length with bf := (BloomFilter.reset.add hostName).add contentLengthName }

theorem fixedDelivery_five :
    FixedDelivery logging 8192 {} (postHead (ascii "5")) (postChecked (ascii "5")) (ascii "5") ↔ ascii "5" ≠ [] :=
  @fixedDelivery_iff (List Event) logging logging_sameUser 8192 {} [] (postHead (ascii "5")) (postChecked (ascii "5"))
    (ascii "5")
    ⟨holds_fresh, ⟨postRequest (ascii "5"), by decide +kernel, by decide +kernel⟩, by decide +kernel, by decide +kernel,
      by decide +kernel⟩ []

/-- An empty value is not refused. -/
theorem emptyLength_accepted :
    FixedHead 8192 {} [] (postHead []) (postChecked []) [] ∧
      ¬ FixedDelivery logging 8192 {} (postHead []) (postChecked []) [] := by
  refine ⟨⟨holds_fresh, ⟨postRequest [], by decide +kernel, by decide +kernel⟩, by decide +kernel, by decide +kernel,
    by decide +kernel⟩, fun delivery => ?_⟩
  obtain ⟨last, refused⟩ := (delivery [] [] []).2 (by decide)
  have user : (consumeReads logging 8192 [postHead [] ++ []] {} []).1 = .user := by decide +kernel
  rw [refused] at user
  cases user

end Uws.Http
