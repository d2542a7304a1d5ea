import Uws.Http.ChunkRoundTrip
import Uws.Http.HttpParser

/-! How far the trailer of a chunked body reaches. -/

namespace Uws.Http

/-- A trailer is a lone CRLF, or everything up to an empty line. -/
def TrailerEnds (front : Bytes) : Prop := front = [cr, lf] ∨ [cr, lf, cr, lf] <:+ front

instance : DecidablePred TrailerEnds := fun front =>
  inferInstanceAs (Decidable (front = [cr, lf] ∨ [cr, lf, cr, lf] <:+ front))

/-- No part of these bytes in front is a whole trailer. -/
def TrailerOpen (front : Bytes) : Prop := ∀ n, ¬ TrailerEnds (front.take n)

theorem TrailerOpen.not_ends {front : Bytes} (open_ : TrailerOpen front) : ¬ TrailerEnds front := by
  have whole := open_ front.length
  rwa [List.take_length] at whole

theorem TrailerOpen.left {front rest : Bytes} (open_ : TrailerOpen (front ++ rest)) : TrailerOpen front := by
  intro n ends
  have part := open_ (min n front.length)
  rw [List.take_append_of_le_length (Nat.min_le_right _ _), ← List.take_take, List.take_length] at part
  exact part ends

/-- The state behind some bytes, which are given last byte first. -/
def tailOf : Bytes → Nat
  | [] => 0
  | [a] => if a = cr then 4 else 5
  | a :: b :: more =>
    if a = cr then if b = lf ∧ more.head? = some cr then 3 else 1
    else if a = lf ∧ b = cr then 2
    else 5

theorem trailerEnds_reverse (back : Bytes) :
    TrailerEnds back.reverse ↔ back = [lf, cr] ∨ [lf, cr, lf, cr] <+: back := by
  unfold TrailerEnds
  rw [List.reverse_eq_iff, ← List.reverse_prefix, List.reverse_reverse]
  rfl

theorem trailerStep_tail (back : Bytes) (open_ : ¬ TrailerEnds back.reverse) (c : UInt8) :
    trailerStep (tailOf back) c = if TrailerEnds (c :: back).reverse then none else some (tailOf (c :: back)) := by
  rw [trailerEnds_reverse] at open_
  simp only [trailerEnds_reverse]
  match back with
  | [] => simp [tailOf, trailerStep]
  | [a] =>
    by_cases first : a = cr <;> by_cases next : c = cr <;> by_cases last : c = lf <;>
      simp_all [tailOf, trailerStep]
  | a :: b :: more =>
    have crossed : [lf, cr, lf, cr] <+: c :: a :: b :: more ↔ c = lf ∧ a = cr ∧ b = lf ∧ more.head? = some cr := by
      cases more with
      | nil => simp
      | cons d more =>
        simp only [List.cons_prefix_cons, List.nil_prefix, and_true, List.head?_cons, Option.some.injEq]
        exact ⟨fun ⟨h, i, j, k⟩ => ⟨h.symm, i.symm, j.symm, k.symm⟩, fun ⟨h, i, j, k⟩ => ⟨h.symm, i.symm, j.symm, k.symm⟩⟩
    have two : ¬ c :: a :: b :: more = [lf, cr] := by simp
    simp only [crossed, two, false_or, tailOf]
    by_cases first : a = cr
    · subst first
      have apart : ¬ cr = lf := by decide
      by_cases line : b = lf ∧ more.head? = some cr
      · rw [if_pos rfl, if_pos line]
        by_cases next : c = lf <;> by_cases again : c = cr <;> simp_all [trailerStep]
      · rw [if_pos rfl, if_neg line]
        by_cases next : c = lf <;> by_cases again : c = cr <;> simp_all [trailerStep]
    · rw [if_neg first]
      by_cases line : a = lf ∧ b = cr
      · rw [if_pos line]
        by_cases next : c = lf <;> by_cases again : c = cr <;> simp_all [trailerStep]
      · rw [if_neg line]
        by_cases next : c = lf <;> by_cases again : c = cr <;> simp_all [trailerStep]

def inTrailer (parser : HttpParser) (front : Bytes) : HttpParser :=
  { parser with remainingStreamingBytes := stateIsTrailer, trailerTail := tailOf front.reverse }

def behindTrailer (parser : HttpParser) : HttpParser :=
  { parser with remainingStreamingBytes := 0#64, trailerTail := 0 }

section Views

variable (parser : HttpParser) {front : Bytes}

theorem consumeChunkedTrailer_cons (open_ : ¬ TrailerEnds front) (c : UInt8) (data : Bytes) :
    consumeChunkedTrailer (inTrailer parser front) (c :: data) =
      if TrailerEnds (front ++ [c]) then (behindTrailer parser, data)
      else consumeChunkedTrailer (inTrailer parser (front ++ [c])) data := by
  have step := trailerStep_tail front.reverse (by rwa [List.reverse_reverse]) c
  have reversed : c :: front.reverse = (front ++ [c]).reverse := by rw [List.reverse_append]; rfl
  rw [reversed, List.reverse_reverse] at step
  rw [consumeChunkedTrailer, if_pos (show (inTrailer parser front).remainingStreamingBytes = stateIsTrailer from rfl)]
  rw [show trailerStep (inTrailer parser front).trailerTail c = _ from step]
  by_cases ends : TrailerEnds (front ++ [c])
  · rw [if_pos ends, if_pos ends]
    rfl
  · rw [if_neg ends, if_neg ends]
    rfl

theorem consumeChunkedTrailer_open (data : Bytes) (open_ : TrailerOpen (front ++ data)) :
    consumeChunkedTrailer (inTrailer parser front) data = (inTrailer parser (front ++ data), []) := by
  induction data generalizing front with
  | nil => rw [consumeChunkedTrailer, List.append_nil]
  | cons c data ih =>
    rw [List.append_cons] at open_ ⊢
    rw [consumeChunkedTrailer_cons parser open_.left.left.not_ends, if_neg open_.left.not_ends, ih open_]

theorem consumeChunkedTrailer_ends (data rest : Bytes) (c : UInt8) (open_ : TrailerOpen (front ++ data))
    (ends : TrailerEnds (front ++ data ++ [c])) :
    consumeChunkedTrailer (inTrailer parser front) (data ++ c :: rest) = (behindTrailer parser, rest) := by
  induction data generalizing front with
  | nil =>
    rw [List.append_nil] at open_ ends
    rw [List.nil_append, consumeChunkedTrailer_cons parser open_.not_ends, if_pos ends]
  | cons b data ih =>
    rw [List.append_cons] at open_
    rw [List.append_assoc, List.cons_append, List.append_cons, ← List.append_assoc] at ends
    rw [List.cons_append, consumeChunkedTrailer_cons parser open_.left.left.not_ends, if_neg open_.left.not_ends,
      ih open_ ends]

end Views

section Reads

variable {σ : Type} (h : Handlers σ) (parser : HttpParser) (state : σ) {front : Bytes}

theorem consumeChunkedTrailer_word (data : Bytes) (inside : parser.remainingStreamingBytes = stateIsTrailer) :
    (consumeChunkedTrailer parser data).1.remainingStreamingBytes = stateIsTrailer ∨
      (consumeChunkedTrailer parser data).1.remainingStreamingBytes = 0#64 := by
  induction data generalizing parser with
  | nil => exact .inl inside
  | cons c data ih =>
    rw [consumeChunkedTrailer, if_pos inside]
    split
    · exact .inr rfl
    · exact ih _ inside

theorem consumeStreamingBody_trailer (data : Bytes) :
    consumeStreamingBody h (inTrailer parser front) data state =
      ⟨none, (consumeChunkedTrailer (inTrailer parser front) data).1,
        (consumeChunkedTrailer (inTrailer parser front) data).2, state⟩ := by
  have next : getNextChunk data stateIsTrailer = (none, data, stateIsTrailer) :=
    getNextChunkLoop_trailer _ data stateIsTrailer (by decide)
  have chunked : isParsingChunkedEncoding (inTrailer parser front).remainingStreamingBytes = true := by
    show isParsingChunkedEncoding stateIsTrailer = true
    decide
  have chunks : emitChunks h (data.length + 1) data stateIsTrailer state = (true, data, stateIsTrailer, state) := by
    rw [emitChunks, next]
  have valid : isParsingInvalidChunkedEncoding
      (consumeChunkedTrailer (inTrailer parser front) data).1.remainingStreamingBytes = false := by
    have word := consumeChunkedTrailer_word (inTrailer parser front) data rfl
    rcases word with word | word <;> rw [word] <;> decide
  unfold consumeStreamingBody consumeChunked
  rw [if_pos chunked]
  simp only [show (inTrailer parser front).remainingStreamingBytes = stateIsTrailer from rfl, chunks, Bool.not_true,
    Bool.false_eq_true, if_false]
  exact if_neg (by rw [Bool.not_eq_true]; exact valid)

/-- The reads of a trailer up to its end; `body` is what the last one has left, and what follows the end is left to the
    next request. -/
def trailerReads : List Bytes → Parsed σ → Parsed σ
  | [], body => body
  | read :: reads, body =>
    if body.returned.isSome ∨ body.parser.remainingStreamingBytes = 0#64 ∨ body.data ≠ [] then
      { body with data := body.data ++ (read :: reads).flatten }
    else trailerReads reads (consumeStreamingBody h body.parser read body.state)

theorem trailerReads_behind (rest : Bytes) (reads : List Bytes) :
    trailerReads h reads ⟨none, behindTrailer parser, rest, state⟩ =
      ⟨none, behindTrailer parser, rest ++ reads.flatten, state⟩ := by
  cases reads with
  | nil => rw [trailerReads, List.flatten_nil, List.append_nil]
  | cons read reads => exact if_pos (.inr (.inl rfl))

theorem trailerReads_inside (read : Bytes) (reads : List Bytes) :
    trailerReads h (read :: reads) ⟨none, inTrailer parser front, [], state⟩ =
      trailerReads h reads ⟨none, (consumeChunkedTrailer (inTrailer parser front) read).1,
        (consumeChunkedTrailer (inTrailer parser front) read).2, state⟩ := by
  have going : ¬ ((none : Option Returned).isSome ∨ stateIsTrailer = 0#64 ∨ ([] : Bytes) ≠ []) := by decide
  rw [← consumeStreamingBody_trailer h parser state read]
  exact if_neg going

theorem trailerReads_open (reads : List Bytes) (open_ : TrailerOpen (front ++ reads.flatten)) :
    trailerReads h reads ⟨none, inTrailer parser front, [], state⟩ =
      ⟨none, inTrailer parser (front ++ reads.flatten), [], state⟩ := by
  induction reads generalizing front with
  | nil => rw [trailerReads, List.flatten_nil, List.append_nil]
  | cons read reads ih =>
    rw [List.flatten_cons, ← List.append_assoc] at open_ ⊢
    rw [trailerReads_inside, consumeChunkedTrailer_open parser read open_.left, ih open_]

theorem trailerReads_ends (reads : List Bytes) (data rest : Bytes) (c : UInt8)
    (same : reads.flatten = data ++ c :: rest) (open_ : TrailerOpen (front ++ data))
    (ends : TrailerEnds (front ++ data ++ [c])) :
    trailerReads h reads ⟨none, inTrailer parser front, [], state⟩ = ⟨none, behindTrailer parser, rest, state⟩ := by
  induction reads generalizing front data with
  | nil => cases data <;> cases same
  | cons read reads ih =>
    rw [trailerReads_inside]
    rw [List.flatten_cons] at same
    rcases List.append_eq_append_iff.mp same with ⟨more, rfl, later⟩ | ⟨tail, rfl, now⟩
    · -- the trailer goes on behind this read
      rw [← List.append_assoc] at open_ ends
      rw [consumeChunkedTrailer_open parser read open_.left, ih more later open_ ends]
    · cases tail with
      | nil =>
        rw [List.append_nil, consumeChunkedTrailer_open parser data open_]
        exact ih [] now.symm (by rwa [List.append_nil]) (by rwa [List.append_nil])
      | cons b tail =>
        obtain ⟨rfl, rfl⟩ := List.cons.inj now
        rw [consumeChunkedTrailer_ends parser data tail c open_ ends]
        exact trailerReads_behind h parser state tail reads

end Reads

/-- A trailer takes the shortest part in front that ends one, in any reads, and nothing that follows it. -/
theorem trailer_consumed {σ : Type} (h : Handlers σ) (parser : HttpParser) (state : σ) (first : Bytes) (reads : List Bytes) :
    let start := { parser with remainingStreamingBytes := stateIsTrailer, trailerTail := 0 }
    let consumed := trailerReads h reads
      ⟨none, (consumeChunkedTrailer start first).1, (consumeChunkedTrailer start first).2, state⟩
    (∀ front rest, first ++ reads.flatten = front ++ rest → TrailerEnds front →
        (∀ n < front.length, ¬ TrailerEnds (front.take n)) →
      consumed = ⟨none, { parser with remainingStreamingBytes := 0#64, trailerTail := 0 }, rest, state⟩) ∧
    ((∀ n, ¬ TrailerEnds ((first ++ reads.flatten).take n)) →
      ∃ tail, consumed = ⟨none, { parser with remainingStreamingBytes := stateIsTrailer, trailerTail := tail }, [], state⟩) := by
  intro start consumed
  have begun : consumed = trailerReads h (first :: reads) ⟨none, inTrailer parser [], [], state⟩ :=
    (@trailerReads_inside σ h parser state [] first reads).symm
  constructor
  · intro front rest same ends shortest
    obtain ⟨data, c, rfl⟩ : ∃ data c, front = data ++ [c] := by
      rcases List.eq_nil_or_concat' front with rfl | found
      · exact absurd ends (by decide)
      · exact found
    have open_ : TrailerOpen data := by
      intro n
      have part := shortest (min n data.length) (by rw [List.length_append, List.length_singleton]; omega)
      rwa [List.take_append_of_le_length (Nat.min_le_right _ _), ← List.take_take, List.take_length] at part
    rw [begun]
    rw [List.append_assoc, List.singleton_append] at same
    exact trailerReads_ends h parser state (first :: reads) data rest c same open_ ends
  · intro open_
    rw [begun]
    exact ⟨_, trailerReads_open h parser state (first :: reads) open_⟩

end Uws.Http
