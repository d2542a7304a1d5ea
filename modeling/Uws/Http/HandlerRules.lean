import Uws.Http.HttpParser

namespace Uws.Http

variable {σ : Type} {h : Handlers σ} {Q R : σ → Prop}

/-- The handlers are only called where `Q` holds; they leave `R`, and `Q` where they return the user. -/
structure Handlers.Keep (h : Handlers σ) (Q R : σ → Prop) : Prop where
  weaker : ∀ state, Q state → R state
  request : ∀ req state, Q state →
    R (h.requestHandler req state).1 ∧ ((h.requestHandler req state).2 = true → Q (h.requestHandler req state).1)
  data : ∀ chunk remaining state, Q state →
    R (h.dataHandler chunk remaining state).1 ∧
      ((h.dataHandler chunk remaining state).2 = true → Q (h.dataHandler chunk remaining state).1)

/-- What a part of a call leaves when its handlers keep `Q` and `R`. -/
def Parsed.Kept (Q R : σ → Prop) (parsed : Parsed σ) : Prop :=
  R parsed.state ∧ (parsed.returned ≠ some .other → Q parsed.state)

def KeptCall (Q R : σ → Prop) (result : Returned × HttpParser × σ) : Prop :=
  R result.2.2 ∧ (result.1 ≠ .other → Q result.2.2)

theorem Parsed.Kept.going {parsed : Parsed σ} (kept : parsed.Kept Q R) (going : parsed.returned = none) :
    Q parsed.state := by
  apply kept.2
  rw [going]
  exact Option.some_ne_none _ |>.symm

theorem Parsed.Kept.called {parsed : Parsed σ} (kept : parsed.Kept Q R) {returned : Returned}
    (stopped : parsed.returned = some returned) (parser : HttpParser) : KeptCall Q R (returned, parser, parsed.state) := by
  refine ⟨kept.1, fun same => kept.2 ?_⟩
  rw [stopped]
  exact fun other => same (Option.some.inj other)

variable (keep : h.Keep Q R)
include keep

theorem emitChunks_kept (fuel : Nat) (data : Bytes) (word : BitVec 64) (state : σ) (start : Q state) :
    R (emitChunks h fuel data word state).2.2.2 ∧
      ((emitChunks h fuel data word state).1 = true → Q (emitChunks h fuel data word state).2.2.2) := by
  induction fuel generalizing data word state with
  | zero => exact ⟨keep.weaker _ start, fun _ => start⟩
  | succ fuel ih =>
    unfold emitChunks
    generalize getNextChunk data word = next
    obtain ⟨chunk, rest, after⟩ := next
    cases chunk with
    | none => exact ⟨keep.weaker _ start, fun _ => start⟩
    | some chunk =>
      obtain ⟨left, going⟩ := keep.data chunk (if chunk.length ≠ 0 then uint64Max else 0) state start
      simp only
      cases same : (h.dataHandler chunk (if chunk.length ≠ 0 then uint64Max else 0) state).2 with
      | true =>
        rw [if_pos rfl]
        exact ih rest after _ (going same)
      | false => exact ⟨left, fun same => absurd same Bool.false_ne_true⟩

theorem consumeChunked_kept (parser : HttpParser) (data : Bytes) (state : σ) (start : Q state) :
    (consumeChunked h parser data state).Kept Q R := by
  have emitted := emitChunks_kept keep (data.length + 1) data parser.remainingStreamingBytes state start
  unfold consumeChunked
  generalize emitChunks h (data.length + 1) data parser.remainingStreamingBytes state = result at emitted
  obtain ⟨same, rest, word, after⟩ := result
  cases same with
  | false => exact ⟨emitted.1, fun other => absurd rfl other⟩
  | true =>
    simp only [Bool.not_true, Bool.false_eq_true, if_false]
    split
    · exact ⟨emitted.1, fun _ => emitted.2 rfl⟩
    · exact ⟨emitted.1, fun _ => emitted.2 rfl⟩

theorem Handlers.Keep.ended (chunk : Bytes) (remaining : Nat) (state : σ) (start : Q state) (returned : Option Returned)
    (parser : HttpParser) (rest : Bytes) :
    Parsed.Kept Q R ⟨if (h.dataHandler chunk remaining state).2 then returned else some .other, parser, rest,
      (h.dataHandler chunk remaining state).1⟩ := by
  obtain ⟨left, going⟩ := keep.data chunk remaining state start
  apply And.intro left
  simp only
  split
  · rename_i same
    exact fun _ => going same
  · exact fun other => absurd rfl other

theorem consumeStreamingBody_kept (parser : HttpParser) (data : Bytes) (state : σ) (start : Q state) :
    (consumeStreamingBody h parser data state).Kept Q R := by
  unfold consumeStreamingBody
  split
  · exact consumeChunked_kept keep parser data state start
  · simp only
    split
    · have ended := keep.ended data (parser.remainingStreamingBytes.toNat - data.length) state start (some .user)
        { parser with remainingStreamingBytes := BitVec.ofNat 64 (parser.remainingStreamingBytes.toNat - data.length) } []
      rw [← apply_ite some] at ended
      exact ended
    · exact keep.ended _ _ state start none _ _

theorem startBody_kept (consumeMinimally : Bool) (req : HttpRequest) (parser : HttpParser) (data : Bytes) (state : σ)
    (start : Q state) : (startBody h consumeMinimally req parser data state).Kept Q R := by
  have stay : ∀ returned parser rest, Parsed.Kept Q R ⟨returned, parser, rest, state⟩ :=
    fun _ _ _ => ⟨keep.weaker _ start, fun _ => start⟩
  unfold startBody
  split
  · simp only
    split
    · exact stay _ _ _
    · exact consumeChunked_kept keep _ data state start
  · split
    · simp only
      split
      · exact stay _ _ _
      · split
        · obtain ⟨left, going⟩ := keep.data
            (data.take (min (toUnsignedInteger req.contentLengthString).toNat data.length))
            ((toUnsignedInteger req.contentLengthString).toNat -
              min (toUnsignedInteger req.contentLengthString).toNat data.length) state start
          split
          · exact ⟨left, fun other => absurd rfl other⟩
          · rename_i same
            exact ⟨left, fun _ => going (by simpa using same)⟩
        · split
          · exact keep.ended _ _ state start none _ _
          · exact stay _ _ _
    · exact keep.ended _ _ state start none _ _

theorem fenceLoop_kept (consumeMinimally : Bool) (maxHeaderSize fuel : Nat) (parser : HttpParser) (data : Bytes) (state : σ)
    (start : Q state) : (fenceLoop h consumeMinimally maxHeaderSize fuel parser data state).Kept Q R := by
  have stay : ∀ (state : σ), Q state → ∀ returned parser rest, Parsed.Kept Q R ⟨returned, parser, rest, state⟩ :=
    fun state start _ _ _ => ⟨keep.weaker _ start, fun _ => start⟩
  induction fuel generalizing parser data state with
  | zero => exact stay state start _ _ _
  | succ fuel ih =>
    unfold fenceLoop
    split
    · exact stay state start _ _ _
    · simp only
      split
      · exact stay state start _ _ _
      · exact stay state start _ _ _
      · split
        · exact stay state start _ _ _
        · split
          · exact stay state start _ _ _
          · rename_i req _
            obtain ⟨left, going⟩ := keep.request req state start
            split
            · exact ⟨left, fun other => absurd rfl other⟩
            · rename_i same
              rename_i rest _ _ _ _
              have body := startBody_kept keep consumeMinimally req
                { parser with reserved := (parser.reserved.parse data).1 } rest _ (going (by simpa using same))
              split
              · exact body
              · rename_i more
                apply ih
                apply body.going
                rw [Bool.or_eq_true, not_or] at more
                exact Option.not_isSome_iff_eq_none.mp more.1

theorem fenceAndConsumePostPadded_kept (consumeMinimally : Bool) (maxHeaderSize : Nat) (parser : HttpParser)
    (data : Bytes) (state : σ) (start : Q state) :
    (fenceAndConsumePostPadded h consumeMinimally maxHeaderSize parser data state).Kept Q R :=
  fenceLoop_kept keep consumeMinimally maxHeaderSize data.length parser data state start

theorem consumeHeads_kept (maxHeaderSize : Nat) (parser : HttpParser) (data : Bytes) (state : σ) (start : Q state) :
    KeptCall Q R (consumeHeads h maxHeaderSize parser data state) := by
  have fenced := fenceAndConsumePostPadded_kept keep false maxHeaderSize parser data state start
  unfold consumeHeads
  simp only
  generalize fenceAndConsumePostPadded h false maxHeaderSize parser data state = consumed at fenced
  split
  · rename_i stopped
    exact fenced.called stopped _
  · rename_i going
    have more := fenced.going going
    split
    · split
      · exact ⟨fenced.1, fun _ => more⟩
      · exact ⟨fenced.1, fun _ => more⟩
    · exact ⟨fenced.1, fun _ => more⟩

theorem consumeBodyAndHeads_kept (maxHeaderSize : Nat) (parser : HttpParser) (data : Bytes) (state : σ)
    (start : Q state) : KeptCall Q R (consumeBodyAndHeads h maxHeaderSize parser data state) := by
  have body := consumeStreamingBody_kept keep parser data state start
  unfold consumeBodyAndHeads
  simp only
  split
  · rename_i stopped
    exact body.called stopped _
  · rename_i going
    exact consumeHeads_kept keep maxHeaderSize _ _ _ (body.going going)

theorem consumeFallback_kept (maxHeaderSize : Nat) (parser : HttpParser) (data : Bytes) (state : σ) (start : Q state) :
    KeptCall Q R (consumeFallback h maxHeaderSize parser data state) := by
  unfold consumeFallback
  simp only
  generalize parser.fallback ++ data.take (min (maxHeaderSize - parser.fallback.length) data.length) = fallback
  have fenced := fenceAndConsumePostPadded_kept keep true maxHeaderSize parser fallback state start
  generalize fenceAndConsumePostPadded h true maxHeaderSize parser fallback state = consumed at fenced
  split
  · rename_i stopped
    exact fenced.called stopped _
  · rename_i going
    have more := fenced.going going
    split
    · split
      · exact consumeBodyAndHeads_kept keep maxHeaderSize _ _ _ more
      · exact consumeHeads_kept keep maxHeaderSize _ _ _ more
    · split
      · exact ⟨fenced.1, fun _ => more⟩
      · exact ⟨fenced.1, fun _ => more⟩

theorem consumePostPadded_kept (maxHeaderSize : Nat) (parser : HttpParser) (data : Bytes) (state : σ) (start : Q state) :
    KeptCall Q R (consumePostPadded h maxHeaderSize parser data state) := by
  unfold consumePostPadded
  split
  · exact consumeBodyAndHeads_kept keep maxHeaderSize parser data state start
  · split
    · exact consumeFallback_kept keep maxHeaderSize parser data state start
    · exact consumeHeads_kept keep maxHeaderSize parser data state start

end Uws.Http
