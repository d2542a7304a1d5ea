import Uws.Http.StreamDecoding

namespace Uws.Http

open Uws.Machine StreamPhase

variable {maxHeaderSize : Nat}

theorem getHeaders_fallback {read fallback : Bytes} (got : getHeaders read = .incomplete fallback) (data : Bytes) :
    fallback.length = read.length ∧ getHeaders (fallback ++ data) = getHeaders (read ++ data) := by
  obtain ⟨size, same⟩ := getHeaders_incomplete got
  exact ⟨size, same data⟩

theorem StreamPhase.Holds.start_of_idle {phase : StreamPhase} {parser : HttpParser} (holds : phase.Holds maxHeaderSize parser)
    (idle : parser.remainingStreamingBytes = 0#64) (empty : parser.fallback = []) : phase = .head [] := by
  cases holds with
  | start => rfl
  | head read _ some _ _ got =>
    rw [empty] at got
    have size := (getHeaders_incomplete got).1
    exact absurd (List.eq_nil_of_length_eq_zero size.symm) some
  | fixed left _ some bound word =>
    rw [word] at idle
    have zero := toNat_ofNat_small bound
    rw [idle] at zero
    exact absurd zero (Nat.ne_of_lt some)
  | chunked phase _ _ word =>
    have chunked := word.chunked
    rw [idle] at chunked
    exact absurd chunked (by decide)
  | trailer _ word =>
    rw [word] at idle
    exact absurd idle (by decide)

theorem fence_minimally (parser : HttpParser) (buffer : Bytes) (log : List Event) (filled : buffer ≠ []) :
    fenceAndConsumePostPadded logging true maxHeaderSize parser buffer log =
      (let parser := { parser with reserved := (parser.reserved.parse buffer).1 }
      match getHeaders buffer with
      | .incomplete left => ⟨none, parser, left, log⟩
      | .failed err => ⟨some (.error err), parser, buffer, log⟩
      | .complete req rest =>
        if maxHeaderSize < buffer.length - rest.length then
          ⟨some (.error .requestHeaderFieldsTooLarge), parser, rest, log⟩
        else
          match checkHeaders req with
          | .error err => ⟨some (.error err), parser, rest, log⟩
          | .ok req => startBody logging true req parser rest (log ++ [.request req])) := by
  cases buffer with
  | nil => exact absurd rfl filled
  | cons b buffer =>
    rw [fenceAndConsumePostPadded, List.length_cons, fenceLoop]
    simp only [List.isEmpty_cons, Bool.false_eq_true, if_false]
    cases getHeaders (b :: buffer) with
    | incomplete left => rfl
    | failed err => rfl
    | complete req rest =>
      cases checked : checkHeaders req <;>
        simp only [List.length_cons, checked, logging_request, Bool.not_true, Bool.or_true, Bool.false_eq_true, if_true,
          if_false]

theorem consumeFallback_taken (read : Bytes) (parser : HttpParser) (data : Bytes) (log : List Event) (begun : read ≠ [])
    (more : data ≠ []) (small : read.length < maxHeaderSize) (idle : parser.remainingStreamingBytes = 0#64)
    (got : getHeaders read = .incomplete parser.fallback)
    (regular : (run (step maxHeaderSize) (.head read) data).1 ≠ .irregular) :
    CallTaken maxHeaderSize (.head read) data (logParts log) (consumeFallback logging maxHeaderSize parser data log) := by
  have reading : Reading maxHeaderSize read := ⟨⟨_, got⟩, .inr small⟩
  have room : 0 < read.length := List.length_pos_of_ne_nil begun
  have arrived : 0 < data.length := List.length_pos_of_ne_nil more
  obtain ⟨had, same⟩ := getHeaders_fallback got (data.take (min (maxHeaderSize - read.length) data.length))
  have split := List.take_append_drop (min (maxHeaderSize - read.length) data.length) data
  have taken := run_head read data more reading
  simp only [consumeFallback, had]
  generalize data.drop (min (maxHeaderSize - read.length) data.length) = tail at split
  have size : (data.take (min (maxHeaderSize - read.length) data.length)).length =
      min (maxHeaderSize - read.length) data.length := by simp
  generalize data.take (min (maxHeaderSize - read.length) data.length) = front at size same split ⊢
  subst split
  have own : front ≠ [] := by
    intro none
    subst none
    simp only [List.length_nil] at size
    omega
  have held := @run_head maxHeaderSize read front own reading
  have joined : (parser.fallback ++ front).length = read.length + front.length := by rw [List.length_append, had]
  have most : read.length + front.length ≤ maxHeaderSize := by omega
  have filled : parser.fallback ++ front ≠ [] := by
    simp [own]
  have front_regular := run_prefix_ne (step maxHeaderSize) (absorbing_irregular maxHeaderSize) regular
  rw [fence_minimally parser _ log filled, same]
  cases found : getHeaders (read ++ front) with
  | incomplete left =>
    have left_size := (getHeaders_incomplete found).1
    rw [List.length_append] at left_size
    have first : (parser.fallback ++ front).length - left.length = 0 := by omega
    rw [found] at held
    simp only [first, ne_eq, not_true_eq_false, if_false]
    cases held with
    | irregular _ entered => exact absurd entered front_regular
    | long _ entered wide =>
      rw [List.length_append] at wide
      rw [if_pos (by omega)]
      exact .failed _ _ _ (run_append_absorbing _ (absorbing_error maxHeaderSize) entered tail)
    | incomplete _ stays short =>
      rw [List.length_append] at short
      have none : tail = [] := by
        apply List.eq_nil_of_length_eq_zero
        rw [List.length_append] at size
        omega
      subst none
      rw [if_neg (by omega), List.append_nil]
      have held : Holds maxHeaderSize (.head (read ++ front))
          { parser with reserved := (parser.reserved.parse (parser.fallback ++ front)).1, fallback := left } :=
        .head _ _ (by simp [own]) (by rw [List.length_append]; exact short) idle found
      exact .user _ [] _ _ held stays (by simp)
  | failed err =>
    rw [found] at held
    cases held with
    | irregular _ entered => exact absurd entered front_regular
    | failed _ entered => exact .failed _ _ _ (run_append_absorbing _ (absorbing_error maxHeaderSize) entered tail)
  | complete req rest =>
    have short : ¬ maxHeaderSize < (parser.fallback ++ front).length - rest.length := by omega
    have whole := getHeaders_complete_append found tail
    rw [List.append_assoc] at whole
    rw [whole] at taken
    cases taken with
    | irregular _ entered => exact absurd entered regular
    | longComplete _ _ entered wide =>
      simp only [List.length_append] at wide
      omega
    | refused _ _ err checked entered =>
      simp only [short, if_false, checked]
      exact .failed _ _ _ entered
    | complete _ checked used _ split some' small' passed taken =>
      rw [← List.append_assoc] at split
      have cut := List.append_cancel_right split
      subst cut
      simp only [List.length_append] at small' size joined
      simp only [short, if_false, passed]
      rcases @startBody_minimally maxHeaderSize checked
        { parser with reserved := (parser.reserved.parse (parser.fallback ++ (used ++ rest))).1 } rest
        (log ++ [.request checked]) idle with ⟨err, after, last, body, entered⟩ | ⟨after, last, body, holds, parts⟩
      · rw [body]
        apply CallTaken.failed
        rw [taken, entered, run_error]
      · have first : (parser.fallback ++ (used ++ rest)).length - rest.length = read.length + used.length := by
          simp only [List.length_append]
          omega
        have dropped : (used ++ rest ++ tail).drop (read.length + used.length - read.length) = rest ++ tail := by
          rw [Nat.add_sub_cancel_left, List.append_assoc, List.drop_left]
        have next : read.length + used.length ≠ 0 := by omega
        rw [body]
        simp only [first, dropped, next, ne_eq, not_false_eq_true, if_true]
        rw [logParts_request, List.append_assoc, List.singleton_append] at parts
        rw [taken] at regular
        by_cases streaming : last.remainingStreamingBytes = 0#64
        · have started := holds.start_of_idle streaming rfl
          rw [started] at holds regular taken
          have later := consumeHeads_taken { last with fallback := [] } (rest ++ tail) after holds regular
          rw [parts] at later
          rw [if_neg (not_not.mpr streaming)]
          exact later.prepend taken
        · have later := consumeBodyAndHeads_taken (ofRequest checked).1 { last with fallback := [] } (rest ++ tail) after
            holds streaming regular
          rw [parts] at later
          rw [if_pos streaming]
          exact later.prepend taken

theorem consumePostPadded_taken (phase : StreamPhase) (parser : HttpParser) (data : Bytes) (log : List Event)
    (more : data ≠ []) (holds : phase.Holds maxHeaderSize parser)
    (regular : (run (step maxHeaderSize) phase data).1 ≠ .irregular) :
    CallTaken maxHeaderSize phase data (logParts log) (consumePostPadded logging maxHeaderSize parser data log) := by
  unfold consumePostPadded
  by_cases streaming : parser.remainingStreamingBytes = 0#64
  · rw [if_neg (not_not.mpr streaming)]
    by_cases empty : parser.fallback = []
    · have started := holds.start_of_idle streaming empty
      subst started
      rw [if_neg (by simp [empty])]
      exact consumeHeads_taken parser data log holds regular
    · rw [if_pos (by simp [empty])]
      cases holds with
      | start _ _ none => exact absurd none empty
      | head read _ begun small idle got => exact consumeFallback_taken read parser data log begun more small idle got regular
      | fixed _ _ _ _ _ none => exact absurd none empty
      | chunked _ _ _ _ _ none => exact absurd none empty
      | trailer _ _ none => exact absurd none empty
  · rw [if_pos streaming]
    exact consumeBodyAndHeads_taken phase parser data log holds streaming regular

theorem consumeReads_taken (phase : StreamPhase) (parser : HttpParser) (reads : List Bytes) (log : List Event)
    (more : ∀ read ∈ reads, read ≠ []) (holds : phase.Holds maxHeaderSize parser)
    (regular : (run (step maxHeaderSize) phase reads.flatten).1 ≠ .irregular) :
    CallTaken maxHeaderSize phase reads.flatten (logParts log) (consumeReads logging maxHeaderSize reads parser log) := by
  induction reads generalizing phase parser log with
  | nil => exact .user phase [] parser log holds rfl (by simp)
  | cons read reads ih =>
    rw [List.flatten_cons] at regular ⊢
    have front_regular := run_prefix_ne (step maxHeaderSize) (absorbing_irregular maxHeaderSize) regular
    have call := consumePostPadded_taken phase parser read log (more read (by simp)) holds front_regular
    simp only [consumeReads]
    generalize consumePostPadded logging maxHeaderSize parser read log = called at call
    cases call with
    | failed err last after entered =>
      exact .failed err last after (run_append_absorbing _ (absorbing_error maxHeaderSize) entered _)
    | user next added last after held taken parts =>
      have whole := run_append (step maxHeaderSize) phase read reads.flatten
      rw [taken] at whole
      rw [whole] at regular
      have later := ih next last after (fun r member => more r (List.mem_cons_of_mem _ member)) held regular
      rw [parts] at later
      exact later.prepend whole

/-- Whether a body is open behind the parts; nothing where a body has no request, or a request comes
    before the end of the body of the last one. -/
def bodyRun : Bool → List StreamPart → Option Bool
  | inBody, [] => some inBody
  | false, .request _ :: parts => bodyRun true parts
  | true, .body (.byte _) :: parts => bodyRun true parts
  | true, .body .fin :: parts => bodyRun false parts
  | _, _ => none

theorem bodyRun_append (inBody : Bool) (front back : List StreamPart) :
    bodyRun inBody (front ++ back) = (bodyRun inBody front).bind fun next => bodyRun next back := by
  induction front generalizing inBody with
  | nil => rfl
  | cons part front ih =>
    rcases part with req | value | _ <;> cases inBody <;> first | rfl | exact ih _

def StreamPhase.inBody : StreamPhase → Bool
  | .fixed _ => true
  | .chunked phase => phase != .trailer
  | _ => false

theorem ofRequest_bodyRun (req : HttpRequest) (fine : (ofRequest req).1 ≠ .error) :
    bodyRun true ((ofRequest req).2.map .body) = some (ofRequest req).1.inBody := by
  unfold ofRequest at fine ⊢
  by_cases encoded : req.transferEncodingString.length ≠ 0
  · rw [if_pos encoded]
    rfl
  · rw [if_neg encoded] at fine ⊢
    by_cases sized : req.contentLengthString.length ≠ 0
    · rw [if_pos sized] at fine ⊢
      generalize (toUnsignedInteger req.contentLengthString).toNat = length at fine ⊢
      by_cases invalid : length = uint64Max
      · simp only [invalid, if_true] at fine
        exact absurd rfl fine
      · simp only [invalid, if_false]
        split <;> rfl
    · rw [if_neg sized]
      rfl

theorem endLine_bodyRun (value : Nat) (regular : (ChunkPhase.endLine value).1 ≠ .irregular) :
    bodyRun true ((ChunkPhase.endLine value).2.map .body) = some ((ChunkPhase.endLine value).1 != .trailer) := by
  unfold ChunkPhase.endLine at regular ⊢
  by_cases large : 2 ^ 60 ≤ value + 2
  · rw [if_pos large] at regular
    exact absurd rfl regular
  · rw [if_neg large]
    by_cases zero : value = 0
    · rw [if_pos zero]
      rfl
    · rw [if_neg zero]
      rfl

theorem chunkStep_bodyRun (phase : ChunkPhase) (b : UInt8) (fine : (phase.step b).1 ≠ .error)
    (regular : (phase.step b).1 ≠ .irregular) :
    bodyRun (phase != .trailer) ((phase.step b).2.map .body) = some ((phase.step b).1 != .trailer) := by
  cases phase with
  | size value =>
    simp only [ChunkPhase.step] at fine regular ⊢
    cases hex : hexDigit b with
    | some number =>
      simp only
      split <;> rfl
    | none =>
      simp only [hex] at fine regular ⊢
      split
      · rfl
      · split
        · rfl
        · split
          · rename_i semicolon ret newline
            rw [if_neg semicolon, if_neg ret, if_pos newline] at regular
            exact endLine_bodyRun value regular
          · rfl
  | sizeCr value =>
    simp only [ChunkPhase.step] at regular ⊢
    split
    · rename_i newline
      rw [if_pos newline] at regular
      exact endLine_bodyRun value regular
    · split <;> rfl
  | extension value =>
    simp only [ChunkPhase.step] at regular ⊢
    split
    · rename_i newline
      rw [if_pos newline] at regular
      exact endLine_bodyRun value regular
    · rfl
  | data left =>
    simp only [ChunkPhase.step]
    split <;> rfl
  | dataCr =>
    simp only [ChunkPhase.step]
    split <;> rfl
  | dataLf =>
    simp only [ChunkPhase.step]
    split <;> rfl
  | trailer => rfl
  | error => exact absurd rfl fine
  | irregular => exact absurd rfl regular

theorem ofChunk_inBody (phase : ChunkPhase) (fine : phase ≠ .error) (regular : phase ≠ .irregular) :
    (ofChunk 0 phase).inBody = (phase != .trailer) := by
  cases phase <;> first | rfl | exact absurd rfl fine | exact absurd rfl regular

theorem step_bodyRun (phase : StreamPhase) (b : UInt8) (fine : (step maxHeaderSize phase b).1 ≠ .error)
    (regular : (step maxHeaderSize phase b).1 ≠ .irregular) :
    bodyRun phase.inBody (step maxHeaderSize phase b).2 = some (step maxHeaderSize phase b).1.inBody := by
  cases phase with
  | head read =>
    simp only [step] at fine regular ⊢
    cases found : getHeaders (read ++ [b]) with
    | incomplete buffer =>
      simp only [found, ofHeaders] at fine ⊢
      split
      · rename_i long
        exact absurd (if_pos long) fine
      · rfl
    | failed err =>
      simp only [found, ofHeaders] at fine regular ⊢
      split at fine
      · rename_i target
        exact absurd (if_pos target) regular
      · exact absurd rfl fine
    | complete req rest =>
      simp only [found, ofHeaders] at fine ⊢
      split at fine
      · exact absurd rfl fine
      · rename_i short
        rw [if_neg short]
        cases checked : checkHeaders req with
        | error err =>
          rw [checked] at fine
          exact absurd rfl fine
        | ok req =>
          rw [checked] at fine
          exact ofRequest_bodyRun req fine
  | fixed left =>
    simp only [step]
    split <;> rfl
  | chunked phase =>
    simp only [step] at fine regular ⊢
    have fine' : (phase.step b).1 ≠ .error := fun bad => fine (by rw [bad]; rfl)
    have regular' : (phase.step b).1 ≠ .irregular := fun bad => regular (by rw [bad]; rfl)
    rw [ofChunk_inBody _ fine' regular']
    exact chunkStep_bodyRun phase b fine' regular'
  | trailer tail =>
    simp only [step]
    cases trailerStep tail b <;> rfl
  | error => exact absurd rfl fine
  | irregular => exact absurd rfl regular

theorem run_bodyRun (phase : StreamPhase) (data : Bytes) (fine : (run (step maxHeaderSize) phase data).1 ≠ .error)
    (regular : (run (step maxHeaderSize) phase data).1 ≠ .irregular) :
    bodyRun phase.inBody (run (step maxHeaderSize) phase data).2 =
      some (run (step maxHeaderSize) phase data).1.inBody := by
  induction data generalizing phase with
  | nil => rfl
  | cons b data ih =>
    rw [run_cons] at fine regular ⊢
    have fine' : (step maxHeaderSize phase b).1 ≠ .error := fun bad => fine (by rw [bad, run_error])
    have regular' : (step maxHeaderSize phase b).1 ≠ .irregular := fun bad => regular (by rw [bad, run_irregular])
    rw [bodyRun_append, step_bodyRun phase b fine' regular']
    exact ih _ fine regular

/-- Where the byte behind `front` is read otherwise when a read ends in front of it or behind it: at a byte
    behind a CR of a chunk-size line that neither ends nor extends the line, at the end of a line whose size
    runs into the flags, and in a head that fails while its target is ended by a CR. -/
def CutSensitive : StreamPhase → UInt8 → Prop
  | .head read, b => (∃ err, getHeaders (read ++ [b]) = .failed err) ∧ crTarget (read ++ [b]) = true
  | .chunked (.size value), b => b = lf ∧ 2 ^ 60 ≤ value + 2
  | .chunked (.sizeCr value), b => if b = lf then 2 ^ 60 ≤ value + 2 else b ≠ cr ∧ b ≠ 59
  | .chunked (.extension value), b => b = lf ∧ 2 ^ 60 ≤ value + 2
  | _, _ => False

def phaseBehind (maxHeaderSize : Nat) (front : Bytes) : StreamPhase := (run (step maxHeaderSize) (.head []) front).1

def CutInsensitive (maxHeaderSize : Nat) (stream : Bytes) : Prop :=
  ∀ front b back, stream = front ++ b :: back → ¬ CutSensitive (phaseBehind maxHeaderSize front) b

theorem endLine_eq_irregular {value : Nat} (entered : (ChunkPhase.endLine value).1 = .irregular) : 2 ^ 60 ≤ value + 2 := by
  unfold ChunkPhase.endLine at entered
  by_contra small
  rw [if_neg small] at entered
  split at entered <;> cases entered

theorem ofRequest_regular (req : HttpRequest) : (ofRequest req).1 ≠ .irregular := by
  unfold ofRequest
  simp only
  repeat' split
  all_goals exact nofun

theorem ofChunk_eq_irregular {tail : Nat} {phase : ChunkPhase} (entered : ofChunk tail phase = .irregular) :
    phase = .irregular := by
  cases phase <;> first | rfl | cases entered

theorem ofChunk_ne (tail : Nat) (phase : ChunkPhase) : ofChunk tail phase ≠ .chunked .irregular := by
  cases phase <;> nofun

theorem ofRequest_ne (req : HttpRequest) : (ofRequest req).1 ≠ .chunked .irregular := by
  unfold ofRequest
  simp only
  repeat' split
  all_goals exact nofun

theorem step_ne (phase : StreamPhase) (b : UInt8) : (step maxHeaderSize phase b).1 ≠ .chunked .irregular := by
  cases phase with
  | head read =>
    simp only [step, ofHeaders]
    split
    · split <;> exact StreamPhase.noConfusion
    · split <;> exact StreamPhase.noConfusion
    · split
      · exact StreamPhase.noConfusion
      · split
        · exact StreamPhase.noConfusion
        · exact ofRequest_ne _
  | fixed left =>
    simp only [step]
    split <;> exact StreamPhase.noConfusion
  | chunked phase => exact ofChunk_ne 0 _
  | trailer tail =>
    simp only [step]
    split <;> exact StreamPhase.noConfusion
  | error => exact StreamPhase.noConfusion
  | irregular => exact StreamPhase.noConfusion

theorem chunkStep_irregular {phase : ChunkPhase} {b : UInt8} (proper : phase ≠ .irregular)
    (entered : (step maxHeaderSize (.chunked phase) b).1 = .irregular) : CutSensitive (.chunked phase) b := by
  have stepped : (phase.step b).1 = .irregular := ofChunk_eq_irregular entered
  cases phase with
  | size value =>
    simp only [ChunkPhase.step] at stepped
    split at stepped
    · split at stepped <;> cases stepped
    · split at stepped
      · cases stepped
      · split at stepped
        · cases stepped
        · split at stepped
          · rename_i newline
            exact ⟨newline, endLine_eq_irregular stepped⟩
          · cases stepped
  | sizeCr value =>
    simp only [ChunkPhase.step] at stepped
    simp only [CutSensitive]
    split at stepped
    · rename_i newline
      rw [if_pos newline]
      exact endLine_eq_irregular stepped
    · rename_i other
      rw [if_neg other]
      split at stepped
      · cases stepped
      · rename_i neither
        exact not_or.mp neither
  | extension value =>
    simp only [ChunkPhase.step] at stepped
    split at stepped
    · rename_i newline
      exact ⟨newline, endLine_eq_irregular stepped⟩
    · cases stepped
  | data left =>
    simp only [ChunkPhase.step] at stepped
    split at stepped <;> cases stepped
  | dataCr =>
    simp only [ChunkPhase.step] at stepped
    split at stepped <;> cases stepped
  | dataLf =>
    simp only [ChunkPhase.step] at stepped
    split at stepped <;> cases stepped
  | trailer => cases stepped
  | error => cases stepped
  | irregular => exact absurd rfl proper

theorem step_irregular {phase : StreamPhase} {b : UInt8} (proper : phase ≠ .chunked .irregular)
    (entered : (step maxHeaderSize phase b).1 = .irregular) :
    phase = .irregular ∨ CutSensitive phase b := by
  cases phase with
  | head read =>
    right
    simp only [step] at entered
    cases found : getHeaders (read ++ [b]) with
    | incomplete buffer =>
      simp only [found, ofHeaders] at entered
      split at entered <;> cases entered
    | failed err =>
      simp only [found, ofHeaders] at entered
      refine ⟨⟨err, found⟩, ?_⟩
      by_contra target
      rw [if_neg target] at entered
      cases entered
    | complete req rest =>
      simp only [found, ofHeaders] at entered
      split at entered
      · cases entered
      · split at entered
        · cases entered
        · exact absurd entered (ofRequest_regular _)
  | fixed left =>
    simp only [step] at entered
    split at entered <;> cases entered
  | chunked phase => exact .inr (chunkStep_irregular (fun bad => proper (by rw [bad])) entered)
  | trailer tail =>
    simp only [step] at entered
    cases tail' : trailerStep tail b <;> rw [tail'] at entered <;> cases entered
  | error => cases entered
  | irregular => exact .inl rfl

theorem phaseBehind_ne (front : Bytes) : phaseBehind maxHeaderSize front ≠ .chunked .irregular := by
  induction front using List.reverseRecOn with
  | nil => exact nofun
  | append_singleton front b _ =>
    simp only [phaseBehind, run_append, run_cons, run_nil]
    exact step_ne _ b

theorem CutInsensitive.regular {stream : Bytes} (insensitive : CutInsensitive maxHeaderSize stream) :
    phaseBehind maxHeaderSize stream ≠ .irregular := by
  induction stream using List.reverseRecOn with
  | nil => simp [phaseBehind]
  | append_singleton front b ih =>
    intro entered
    simp only [phaseBehind, run_append, run_cons, run_nil] at entered
    rcases step_irregular (phaseBehind_ne front) entered with before | sensitive
    · apply ih _ before
      intro first c back split
      exact insensitive first c (back ++ [b]) (by rw [split]; simp)
    · exact insensitive front b [] rfl sensitive

theorem CutSensitive.step_irregular {phase : StreamPhase} {b : UInt8} (sensitive : CutSensitive phase b) :
    (step maxHeaderSize phase b).1 = .irregular := by
  cases phase with
  | head read =>
    obtain ⟨⟨err, found⟩, target⟩ := sensitive
    simp only [step, found, ofHeaders, if_pos target]
  | chunked phase =>
    cases phase with
    | size value =>
      obtain ⟨rfl, large⟩ := sensitive
      have line : (ChunkPhase.size value).step lf = ChunkPhase.endLine value := rfl
      rw [step, line, ChunkPhase.endLine_irregular large]
      rfl
    | sizeCr value =>
      simp only [CutSensitive] at sensitive
      simp only [step, ChunkPhase.step]
      by_cases newline : b = lf
      · rw [if_pos newline] at sensitive
        rw [if_pos newline, ChunkPhase.endLine_irregular sensitive]
        rfl
      · rw [if_neg newline] at sensitive
        rw [if_neg newline, if_neg (not_or.mpr sensitive)]
        rfl
    | extension value =>
      obtain ⟨rfl, large⟩ := sensitive
      have line : (ChunkPhase.extension value).step lf = ChunkPhase.endLine value := rfl
      rw [step, line, ChunkPhase.endLine_irregular large]
      rfl
    | _ => cases sensitive
  | _ => cases sensitive

theorem cutInsensitive_iff (stream : Bytes) :
    CutInsensitive maxHeaderSize stream ↔ phaseBehind maxHeaderSize stream ≠ .irregular := by
  constructor
  · exact CutInsensitive.regular
  · intro regular front b back split sensitive
    subst split
    apply regular
    have entered := @CutSensitive.step_irregular maxHeaderSize _ _ sensitive
    have reached : (run (step maxHeaderSize) (.head []) (front ++ [b])).1 = .irregular := by
      simp only [run_append, run_cons, run_nil]
      exact entered
    have whole := run_append_absorbing (step maxHeaderSize) (absorbing_irregular maxHeaderSize) reached back
    rw [List.append_assoc] at whole
    exact whole

/-- No call of `reads` returns an error, the requests, body bytes and ends of bodies are those of one call
    with all of `stream`, and every body ends once. -/
def SameReading (maxHeaderSize : Nat) (stream : Bytes) (reads : List Bytes) : Prop :=
  let whole := consumePostPadded logging maxHeaderSize {} stream []
  let cut := consumeReads logging maxHeaderSize reads {} []
  cut.1 = .user ∧ logParts cut.2.2 = logParts whole.2.2 ∧ ∃ unfinished, bodyRun false (logParts cut.2.2) = some unfinished

def CutIndependent (maxHeaderSize : Nat) (stream : Bytes) : Prop :=
  (consumePostPadded logging maxHeaderSize {} stream []).1 = .user →
    ∀ reads : List Bytes, reads.flatten = stream → (∀ read ∈ reads, read ≠ []) → SameReading maxHeaderSize stream reads

theorem holds_fresh : Holds maxHeaderSize (.head []) {} := .start {} rfl rfl

theorem consumeReads_cut (maxHeaderSize : Nat) (stream : Bytes) (insensitive : CutInsensitive maxHeaderSize stream) :
    CutIndependent maxHeaderSize stream := by
  intro accepted reads cut more
  have regular := insensitive.regular
  by_cases none : stream = []
  · subst none
    have nothing : reads = [] := by
      cases reads with
      | nil => rfl
      | cons read reads => exact absurd (List.flatten_eq_nil_iff.mp cut read (by simp)) (more read (by simp))
    subst nothing
    exact ⟨rfl, rfl, false, rfl⟩
  · have whole := @consumePostPadded_taken maxHeaderSize (.head []) {} stream [] none holds_fresh regular
    have pieces := @consumeReads_taken maxHeaderSize (.head []) {} reads [] more holds_fresh
      (by rw [cut]; exact regular)
    rw [cut] at pieces
    simp only [SameReading]
    generalize consumePostPadded logging maxHeaderSize {} stream [] = called at accepted whole ⊢
    generalize consumeReads logging maxHeaderSize reads {} [] = calls at pieces ⊢
    cases whole with
    | failed err last after entered => cases accepted
    | user next added last after holds taken parts =>
      have fine : next ≠ .error := by
        intro bad
        subst bad
        cases holds
      cases pieces with
      | failed err last' after' entered =>
        rw [taken] at entered
        exact absurd entered fine
      | user next' added' last' after' holds' taken' parts' =>
        rw [taken] at taken'
        cases taken'
        have ends := @run_bodyRun maxHeaderSize (.head []) stream (by rw [taken]; exact fine) regular
        rw [taken] at ends
        rw [parts, parts']
        exact ⟨rfl, rfl, _, ends⟩

theorem consumeReads_cut_post :
    CutIndependent 64 (ascii "POST / HTTP/1.1\r\nHost: x\r\nTransfer-Encoding: chunked\r\n\r\n5;a\r\nhello\r\n0\r\n\r\nGET /") :=
  consumeReads_cut 64 _ ((cutInsensitive_iff _).mpr (by decide +kernel))

def chunkedPost (front back : Bytes) : List Bytes :=
  [ascii "POST / HTTP/1.1\r\nHost: x\r\nTransfer-Encoding: chunked\r\n\r\n" ++ front,
    back ++ ascii "hello\r\n0\r\n\r\n"]

theorem chunkedPost_cut : ¬ CutIndependent 8192 (chunkedPost (ascii "5\r") (ascii "A\n")).flatten := by
  intro independent
  have accepted : (consumePostPadded logging 8192 {} (chunkedPost (ascii "5\r") (ascii "A\n")).flatten []).1 = .user := by
    decide +kernel
  have same := independent accepted (chunkedPost (ascii "5\r") (ascii "A\n")) rfl (by decide +kernel)
  exact absurd same.2.1 (by decide +kernel)

end Uws.Http
