import Uws.Http.ResponseSlices

namespace Uws.Http

open Uws.Socket
open HttpResponse

section Numbers

def digitsValue (base : Nat) (digitValue : UInt8 → Nat) (value : Nat) (digits : Bytes) : Nat :=
  digits.foldl (fun value digit => base * value + digitValue digit) value

def decimalValue (digits : Bytes) : Nat := digitsValue 10 (fun digit => digit.toNat - 48) 0 digits

variable {base : Nat} {digitValue : UInt8 → Nat} {palette : Nat → UInt8}

theorem writeDigits_value (known : ∀ digit < base, digitValue (palette digit) = digit) (large : 2 ≤ base)
    (fuel value : Nat) (written : Bytes) (enough : value < fuel) :
    digitsValue base digitValue 0 (writeDigits base palette fuel value written) =
      digitsValue base digitValue value written := by
  induction fuel generalizing value written with
  | zero => exact absurd enough (Nat.not_lt_zero _)
  | succ fuel ih =>
    have last := known (value % base) (Nat.mod_lt _ (by omega))
    have whole := Nat.div_add_mod value base
    unfold writeDigits
    simp only
    split
    · rename_i zero
      rw [zero, Nat.mul_zero, Nat.zero_add] at whole
      rw [digitsValue, List.foldl_cons, last, Nat.mul_zero, Nat.zero_add, whole]
      rfl
    · rename_i some
      have smaller : value / base < fuel := by
        have positive : 0 < value := by
          by_contra none
          rw [Nat.eq_zero_of_not_pos none, Nat.zero_div] at some
          exact some rfl
        have less := Nat.div_lt_self positive (show 1 < base by omega)
        omega
      rw [ih _ _ smaller, digitsValue, List.foldl_cons, last, whole]
      rfl

theorem writeDigits_all {p : UInt8 → Prop} (known : ∀ digit < base, p (palette digit)) (large : 2 ≤ base)
    (fuel value : Nat) (written : Bytes) (before : ∀ digit ∈ written, p digit) :
    ∀ digit ∈ writeDigits base palette fuel value written, p digit := by
  induction fuel generalizing value written with
  | zero => exact before
  | succ fuel ih =>
    have more : ∀ digit ∈ palette (value % base) :: written, p digit := by
      intro digit member
      rcases List.mem_cons.mp member with rfl | member
      · exact known _ (Nat.mod_lt _ (by omega))
      · exact before digit member
    unfold writeDigits
    simp only
    split
    · exact more
    · exact ih _ _ more

theorem writeDigits_ne (fuel value : Nat) (written : Bytes) (some : written ≠ []) :
    writeDigits base palette fuel value written ≠ [] := by
  induction fuel generalizing value written with
  | zero => exact some
  | succ fuel ih =>
    unfold writeDigits
    simp only
    split
    · exact List.cons_ne_nil _ _
    · exact ih _ _ (List.cons_ne_nil _ _)

theorem u64toa_value (value : Nat) : decimalValue (u64toa value) = value :=
  writeDigits_value (by decide) (by decide) _ _ _ (Nat.lt_succ_self value)

theorem unsignedHex_value (value : Nat) : hexValue 0 (unsignedHex value) = value :=
  @writeDigits_value 16 (fun digit => (hexDigit digit).getD 0) hexPalette (by decide) (by decide) _ _ _
    (Nat.lt_succ_self value)

theorem unsignedHex_hex (value : Nat) : ∀ digit ∈ unsignedHex value, isHexDigit digit :=
  writeDigits_all (by decide) (by decide) _ _ _ (by simp)

theorem unsignedHex_ne (value : Nat) : unsignedHex value ≠ [] := by
  unfold unsignedHex writeDigits
  simp only
  split
  · exact List.cons_ne_nil _ _
  · exact writeDigits_ne _ _ _ (List.cons_ne_nil _ _)

end Numbers

def chunkOf (data : Bytes) (some : data ≠ []) : EncodedChunk where
  digits := unsignedHex data.length
  extension := []
  hex := unsignedHex_hex _
  written := unsignedHex_ne _
  extended := not_extended
  unended := List.not_mem_nil
  data := data
  nonempty := some
  value := unsignedHex_value _

def BodyCall.data : BodyCall → Bytes
  | .write data => data.val
  | .beginWrite => []

/-- What the other side makes of the declared body: the bytes of its length, or all that was written. -/
def Ending.Declares : Ending → Prop
  | .chunks calls data closeConnection =>
    if calls.any BodyCall.begins then
      ∀ (reads : List Bytes) (more : Bytes),
        reads.flatten = Ending.body (.chunks calls data closeConnection) ++ more →
          DecodesTo reads (calls.flatMap BodyCall.data ++ data.val)
    else decimalValue (u64toa data.val.length) = (calls.flatMap BodyCall.data ++ data.val).length
  | .withoutBody reported _ => ∀ length ∈ reported, decimalValue (u64toa length) = length
  | .tryEnds body _ => decimalValue (u64toa body.length) = body.length

theorem pieceOf_flatten (data : Data) : (pieceOf data).flatten = data.val := by
  unfold pieceOf
  split
  · rename_i empty
    exact empty.symm
  · exact List.append_nil _

theorem pieces_flatten (calls : List BodyCall) : (calls.flatMap BodyCall.pieces).flatten = calls.flatMap BodyCall.data := by
  induction calls with
  | nil => rfl
  | cons call calls ih =>
    rw [List.flatMap_cons, List.flatMap_cons, List.flatten_append, ih]
    cases call with
    | write data => rw [BodyCall.pieces, pieceOf_flatten, BodyCall.data]
    | beginWrite => rfl

theorem chunkedBody_decodes (pieces : List Bytes) (some : ∀ piece ∈ pieces, piece ≠ [])
    (short : ∀ piece ∈ pieces, piece.length < 2 ^ 31) (reads : List Bytes) (more : Bytes)
    (cut : reads.flatten = chunkedBody pieces ++ more) : DecodesTo reads pieces.flatten := by
  have encoded : ∃ chunks : List EncodedChunk, chunks.flatMap EncodedChunk.encode =
      pieces.flatMap (fun data => unsignedHex data.length ++ crlf ++ data ++ crlf) ∧
      encodedData chunks = pieces.flatten ∧ ∀ chunk ∈ chunks, chunk.data.length + 2 < 2 ^ 60 := by
    clear cut
    induction pieces with
    | nil => exact ⟨[], rfl, rfl, by simp⟩
    | cons piece pieces ih =>
      rw [List.forall_mem_cons] at some short
      obtain ⟨chunks, texts, data, fits⟩ := ih some.2 short.2
      refine ⟨chunkOf piece some.1 :: chunks, ?_, ?_, ?_⟩
      · rw [List.flatMap_cons, List.flatMap_cons, texts]
        simp only [EncodedChunk.encode, SizeLine.encode, chunkOf, crlf, List.append_nil, List.append_assoc]
      · rw [encodedData, List.flatMap_cons, List.flatten_cons, ← data]
        rfl
      · rw [List.forall_mem_cons]
        have own := short.1
        have bound : (chunkOf piece some.1).data.length + 2 < 2 ^ 60 := by
          simp only [chunkOf]
          omega
        exact ⟨bound, fits⟩
  obtain ⟨chunks, texts, data, fits⟩ := encoded
  -- the last line has its CRLF, and the second CRLF ends an empty trailer
  have last : ascii "0\r\n\r\n" = zeroLine.encode ++ crlf := by decide
  rw [← data]
  apply encodeChunks_decodes chunks zeroLine (crlf ++ more) reads _ fits
  rw [cut, chunkedBody, encodeChunks, texts, last, List.append_assoc, List.append_assoc, List.append_assoc]

theorem pieceOf_sound (data : Data) : ∀ piece ∈ pieceOf data, piece ≠ [] ∧ piece.length < 2 ^ 31 := by
  intro piece member
  unfold pieceOf at member
  split at member
  · exact absurd member List.not_mem_nil
  · rename_i some
    rw [List.mem_singleton.mp member]
    exact ⟨some, data.property⟩

theorem Ending.declares (ending : Ending) : ending.Declares := by
  cases ending with
  | withoutBody reported closeConnection =>
    intro length member
    exact u64toa_value length
  | tryEnds body slices => exact u64toa_value body.length
  | chunks calls data closeConnection =>
    by_cases begun : calls.any BodyCall.begins = true
    · simp only [Ending.Declares, if_pos begun]
      intro reads more cut
      rw [Ending.body, if_pos begun] at cut
      have sound : ∀ piece ∈ Ending.pieces (.chunks calls data closeConnection), piece ≠ [] ∧ piece.length < 2 ^ 31 := by
        intro piece member
        rcases List.mem_append.mp member with earlier | last
        · obtain ⟨call, -, own⟩ := List.mem_flatMap.mp earlier
          cases call with
          | write data => exact pieceOf_sound data piece own
          | beginWrite => exact absurd own List.not_mem_nil
        · exact pieceOf_sound data piece last
      have decoded := chunkedBody_decodes _ (fun piece member => (sound piece member).1)
        (fun piece member => (sound piece member).2) reads more cut
      rw [Ending.pieces, List.flatten_append, pieces_flatten, pieceOf_flatten] at decoded
      exact decoded
    · simp only [Ending.Declares, if_neg begun]
      rw [u64toa_value, ← pieces_flatten, pieces_none (Bool.eq_false_of_not_eq_true begun)]
      rfl

variable {s : Nat} {start : Loop HttpResponseData} {ambient : Nat → List Ambient}

/-- The calls before the end of a response that is not tried in slices are such as do not end it. -/
theorem calls_take (head : List HeadCall) (calls : List BodyCall) (last : List Call) (count : Nat)
    (before : count ≤ head.length + calls.length) :
    (head.map Call.head ++ (calls.map Call.body ++ last)).take count =
      (head.take count).map Call.head ++ (calls.take (count - head.length)).map Call.body := by
  rw [List.take_append, List.length_map, List.take_append, List.length_map, List.map_take, List.map_take,
    Nat.sub_eq_zero_of_le (show count - head.length ≤ calls.length by omega), List.take_zero, List.append_nil]

theorem framed_before (ready : Ready start s) (fresh : Unanswered (getHttpResponseData start s)) (response : LegalResponse)
    (head : List HeadCall) (calls : List BodyCall) (count : Nat) (early : ¬ response.headed count) :
    FramedAt s response start count (respond s ambient (head.map Call.head ++ calls.map Call.body) start) := by
  have emits := @respond_body s start ambient ready fresh head calls
  constructor
  · intro done
    rw [emits.response] at done
    exact absurd (done.symm.trans fresh.pending) Bool.false_ne_true
  · intro headed
    exact absurd headed early

theorem framed_once (ready : Ready start s) (fresh : Unanswered (getHttpResponseData start s)) (head : List HeadCall)
    (calls : List BodyCall) (last : Call) (ending : Ending) (shape : ending.calls = calls.map Call.body ++ [last])
    (once : ∀ count, LegalResponse.headed ⟨head, ending⟩ count ↔ count = (LegalResponse.calls ⟨head, ending⟩).length)
    (sent : ∀ offset, ending.sent offset = ending.body) :
    Framed s ⟨head, ending⟩ ambient start ↔ ∀ settled,
      respond s ambient (head.map Call.head ++ calls.map Call.body ++ [last]) start = last.perform s settled →
      Emits s (bodyPart (getHttpResponseData start s).methodHead start.date head calls)
        (bodyFlags (getHttpResponseData start s) head calls) start settled →
      Sends s ⟨head, ending⟩ start (last.perform s settled) ending.body := by
  have all : LegalResponse.calls ⟨head, ending⟩ = head.map Call.head ++ calls.map Call.body ++ [last] := by
    rw [LegalResponse.calls, shape, List.append_assoc]
  have length : (LegalResponse.calls ⟨head, ending⟩).length = head.length + calls.length + 1 := by
    rw [all]
    simp only [List.length_append, List.length_map, List.length_singleton]
  constructor
  · intro framed settled performed _
    have last := (framed _ (Nat.le_refl _)).2 ((once _).mpr rfl)
    rw [sent, List.take_length, all, performed] at last
    exact last
  · intro sends count most
    by_cases early : count ≤ head.length + calls.length
    · have taken : (LegalResponse.calls ⟨head, ending⟩).take count =
          (head.take count).map Call.head ++ (calls.take (count - head.length)).map Call.body := by
        rw [LegalResponse.calls, shape, calls_take head calls [last] count early]
      rw [taken]
      apply framed_before ready fresh
      rw [once, length]
      omega
    · have behind : (LegalResponse.calls ⟨head, ending⟩).take count = LegalResponse.calls ⟨head, ending⟩ :=
        List.take_of_length_le (by omega)
      obtain ⟨settled, quiet, performed⟩ := respond_emits (@respond_body s start ambient ready fresh head calls) last
      have whole := sends settled performed quiet
      rw [behind, all, performed]
      constructor
      · intro
        exact whole
      · intro
        rw [sent]
        exact whole

theorem framed_chunks (ready : Ready start s) (fresh : Unanswered (getHttpResponseData start s)) (head : List HeadCall)
    (calls : List BodyCall) (data : Data) (closeConnection : Bool) :
    Framed s ⟨head, .chunks calls data closeConnection⟩ ambient start ↔
      Proper s ⟨head, .chunks calls data closeConnection⟩ ambient start := by
  rw [framed_once ready fresh head calls (.endResponse data closeConnection) _ rfl (fun _ => Iff.rfl) (fun _ => rfl)]
  obtain ⟨settled, quiet, performed⟩ := respond_emits (@respond_body s start ambient ready fresh head calls)
    (.endResponse data closeConnection)
  cases begun : calls.any BodyCall.begins with
  | true =>
    constructor
    · intro sends
      exact (chunks_ended begun quiet).mp (sends settled performed quiet)
    · intro proper settled _ quiet
      exact (chunks_ended begun quiet).mpr proper
  | false =>
    apply iff_of_true
    · intro settled _ quiet
      exact plain_ended fresh begun quiet
    · intro
      exact .inr (.inr (pieces_none begun))

theorem framed_withoutBody (ready : Ready start s) (fresh : Unanswered (getHttpResponseData start s))
    (head : List HeadCall) (reported : Option Nat) (closeConnection : Bool) :
    Framed s ⟨head, .withoutBody reported closeConnection⟩ ambient start := by
  rw [framed_once ready fresh head [] (.endWithoutBody reported closeConnection) _ rfl (fun _ => Iff.rfl) (fun _ => rfl)]
  intro settled _ quiet
  exact withoutBody_ended fresh quiet

section Tries

variable {head : List HeadCall} {body : Bytes} {slices : List (Fin (2 ^ 31) × Bool)}

def tried (s : Nat) (ambient : Nat → List Ambient) (head : List HeadCall) (body : Bytes)
    (slices : List (Fin (2 ^ 31) × Bool)) (start : Loop HttpResponseData) (count : Nat) : Loop HttpResponseData :=
  respond s ambient ((LegalResponse.calls ⟨head, .tryEnds body slices⟩).take (head.length + count)) start

theorem tried_take (count : Nat) : (LegalResponse.calls ⟨head, .tryEnds body slices⟩).take (head.length + count) =
    head.map Call.head ++ (slices.take count).map fun slice => Call.tryEnd body slice.1 slice.2 := by
  have length : (head.map Call.head).length = head.length := List.length_map _
  rw [LegalResponse.calls, ← length, List.take_length_add_append, Ending.calls, List.map_take]

theorem tried_succ {count : Nat} {slice : Fin (2 ^ 31) × Bool} (at' : slices[count]? = some slice) :
    tried s ambient head body slices start (count + 1) =
      if ((tried s ambient head body slices start count).sockets s).closed then
        tried s ambient head body slices start count
      else (Call.tryEnd body slice.1 slice.2).perform s
        (settle s (ambient (head.length + count)) (tried s ambient head body slices start count)) := by
  have more : slices.take (count + 1) = slices.take count ++ [slice] := by
    rw [List.take_add_one, at']
    rfl
  have length : (head.map Call.head ++ (slices.take count).map fun slice => Call.tryEnd body slice.1 slice.2).length =
      head.length + count := by
    have few := (List.getElem?_eq_some_iff.mp at').1
    rw [List.length_append, List.length_map, List.length_map, List.length_take, Nat.min_eq_left (Nat.le_of_lt few)]
  unfold tried
  rw [tried_take, tried_take, more, List.map_append, ← List.append_assoc, List.map_singleton, respond_concat, length]

/-- Between two slices, the first of which comes behind the head calls. -/
def Between (s : Nat) (head : List HeadCall) (body : Bytes) (slices : List (Fin (2 ^ 31) × Bool))
    (start : Loop HttpResponseData) (count : Nat) (loop : Loop HttpResponseData) : Prop :=
  if count = 0 then
    Emits s (bodyPart (getHttpResponseData start s).methodHead start.date head [])
      (bodyFlags (getHttpResponseData start s) head []) start loop
  else ∃ closing, Trying s head body slices start loop closing

theorem Trying.settled {loop : Loop HttpResponseData} {closing : Bool}
    (trying : Trying s head body slices start loop closing) (live : (loop.sockets s).closed = false)
    (ambients : List Ambient) : Trying s head body slices start (settle s ambients loop) closing := by
  have quiet := settle_emits ⟨trying.coherent, live⟩ ambients
  have same := quiet.response
  have offset : getWriteOffset (settle s ambients loop) s = getWriteOffset loop s := congrArg HttpResponseData.offset same
  constructor
  · rw [quiet.bytes, List.append_nil, offset, trying.stream]
  · rw [same, trying.called]
  · rw [same, trying.plain]
  · rw [same, trying.ended]
  · rw [same, trying.methodHead]
  · rw [offset]
    exact trying.within
  · rw [same, offset]
    exact trying.done
  · exact quiet.coherent

theorem between_step (fresh : Unanswered (getHttpResponseData start s)) {count : Nat}
    {loop : Loop HttpResponseData} (between : Between s head body slices start count loop)
    (live : (loop.sockets s).closed = false) (ambients : List Ambient) (slice : Fin (2 ^ 31) × Bool) :
    (FineSlice s body loop slice →
      Between s head body slices start (count + 1) ((Call.tryEnd body slice.1 slice.2).perform s (settle s ambients loop))) ∧
    (FramedAt s ⟨head, .tryEnds body slices⟩ start (head.length + (count + 1))
      ((Call.tryEnd body slice.1 slice.2).perform s (settle s ambients loop)) → FineSlice s body loop slice) := by
  unfold Between at between ⊢
  rw [if_neg (Nat.succ_ne_zero count)]
  by_cases first : count = 0
  · rw [if_pos first] at between
    have quiet := between.trans (settle_emits between.ready ambients)
    rw [between.response, List.append_nil] at quiet
    obtain ⟨written, sliced⟩ := @first_sliced s start _ head body slices slice fresh quiet
    have offset : getWriteOffset loop s = (bodyFlags (getHttpResponseData start s) head []).offset :=
      congrArg HttpResponseData.offset between.response
    constructor
    · intro fine
      obtain ⟨-, filled⟩ := fine
      rw [between.response, offset] at filled
      exact ⟨_, sliced.trying filled⟩
    · intro framed
      obtain ⟨-, filled⟩ := sliced.spoilt _ (by omega) framed
      constructor
      · intro
        right
        rw [between.response]
        exact fresh.ended
      · rw [between.response, offset]
        exact filled
  · rw [if_neg first] at between
    obtain ⟨closing, trying⟩ := between
    have quiet := settle_emits ⟨trying.coherent, live⟩ ambients
    have settled := trying.settled live ambients
    obtain ⟨written, sliced⟩ := @later_sliced s start _ head body slices slice closing settled quiet.live
    rw [quiet.response] at sliced
    constructor
    · intro fine
      obtain ⟨closes, filled⟩ := fine
      have none : announceText (getHttpResponseData loop s) slice.2 = [] := by
        rw [announceText, if_neg]
        intro announces
        rw [Bool.and_eq_true, Bool.not_eq_true'] at announces
        rcases closes announces.1 with close | early
        · exact Bool.false_ne_true (announces.2.symm.trans close)
        · exact Bool.false_ne_true (early.symm.trans trying.ended)
      rw [none] at sliced
      exact ⟨_, sliced.trying filled⟩
    · intro framed
      obtain ⟨none, filled⟩ := sliced.spoilt _ (by omega) framed
      constructor
      · intro closes
        left
        by_contra open'
        rw [announceText, closes, Bool.eq_false_of_not_eq_true open'] at none
        exact absurd none (by decide)
      · exact filled

theorem framed_tryEnds (ready : Ready start s) (fresh : Unanswered (getHttpResponseData start s)) :
    Framed s ⟨head, .tryEnds body slices⟩ ambient start ↔ Proper s ⟨head, .tryEnds body slices⟩ ambient start := by
  have begun : Between s head body slices start 0 (tried s ambient head body slices start 0) := by
    have emits := @respond_body s start ambient ready fresh head []
    rw [tried, tried_take, List.take_zero]
    exact emits
  have length : (LegalResponse.calls ⟨head, .tryEnds body slices⟩).length = head.length + slices.length := by
    rw [LegalResponse.calls, Ending.calls, List.length_append, List.length_map, List.length_map]
  -- the state between two slices lasts as long as the slices are fine
  have lasts : ∀ count ≤ slices.length,
      (∀ earlier slice, earlier < count → slices[earlier]? = some slice →
        ((tried s ambient head body slices start earlier).sockets s).closed = false →
        FineSlice s body (tried s ambient head body slices start earlier) slice) →
      Between s head body slices start count (tried s ambient head body slices start count) := by
    intro count
    induction count with
    | zero =>
      intro _ _
      exact begun
    | succ count ih =>
      intro most fine
      have between := ih (by omega) fun earlier slice before => fine earlier slice (by omega)
      have at' : slices[count]? = some slices[count] := List.getElem?_eq_getElem (by omega)
      rw [tried_succ at']
      split
      · rename_i closed
        unfold Between at between ⊢
        rw [if_neg (Nat.succ_ne_zero count)]
        split at between
        · exact absurd (between.live.symm.trans closed) Bool.false_ne_true
        · exact between
      · rename_i live
        have live := Bool.eq_false_of_not_eq_true live
        exact (between_step fresh between live _ _).1 (fine count _ (Nat.lt_succ_self count) at' live)
  constructor
  · intro framed count
    induction count using Nat.strong_induction_on with
    | _ count ih =>
      intro slice at' loop live
      have few := (List.getElem?_eq_some_iff.mp at').1
      have between := lasts count (by omega) fun earlier slice before => ih earlier before slice
      have after := framed (head.length + (count + 1)) (by rw [length]; omega)
      have step := @tried_succ s start ambient head body slices count slice at'
      rw [if_neg (by rw [show ((tried s ambient head body slices start count).sockets s).closed = false from live];
                     exact Bool.false_ne_true)] at step
      rw [tried] at step
      rw [step] at after
      exact (between_step fresh between live _ slice).2 after
  · intro proper count most
    rw [length] at most
    by_cases early : count ≤ head.length
    · have taken := calls_take head [] (Ending.calls (.tryEnds body slices)) count early
      rw [List.map_nil, List.nil_append] at taken
      rw [LegalResponse.calls, taken]
      apply framed_before ready fresh
      intro headed
      exact absurd headed (Nat.not_lt.mpr early)
    · have between := lasts (count - head.length) (by omega) fun earlier slice _ at' live => proper earlier slice at' live
      have sum : head.length + (count - head.length) = count := by omega
      rw [Between, if_neg (by omega), tried, sum] at between
      obtain ⟨closing, trying⟩ := between
      exact trying.framed count

end Tries

theorem framed_iff (ready : Ready start s) (fresh : Unanswered (getHttpResponseData start s)) (response : LegalResponse) :
    Framed s response ambient start ↔ Proper s response ambient start := by
  obtain ⟨head, ending⟩ := response
  cases ending with
  | chunks calls data closeConnection => exact framed_chunks ready fresh head calls data closeConnection
  | withoutBody reported closeConnection =>
    exact iff_of_true (framed_withoutBody ready fresh head reported closeConnection) trivial
  | tryEnds body slices => exact framed_tryEnds ready fresh

theorem dispatchedOn_kept (kernel : List Nat) (before : List (Nat × Operation)) (response : HttpResponseData) (s : Nat) :
    let loop := (runOperations before (Loop.fresh kernel fun _ => response)).1
    loop.Coherent ∧ (loop.sockets s).closed = false ∧ getHttpResponseData loop s = response := by
  have kept : ∀ (operations : List (Nat × Operation)) (loop : Loop HttpResponseData), loop.Coherent →
      (∀ t, (loop.sockets t).closed = false) →
      (runOperations operations loop).1.Coherent ∧ ((runOperations operations loop).1.sockets s).closed = false ∧
        getHttpResponseData (runOperations operations loop).1 s = getHttpResponseData loop s := by
    intro operations
    induction operations with
    | nil =>
      intro loop coherent live
      exact ⟨coherent, live s, rfl⟩
    | cons operation operations ih =>
      intro loop coherent live
      have step := operation.2.run_appended operation.1 loop coherent (live operation.1)
      obtain ⟨coherent, closed, same⟩ := ih _ step.coherent fun t => (step.closed t).trans (live t)
      exact ⟨coherent, closed, same.trans (step.ext s)⟩
  exact kept before _ (Loop.fresh_coherent kernel _) fun _ => rfl

theorem dispatchedOn_ready (kernel : List Nat) (date : Bytes) (before : List (Nat × Operation))
    (connectionClose methodHead : Bool) (s : Nat) : Ready (dispatchedOn kernel date before connectionClose methodHead) s := by
  obtain ⟨coherent, live, -⟩ := dispatchedOn_kept kernel before (dispatched connectionClose methodHead) s
  exact ⟨⟨coherent.within, coherent.quiet, coherent.idle⟩, live⟩

theorem dispatchedOn_unanswered (kernel : List Nat) (date : Bytes) (before : List (Nat × Operation))
    (connectionClose methodHead : Bool) (s : Nat) :
    Unanswered (getHttpResponseData (dispatchedOn kernel date before connectionClose methodHead) s) := by
  obtain ⟨-, -, same⟩ := dispatchedOn_kept kernel before (dispatched connectionClose methodHead) s
  have same : getHttpResponseData (dispatchedOn kernel date before connectionClose methodHead) s =
      dispatched connectionClose methodHead := same
  rw [same]
  exact ⟨rfl, rfl, rfl, rfl, rfl⟩

theorem response_framed (kernel : List Nat) (date : Bytes) (before : List (Nat × Operation))
    (connectionClose methodHead : Bool) (s : Nat) (response : LegalResponse) (ambient : Nat → List Ambient) :
    response.ending.Declares ∧
      (Framed s response ambient (dispatchedOn kernel date before connectionClose methodHead) ↔
        Proper s response ambient (dispatchedOn kernel date before connectionClose methodHead)) :=
  ⟨response.ending.declares, framed_iff (dispatchedOn_ready kernel date before connectionClose methodHead s)
    (dispatchedOn_unanswered kernel date before connectionClose methodHead s) response⟩

/-- An empty slice of a body of one byte clears the pending bit of its response. -/
theorem empty_slice_unframed :
    ¬ Framed 0 ⟨[], .tryEnds [97] [(0, false)]⟩ (fun _ => []) (dispatchedOn [] [] [] false false) := by
  rw [framed_iff (dispatchedOn_ready [] [] [] false false 0) (dispatchedOn_unanswered [] [] [] false false 0)]
  intro proper
  obtain ⟨-, filled⟩ := proper 0 (0, false) rfl rfl
  rcases filled with methodHead | some | all
  · exact Bool.false_ne_true methodHead
  · exact some rfl
  · exact absurd all (by decide)

end Uws.Http
