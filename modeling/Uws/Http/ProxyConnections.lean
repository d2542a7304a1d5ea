import Uws.Http.StreamReads

namespace Uws.Http

open Uws.Machine StreamPhase

namespace ProxyParser

def isFamily4 (pp : ProxyParser) : Bool := (pp.family &&& 0xf0) >>> 4 == 1

/-- Both families have their source address first in the union. -/
def getSourceAddress (pp : ProxyParser) : Bytes :=
  if pp.family = 0 then [] else if pp.isFamily4 then pp.addr.take 4 else pp.addr.take 16

def getSourcePort (pp : ProxyParser) : Nat :=
  let port := fun offset => (pp.addr.getD offset 0).toNat * 256 + (pp.addr.getD (offset + 1) 0).toNat
  if pp.family = 0 then 0 else if pp.isFamily4 then port 8 else port 32

end ProxyParser

/-- A PROXY header of version 2: its payload is the address block with what follows it. -/
structure ProxyHeader where
  verCmd : UInt8
  family : UInt8
  payload : Bytes
  two : (verCmd &&& 0xf0) >>> 4 = 2
  sized : payload.length < 2 ^ 16

namespace ProxyHeader

def front (header : ProxyHeader) : Bytes :=
  ProxyParser.signature ++
    [header.verCmd, header.family, UInt8.ofNat (header.payload.length / 256), UInt8.ofNat (header.payload.length % 256)]

def text (header : ProxyHeader) : Bytes := header.front ++ header.payload

def recorded (header : ProxyHeader) : ProxyParser where
  addr := header.payload ++ List.replicate (36 - header.payload.length) 0
  done := true
  family := header.family

section Offsets

variable (header : ProxyHeader) (q : Bytes)

theorem length_front : header.front.length = 16 := rfl

theorem length_text : header.text.length = 16 + header.payload.length := by
  rw [text, List.length_append, length_front]

theorem hostLength_front : ProxyParser.hostLength (header.front ++ q) = header.payload.length := by
  have small := header.sized
  show (UInt8.ofNat (header.payload.length / 256)).toNat * 256 + (UInt8.ofNat (header.payload.length % 256)).toNat = _
  rw [UInt8.toNat_ofNat', UInt8.toNat_ofNat']
  omega

theorem offset_text (fits : header.payload.length ≤ 36) : ProxyParser.offset (header.text ++ q) = some header.text.length := by
  have host : ProxyParser.hostLength (header.text ++ q) = header.payload.length := by
    rw [text, List.append_assoc]
    exact header.hostLength_front _
  have long : (header.text ++ q).length = 16 + header.payload.length + q.length := by
    rw [List.length_append, length_text]
  apply ProxyParser.offset_eq_some.mpr
  refine ⟨by omega, .inr ⟨rfl, by omega, rfl, header.two, by omega, by omega, ?_⟩⟩
  rw [host, length_text]

theorem offset_part {p : Bytes} (part : p <+: header.text) (short : p.length < header.text.length) :
    ProxyParser.offset p = none := by
  obtain ⟨q, whole⟩ := part
  rw [length_text] at short
  cases found : ProxyParser.offset p with
  | none => rfl
  | some offset =>
    obtain ⟨four, ⟨other, -⟩ | ⟨-, sixteen, -, -, enough, -⟩⟩ := ProxyParser.offset_eq_some.mp found
    · have same := congrArg (List.take 4) whole
      rw [List.take_append_of_le_length four] at same
      exact absurd same other
    · have split : p = header.front ++ p.drop 16 := by
        have same := congrArg (List.take 16) whole
        rw [List.take_append_of_le_length sixteen, text, List.take_left' header.length_front] at same
        rw [← same, List.take_append_drop]
      rw [split, hostLength_front, ← split] at enough
      omega

theorem parse_first (fits : header.payload.length ≤ 36) : (ProxyParser.parse {} (header.text ++ q)).1 = header.recorded := by
  have host : ProxyParser.hostLength (header.text ++ q) = header.payload.length := by
    rw [text, List.append_assoc]
    exact header.hostLength_front _
  have back : (header.text ++ q).drop 16 = header.payload ++ q := by
    rw [text, List.append_assoc, List.drop_left' header.length_front]
  have some_ : header.text.length ≠ 0 := by
    rw [length_text]
    omega
  unfold ProxyParser.parse
  rw [header.offset_text q fits]
  dsimp only
  rw [if_neg some_, ProxyParser.record, if_neg Bool.false_ne_true, host, back, List.take_left, List.drop_replicate]
  rfl

end Offsets

end ProxyHeader

theorem ProxyParser.parse_done {pp : ProxyParser} (done : pp.done = true) (data : Bytes) : (pp.parse data).1 = pp := by
  unfold ProxyParser.parse
  cases ProxyParser.offset data with
  | none => rfl
  | some consumed =>
    dsimp only
    rw [ProxyParser.record, if_pos done, ite_self]

section Heads

theorem targetEnd_stays {p : Bytes} {c : UInt8} (ended : targetEnd p = some c) (q : Bytes) : targetEnd (p ++ q) = some c := by
  unfold targetEnd at ended ⊢
  split at ended
  · rename_i b d rest scanned
    rw [dropWhile_stop scanned q]
    split at ended
    · rename_i target
      obtain ⟨more, stop⟩ := List.head?_eq_some_iff.mp ended
      have later := dropWhile_stop stop q
      rw [List.cons_append] at later ⊢
      dsimp only
      rw [if_pos target, later]
      rfl
    · cases ended
  · cases ended

variable (head : HeadText)

theorem HeadText.starts : ∃ c rest, head.headText = c :: rest ∧ c ≠ cr := by
  cases method : head.method with
  | nil =>
    refine ⟨space, head.target ++ versionLine ++ blockText head.fields ++ [cr, lf], ?_, by decide⟩
    simp [HeadText.headText, RequestText.text, method]
  | cons c more =>
    refine ⟨c, more ++ space :: head.target ++ versionLine ++ blockText head.fields ++ [cr, lf], ?_, ?_⟩
    · simp [HeadText.headText, RequestText.text, method]
    · rintro rfl
      have visible := (head.scanned cr (by rw [method]; exact List.mem_cons_self)).1
      exact absurd visible (by decide)

theorem HeadText.targetEnd_headText : targetEnd head.headText = some space := by
  have shape : head.headText =
      head.method ++ space :: head.target ++ (versionLine ++ (blockText head.fields ++ [cr, lf])) := by
    simp [HeadText.headText, RequestText.text]
  rw [shape, targetEnd_append head.toRequestText]
  · rfl
  · intro c member
    cases member
    decide

theorem HeadText.part_incomplete {p q : Bytes} (split : head.headText = p ++ q) (more : q ≠ []) :
    ∃ buffer, requestHeaders p = .incomplete buffer := by
  have whole := head.read []
  rw [List.append_nil, split] at whole
  cases read : requestHeaders p with
  | incomplete buffer => exact ⟨buffer, rfl⟩
  | failed err =>
    rcases requestHeaders_failed read q with stays | ended
    · rw [stays] at whole
      cases whole
    · have target := targetEnd_stays ended q
      rw [← split, head.targetEnd_headText] at target
      exact absurd target (by decide)
  | complete req rest =>
    obtain ⟨other, rfl, rfl⟩ := requestHeaders_complete read
    rw [List.append_assoc, other.read] at whole
    cases rest <;> simp_all

end Heads

/-- A request that may have a PROXY header in front of it: `body` is what the length or the chunks in its head ask for, and
    the head has room for the header. -/
structure ProxiedRequest (maxHeaderSize : Nat) where
  proxy : Option ProxyHeader
  head : HeadText
  checked : HttpRequest
  body : Bytes
  fits : ∀ header ∈ proxy, header.payload.length ≤ 36
  passed : checkHeaders head.request = .ok checked
  small : (proxy.elim [] ProxyHeader.text).length + head.headText.length ≤ maxHeaderSize
  ends : (run (step maxHeaderSize) (ofRequest checked).1 body).1 = .head []

namespace ProxiedRequest

variable {maxHeaderSize : Nat} (r : ProxiedRequest maxHeaderSize)

def front : Bytes := r.proxy.elim [] ProxyHeader.text ++ r.head.headText
def text : Bytes := r.front ++ r.body

def plain : ProxiedRequest maxHeaderSize where
  proxy := none
  head := r.head
  checked := r.checked
  body := r.body
  fits := nofun
  passed := r.passed
  small := by
    have small := r.small
    show 0 + _ ≤ _
    omega
  ends := r.ends

def parts : List StreamPart :=
  .request r.checked :: (ofRequest r.checked).2.map .body ++ (run (step maxHeaderSize) (ofRequest r.checked).1 r.body).2

theorem front_complete (rest : Bytes) : getHeaders (r.front ++ rest) = .complete r.head.request rest := by
  unfold front getHeaders
  cases proxy : r.proxy with
  | none =>
    have long := r.head.length_headText
    obtain ⟨c, more, start, other⟩ := r.head.starts
    have http : ProxyParser.offset (r.head.headText ++ rest) = some 0 := by
      apply ProxyParser.offset_eq_some.mpr
      refine ⟨by rw [List.length_append]; omega, .inl ⟨fun same => ?_, rfl⟩⟩
      rw [start] at same
      exact other (List.cons.inj same).1
    rw [show Option.elim none [] ProxyHeader.text = [] from rfl, List.nil_append, http]
    dsimp only
    rw [List.drop_zero, r.head.read]
  | some header =>
    rw [show Option.elim (some header) [] ProxyHeader.text = header.text from rfl, List.append_assoc, header.offset_text _ (r.fits header proxy)]
    dsimp only
    rw [List.drop_left, r.head.read]

theorem front_part {p q : Bytes} (split : r.front = p ++ q) (more : q ≠ []) : ∃ buffer, getHeaders p = .incomplete buffer := by
  unfold front at split
  unfold getHeaders
  cases found : ProxyParser.offset p with
  | none => exact ⟨p, rfl⟩
  | some offset =>
    have behind : ∃ part, p.drop offset = part ∧ r.head.headText = part ++ q := by
      cases proxy : r.proxy with
      | none =>
        rw [proxy] at split
        change [] ++ r.head.headText = p ++ q at split
        rw [List.nil_append] at split
        obtain ⟨c, rest, start, other⟩ := r.head.starts
        obtain ⟨four, ⟨-, rfl⟩ | ⟨same, -⟩⟩ := ProxyParser.offset_eq_some.mp found
        · exact ⟨p, rfl, split⟩
        · match p, four with
          | d :: p, _ =>
            rw [start] at split
            exact absurd ((List.cons.inj split).1.trans (List.cons.inj same).1) other
      | some header =>
        rw [proxy] at split
        change header.text ++ r.head.headText = p ++ q at split
        have long : header.text.length ≤ p.length := by
          by_contra short
          have part : p <+: header.text :=
            List.prefix_of_prefix_length_le ⟨q, split.symm⟩ (List.prefix_append _ _) (by omega)
          rw [header.offset_part part (by omega)] at found
          cases found
        obtain ⟨part, rfl⟩ := List.prefix_of_prefix_length_le (List.prefix_append header.text _) ⟨q, split.symm⟩ long
        rw [header.offset_text _ (r.fits header proxy)] at found
        cases found
        rw [List.append_assoc] at split
        exact ⟨part, List.drop_left, List.append_cancel_left split⟩
    obtain ⟨part, own, whole⟩ := behind
    obtain ⟨buffer, incomplete⟩ := r.head.part_incomplete whole more
    dsimp only
    rw [own, incomplete]
    exact ⟨_, rfl⟩

theorem front_length : r.front.length ≤ maxHeaderSize := by
  rw [front, List.length_append]
  exact r.small

theorem run_part (p q : Bytes) (split : r.front = p ++ q) (more : q ≠ []) :
    run (step maxHeaderSize) (.head []) p = (.head p, []) := by
  induction p using List.reverseRecOn generalizing q with
  | nil => rfl
  | append_singleton p b ih =>
    obtain ⟨buffer, incomplete⟩ := r.front_part split more
    have before := ih (b :: q) (by rw [split, List.append_assoc]; rfl) (List.cons_ne_nil b q)
    have short : ¬ maxHeaderSize ≤ (p ++ [b]).length := by
      have size := congrArg List.length split
      have all := r.front_length
      have some_ := List.length_pos_iff.mpr more
      rw [List.length_append] at size
      omega
    rw [run_append, before, run_cons, step, incomplete, ofHeaders, if_neg short]
    rfl

theorem run_front (data : Bytes) :
    run (step maxHeaderSize) (.head []) (r.front ++ data) =
      ((run (step maxHeaderSize) (ofRequest r.checked).1 data).1,
        .request r.checked :: (ofRequest r.checked).2.map .body ++ (run (step maxHeaderSize) (ofRequest r.checked).1 data).2) := by
  have some_ : r.front ≠ [] := by
    have long := r.head.length_headText
    intro none_
    have size := congrArg List.length none_
    rw [front, List.length_append, List.length_nil] at size
    omega
  have last := List.dropLast_append_getLast some_
  have complete := r.front_complete []
  rw [List.append_nil] at complete
  have first : run (step maxHeaderSize) (.head []) r.front =
      ((ofRequest r.checked).1, .request r.checked :: (ofRequest r.checked).2.map .body) := by
    rw [← last, run_append, r.run_part r.front.dropLast [r.front.getLast some_] last.symm (List.cons_ne_nil _ _), run_cons, step,
      last, complete, ofHeaders, if_neg (Nat.not_lt.mpr r.front_length), r.passed]
    simp
  rw [run_append, first]

theorem run_text : run (step maxHeaderSize) (.head []) r.text = (.head [], r.parts) := by
  rw [text, run_front, r.ends]
  rfl

theorem run_texts (requests : List (ProxiedRequest maxHeaderSize)) :
    run (step maxHeaderSize) (.head []) (requests.flatMap text) = (.head [], requests.flatMap parts) := by
  induction requests with
  | nil => rfl
  | cons r requests ih => rw [List.flatMap_cons, run_append, r.run_text, ih, List.flatMap_cons]

end ProxiedRequest

section Reserved

variable {σ : Type} (h : Handlers σ) {maxHeaderSize : Nat}

theorem consumeChunkedTrailer_reserved (parser : HttpParser) (data : Bytes) :
    (consumeChunkedTrailer parser data).1.reserved = parser.reserved := by
  induction data generalizing parser with
  | nil => rfl
  | cons c data ih =>
    rw [consumeChunkedTrailer]
    split
    · split
      · rfl
      · exact ih _
    · rfl

theorem consumeChunked_reserved (parser : HttpParser) (data : Bytes) (state : σ) :
    (consumeChunked h parser data state).parser.reserved = parser.reserved := by
  unfold consumeChunked
  rcases emitChunks h (data.length + 1) data parser.remainingStreamingBytes state with ⟨same, rest, word, after⟩
  cases same with
  | false => rfl
  | true =>
    have trailer := consumeChunkedTrailer_reserved { parser with remainingStreamingBytes := word } rest
    dsimp only
    split <;> rename_i flag
    · cases flag
    · split <;> exact trailer

theorem consumeStreamingBody_reserved (parser : HttpParser) (data : Bytes) (state : σ) :
    (consumeStreamingBody h parser data state).parser.reserved = parser.reserved := by
  unfold consumeStreamingBody
  dsimp only
  split
  · exact consumeChunked_reserved h parser data state
  · split <;> rfl

theorem startBody_reserved (consumeMinimally : Bool) (req : HttpRequest) (parser : HttpParser) (data : Bytes) (state : σ) :
    (startBody h consumeMinimally req parser data state).parser.reserved = parser.reserved := by
  unfold startBody
  dsimp only
  split
  · split
    · rfl
    · exact consumeChunked_reserved h _ data state
  · split
    · split
      · rfl
      · split
        · split <;> rfl
        · split <;> rfl
    · rfl

theorem fenceLoop_reserved (consumeMinimally : Bool) (fuel : Nat) (parser : HttpParser) (data : Bytes) (state : σ)
    {kept : ProxyParser} (done : kept.done = true)
    (first : parser.reserved = kept ∨ data ≠ [] ∧ 0 < fuel ∧ (parser.reserved.parse data).1 = kept) :
    (fenceLoop h consumeMinimally maxHeaderSize fuel parser data state).parser.reserved = kept := by
  induction fuel generalizing parser data state with
  | zero =>
    rcases first with own | ⟨-, some_, -⟩
    · exact own
    · exact absurd some_ (Nat.lt_irrefl 0)
  | succ fuel ih =>
    rw [fenceLoop]
    by_cases none_ : data = []
    · subst none_
      rcases first with own | ⟨some_, -, -⟩
      · exact own
      · exact absurd rfl some_
    · have parsed : (parser.reserved.parse data).1 = kept := by
        rcases first with rfl | ⟨-, -, own⟩
        · exact ProxyParser.parse_done done data
        · exact own
      rw [if_neg (by simpa using none_), parsed]
      dsimp only
      cases getHeaders data with
      | incomplete buffer => rfl
      | failed err => rfl
      | complete req rest =>
        dsimp only
        split
        · rfl
        · cases checkHeaders req with
          | error err => rfl
          | ok checked =>
            dsimp only
            have body := startBody_reserved h consumeMinimally checked { parser with reserved := kept } rest
              (h.requestHandler checked state).1
            split
            · rfl
            · split
              · exact body
              · exact ih _ _ _ (.inl body)

theorem consumeHeads_reserved (parser : HttpParser) (data : Bytes) (state : σ) {kept : ProxyParser} (done : kept.done = true)
    (first : parser.reserved = kept ∨ data ≠ [] ∧ (parser.reserved.parse data).1 = kept) :
    (consumeHeads h maxHeaderSize parser data state).2.1.reserved = kept := by
  have fenced := @fenceLoop_reserved σ h maxHeaderSize false data.length parser data state kept done
    (first.imp id fun both => ⟨both.1, List.length_pos_iff.mpr both.1, both.2⟩)
  unfold consumeHeads fenceAndConsumePostPadded
  dsimp only
  split
  · exact fenced
  · split
    · split <;> exact fenced
    · exact fenced

theorem consumeBodyAndHeads_reserved (parser : HttpParser) (data : Bytes) (state : σ) (done : parser.reserved.done = true) :
    (consumeBodyAndHeads h maxHeaderSize parser data state).2.1.reserved = parser.reserved := by
  have body := consumeStreamingBody_reserved h parser data state
  unfold consumeBodyAndHeads
  dsimp only
  split
  · exact body
  · exact consumeHeads_reserved h _ _ _ done (.inl body)

theorem consumeFallback_reserved (parser : HttpParser) (data : Bytes) (state : σ) {kept : ProxyParser}
    (done : kept.done = true) (begun : parser.fallback ≠ [])
    (first : parser.reserved = kept ∨
      (parser.reserved.parse
        (parser.fallback ++ data.take (min (maxHeaderSize - parser.fallback.length) data.length))).1 = kept) :
    (consumeFallback h maxHeaderSize parser data state).2.1.reserved = kept := by
  unfold consumeFallback fenceAndConsumePostPadded
  dsimp only
  generalize data.take (min (maxHeaderSize - parser.fallback.length) data.length) = taken at first ⊢
  have some_ : parser.fallback ++ taken ≠ [] := List.append_ne_nil_of_left_ne_nil begun taken
  have fenced := @fenceLoop_reserved σ h maxHeaderSize true (parser.fallback ++ taken).length parser
    (parser.fallback ++ taken) state kept done
    (first.imp id fun own => ⟨some_, List.length_pos_iff.mpr some_, own⟩)
  generalize fenceLoop h true maxHeaderSize (parser.fallback ++ taken).length parser (parser.fallback ++ taken) state =
    consumed at fenced
  split
  · exact fenced
  · split
    · split
      · rw [← fenced] at done
        exact (consumeBodyAndHeads_reserved h { consumed.parser with fallback := [] } _ _ done).trans fenced
      · exact consumeHeads_reserved h _ _ _ done (.inl fenced)
    · split <;> exact fenced

theorem consumePostPadded_reserved (parser : HttpParser) (data : Bytes) (state : σ) (done : parser.reserved.done = true) :
    (consumePostPadded h maxHeaderSize parser data state).2.1.reserved = parser.reserved := by
  unfold consumePostPadded
  split
  · exact consumeBodyAndHeads_reserved h parser data state done
  · split
    · rename_i begun
      exact consumeFallback_reserved h parser data state done (List.length_pos_iff.mp (Nat.pos_of_ne_zero begun)) (.inl rfl)
    · exact consumeHeads_reserved h parser data state done (.inl rfl)

theorem consumeReads_reserved (reads : List Bytes) (parser : HttpParser) (state : σ) (done : parser.reserved.done = true) :
    (consumeReads h maxHeaderSize reads parser state).2.1.reserved = parser.reserved := by
  induction reads generalizing parser state with
  | nil => rfl
  | cons read reads ih =>
    have call := @consumePostPadded_reserved σ h maxHeaderSize parser read state done
    rw [consumeReads]
    split
    · rename_i called
      rw [called] at call
      rw [← call] at done
      exact (ih _ _ done).trans call
    · exact call

/-! Up to the end of the first header its bytes are kept, and nothing else. -/

variable (header : ProxyHeader)

structure Waiting (part : Bytes) (parser : HttpParser) : Prop where
  fallback : parser.fallback = part
  idle : parser.remainingStreamingBytes = 0#64
  nothing : parser.reserved = {}

theorem fence_part {part : Bytes} (inside : part <+: header.text) (short : part.length < header.text.length)
    (some_ : part ≠ []) (consumeMinimally : Bool) (parser : HttpParser) (state : σ) :
    fenceAndConsumePostPadded h consumeMinimally maxHeaderSize parser part state = ⟨none, parser, part, state⟩ := by
  have offset := header.offset_part inside short
  have kept : (parser.reserved.parse part).1 = parser.reserved := by
    unfold ProxyParser.parse
    rw [offset]
  have read : getHeaders part = .incomplete part := by
    unfold getHeaders
    rw [offset]
  obtain ⟨fuel, length⟩ : ∃ fuel, part.length = fuel + 1 :=
    ⟨part.length - 1, by have least := List.length_pos_iff.mpr some_; omega⟩
  unfold fenceAndConsumePostPadded
  rw [length, fenceLoop, if_neg (by simpa using some_), kept, read]

theorem Waiting.part {part data : Bytes} {parser : HttpParser} (waiting : Waiting part parser)
    (inside : part ++ data <+: header.text) (short : (part ++ data).length < header.text.length) (more : data ≠ [])
    (room : header.text.length ≤ maxHeaderSize) (state : σ) :
    ∃ after, consumePostPadded h maxHeaderSize parser data state = (.user, after, state) ∧ Waiting (part ++ data) after := by
  obtain ⟨fallback, idle, nothing⟩ := waiting
  have least := List.length_pos_iff.mpr more
  unfold consumePostPadded
  rw [if_neg (not_not.mpr idle)]
  cases begun : part with
  | nil =>
    rw [begun, List.nil_append] at inside short
    rw [begun] at fallback
    refine ⟨{ parser with fallback := data }, ?_, ⟨rfl, idle, nothing⟩⟩
    rw [if_neg (by simp [fallback]), consumeHeads, fence_part h header inside short more]
    dsimp only
    rw [if_pos (by omega), if_pos (by omega), fallback]
    rfl
  | cons c rest =>
    rw [← begun]
    have some_ : part ≠ [] := by
      rw [begun]
      exact List.cons_ne_nil c rest
    have size := List.length_pos_iff.mpr some_
    refine ⟨{ parser with fallback := part ++ data }, ?_, ⟨rfl, idle, nothing⟩⟩
    have length : (part ++ data).length = part.length + data.length := List.length_append
    rw [if_pos (by rw [fallback]; omega), consumeFallback]
    dsimp only
    rw [fallback, Nat.min_eq_right (by omega), List.take_length,
      fence_part h header inside short (List.append_ne_nil_of_left_ne_nil some_ data)]
    dsimp only
    rw [Nat.sub_self, if_neg (not_not.mpr rfl), if_neg (by omega)]

theorem Waiting.whole {part data : Bytes} {parser : HttpParser} (waiting : Waiting part parser)
    (fits : header.payload.length ≤ 36) (inside : header.text <+: part ++ data) (short : part.length < header.text.length)
    (room : header.text.length ≤ maxHeaderSize) (state : σ) :
    (consumePostPadded h maxHeaderSize parser data state).2.1.reserved = header.recorded := by
  obtain ⟨fallback, idle, nothing⟩ := waiting
  have keeps : ∀ bytes, header.text <+: bytes → (parser.reserved.parse bytes).1 = header.recorded := by
    rintro bytes ⟨q, rfl⟩
    rw [nothing]
    exact header.parse_first q fits
  have length : (part ++ data).length = part.length + data.length := List.length_append
  have enough := inside.length_le
  unfold consumePostPadded
  rw [if_neg (not_not.mpr idle)]
  cases begun : part with
  | nil =>
    rw [begun] at fallback inside
    rw [if_neg (by simp [fallback])]
    have some_ : data ≠ [] := by
      rintro rfl
      rw [begun] at enough short
      rw [List.nil_append] at enough
      omega
    exact consumeHeads_reserved h parser data state rfl (.inr ⟨some_, keeps data inside⟩)
  | cons c rest =>
    have some_ : parser.fallback ≠ [] := by
      rw [fallback, begun]
      exact List.cons_ne_nil c rest
    rw [if_pos (by simpa using some_)]
    refine consumeFallback_reserved h parser data state rfl some_ (.inr (keeps _ ?_))
    rw [fallback]
    have cut : part ++ data.take (min (maxHeaderSize - part.length) data.length) =
        (part ++ data).take (part.length + min (maxHeaderSize - part.length) data.length) := by
      rw [List.take_append, List.take_of_length_le (Nat.le_add_right _ _), Nat.add_sub_cancel_left]
    rw [cut]
    apply List.prefix_take_iff.mpr
    exact ⟨inside, by omega⟩

theorem Waiting.reads {stream : Bytes} (fits : header.payload.length ≤ 36) (room : header.text.length ≤ maxHeaderSize)
    (starts : header.text <+: stream) (reads : List Bytes) (more : ∀ read ∈ reads, read ≠ []) {part : Bytes}
    {parser : HttpParser} (waiting : Waiting part parser) (short : part.length < header.text.length)
    (inside : part ++ reads.flatten <+: stream) (state : σ) :
    (consumeReads h maxHeaderSize reads parser state).2.1.reserved =
      if header.text.length ≤ (part ++ reads.flatten).length then header.recorded else {} := by
  induction reads generalizing part parser state with
  | nil =>
    rw [List.flatten_nil, List.append_nil, if_neg (by omega)]
    exact waiting.nothing
  | cons read reads ih =>
    rw [List.flatten_cons, ← List.append_assoc] at inside ⊢
    have front : part ++ read <+: stream := List.IsPrefix.trans (List.prefix_append _ _) inside
    have length : (part ++ read ++ reads.flatten).length = (part ++ read).length + reads.flatten.length := List.length_append
    rw [consumeReads]
    by_cases whole : header.text.length ≤ (part ++ read).length
    · have call := waiting.whole h header fits (List.prefix_of_prefix_length_le starts front whole) short room state
      rw [if_pos (by omega)]
      split
      · rename_i after state called
        rw [called] at call
        rw [consumeReads_reserved h reads after state (by rw [call]; rfl)]
        exact call
      · exact call
    · obtain ⟨after, called, next⟩ := waiting.part h header
        (List.prefix_of_prefix_length_le front starts (by omega)) (by omega) (more read List.mem_cons_self) room state
      rw [called]
      exact ih (fun other member => more other (List.mem_cons_of_mem _ member)) next (by omega) inside state

end Reserved

section Reports

variable (header : ProxyHeader)

def portAt (payload : Bytes) (offset : Nat) : Nat := (payload.getD offset 0).toNat * 256 + (payload.getD (offset + 1) 0).toNat

structure Reported (header : ProxyHeader) : Prop where
  unspec : header.family = 0 → header.recorded.getSourceAddress = [] ∧ header.recorded.getSourcePort = 0
  inet : (header.family &&& 0xf0) >>> 4 = 1 → 12 ≤ header.payload.length →
    header.recorded.getSourceAddress = header.payload.take 4 ∧ header.recorded.getSourcePort = portAt header.payload 8
  inet6 : (header.family &&& 0xf0) >>> 4 = 2 → 36 ≤ header.payload.length →
    header.recorded.getSourceAddress = header.payload.take 16 ∧ header.recorded.getSourcePort = portAt header.payload 32

theorem ProxyHeader.reported : Reported header := by
  have front : ∀ n, n ≤ header.payload.length → header.recorded.addr.take n = header.payload.take n :=
    fun n within => List.take_append_of_le_length within
  have byte : ∀ n, n < header.payload.length → header.recorded.addr.getD n 0 = header.payload.getD n 0 := by
    intro n within
    exact List.getD_append _ _ _ _ within
  have family : header.recorded.family = header.family := rfl
  refine ⟨fun unspec => ?_, fun inet long => ?_, fun inet6 long => ?_⟩
  · unfold ProxyParser.getSourceAddress ProxyParser.getSourcePort
    rw [family, if_pos unspec, if_pos unspec]
    exact ⟨rfl, rfl⟩
  · have some_ : header.family ≠ 0 := by
      intro none_
      rw [none_] at inet
      exact absurd inet (by decide)
    have own : header.recorded.isFamily4 = true := beq_iff_eq.mpr inet
    unfold ProxyParser.getSourceAddress ProxyParser.getSourcePort
    dsimp only
    rw [family, if_neg some_, if_neg some_, if_pos own, if_pos own, front 4 (by omega), byte 8 (by omega), byte 9 (by omega)]
    exact ⟨rfl, rfl⟩
  · have some_ : header.family ≠ 0 := by
      intro none_
      rw [none_] at inet6
      exact absurd inet6 (by decide)
    have other : ¬ header.recorded.isFamily4 = true := by
      intro own
      have four : (header.family &&& 0xf0) >>> 4 = 1 := beq_iff_eq.mp own
      rw [inet6] at four
      exact absurd four (by decide)
    unfold ProxyParser.getSourceAddress ProxyParser.getSourcePort
    dsimp only
    rw [family, if_neg some_, if_neg some_, if_neg other, if_neg other, front 16 (by omega), byte 32 (by omega),
      byte 33 (by omega)]
    exact ⟨rfl, rfl⟩

end Reports

section Connections

variable {maxHeaderSize : Nat}

theorem consumeReads_requests (requests : List (ProxiedRequest maxHeaderSize)) {reads : List Bytes}
    (more : ∀ read ∈ reads, read ≠ []) (cut : reads.flatten = requests.flatMap ProxiedRequest.text) :
    (consumeReads logging maxHeaderSize reads {} []).1 = .user ∧
      logParts (consumeReads logging maxHeaderSize reads {} []).2.2 = requests.flatMap ProxiedRequest.parts := by
  have whole := ProxiedRequest.run_texts requests
  have taken := @consumeReads_taken maxHeaderSize (.head []) {} reads [] more holds_fresh (by rw [cut, whole]; exact nofun)
  rw [cut] at taken
  generalize consumeReads logging maxHeaderSize reads {} [] = calls at taken ⊢
  cases taken with
  | failed err parser after entered =>
    rw [whole] at entered
    cases entered
  | user next added parser after holds own parts =>
    rw [whole] at own
    cases own
    exact ⟨rfl, parts⟩

theorem consumeReads_prefix (requests : List (ProxiedRequest maxHeaderSize)) {reads : List Bytes}
    (more : ∀ read ∈ reads, read ≠ []) (inside : reads.flatten <+: requests.flatMap ProxiedRequest.text) :
    (consumeReads logging maxHeaderSize reads {} []).1 = .user := by
  obtain ⟨rest, split⟩ := inside
  have whole := ProxiedRequest.run_texts requests
  rw [← split] at whole
  have regular : (run (step maxHeaderSize) (.head []) reads.flatten).1 ≠ .irregular := by
    apply @run_prefix_ne _ _ _ (step maxHeaderSize) _ _ _ rest (absorbing_irregular maxHeaderSize)
    rw [whole]
    exact nofun
  have taken := @consumeReads_taken maxHeaderSize (.head []) {} reads [] more holds_fresh regular
  generalize consumeReads logging maxHeaderSize reads {} [] = calls at taken ⊢
  cases taken with
  | failed err parser after entered =>
    have stays := run_append_absorbing _ (absorbing_error maxHeaderSize) entered rest
    rw [whole] at stays
    cases stays
  | user next added parser after holds own parts => rfl

/-- The first header of a connection is skipped and kept; the requests are read as without it, and later headers are
    skipped only. -/
theorem proxied_requests (first : ProxiedRequest maxHeaderSize) (requests : List (ProxiedRequest maxHeaderSize))
    {header : ProxyHeader} (leads : first.proxy = some header) :
    (∀ q, ProxyParser.offset (header.text ++ q) = some (16 + header.payload.length)) ∧
      (∀ reads : List Bytes, (∀ read ∈ reads, read ≠ []) → reads.flatten <+: (first :: requests).flatMap ProxiedRequest.text →
        (consumeReads logging maxHeaderSize reads {} []).1 = .user ∧
          (consumeReads logging maxHeaderSize reads {} []).2.1.reserved =
            if header.text.length ≤ reads.flatten.length then header.recorded else {}) ∧
      (∀ reads plain : List Bytes, (∀ read ∈ reads, read ≠ []) → (∀ read ∈ plain, read ≠ []) →
        reads.flatten = (first :: requests).flatMap ProxiedRequest.text →
        plain.flatten = (first :: requests).flatMap (ProxiedRequest.text ∘ ProxiedRequest.plain) →
        (consumeReads logging maxHeaderSize plain {} []).1 = .user ∧
          logParts (consumeReads logging maxHeaderSize reads {} []).2.2 =
            logParts (consumeReads logging maxHeaderSize plain {} []).2.2) ∧
      Reported header := by
  have fits := first.fits header leads
  have front : header.text <+: first.text := by
    unfold ProxiedRequest.text ProxiedRequest.front
    rw [leads, List.append_assoc]
    exact List.prefix_append _ _
  have room : header.text.length ≤ maxHeaderSize := by
    have small := first.small
    rw [leads] at small
    exact Nat.le_trans (Nat.le_add_right _ _) small
  refine ⟨fun q => ?_, fun reads more inside => ⟨?_, ?_⟩, fun reads plain more others cut whole => ?_, header.reported⟩
  · rw [header.offset_text q fits, header.length_text]
  · exact consumeReads_prefix (first :: requests) more inside
  · have starts : header.text <+: (first :: requests).flatMap ProxiedRequest.text := by
      rw [List.flatMap_cons]
      exact front.trans (List.prefix_append _ _)
    have fresh : Waiting [] {} := ⟨rfl, rfl, rfl⟩
    exact Waiting.reads logging header fits room starts reads more fresh
      (by rw [header.length_text, List.length_nil]; omega) inside []
  · have proxied := consumeReads_requests (first :: requests) more cut
    have bare := consumeReads_requests ((first :: requests).map ProxiedRequest.plain) others (by
      rw [List.flatMap_map]
      exact whole)
    have same : ((first :: requests).map ProxiedRequest.plain).flatMap ProxiedRequest.parts =
        (first :: requests).flatMap ProxiedRequest.parts := List.flatMap_map ..
    exact ⟨bare.1, by rw [proxied.2, bare.2, same]⟩

def getHead : HeadText where
  method := ascii "GET"
  target := ascii "/"
  scanned := by decide +kernel
  origin := by decide +kernel
  visible := by decide +kernel
  line := ⟨ascii "Host", ascii " x", by decide +kernel, by unfold isFieldValueByte; decide +kernel⟩
  lines := []
  fits := by decide

def getRequest (header : ProxyHeader) (fits : header.payload.length ≤ 36) : ProxiedRequest 8192 where
  proxy := some header
  head := getHead
  checked := { getHead.request with bf := BloomFilter.reset.add hostName }
  body := []
  fits := by
    rintro other own
    cases own
    exact fits
  passed := by decide +kernel
  small := by
    show header.text.length + _ ≤ _
    have head : getHead.headText.length = 27 := by decide +kernel
    rw [header.length_text, head]
    omega
  ends := by decide +kernel

/-- A header of TCP over IPv4 from 10.0.0.1 and port 12345, with bytes behind the address block. -/
def inetHeader (verCmd : UInt8) (two : (verCmd &&& 0xf0) >>> 4 = 2) (more : Bytes) (short : more.length < 1000) : ProxyHeader where
  verCmd := verCmd
  family := 0x11
  payload := [10, 0, 0, 1, 10, 0, 0, 2, 0x30, 0x39, 0, 80] ++ more
  two := two
  sized := by
    rw [List.length_append]
    show 12 + more.length < 65536
    omega

def proxyHeader : ProxyHeader := inetHeader 0x21 (by decide) [] (by decide)

theorem proxied_requests_inet :
    (consumeReads logging 8192 [(getRequest proxyHeader (by decide)).text] {} []).2.1.reserved = proxyHeader.recorded ∧
      proxyHeader.recorded.getSourceAddress = [10, 0, 0, 1] ∧ proxyHeader.recorded.getSourcePort = 12345 := by
  obtain ⟨-, kept, -, reported⟩ := @proxied_requests _ (getRequest proxyHeader (by decide)) [] proxyHeader rfl
  have read := (kept [(getRequest proxyHeader (by decide)).text] (by
    intro read own
    rw [List.mem_singleton.mp own]
    decide +kernel) (by simp)).2
  rw [if_pos (by decide +kernel)] at read
  obtain ⟨address, port⟩ := reported.inet (by decide) (by decide)
  exact ⟨read, address, port⟩

/-- A header whose payload is longer than the address union is never skipped, one with the command LOCAL reports its
    address, and a head that fits without its header may be too long with it. -/
theorem proxyHeader_limits :
    logParts (consumeReads logging 8192
        [(inetHeader 0x21 (by decide) (List.replicate 25 0) (by decide)).text ++ getHead.headText] {} []).2.2 = [] ∧
      (consumeReads logging 8192 [(inetHeader 0x20 (by decide) [] (by decide)).text ++ getHead.headText] {} []).2.1.reserved.getSourceAddress
        = [10, 0, 0, 1] ∧
      (consumeReads logging 40 [getHead.headText] {} []).1 = .user ∧
      (consumeReads logging 40 [proxyHeader.text ++ getHead.headText] {} []).1 = .error .requestHeaderFieldsTooLarge := by
  decide +kernel

end Connections

end Uws.Http
