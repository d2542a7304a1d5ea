import Uws.Http.HeaderScan
import Uws.Http.HttpParser

namespace Uws.Http

/-- The CRLF-ended lines in front of the first empty one, where `line` was read already. -/
def linesOf (line : Bytes) : Bytes → List Bytes
  | c :: d :: p =>
    if c = cr ∧ d = lf then if line = [] then [] else line :: linesOf [] p
    else linesOf (line ++ [c]) (d :: p)
  | _ => []

def headerLines (data : Bytes) : List Bytes :=
  match ProxyParser.offset data with
  | none => []
  | some offset => (linesOf [] (data.drop offset)).tail

def isBlank (c : UInt8) : Bool := c == space || c == tab

/-- The lower-cased text up to the colon of a line, and the trimmed rest. -/
def headerField (line : Bytes) : Header :=
  let value := (line.dropWhile (· ≠ colon)).tail
  ⟨(line.takeWhile (· ≠ colon)).map lowercased, (value.rdropWhile isBlank).dropWhile isBlank⟩

def framingNames : List Bytes := [hostName, contentLengthName, transferEncodingName]

def lineValue (data name : Bytes) : Option Bytes :=
  ((headerLines data).find? fun line => (headerField line).key == name).map fun line => (headerField line).value

/-- Two lines have one of the framing names, or both a length and an encoding are given. -/
def Ambiguous (data : Bytes) : Prop :=
  (∃ name ∈ framingNames, 2 ≤ (headerLines data).countP fun line => (headerField line).key == name) ∨
    (∃ line ∈ headerLines data, (headerField line).key = contentLengthName ∧ (headerField line).value ≠ []) ∧
      ∃ line ∈ headerLines data, (headerField line).key = transferEncodingName ∧ (headerField line).value ≠ []

/-- No handler is called for the head that starts `data`, and an error is returned. -/
def Refused (data : Bytes) : Prop :=
  ∀ (σ : Type) (h : Handlers σ) (consumeMinimally : Bool) (maxHeaderSize : Nat) (parser : HttpParser) (state : σ),
    let consumed := fenceAndConsumePostPadded h consumeMinimally maxHeaderSize parser data state
    (∃ err, consumed.returned = some (.error err)) ∧ consumed.state = state

/-- Every line is in the walked list, the framing values are determined by all lines, and ambiguous heads
    are refused. -/
def NothingHidden (data : Bytes) (req : HttpRequest) : Prop :=
  (∀ line ∈ headerLines data, headerField line ∈ req.walk) ∧
    (∀ checked, checkHeaders req = .ok checked →
      ∀ name ∈ framingNames, checked.getHeader name = lineValue data name) ∧
    (Ambiguous data → Refused data)

theorem linesOf_line (line raw rest : Bytes) (plain : cr ∉ raw) (some : line ++ raw ≠ []) :
    linesOf line (raw ++ cr :: lf :: rest) = (line ++ raw) :: linesOf [] rest := by
  induction raw generalizing line with
  | nil =>
    rw [List.append_nil] at some
    simp [linesOf, some]
  | cons c raw ih =>
    simp only [List.mem_cons, not_or] at plain
    have next : ∃ d more, raw ++ cr :: lf :: rest = d :: more := by
      cases raw with
      | nil => exact ⟨cr, _, rfl⟩
      | cons d raw => exact ⟨d, _, rfl⟩
    obtain ⟨d, more, shape⟩ := next
    have later := ih (line ++ [c]) plain.2 (by simp)
    rw [List.cons_append, shape, linesOf, if_neg (fun both => plain.1 both.1.symm), ← shape, later]
    simp

theorem linesOf_end (rest : Bytes) : linesOf [] (cr :: lf :: rest) = [] := by simp [linesOf]

def FieldLine.raw (line : FieldLine) : Bytes := line.name ++ colon :: line.value

theorem FieldLine.raw_plain (line : FieldLine) : cr ∉ line.raw := by
  intro member
  simp only [FieldLine.raw, List.mem_append, List.mem_cons] at member
  rcases member with name | colon | value
  · exact absurd (line.field cr name) (by decide)
  · exact absurd colon (by decide)
  · exact absurd (line.passed cr value) (by unfold isFieldValueByte; decide)

theorem linesOf_block (lines : List FieldLine) (rest : Bytes) :
    linesOf [] (blockText lines ++ cr :: lf :: rest) = lines.map FieldLine.raw := by
  induction lines with
  | nil => exact linesOf_end rest
  | cons line lines ih =>
    have shape : blockText (line :: lines) ++ cr :: lf :: rest =
        line.raw ++ cr :: lf :: (blockText lines ++ cr :: lf :: rest) := by
      simp [blockText, FieldLine.text, fieldLine, FieldLine.raw]
    rw [shape, linesOf_line [] line.raw _ line.raw_plain (by simp [FieldLine.raw]), ih]
    rfl

theorem headerLines_headText (head : HeadText) (proxy rest : Bytes)
    (found : ProxyParser.offset (proxy ++ head.headText ++ rest) = some proxy.length) :
    headerLines (proxy ++ head.headText ++ rest) = head.fields.map FieldLine.raw := by
  have requestLine : head.text = head.method ++ space :: head.target ++ versionLine.take 9 ++ [cr, lf] := by
    simp only [RequestText.text, List.append_assoc]
    rfl
  have plain : cr ∉ head.method ++ space :: head.target ++ versionLine.take 9 := by
    intro member
    simp only [List.mem_append, List.mem_cons] at member
    rcases member with (method | space | target) | version
    · exact absurd (head.scanned cr method).1 (by decide)
    · exact absurd space (by decide)
    · exact absurd (head.visible cr target) (by decide)
    · exact absurd version (by decide)
  have shape : head.headText ++ rest =
      (head.method ++ space :: head.target ++ versionLine.take 9) ++
        cr :: lf :: (blockText head.fields ++ cr :: lf :: rest) := by
    simp [HeadText.headText, requestLine]
  simp only [headerLines, found]
  rw [List.append_assoc, List.drop_left, shape, linesOf_line [] _ _ plain (by simp), linesOf_block]
  rfl

theorem dropWhile_congr {p q : UInt8 → Bool} (l : Bytes) (same : ∀ c ∈ l, p c = q c) :
    l.dropWhile p = l.dropWhile q := by
  induction l with
  | nil => rfl
  | cons c l ih =>
    have later := ih fun b member => same b (by simp [member])
    simp only [List.dropWhile_cons, same c (by simp), later]

theorem below_blank (c : UInt8) (passed : isFieldValueByte c) : decide (c < 33) = isBlank c := by
  have all : ∀ n < 256, (31 < UInt8.ofNat n ∨ UInt8.ofNat n = tab) →
      decide (UInt8.ofNat n < 33) = isBlank (UInt8.ofNat n) := by decide +kernel
  have own := all c.toNat c.toNat_lt
  rw [UInt8.ofNat_toNat] at own
  exact own passed

theorem trimValue_blank (value : Bytes) (passed : ∀ b ∈ value, isFieldValueByte b) :
    trimValue value = (value.rdropWhile isBlank).dropWhile isBlank := by
  have back : value.rdropWhile (· < 33) = value.rdropWhile isBlank := by
    unfold List.rdropWhile
    rw [dropWhile_congr value.reverse fun c member => below_blank c (passed c (List.mem_reverse.mp member))]
  rw [trimValue, back]
  refine dropWhile_congr _ fun c member => below_blank c (passed c ?_)
  exact (List.rdropWhile_prefix _ _).mem member

theorem FieldLine.header_raw (line : FieldLine) : headerField line.raw = line.header := by
  have named : ∀ b ∈ line.name, decide (b ≠ colon) = true := by
    intro b member
    have field := line.field b member
    simp only [ne_eq, decide_not, Bool.not_eq_true', decide_eq_false_iff_not]
    rintro rfl
    exact absurd field (by decide)
  simp only [headerField, FieldLine.raw, FieldLine.header, List.takeWhile_append_of_pos named,
    List.dropWhile_append_of_pos named]
  simp [trimValue_blank line.value line.passed]

theorem headerLines_field {data rest : Bytes} {req : HttpRequest} (complete : getHeaders data = .complete req rest) :
    (headerLines data).map headerField = req.headers ∧ req.bf = .reset := by
  obtain ⟨proxy, head, rfl, rfl, found⟩ := getHeaders_complete complete
  rw [headerLines_headText head proxy rest (found rest).1, List.map_map]
  exact ⟨List.map_congr_left fun line _ => line.header_raw, rfl⟩

theorem headerLines_empty {data rest : Bytes} {req : HttpRequest} (complete : getHeaders data = .complete req rest)
    (line : Bytes) (member : line ∈ headerLines data) :
    (headerField line).key = [] ↔ line.head? = some colon := by
  obtain ⟨proxy, head, rfl, -, found⟩ := getHeaders_complete complete
  rw [headerLines_headText head proxy rest (found rest).1] at member
  obtain ⟨field, -, rfl⟩ := List.mem_map.mp member
  rw [field.header_raw]
  cases name : field.name with
  | nil => simp [FieldLine.header, FieldLine.raw, name]
  | cons c more =>
    have own := field.field c (by simp [name])
    have other : c ≠ colon := by
      rintro rfl
      exact absurd own (by decide)
    simp [FieldLine.header, FieldLine.raw, name, other]

theorem walk_all {req : HttpRequest} (named : ∀ h ∈ req.headers, h.key ≠ []) : req.walk = req.headers := by
  refine List.takeWhile_eq_self_iff.mpr fun h member => ?_
  simpa using named h member

theorem walk_named {req : HttpRequest} {h : Header} (member : h ∈ req.walk) : h.key ≠ [] := by
  have own := List.mem_takeWhile_imp member
  simpa using own

theorem getHeader_walk {req : HttpRequest} (filled : ∀ h ∈ req.walk, req.bf.mightHave h.key = true) (name : Bytes) :
    req.getHeader name = (req.walk.find? (·.key == name)).map Header.value := by
  unfold HttpRequest.getHeader
  cases found : req.walk.find? (·.key == name) with
  | none => split <;> rfl
  | some h =>
    have key : h.key = name := by simpa using List.find?_some found
    have had := filled h (List.mem_of_find?_eq_some found)
    rw [key] at had
    rw [if_pos had]

theorem addHeaders_some {hs : List Header} (req : HttpRequest) {checked : HttpRequest} (walked : ∀ h ∈ hs, h ∈ req.walk)
    (added : addHeaders hs req = some checked) :
    checked = { req with bf := (hs.map Header.key).foldl BloomFilter.add req.bf } ∧
      ∀ name ∈ framingNames, (req.bf.mightHave name = true → hs.countP (·.key == name) = 0) ∧
        hs.countP (·.key == name) ≤ 1 := by
  induction hs generalizing req with
  | nil =>
    cases added
    exact ⟨rfl, by simp⟩
  | cons h hs ih =>
    rw [addHeaders] at added
    split at added
    · cases added
    · rename_i fresh
      have walk : ∀ g ∈ hs, g ∈ ({ req with bf := req.bf.add h.key } : HttpRequest).walk :=
        fun g member => walked g (by simp [member])
      obtain ⟨result, counts⟩ := ih _ walk added
      refine ⟨result, fun name member => ?_⟩
      obtain ⟨none, once⟩ := counts name member
      by_cases own : h.key = name
      · subst own
        have later := none (BloomFilter.mightHave_add _ _)
        have unseen : req.bf.mightHave h.key ≠ true := by
          intro had
          have framing : (h.key == hostName || h.key == contentLengthName || h.key == transferEncodingName) = true := by
            simpa [framingNames, or_assoc] using member
          have found : (req.getHeader h.key).isSome = true := by
            unfold HttpRequest.getHeader
            rw [if_pos had, Option.isSome_map, List.find?_isSome]
            exact ⟨h, walked h (by simp), by simp⟩
          simp [had, framing, found] at fresh
        refine ⟨fun had => absurd had unseen, ?_⟩
        simp [later]
      · have other : (h.key == name) = false := by simpa using own
        simp only [List.countP_cons, other, Bool.false_eq_true, if_false, Nat.add_zero]
        exact ⟨fun had => none (BloomFilter.mightHave_add_of had _), once⟩

theorem countP_one_find {p : Header → Bool} {l : List Header} {a b : Header} (once : l.countP p ≤ 1) (member : a ∈ l)
    (own : p a = true) (found : l.find? p = some b) : a = b := by
  induction l with
  | nil => cases member
  | cons c l ih =>
    by_cases here : p c = true
    · rw [List.find?_cons_of_pos here] at found
      cases found
      rw [List.countP_cons_of_pos here] at once
      have none : l.countP p = 0 := by omega
      rcases List.mem_cons.mp member with rfl | later
      · rfl
      · exact absurd own (List.countP_eq_zero.mp none a later)
    · rw [List.find?_cons_of_neg here] at found
      rw [List.countP_cons_of_neg here] at once
      rcases List.mem_cons.mp member with rfl | later
      · exact absurd own here
      · exact ih once later found

theorem checkHeaders_ok {req checked : HttpRequest} (passed : checkHeaders req = .ok checked) :
    checked.walk = req.walk ∧ (∀ name, checked.getHeader name = (req.walk.find? (·.key == name)).map Header.value) ∧
      (∀ name ∈ framingNames, req.walk.countP (·.key == name) ≤ 1) ∧
      ¬ (checked.transferEncodingString ≠ [] ∧ checked.contentLengthString ≠ []) := by
  unfold checkHeaders at passed
  cases added : addHeaders req.walk { req with bf := .reset } with
  | none => rw [added] at passed; cases passed
  | some filled =>
    rw [added] at passed
    obtain ⟨same, counts⟩ := addHeaders_some { req with bf := .reset } (fun h member => member) added
    have walk : filled.walk = req.walk := by rw [same]; rfl
    have had : ∀ h ∈ filled.walk, filled.bf.mightHave h.key = true := by
      intro h member
      rw [walk] at member
      rw [same]
      exact BloomFilter.mightHave_foldl _ _ (List.mem_map_of_mem member)
    simp only at passed
    split at passed
    · cases passed
    · split at passed
      · cases passed
      · rename_i both
        cases passed
        refine ⟨walk, fun name => ?_, fun name member => (counts name member).2, ?_⟩
        · rw [getHeader_walk had, walk]
        · simpa using both

theorem refused_of_check {data rest : Bytes} {req : HttpRequest} {err : HttpError}
    (complete : getHeaders data = .complete req rest) (failed : checkHeaders req = .error err) : Refused data := by
  intro σ h consumeMinimally maxHeaderSize parser state
  have some : data ≠ [] := by
    rintro rfl
    cases complete
  obtain ⟨c, more, rfl⟩ := List.exists_cons_of_ne_nil some
  simp only [fenceAndConsumePostPadded, List.length_cons, fenceLoop, List.isEmpty_cons, Bool.false_eq_true, if_false,
    complete, failed]
  split
  · exact ⟨⟨_, rfl⟩, rfl⟩
  · exact ⟨⟨_, rfl⟩, rfl⟩

theorem ambiguous_refused {data rest : Bytes} {req : HttpRequest} (complete : getHeaders data = .complete req rest)
    (walked : req.walk = req.headers) (ambiguous : Ambiguous data) : Refused data := by
  have fields := (headerLines_field complete).1
  rw [← walked] at fields
  cases passed : checkHeaders req with
  | error err => exact refused_of_check complete passed
  | ok checked =>
    exfalso
    obtain ⟨-, values, counts, framed⟩ := checkHeaders_ok passed
    rcases ambiguous with ⟨name, member, twice⟩ | ⟨⟨long, inLong, longKey, longValue⟩, coded, inCoded, codedKey, codedValue⟩
    · have once := counts name member
      rw [← fields, List.countP_map] at once
      exact Nat.not_succ_le_self 1 (Nat.le_trans twice once)
    · have nonempty : ∀ (name line : Bytes), name ∈ framingNames → line ∈ headerLines data →
          (headerField line).key = name → (headerField line).value ≠ [] → (checked.getHeader name).getD [] ≠ [] := by
        intro name line framing inLines key value
        have member : headerField line ∈ req.walk := by
          rw [← fields]
          exact List.mem_map_of_mem inLines
        have own : ((headerField line).key == name) = true := by simp [key]
        have found : (req.walk.find? (·.key == name)).isSome = true := List.find?_isSome.mpr ⟨_, member, own⟩
        obtain ⟨other, known⟩ := Option.isSome_iff_exists.mp found
        have same := countP_one_find (counts name framing) member own known
        rw [values, known, ← same]
        exact value
      exact framed ⟨nonempty _ coded (by simp [framingNames]) inCoded codedKey codedValue,
        nonempty _ long (by simp [framingNames]) inLong longKey longValue⟩

/-- No header line of a complete head is hidden exactly when none starts with the colon. -/
theorem headerLines_framing {data rest : Bytes} {req : HttpRequest} (complete : getHeaders data = .complete req rest) :
    NothingHidden data req ↔ ∀ line ∈ headerLines data, line.head? ≠ some colon := by
  have fields := (headerLines_field complete).1
  constructor
  · rintro ⟨walked, -, -⟩ line member starts
    exact walk_named (walked line member) ((headerLines_empty complete line member).mpr starts)
  · intro named
    have all : ∀ h ∈ req.headers, h.key ≠ [] := by
      intro h member
      rw [← fields] at member
      obtain ⟨line, inLines, rfl⟩ := List.mem_map.mp member
      exact fun empty => named line inLines ((headerLines_empty complete line inLines).mp empty)
    have walked := walk_all all
    refine ⟨?_, ?_, ambiguous_refused complete walked⟩
    · intro line member
      rw [walked, ← fields]
      exact List.mem_map_of_mem member
    · intro checked passed name framing
      rw [(checkHeaders_ok passed).2.1, walked, ← fields, List.find?_map, lineValue, Option.map_map]
      rfl

def framedHead : Bytes :=
  ascii "POST / HTTP/1.1\r\nHost: x\r\nContent-Length: 5\r\nTransfer-Encoding: chunked\r\n\r\n"

theorem headerLines_framing_plain :
    NothingHidden framedHead
      { method := ascii "POST", target := ascii "/", headers :=
        [⟨ascii "host", ascii "x"⟩, ⟨ascii "content-length", ascii "5"⟩, ⟨ascii "transfer-encoding", ascii "chunked"⟩] } :=
  (headerLines_framing (show getHeaders framedHead = .complete _ [] by decide +kernel)).mpr (by decide +kernel)

/-- The line `:` ends the walked list, so the length and the encoding behind it are not seen. -/
def smugglingHead : Bytes :=
  ascii "GET / HTTP/1.1\r\nHost: x\r\n:\r\nContent-Length: 5\r\nTransfer-Encoding: chunked\r\n\r\n"

theorem smugglingHead_hides :
    ¬ ∀ (data rest : Bytes) (req : HttpRequest), getHeaders data = .complete req rest → NothingHidden data req := by
  intro hidden
  have complete : getHeaders smugglingHead =
      .complete { method := ascii "GET", target := ascii "/", headers :=
        [⟨ascii "host", ascii "x"⟩, ⟨[], []⟩, ⟨ascii "content-length", ascii "5"⟩,
          ⟨ascii "transfer-encoding", ascii "chunked"⟩] } [] := by decide +kernel
  have line : ascii ":" ∈ headerLines smugglingHead := by decide +kernel
  exact walk_named ((hidden _ _ _ complete).1 _ line) (by decide +kernel)

end Uws.Http
