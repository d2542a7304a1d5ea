import Uws.Http.Headers

namespace Uws.Http

theorem dropWhile_stop {p : UInt8 → Bool} {x rest : Bytes} {c : UInt8} (stop : x.dropWhile p = c :: rest) (q : Bytes) :
    (x ++ q).dropWhile p = c :: (rest ++ q) := by
  rw [List.dropWhile_append, stop]
  rfl

theorem isFieldNameByteFast_colon : isFieldNameByteFast colon = false := by decide

theorem consumeFieldName_eq (p : Bytes) :
    consumeFieldName p = ((p.takeWhile isFieldNameByteFast).map lowercased, p.dropWhile isFieldNameByteFast) := by
  have wider : ∀ c, (isUpper c || isLower c || c == 45) = true → isFieldNameByteFast c = true := by
    intro c fast
    simp only [isFieldNameByteFast, Bool.or_eq_true] at fast ⊢
    rcases fast with (upper | lower) | hyphen
    · exact .inl (.inr upper)
    · exact .inl (.inl (.inl lower))
    · exact .inl (.inl (.inr hyphen))
  have front : ∀ c ∈ p.takeWhile (fun c => isUpper c || isLower c || c == 45), isFieldNameByteFast c = true := by
    intro c member
    have fast := List.mem_takeWhile_imp member
    exact wider c fast
  have split : p.takeWhile (fun c => isUpper c || isLower c || c == 45) ++
      p.dropWhile (fun c => isUpper c || isLower c || c == 45) = p := List.takeWhile_append_dropWhile
  have take : p.takeWhile isFieldNameByteFast =
      p.takeWhile (fun c => isUpper c || isLower c || c == 45) ++
        (p.dropWhile (fun c => isUpper c || isLower c || c == 45)).takeWhile isFieldNameByteFast := by
    conv => lhs; rw [← split]
    exact List.takeWhile_append_of_pos front
  have drop : p.dropWhile isFieldNameByteFast =
      (p.dropWhile (fun c => isUpper c || isLower c || c == 45)).dropWhile isFieldNameByteFast := by
    conv => lhs; rw [← split]
    exact List.dropWhile_append_of_pos front
  simp only [consumeFieldName]
  split
  · rename_i ended
    obtain ⟨rest, tail⟩ := List.head?_eq_some_iff.mp ended
    rw [take, drop, tail]
    simp [isFieldNameByteFast_colon]
  · rw [take, drop]

theorem lowercased_field (c : UInt8) (field : isFieldNameByteFast c = true) :
    isFieldNameByteFast (lowercased c) = true := by
  have all : ∀ n < 256, isFieldNameByteFast (UInt8.ofNat n) = true →
      isFieldNameByteFast (lowercased (UInt8.ofNat n)) = true := by decide +kernel
  have own := all c.toNat c.toNat_lt
  rw [UInt8.ofNat_toNat] at own
  exact own field

theorem lowercased_lowercased (c : UInt8) : lowercased (lowercased c) = lowercased c := by
  have all : ∀ n < 256, lowercased (lowercased (UInt8.ofNat n)) = lowercased (UInt8.ofNat n) := by decide +kernel
  have own := all c.toNat c.toNat_lt
  rwa [UInt8.ofNat_toNat] at own

theorem map_lowercased_twice (name : Bytes) : (name.map lowercased).map lowercased = name.map lowercased := by
  rw [List.map_map]
  exact List.map_congr_left fun c _ => lowercased_lowercased c

theorem lowercased_eq_cr (c : UInt8) : lowercased c = cr ↔ c = cr := by
  have all : ∀ n < 256, lowercased (UInt8.ofNat n) = cr ↔ UInt8.ofNat n = cr := by decide +kernel
  have own := all c.toNat c.toNat_lt
  rwa [UInt8.ofNat_toNat] at own

theorem consumeFieldName_lowercased (raw q : Bytes) (field : ∀ c ∈ raw, isFieldNameByteFast c = true) :
    consumeFieldName (raw.map lowercased ++ q) = consumeFieldName (raw ++ q) := by
  have low : ∀ c ∈ raw.map lowercased, isFieldNameByteFast c = true := by
    intro c member
    obtain ⟨b, own, rfl⟩ := List.mem_map.mp member
    exact lowercased_field b (field b own)
  rw [consumeFieldName_eq, consumeFieldName_eq, List.takeWhile_append_of_pos low, List.takeWhile_append_of_pos field,
    List.dropWhile_append_of_pos low, List.dropWhile_append_of_pos field, List.map_append, List.map_append,
    map_lowercased_twice]

/-- Bytes that the scan for the end of a value passes. -/
def isFieldValueByte (c : UInt8) : Prop := 31 < c ∨ c = tab

theorem consumeFieldValue_append (value q : Bytes) (passed : ∀ c ∈ value, isFieldValueByte c) :
    consumeFieldValue (value ++ q) = (consumeFieldValue q).map fun found => (value ++ found.1, found.2) := by
  induction value with
  | nil => simp
  | cons c value ih =>
    have own : 31 < c ∨ c = tab := passed c (by simp)
    rw [List.cons_append, consumeFieldValue, if_pos own, ih fun d member => passed d (by simp [member])]
    cases consumeFieldValue q <;> rfl

theorem consumeFieldValue_cr (p : Bytes) : consumeFieldValue (cr :: p) = some ([], cr :: p) := by
  simp [consumeFieldValue, cr, tab]

theorem consumeFieldValue_cases (p : Bytes) :
    (∃ value c rest, p = value ++ c :: rest ∧ (∀ b ∈ value, isFieldValueByte b) ∧ ¬ isFieldValueByte c ∧ c ≠ cr) ∨
      (∀ b ∈ p, isFieldValueByte b) ∨
        ∃ value rest, p = value ++ cr :: rest ∧ ∀ b ∈ value, isFieldValueByte b := by
  induction p with
  | nil => exact .inr (.inl (by simp))
  | cons c p ih =>
    by_cases passed : isFieldValueByte c
    · rcases ih with ⟨value, b, rest, rfl, before, stop⟩ | all | ⟨value, rest, rfl, before⟩
      · exact .inl ⟨c :: value, b, rest, rfl, by simpa [passed] using before, stop⟩
      · exact .inr (.inl (by simpa [passed] using all))
      · exact .inr (.inr ⟨c :: value, rest, rfl, by simpa [passed] using before⟩)
    · by_cases ended : c = cr
      · exact .inr (.inr ⟨[], p, by rw [ended]; rfl, by simp⟩)
      · exact .inl ⟨[], c, p, rfl, by simp, passed, ended⟩

theorem consumeFieldValue_refused {c : UInt8} (p : Bytes) (refused : ¬ isFieldValueByte c) (other : c ≠ cr) :
    consumeFieldValue (c :: p) = none := by
  have stop : ¬ (31 < c ∨ c = tab) := refused
  rw [consumeFieldValue, if_neg stop, if_neg other]

theorem consumeFieldName_append (name : Bytes) (c : UInt8) (q : Bytes)
    (field : ∀ b ∈ name, isFieldNameByteFast b = true) (stop : isFieldNameByteFast c = false) :
    consumeFieldName (name ++ c :: q) = (name.map lowercased, c :: q) := by
  rw [consumeFieldName_eq, List.takeWhile_append_of_pos field, List.dropWhile_append_of_pos field]
  simp [stop]

theorem consumeFieldName_cases (p : Bytes) :
    (∀ b ∈ p, isFieldNameByteFast b = true) ∨ ∃ name c rest, p = name ++ c :: rest ∧
      (∀ b ∈ name, isFieldNameByteFast b = true) ∧ isFieldNameByteFast c = false := by
  have split := List.takeWhile_append_dropWhile (p := isFieldNameByteFast) (l := p)
  have field : ∀ b ∈ p.takeWhile isFieldNameByteFast, isFieldNameByteFast b = true :=
    fun b => List.mem_takeWhile_imp
  have stops := List.head?_dropWhile_not isFieldNameByteFast p
  cases tail : p.dropWhile isFieldNameByteFast with
  | nil =>
    rw [tail, List.append_nil] at split
    rw [split] at field
    exact .inl field
  | cons c rest =>
    rw [tail] at split stops
    exact .inr ⟨_, c, rest, split.symm, field, by simpa using stops⟩

def fieldLine (name value : Bytes) : Bytes := name ++ colon :: value ++ [cr, lf]

theorem fieldLine_append (name value q : Bytes) :
    fieldLine name value ++ q = name ++ colon :: (value ++ cr :: lf :: q) := by
  simp [fieldLine]

theorem consumeHeaderLine_line (name value rest : Bytes) (field : ∀ b ∈ name, isFieldNameByteFast b = true)
    (passed : ∀ b ∈ value, isFieldValueByte b) :
    consumeHeaderLine (fieldLine name value ++ rest) =
      .stored (fieldLine (name.map lowercased) value) ⟨name.map lowercased, trimValue value⟩ rest := by
  rw [fieldLine_append]
  simp only [consumeHeaderLine, consumeFieldName_append name colon _ field isFieldNameByteFast_colon, ne_eq,
    not_true_eq_false, if_false, consumeFieldValue_append value _ passed, consumeFieldValue_cr, Option.map_some,
    List.append_nil, if_true]
  simp [fieldLine]

inductive LineRead (p : Bytes) : HeaderLine → Prop where
  | incomplete (name tail : Bytes) (split : p = name ++ tail) (field : ∀ b ∈ name, isFieldNameByteFast b = true) :
      LineRead p (.incomplete (name.map lowercased ++ tail))
  | failed (stays : ∀ q, consumeHeaderLine (p ++ q) = .failed .badRequest) : LineRead p (.failed .badRequest)
  | stored (name value rest : Bytes) (split : p = fieldLine name value ++ rest)
      (field : ∀ b ∈ name, isFieldNameByteFast b = true) (passed : ∀ b ∈ value, isFieldValueByte b) :
      LineRead p (.stored (fieldLine (name.map lowercased) value) ⟨name.map lowercased, trimValue value⟩ rest)

theorem consumeHeaderLine_name (name : Bytes) (c : UInt8) (rest : Bytes) (field : ∀ b ∈ name, isFieldNameByteFast b = true)
    (stop : isFieldNameByteFast c = false) (other : c ≠ colon) :
    consumeHeaderLine (name ++ c :: rest) = .failed .badRequest := by
  simp only [consumeHeaderLine, consumeFieldName_append name c rest field stop, ne_eq, other, not_false_eq_true,
    if_true]

theorem consumeHeaderLine_value (name value : Bytes) (c : UInt8) (rest : Bytes)
    (field : ∀ b ∈ name, isFieldNameByteFast b = true) (passed : ∀ b ∈ value, isFieldValueByte b)
    (refused : ¬ isFieldValueByte c) (other : c ≠ cr) :
    consumeHeaderLine (name ++ colon :: (value ++ c :: rest)) = .failed .badRequest := by
  simp only [consumeHeaderLine, consumeFieldName_append name colon _ field isFieldNameByteFast_colon, ne_eq,
    not_true_eq_false, if_false, consumeFieldValue_append value _ passed, consumeFieldValue_refused rest refused other,
    Option.map_none]

theorem consumeHeaderLine_open (name tail : Bytes) (field : ∀ b ∈ name, isFieldNameByteFast b = true)
    (unended : ∃ value rest, consumeFieldValue tail = some (value, rest) ∧
      ∀ a b q, rest = a :: b :: q → b ≠ lf) :
    consumeHeaderLine (name ++ colon :: tail) = .incomplete (name.map lowercased ++ colon :: tail) := by
  obtain ⟨value, rest, scanned, open'⟩ := unended
  simp only [consumeHeaderLine, consumeFieldName_append name colon _ field isFieldNameByteFast_colon, ne_eq,
    not_true_eq_false, if_false, scanned]
  rcases rest with _ | ⟨a, _ | ⟨b, q⟩⟩
  · rfl
  · rfl
  · simp only [open' a b q rfl, if_false]

theorem consumeHeaderLine_read (p : Bytes) : LineRead p (consumeHeaderLine p) := by
  rcases consumeFieldName_cases p with all | ⟨name, c, rest, rfl, field, stop⟩
  · have named : consumeHeaderLine p = .incomplete (p.map lowercased) := by
      have scanned := consumeFieldName_eq p
      rw [← List.append_nil p, List.dropWhile_append_of_pos all, List.takeWhile_append_of_pos all] at scanned
      simp only [List.takeWhile_nil, List.dropWhile_nil, List.append_nil] at scanned
      simp only [consumeHeaderLine, scanned]
    rw [named]
    simpa using LineRead.incomplete p [] (List.append_nil p).symm all
  · by_cases ended : c = colon
    · subst ended
      rcases consumeFieldValue_cases rest with ⟨value, b, tail, rfl, passed, refused, other⟩ | all |
        ⟨value, tail, rfl, passed⟩
      · rw [consumeHeaderLine_value name value b tail field passed refused other]
        refine .failed fun q => ?_
        have shape : name ++ colon :: (value ++ b :: tail) ++ q = name ++ colon :: (value ++ b :: (tail ++ q)) := by
          simp
        rw [shape, consumeHeaderLine_value name value b _ field passed refused other]
      · rw [consumeHeaderLine_open name rest field ⟨rest, [], ?_, by simp⟩]
        · exact .incomplete name _ rfl field
        · have scanned := consumeFieldValue_append rest [] all
          simpa [consumeFieldValue] using scanned
      · by_cases line : tail.head? = some lf
        · obtain ⟨after, rfl⟩ := List.head?_eq_some_iff.mp line
          rw [← fieldLine_append, consumeHeaderLine_line name value after field passed]
          exact .stored name value after rfl field passed
        · rw [consumeHeaderLine_open name _ field ⟨value, cr :: tail, ?_, ?_⟩]
          · exact .incomplete name _ rfl field
          · rw [consumeFieldValue_append value _ passed, consumeFieldValue_cr]
            simp
          · rintro a b q same rfl
            simp only [List.cons.injEq] at same
            exact line (by rw [same.2]; rfl)
    · rw [consumeHeaderLine_name name c rest field stop ended]
      refine .failed fun q => ?_
      rw [List.append_assoc, List.cons_append, consumeHeaderLine_name name c _ field stop ended]

theorem consumeHeaderLine_lowercased (name tail : Bytes) (field : ∀ b ∈ name, isFieldNameByteFast b = true) :
    consumeHeaderLine (name.map lowercased ++ tail) = consumeHeaderLine (name ++ tail) := by
  simp only [consumeHeaderLine, consumeFieldName_lowercased name tail field]

/-- A header line that the loop stores. -/
structure FieldLine where
  name : Bytes
  value : Bytes
  field : ∀ b ∈ name, isFieldNameByteFast b = true
  passed : ∀ b ∈ value, isFieldValueByte b

namespace FieldLine

def text (line : FieldLine) : Bytes := fieldLine line.name line.value

def header (line : FieldLine) : Header := ⟨line.name.map lowercased, trimValue line.value⟩

def lowered (line : FieldLine) : Bytes := fieldLine (line.name.map lowercased) line.value

theorem read (line : FieldLine) (rest : Bytes) :
    consumeHeaderLine (line.text ++ rest) = .stored line.lowered line.header rest :=
  consumeHeaderLine_line line.name line.value rest line.field line.passed

theorem read_lowered (line : FieldLine) (rest : Bytes) :
    consumeHeaderLine (line.lowered ++ rest) = .stored line.lowered line.header rest := by
  have same := consumeHeaderLine_lowercased line.name (colon :: (line.value ++ cr :: lf :: rest)) line.field
  rw [← fieldLine_append, ← fieldLine_append] at same
  rw [lowered, same]
  exact line.read rest

theorem text_head (line : FieldLine) : ∃ d tail, line.text = d :: tail ∧ d ≠ cr := by
  cases name : line.name with
  | nil => exact ⟨colon, _, by simp only [text, fieldLine, name]; rfl, by decide⟩
  | cons d tail =>
    refine ⟨d, _, by simp only [text, fieldLine, name]; rfl, ?_⟩
    rintro rfl
    have field := line.field cr (by simp [name])
    exact absurd field (by decide)

theorem map_lowered (line : FieldLine) : line.lowered.map lowercased = line.text.map lowercased := by
  simp only [lowered, text, fieldLine, List.map_append, List.map_cons, map_lowercased_twice]

end FieldLine

theorem HeaderLine.stored_read {p rest : Bytes} {lowered : Bytes} {header : Header}
    (stored : consumeHeaderLine p = .stored lowered header rest) :
    ∃ line : FieldLine, p = line.text ++ rest ∧ lowered = line.lowered ∧ header = line.header := by
  have read := consumeHeaderLine_read p
  rw [stored] at read
  cases read with
  | stored name value rest split field passed => exact ⟨⟨name, value, field, passed⟩, split, rfl, rfl⟩

def blockText (lines : List FieldLine) : Bytes := lines.flatMap FieldLine.text

theorem headerLoop_line (slots : Nat) (line : FieldLine) (rest : Bytes) :
    headerLoop (slots + 1) (line.text ++ rest) =
      match rest with
      | [] => .incomplete line.lowered
      | d :: p =>
        if d = cr then
          match p with
          | [] => .incomplete (line.lowered ++ [d])
          | e :: rest => if e = lf then .complete [line.header] rest else .failed .badRequest
        else (headerLoop slots (d :: p)).push line.lowered line.header := by
  rw [headerLoop, line.read]
  rcases rest with _ | ⟨d, _ | ⟨e, p⟩⟩ <;> rfl

theorem headerLoop_lowered (slots : Nat) (line : FieldLine) (rest : Bytes) :
    headerLoop (slots + 1) (line.lowered ++ rest) = headerLoop (slots + 1) (line.text ++ rest) := by
  rw [headerLoop, line.read_lowered, headerLoop, line.read]

theorem headerLoop_block (slots : Nat) (line : FieldLine) (lines : List FieldLine) (rest : Bytes)
    (fits : (line :: lines).length ≤ slots) :
    headerLoop slots (blockText (line :: lines) ++ cr :: lf :: rest) =
      .complete ((line :: lines).map FieldLine.header) rest := by
  induction lines generalizing line slots with
  | nil =>
    obtain ⟨slots, rfl⟩ := Nat.exists_eq_add_of_le' fits
    simp only [blockText, List.flatMap_cons, List.flatMap_nil, List.append_nil, List.length_cons, List.length_nil,
      Nat.zero_add, headerLoop_line, if_true, List.map_cons, List.map_nil]
  | cons next lines ih =>
    obtain ⟨slots, rfl⟩ : ∃ more, slots = more + 1 := ⟨slots - 1, by simp only [List.length_cons] at fits; omega⟩
    obtain ⟨d, tail, text, other⟩ := next.text_head
    have later := ih slots next (by simpa using fits)
    have shape : blockText (line :: next :: lines) ++ cr :: lf :: rest =
        line.text ++ (blockText (next :: lines) ++ cr :: lf :: rest) := by
      simp [blockText]
    have start : ∃ more, blockText (next :: lines) ++ cr :: lf :: rest = d :: more := by
      simp [blockText, text]
    obtain ⟨more, start⟩ := start
    rw [shape, headerLoop_line, start]
    simp only [other, if_false, ← start, later, HeaderLines.push, List.map_cons]

inductive RoundTaken (slots : Nat) (p : Bytes) : HeaderLines → Prop where
  | incomplete (buffer : Bytes) (low : buffer.map lowercased = p.map lowercased)
      (again : ∀ q, headerLoop (slots + 1) (buffer ++ q) = headerLoop (slots + 1) (p ++ q)) :
      RoundTaken slots p (.incomplete buffer)
  | failed (stays : ∀ q, headerLoop (slots + 1) (p ++ q) = .failed .badRequest) :
      RoundTaken slots p (.failed .badRequest)
  | last (line : FieldLine) (rest : Bytes) (split : p = line.text ++ cr :: lf :: rest) :
      RoundTaken slots p (.complete [line.header] rest)
  | next (line : FieldLine) (d : UInt8) (rest : Bytes) (split : p = line.text ++ d :: rest) (other : d ≠ cr) :
      RoundTaken slots p ((headerLoop slots (d :: rest)).push line.lowered line.header)

theorem headerLoop_taken (slots : Nat) (p : Bytes) : RoundTaken slots p (headerLoop (slots + 1) p) := by
  cases round : consumeHeaderLine p with
  | incomplete buffer =>
    have read := consumeHeaderLine_read p
    have result : headerLoop (slots + 1) p = .incomplete buffer := by rw [headerLoop, round]
    rw [round] at read
    rw [result]
    cases read with
    | incomplete name tail split field =>
      refine .incomplete _ (by rw [split, List.map_append, List.map_append, map_lowercased_twice]) fun q => ?_
      have same := consumeHeaderLine_lowercased name (tail ++ q) field
      rw [split, List.append_assoc, List.append_assoc, headerLoop, same, headerLoop]
  | failed err =>
    have read := consumeHeaderLine_read p
    have result : headerLoop (slots + 1) p = .failed err := by rw [headerLoop, round]
    rw [round] at read
    rw [result]
    cases read with
    | failed stays => exact .failed fun q => by rw [headerLoop, stays q]
  | stored lowered header rest =>
    obtain ⟨line, rfl, rfl, rfl⟩ := HeaderLine.stored_read round
    have again : ∀ tail q, headerLoop (slots + 1) (line.lowered ++ tail ++ q) =
        headerLoop (slots + 1) (line.text ++ tail ++ q) := by
      intro tail q
      rw [List.append_assoc, headerLoop_lowered, ← List.append_assoc]
    rw [headerLoop_line]
    rcases rest with _ | ⟨d, rest⟩
    · exact .incomplete _ (by simp [line.map_lowered]) fun q => by simpa using again [] q
    · by_cases ended : d = cr
      · subst ended
        rcases rest with _ | ⟨e, rest⟩
        · exact .incomplete _ (by simp [line.map_lowered]) (again [cr])
        · by_cases done : e = lf
          · subst done
            exact .last line rest rfl
          · simp only [if_true, done, if_false]
            refine .failed fun q => ?_
            rw [List.append_assoc, headerLoop_line]
            simp [done]
      · simp only [ended, if_false]
        exact .next line d rest rfl ended

theorem headerLoop_complete {slots : Nat} {p rest : Bytes} {headers : List Header}
    (complete : headerLoop slots p = .complete headers rest) :
    ∃ line lines, p = blockText (line :: lines) ++ cr :: lf :: rest ∧ (line :: lines).length ≤ slots ∧
      headers = (line :: lines).map FieldLine.header := by
  induction slots generalizing p headers with
  | zero => cases complete
  | succ slots ih =>
    have taken := headerLoop_taken slots p
    generalize headerLoop (slots + 1) p = result at taken complete
    cases taken with
    | incomplete buffer low again => cases complete
    | failed stays => cases complete
    | last line after split =>
      cases complete
      exact ⟨line, [], by rw [split]; simp [blockText], by simp, rfl⟩
    | next line d tail split other =>
      cases later : headerLoop slots (d :: tail) with
      | incomplete buffer => rw [later] at complete; cases complete
      | failed err => rw [later] at complete; cases complete
      | complete more after =>
        rw [later] at complete
        cases complete
        obtain ⟨next, lines, block, fits, rfl⟩ := ih later
        refine ⟨line, next :: lines, ?_, ?_, rfl⟩
        · rw [split, block]
          simp [blockText]
        · simp only [List.length_cons] at fits ⊢
          omega

theorem headerLoop_failed {slots : Nat} {p : Bytes} {err : HttpError} (failed : headerLoop slots p = .failed err)
    (q : Bytes) : headerLoop slots (p ++ q) = .failed err := by
  induction slots generalizing p with
  | zero => exact failed
  | succ slots ih =>
    have taken := headerLoop_taken slots p
    generalize result : headerLoop (slots + 1) p = found at taken failed
    cases taken with
    | incomplete buffer low again => cases failed
    | failed stays =>
      cases failed
      exact stays q
    | last line after split => cases failed
    | next line d tail split other =>
      cases later : headerLoop slots (d :: tail) with
      | incomplete buffer => rw [later] at failed; cases failed
      | complete more after => rw [later] at failed; cases failed
      | failed err =>
        rw [later] at failed
        cases failed
        have next := ih later
        rw [split, List.append_assoc, headerLoop_line]
        simp only [List.cons_append] at next ⊢
        simp [other, next, HeaderLines.push]

theorem headerLoop_incomplete {slots : Nat} {p buffer : Bytes} (incomplete : headerLoop slots p = .incomplete buffer) :
    buffer.map lowercased = p.map lowercased ∧ ∀ q, headerLoop slots (buffer ++ q) = headerLoop slots (p ++ q) := by
  induction slots generalizing p buffer with
  | zero => cases incomplete
  | succ slots ih =>
    have taken := headerLoop_taken slots p
    generalize result : headerLoop (slots + 1) p = found at taken incomplete
    cases taken with
    | incomplete buffer low again =>
      cases incomplete
      exact ⟨low, again⟩
    | failed stays => cases incomplete
    | last line after split => cases incomplete
    | next line d tail split other =>
      cases later : headerLoop slots (d :: tail) with
      | complete more after => rw [later] at incomplete; cases incomplete
      | failed err => rw [later] at incomplete; cases incomplete
      | incomplete more =>
        rw [later] at incomplete
        cases incomplete
        obtain ⟨low, again⟩ := ih later
        refine ⟨by simp only [List.map_append, line.map_lowered, split, low], fun q => ?_⟩
        obtain ⟨e, rest, rfl⟩ : ∃ e rest, more = e :: rest := by
          cases more with
          | nil => simp at low
          | cons e rest => exact ⟨e, rest, rfl⟩
        simp only [List.map_cons, List.cons.injEq] at low
        have start : e ≠ cr := fun same => other ((lowercased_eq_cr d).mp (low.1 ▸ (lowercased_eq_cr e).mpr same))
        have same := again q
        simp only [List.cons_append] at same
        rw [List.append_assoc, headerLoop_lowered, split, List.append_assoc, headerLoop_line, headerLoop_line]
        simp only [List.cons_append, start, other, if_false, same]

theorem ProxyParser.offset_eq_some {p : Bytes} {offset : Nat} :
    ProxyParser.offset p = some offset ↔ 4 ≤ p.length ∧
      (p.take 4 ≠ signature.take 4 ∧ offset = 0 ∨
        p.take 4 = signature.take 4 ∧ 16 ≤ p.length ∧ p.take 12 = signature ∧
          (p.getD 12 0 &&& 0xf0) >>> 4 = 2 ∧ 16 + hostLength p ≤ p.length ∧ hostLength p ≤ 36 ∧
          offset = 16 + hostLength p) := by
  unfold ProxyParser.offset
  grind

theorem ProxyParser.offset_of_prefix {x y : Bytes} {offset : Nat} (found : ProxyParser.offset (x ++ y) = some offset)
    (some : 4 ≤ x.length) (within : offset ≤ x.length) (z : Bytes) : ProxyParser.offset (x ++ z) = Option.some offset := by
  have take : ∀ (n : Nat) (w : Bytes), n ≤ x.length → (x ++ w).take n = x.take n :=
    fun n w less => List.take_append_of_le_length less
  have byte : ∀ (n : Nat) (w : Bytes), n < x.length → (x ++ w).getD n 0 = x.getD n 0 :=
    fun n w less => by simp only [List.getD_eq_getElem?_getD, List.getElem?_append_left less]
  rw [ProxyParser.offset_eq_some, take 4 _ some] at found ⊢
  refine ⟨by simp only [List.length_append]; omega, ?_⟩
  rcases found.2 with ⟨http, none⟩ | ⟨start, -, signed, version, -, small, size⟩
  · exact .inl ⟨http, none⟩
  · have enough : 16 ≤ x.length := by omega
    have host : ∀ w : Bytes, ProxyParser.hostLength (x ++ w) = ProxyParser.hostLength x := fun w => by
      simp only [ProxyParser.hostLength, byte 14 w (by omega), byte 15 w (by omega)]
    rw [take 12 _ (by omega)] at signed
    rw [byte 12 _ (by omega)] at version
    rw [host] at small size
    refine .inr ⟨start, by simp only [List.length_append]; omega, ?_, ?_, ?_, ?_, ?_⟩
    · rw [take 12 _ (by omega), signed]
    · rw [byte 12 _ (by omega), version]
    · simp only [host, List.length_append]; omega
    · rw [host]; exact small
    · rw [host]; exact size

theorem ProxyParser.offset_le {p : Bytes} {offset : Nat} (found : ProxyParser.offset p = some offset) :
    4 ≤ p.length ∧ offset ≤ p.length := by
  obtain ⟨some, none | long⟩ := ProxyParser.offset_eq_some.mp found <;> omega

/-- A complete request line, of a method that signed characters scan to its space and an origin-form target. -/
structure RequestText where
  method : Bytes
  target : Bytes
  scanned : ∀ c ∈ method, 32 < c ∧ c < 128
  origin : target.head? = some 47
  visible : ∀ c ∈ target, 32 < c

def RequestText.text (line : RequestText) : Bytes := line.method ++ space :: line.target ++ versionLine

theorem length_versionLine : versionLine.length = 11 := rfl

theorem RequestText.consumed (line : RequestText) (q : Bytes) :
    consumeRequestLine (line.method ++ space :: line.target ++ q) = consumeTarget line.method (line.target ++ q) := by
  obtain ⟨t, target⟩ := List.head?_eq_some_iff.mp line.origin
  have method : ∀ c ∈ line.method, (decide (32 < c) && decide (c < 128)) = true := by
    intro c member
    simpa using line.scanned c member
  have shape : line.method ++ space :: line.target ++ q = line.method ++ space :: 47 :: (t ++ q) := by
    simp [target]
  rw [shape]
  simp only [consumeRequestLine, List.takeWhile_append_of_pos method, List.dropWhile_append_of_pos method,
    List.takeWhile_cons, List.dropWhile_cons, show (decide (32 < space) && decide (space < 128)) = false by decide,
    Bool.false_eq_true, if_false, List.append_nil, and_self, if_true, target, List.cons_append]

theorem RequestText.scanned_target (line : RequestText) (q : Bytes) (stop : ∀ c ∈ q.head?, ¬ 32 < c) :
    (line.target ++ q).takeWhile (32 < ·) = line.target ∧ (line.target ++ q).dropWhile (32 < ·) = q := by
  have visible : ∀ c ∈ line.target, decide (32 < c) = true := by
    intro c member
    simpa using line.visible c member
  rw [List.takeWhile_append_of_pos visible, List.dropWhile_append_of_pos visible]
  cases q with
  | nil => simp
  | cons c q =>
    have own : ¬ 32 < c := stop c rfl
    simp [own]

theorem RequestText.consumed_version (line : RequestText) (q : Bytes) (stop : ∀ c ∈ q.head?, ¬ 32 < c) :
    consumeRequestLine (line.method ++ space :: line.target ++ q) =
      if q.take 11 = versionLine.take q.length then
        if q.length ≤ 11 then .incomplete else .complete line.method line.target (q.drop 11)
      else if 11 < q.length ∧ q.head? = some cr then .incomplete
      else .failed .httpVersionNotSupported := by
  obtain ⟨take, drop⟩ := line.scanned_target q stop
  rw [line.consumed]
  simp only [consumeTarget, take, drop]
  by_cases short : q.length ≤ 11
  · rw [List.take_of_length_le short]
    simp [short, Nat.not_lt.mpr short, eq_comm]
  · rw [List.take_of_length_le (show versionLine.length ≤ q.length by rw [length_versionLine]; omega)]
    simp [short, Nat.lt_of_not_le short]

theorem consumeRequestLine_line (line : RequestText) (rest : Bytes) (some : rest ≠ []) :
    consumeRequestLine (line.text ++ rest) = .complete line.method line.target rest := by
  have more : 0 < rest.length := List.length_pos_of_ne_nil some
  have long : ¬ (versionLine ++ rest).length ≤ 11 := by
    simp only [List.length_append, length_versionLine]
    omega
  have first : ∀ c ∈ (versionLine ++ rest).head?, ¬ 32 < c := by
    intro c member
    cases member
    decide
  have own : (versionLine ++ rest).take 11 = versionLine.take (versionLine ++ rest).length := by
    rw [List.take_of_length_le (show versionLine.length ≤ _ by rw [length_versionLine]; omega)]
    rfl
  rw [RequestText.text, List.append_assoc, line.consumed_version _ first, if_pos own, if_neg long]
  rfl

def targetEnd (data : Bytes) : Option UInt8 :=
  match data.dropWhile fun c => 32 < c && c < 128 with
  | b :: c :: q => if b = space ∧ c = 47 then ((c :: q).dropWhile (32 < ·)).head? else none
  | _ => none

theorem targetEnd_append (line : RequestText) (q : Bytes) (stop : ∀ c ∈ q.head?, ¬ 32 < c) :
    targetEnd (line.method ++ space :: line.target ++ q) = q.head? := by
  obtain ⟨t, target⟩ := List.head?_eq_some_iff.mp line.origin
  have method : ∀ c ∈ line.method, (decide (32 < c) && decide (c < 128)) = true := by
    intro c member
    simpa using line.scanned c member
  have drop := (line.scanned_target q stop).2
  have shape : line.method ++ space :: line.target ++ q = line.method ++ space :: 47 :: (t ++ q) := by
    simp [target]
  rw [target] at drop
  rw [shape]
  simp only [targetEnd, List.dropWhile_append_of_pos method, List.dropWhile_cons,
    show (decide (32 < space) && decide (space < 128)) = false by decide, Bool.false_eq_true, if_false, and_self,
    if_true]
  exact congrArg List.head? drop

theorem consumeRequestLine_shape (p : Bytes) :
    (∃ line : RequestText, ∃ q, p = line.method ++ space :: line.target ++ q ∧ ∀ c ∈ q.head?, ¬ 32 < c) ∨
      (∀ method target rest, consumeRequestLine p ≠ .complete method target rest) ∧ targetEnd p = none ∧
        ∀ err, consumeRequestLine p = .failed err → ∀ q, consumeRequestLine (p ++ q) = .failed err := by
  have split := List.takeWhile_append_dropWhile (p := fun c : UInt8 => decide (32 < c) && decide (c < 128)) (l := p)
  have scanned : ∀ c ∈ p.takeWhile (fun c => decide (32 < c) && decide (c < 128)), 32 < c ∧ c < 128 := by
    intro c member
    have own := List.mem_takeWhile_imp member
    simpa using own
  cases tail : p.dropWhile (fun c => decide (32 < c) && decide (c < 128)) with
  | nil => simp [consumeRequestLine, targetEnd, tail]
  | cons b tail' =>
    cases tail' with
    | nil => simp [consumeRequestLine, targetEnd, tail]
    | cons c q =>
      by_cases slash : b = space ∧ c = 47
      · obtain ⟨rfl, rfl⟩ := slash
        have target := List.takeWhile_append_dropWhile (p := fun c : UInt8 => decide (32 < c)) (l := 47 :: q)
        have visible : ∀ c ∈ (47 :: q).takeWhile (fun c : UInt8 => decide (32 < c)), 32 < c := by
          intro c member
          simpa using List.mem_takeWhile_imp member
        have stops := List.head?_dropWhile_not (fun c : UInt8 => decide (32 < c)) (47 :: q)
        have origin : ((47 :: q).takeWhile (fun c : UInt8 => decide (32 < c))).head? = some 47 := by simp
        refine .inl ⟨⟨_, _, scanned, origin, visible⟩, (47 :: q).dropWhile (fun c : UInt8 => decide (32 < c)), ?_, ?_⟩
        · rw [List.append_assoc, List.cons_append, target, ← tail]
          exact split.symm
        · intro c member
          rw [Option.mem_def.mp member] at stops
          simpa using stops
      · have none : targetEnd p = none := by simp only [targetEnd, tail, slash, if_false]
        refine .inr ?_
        by_cases fence : b = cr
        · have result : consumeRequestLine p = .incomplete := by
            simp only [consumeRequestLine, tail]
            rw [if_neg slash, if_pos fence]
          simp [result, none]
        · have result : ∀ q', consumeRequestLine (p ++ q') = .failed .httpVersionNotSupported := by
            intro q'
            simp only [consumeRequestLine, dropWhile_stop tail, List.cons_append, slash, if_false, fence]
          have own := result []
          rw [List.append_nil] at own
          refine ⟨by simp [own], none, fun err failed q' => ?_⟩
          rw [own] at failed
          cases failed
          exact result q'

theorem consumeRequestLine_complete {p method target rest : Bytes}
    (complete : consumeRequestLine p = .complete method target rest) :
    ∃ line : RequestText, p = line.text ++ rest ∧ rest ≠ [] ∧ line.method = method ∧ line.target = target := by
  rcases consumeRequestLine_shape p with ⟨line, q, rfl, stop⟩ | ⟨none, -⟩
  · rw [line.consumed_version q stop] at complete
    split at complete
    · rename_i version
      split at complete
      · cases complete
      · rename_i long
        rw [List.take_of_length_le (show versionLine.length ≤ q.length by rw [length_versionLine]; omega)] at version
        cases complete
        have split := List.take_append_drop 11 q
        rw [version] at split
        refine ⟨line, ?_, ?_, rfl, rfl⟩
        · rw [RequestText.text, List.append_assoc (line.method ++ _), split]
        · intro empty
          have size := congrArg List.length empty
          simp only [List.length_drop, List.length_nil] at size
          omega
    · split at complete <;> cases complete
  · exact absurd complete (none _ _ _)

theorem version_mismatch (tail q : Bytes) (other : ¬ tail.take 11 = versionLine.take tail.length) :
    ¬ (tail ++ q).take 11 = versionLine.take (tail ++ q).length := by
  intro same
  have front := congrArg (List.take tail.length) same
  simp only [List.take_take, List.length_append, Nat.min_eq_left (Nat.le_add_right _ _)] at front
  rw [Nat.min_comm, ← List.take_take, List.take_left'] at front
  · exact other front
  · rfl

theorem consumeRequestLine_failed {p : Bytes} {err : HttpError} (failed : consumeRequestLine p = .failed err) (q : Bytes) :
    consumeRequestLine (p ++ q) = .failed err ∨ targetEnd p = some cr := by
  rcases consumeRequestLine_shape p with ⟨line, tail, rfl, stop⟩ | ⟨-, -, stays⟩
  · by_cases fence : tail.head? = some cr
    · exact .inr ((targetEnd_append line tail stop).trans fence)
    · have some : tail ≠ [] := by
        rintro rfl
        rw [line.consumed_version [] stop] at failed
        cases failed
      obtain ⟨c, rest, rfl⟩ := List.exists_cons_of_ne_nil some
      have stop' : ∀ b ∈ (c :: rest ++ q).head?, ¬ 32 < b := stop
      have fence' : ¬ (c :: rest ++ q).head? = Option.some cr := fence
      refine .inl ?_
      rw [line.consumed_version _ stop] at failed
      rw [List.append_assoc, line.consumed_version _ stop']
      have other := version_mismatch (c :: rest) q
      by_cases same : (c :: rest).take 11 = versionLine.take (c :: rest).length
      · rw [if_pos same] at failed
        split at failed <;> cases failed
      · rw [if_neg same, if_neg (fun both => fence both.2)] at failed
        rw [if_neg (other same), if_neg (fun both => fence' both.2)]
        exact failed
  · exact .inl (stays err failed q)

theorem requestHeaders_line (line : RequestText) (rest : Bytes) (some : rest ≠ []) :
    requestHeaders (line.text ++ rest) =
      match headerLoop (maxHeadersCount - 2) rest with
      | .incomplete buffer => .incomplete (line.text ++ buffer)
      | .failed err => .failed err
      | .complete headers rest => .complete { method := line.method, target := line.target, headers := headers } rest := by
  have front : (line.text ++ rest).take ((line.text ++ rest).length - rest.length) = line.text := by
    rw [List.length_append, Nat.add_sub_cancel]
    exact List.take_left' rfl
  cases looped : headerLoop (maxHeadersCount - 2) rest <;>
    simp only [requestHeaders, consumeRequestLine_line line rest some, front, looped]

theorem RequestText.length_text (line : RequestText) : 13 ≤ line.text.length := by
  obtain ⟨t, target⟩ := List.head?_eq_some_iff.mp line.origin
  simp only [RequestText.text, target, List.length_append, List.length_cons, length_versionLine]
  omega

/-- The bytes of a complete head behind the PROXY header. -/
structure HeadText extends RequestText where
  line : FieldLine
  lines : List FieldLine
  fits : (line :: lines).length ≤ maxHeadersCount - 2

namespace HeadText

def fields (head : HeadText) : List FieldLine := head.line :: head.lines

def headText (head : HeadText) : Bytes := head.text ++ blockText head.fields ++ [cr, lf]

def request (head : HeadText) : HttpRequest :=
  { method := head.method, target := head.target, headers := head.fields.map FieldLine.header }

theorem read (head : HeadText) (rest : Bytes) : requestHeaders (head.headText ++ rest) = .complete head.request rest := by
  have block := headerLoop_block _ head.line head.lines rest head.fits
  have shape : head.headText ++ rest = head.text ++ (blockText (head.line :: head.lines) ++ cr :: lf :: rest) := by
    simp [headText, fields]
  rw [shape, requestHeaders_line head.toRequestText _ (by simp), block]
  rfl

theorem length_headText (head : HeadText) : 13 ≤ head.headText.length := by
  have line := head.length_text
  simp only [headText, List.length_append]
  omega

end HeadText

theorem requestHeaders_complete {p rest : Bytes} {req : HttpRequest} (complete : requestHeaders p = .complete req rest) :
    ∃ head : HeadText, p = head.headText ++ rest ∧ req = head.request := by
  unfold requestHeaders at complete
  split at complete
  · cases complete
  · cases complete
  · rename_i method target q scanned
    obtain ⟨line, rfl, -, rfl, rfl⟩ := consumeRequestLine_complete scanned
    split at complete
    · cases complete
    · cases complete
    · rename_i headers after looped
      cases complete
      obtain ⟨first, lines, rfl, fits, rfl⟩ := headerLoop_complete looped
      exact ⟨⟨line, first, lines, fits⟩, by simp [HeadText.headText, HeadText.fields], rfl⟩

theorem getHeaders_complete {p rest : Bytes} {req : HttpRequest} (complete : getHeaders p = .complete req rest) :
    ∃ proxy, ∃ head : HeadText, p = proxy ++ head.headText ++ rest ∧ req = head.request ∧
      ∀ q, ProxyParser.offset (proxy ++ head.headText ++ q) = some proxy.length ∧
        getHeaders (proxy ++ head.headText ++ q) = .complete req q := by
  unfold getHeaders at complete
  split at complete
  · cases complete
  · rename_i offset found
    obtain ⟨-, within⟩ := ProxyParser.offset_le found
    have result : requestHeaders (p.drop offset) = .complete req rest := by
      cases inner : requestHeaders (p.drop offset) with
      | incomplete buffer => rw [inner] at complete; cases complete
      | failed err => rw [inner] at complete; cases complete
      | complete req' rest' => rw [inner] at complete; exact complete
    obtain ⟨head, block, rfl⟩ := requestHeaders_complete result
    have size : (p.take offset).length = offset := List.length_take_of_le within
    have split : p = p.take offset ++ head.headText ++ rest := by
      rw [List.append_assoc, ← block, List.take_append_drop]
    refine ⟨p.take offset, head, split, rfl, fun q => ?_⟩
    have long := head.length_headText
    rw [split] at found
    have same := ProxyParser.offset_of_prefix found (by simp only [List.length_append]; omega)
      (by simp only [List.length_append, size]; omega) q
    refine ⟨by rw [size]; exact same, ?_⟩
    have back : (p.take offset ++ head.headText ++ q).drop offset = head.headText ++ q := by
      rw [List.append_assoc, List.drop_left' size]
    simp only [getHeaders, same, back, head.read]

def crTarget (data : Bytes) : Bool :=
  match ProxyParser.offset data with
  | none => false
  | some offset => targetEnd (data.drop offset) == some cr

theorem offset_append {p : Bytes} {offset : Nat} (found : ProxyParser.offset p = some offset) (q : Bytes) :
    ProxyParser.offset (p ++ q) = some offset ∧ (p ++ q).drop offset = p.drop offset ++ q := by
  obtain ⟨long, within⟩ := ProxyParser.offset_le found
  rw [← List.append_nil p] at found
  exact ⟨ProxyParser.offset_of_prefix found long within q, List.drop_append_of_le_length within⟩

theorem requestHeaders_failed {p : Bytes} {err : HttpError} (failed : requestHeaders p = .failed err) (q : Bytes) :
    requestHeaders (p ++ q) = .failed err ∨ targetEnd p = some cr := by
  unfold requestHeaders at failed
  split at failed
  · cases failed
  · rename_i e scanned
    cases failed
    rcases consumeRequestLine_failed scanned q with stays | ended
    · exact .inl (by simp only [requestHeaders, stays])
    · exact .inr ended
  · rename_i method target rest scanned
    obtain ⟨line, rfl, some, rfl, rfl⟩ := consumeRequestLine_complete scanned
    split at failed
    · cases failed
    · rename_i e looped
      cases failed
      refine .inl ?_
      rw [List.append_assoc, requestHeaders_line line (rest ++ q) (by simp [some]), headerLoop_failed looped q]
    · cases failed

theorem getHeaders_failed {p : Bytes} {err : HttpError} (failed : getHeaders p = .failed err) (q : Bytes) :
    getHeaders (p ++ q) = .failed err ∨ crTarget p = true := by
  unfold getHeaders at failed
  split at failed
  · cases failed
  · rename_i offset found
    obtain ⟨same, back⟩ := offset_append found q
    have result : requestHeaders (p.drop offset) = .failed err := by
      cases inner : requestHeaders (p.drop offset) with
      | incomplete buffer => rw [inner] at failed; cases failed
      | failed err => rw [inner] at failed; exact failed
      | complete req' rest' => rw [inner] at failed; cases failed
    rcases requestHeaders_failed result q with stays | ended
    · exact .inl (by simp only [getHeaders, same, back, stays])
    · exact .inr (by simp [crTarget, found, ended])

theorem requestHeaders_incomplete {p buffer : Bytes} (incomplete : requestHeaders p = .incomplete buffer) :
    buffer.map lowercased = p.map lowercased ∧ (∀ q, requestHeaders (buffer ++ q) = requestHeaders (p ++ q)) ∧
      (buffer = p ∨ ∃ front left rest, 13 ≤ front.length ∧ p = front ++ rest ∧ buffer = front ++ left) := by
  rcases Decidable.em (buffer = p) with same | changed
  · subst same
    exact ⟨rfl, fun _ => rfl, .inl rfl⟩
  · cases scanned : consumeRequestLine p with
    | incomplete =>
      simp only [requestHeaders, scanned] at incomplete
      cases incomplete
      exact absurd rfl changed
    | failed err =>
      simp only [requestHeaders, scanned] at incomplete
      cases incomplete
    | complete method target rest =>
      obtain ⟨line, rfl, some, rfl, rfl⟩ := consumeRequestLine_complete scanned
      rw [requestHeaders_line line rest some] at incomplete
      split at incomplete
      · rename_i left looped
        cases incomplete
        obtain ⟨low, again⟩ := headerLoop_incomplete looped
        have nonempty : left ≠ [] := by
          rintro rfl
          cases rest with
          | nil => exact some rfl
          | cons c rest => simp at low
        refine ⟨by rw [List.map_append, List.map_append, low], fun q => ?_,
          .inr ⟨line.text, left, rest, line.length_text, rfl, rfl⟩⟩
        rw [List.append_assoc, List.append_assoc, requestHeaders_line line _ (by simp [nonempty]),
          requestHeaders_line line _ (by simp [some]), again q]
      · cases incomplete
      · cases incomplete

theorem getHeaders_incomplete {p buffer : Bytes} (incomplete : getHeaders p = .incomplete buffer) :
    buffer.length = p.length ∧ ∀ q, getHeaders (buffer ++ q) = getHeaders (p ++ q) := by
  unfold getHeaders at incomplete
  split at incomplete
  · cases incomplete
    exact ⟨rfl, fun _ => rfl⟩
  · rename_i offset found
    obtain ⟨-, within⟩ := ProxyParser.offset_le found
    cases inner : requestHeaders (p.drop offset) with
    | failed err => rw [inner] at incomplete; cases incomplete
    | complete req' rest' => rw [inner] at incomplete; cases incomplete
    | incomplete left =>
      rw [inner] at incomplete
      cases incomplete
      obtain ⟨low, again, front⟩ := requestHeaders_incomplete inner
      have size : (p.take offset).length = offset := List.length_take_of_le within
      have length := congrArg List.length low
      simp only [List.length_map, List.length_drop] at length
      refine ⟨by rw [List.length_append, size]; omega, fun q => ?_⟩
      rcases front with rfl | ⟨front, left, rest, long, split, rfl⟩
      · rw [List.take_append_drop]
      · have whole : p = p.take offset ++ front ++ rest := by
          rw [List.append_assoc, ← split, List.take_append_drop]
        obtain ⟨same, back⟩ := offset_append found q
        rw [whole] at found
        have lowered := ProxyParser.offset_of_prefix found (by simp only [List.length_append]; omega)
          (by simp only [List.length_append, size]; omega) (left ++ q)
        have drop : (p.take offset ++ (front ++ left) ++ q).drop offset = front ++ left ++ q := by
          rw [List.append_assoc, List.drop_left' size]
        have take : (p.take offset ++ (front ++ left) ++ q).take offset = p.take offset := by
          rw [List.append_assoc, List.take_left' size]
        have take' : (p ++ q).take offset = p.take offset := List.take_append_of_le_length within
        have found' : ProxyParser.offset (p.take offset ++ (front ++ left) ++ q) = some offset := by
          rw [← lowered]
          simp only [List.append_assoc]
        simp only [getHeaders, found', same, drop, back, again q, take, take']

end Uws.Http
