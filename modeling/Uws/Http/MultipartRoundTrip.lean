import Uws.Http.MultipartViews

namespace Uws.Http

open Uws.TextSearch MultipartParser MessageParser

structure Boundary where
  text : Bytes
  sized : 1 ≤ text.length ∧ text.length ≤ 70
  plain : ∀ c ∈ text, c ≠ cr ∧ c ≠ lf ∧ c ≠ semicolon

namespace Boundary

def delimiter (boundary : Boundary) : Bytes := hyphen :: hyphen :: boundary.text

/-- The content types that tell the boundary: with quotes, and without them if it is a token. -/
inductive Announced (boundary : Boundary) : Bytes → Prop
  | quoted : Announced boundary (ascii "multipart/form-data; boundary=" ++ quote :: boundary.text ++ [quote])
  | bare (token : ∀ c ∈ boundary.text, isTchar c = true) :
    Announced boundary (ascii "multipart/form-data; boundary=" ++ boundary.text)

end Boundary

/-- A part of a form: its body does not hold a line end and the delimiter. -/
structure FormPart (boundary : Boundary) where
  headers : List PartHeader
  body : Bytes
  few : headers.length < 100
  apart : ¬ cr :: lf :: boundary.delimiter <:+: body

def encodeMultipart (boundary : Boundary) (parts : List (FormPart boundary)) : Bytes :=
  boundary.delimiter ++
    (parts.flatMap fun part => cr :: lf :: blockOf part.headers ++ cr :: lf :: part.body ++ cr :: lf :: boundary.delimiter) ++
    [hyphen, hyphen, cr, lf]

/-- The texts of a part; a body that is no view has none. -/
structure PartTexts where
  headers : List (Bytes × Bytes)
  body : Option Bytes
  deriving DecidableEq

def MultipartParser.Delivered.texts (part : Delivered) : PartTexts :=
  ⟨part.headers.map headerTexts, part.data.map BodyView.text⟩

def FormPart.texts {boundary : Boundary} (part : FormPart boundary) : PartTexts :=
  ⟨part.headers.map fun header => (header.name.map lowerAscii, header.value), some part.body⟩

namespace MultipartParser

def partsOf (contentType body : Bytes) : List Delivered × Bool :=
  ((ofContentType contentType).setBody body).getParts (body.length + 1)

end MultipartParser

/-- The delimiter is not in the part's headers or body, its header lines up to the empty one are less than 2^31 bytes, its
names have no `^` and no `_`, and no value starts with a colon or a byte below 33. -/
structure FormPart.Kept {boundary : Boundary} (part : FormPart boundary) : Prop where
  counted : (blockOf part.headers).length + 2 < 2 ^ 31
  undivided : ¬ boundary.delimiter <:+: innerOf part.headers part.body
  names : ∀ header ∈ part.headers, ∀ c ∈ header.name, c ≠ 94 ∧ c ≠ 95
  values : ∀ header ∈ part.headers, ∀ c, header.value.head? = some c → c ≠ colon ∧ 33 ≤ c

section ContentType

variable {boundary : Boundary} {contentType : Bytes}

theorem trimmed_quoted (text : Bytes) :
    ((quote :: text ++ [quote]).dropWhile isPadding).rdropWhile isPadding = quote :: text ++ [quote] := by
  have front : (quote :: text ++ [quote]).dropWhile isPadding = quote :: text ++ [quote] := List.dropWhile_cons_of_neg (by decide)
  rw [front, List.rdropWhile_concat_neg _ _ _ (by decide)]

theorem blank_token {c : UInt8} (token : isTchar c = true) : isPadding c = false ∧ c ≠ quote := by
  refine ⟨?_, ?_⟩
  · by_contra blank
    rcases Bool.or_eq_true_iff.mp (eq_true_of_ne_false blank) with same | same <;>
    · rw [eq_of_beq same] at token
      exact absurd token (by decide)
  · rintro rfl
    exact absurd token (by decide)

theorem trimmed_token {text : Bytes} (token : ∀ c ∈ text, isTchar c = true) :
    (text.dropWhile isPadding).rdropWhile isPadding = text := by
  have front : text.dropWhile isPadding = text := by
    cases text with
    | nil => rfl
    | cons c text => exact List.dropWhile_cons_of_neg (by rw [(blank_token (token c List.mem_cons_self)).1]; decide)
  rw [front, List.rdropWhile_eq_self_iff]
  intro some_ blank
  rw [(blank_token (token _ (List.getLast_mem some_))).1] at blank
  cases blank

theorem form_prefix : (ascii "multipart/form-data; boundary=").take 10 = ascii "multipart/" ∧
    (ascii "multipart/form-data; boundary=").drop 10 = ascii "form-data; " ++ ascii "boundary=" ∧
    10 ≤ (ascii "multipart/form-data; boundary=").length ∧ (ascii "boundary=").head? = some 98 ∧ 98 ∉ ascii "form-data; " := by
  decide +kernel

theorem boundary_found (text : Bytes) :
    (ascii "multipart/form-data; boundary=" ++ text).take 10 = ascii "multipart/" ∧
      splitAtFirst (ascii "boundary=") ((ascii "multipart/form-data; boundary=" ++ text).drop 10) =
        some (ascii "form-data; ", text) := by
  obtain ⟨front, back, long, head, apart⟩ := form_prefix
  rw [List.take_append_of_le_length long, List.drop_append_of_le_length long, back]
  refine ⟨front, splitAtFirst_first _ _ ?_⟩
  intro i below found
  rw [List.append_assoc, List.drop_append_of_le_length (Nat.le_of_lt below)] at found
  cases place : (ascii "form-data; ").drop i with
  | nil => exact absurd (List.drop_eq_nil_iff.mp place) (by omega)
  | cons c rest =>
    rw [place] at found
    obtain ⟨last, own⟩ := found
    have same := congrArg List.head? own
    rw [List.head?_append, head] at same
    cases same
    apply apart
    apply List.mem_of_mem_drop
    rw [place]
    exact List.mem_cons_self

theorem ofContentType_announced (announced : boundary.Announced contentType) :
    ofContentType contentType = { prependedBoundary := boundary.delimiter } := by
  have sized : ¬ (boundary.text.length = 0 ∨ 70 < boundary.text.length) := by
    have := boundary.sized
    omega
  have plain : ∀ c ∈ boundary.text, decide (c ≠ semicolon) = true := fun c member =>
    decide_eq_true (boundary.plain c member).2.2
  cases announced with
  | quoted =>
    have whole : ∀ c ∈ quote :: boundary.text ++ [quote], decide (c ≠ semicolon) = true := by
      intro c member
      rcases List.mem_append.mp member with front | last
      · rcases List.mem_cons.mp front with rfl | inner
        · decide
        · exact plain c inner
      · rw [List.mem_singleton.mp last]
        decide
    have quotes : 2 ≤ (quote :: boundary.text ++ [quote]).length ∧ (quote :: boundary.text ++ [quote]).head? = some quote ∧
        (quote :: boundary.text ++ [quote]).getLast? = some quote := by
      refine ⟨?_, rfl, List.getLast?_concat⟩
      rw [List.length_append, List.length_cons, List.length_singleton]
      omega
    have inner : (quote :: boundary.text ++ [quote]).tail.dropLast = boundary.text := List.dropLast_concat
    rw [List.append_assoc]
    obtain ⟨kind, found⟩ := boundary_found (quote :: boundary.text ++ [quote])
    unfold ofContentType
    rw [if_neg (not_not_intro kind), found]
    dsimp only
    rw [List.takeWhile_eq_self_iff.mpr whole, trimmed_quoted, if_pos quotes, inner, if_neg sized]
    rfl
  | bare token =>
    have open_ : ¬ (2 ≤ boundary.text.length ∧ boundary.text.head? = some quote ∧ boundary.text.getLast? = some quote) :=
      fun quotes => (blank_token (token quote (List.mem_of_mem_head? quotes.2.1))).2 rfl
    obtain ⟨kind, found⟩ := boundary_found boundary.text
    unfold ofContentType
    rw [if_neg (not_not_intro kind), found]
    dsimp only
    rw [List.takeWhile_eq_self_iff.mpr plain, trimmed_token token, if_neg open_, if_neg sized]
    rfl

end ContentType

section Iteration

variable {boundary : Boundary}

def partsText (boundary : Boundary) : List (FormPart boundary) → Bytes
  | [] => [hyphen, hyphen, cr, lf]
  | part :: parts => regionOf part.headers part.body ++ boundary.delimiter ++ partsText boundary parts

theorem encodeMultipart_parts (parts : List (FormPart boundary)) :
    encodeMultipart boundary parts = boundary.delimiter ++ partsText boundary parts := by
  rw [encodeMultipart, List.append_assoc]
  apply congrArg
  induction parts with
  | nil => rfl
  | cons part parts ih =>
    rw [List.flatMap_cons, List.append_assoc, ih, partsText, regionOf, innerOf]
    simp

def behind (boundary : Boundary) (offset : Nat) (parts : List (FormPart boundary)) : MultipartParser :=
  { prependedBoundary := boundary.delimiter, remainingBody := partsText boundary parts, offset := offset, first := false }

theorem delimiter_plain {c : UInt8} (member : c ∈ boundary.delimiter) : c ≠ cr ∧ c ≠ lf := by
  rcases List.mem_cons.mp member with rfl | member
  · decide
  · rcases List.mem_cons.mp member with rfl | member
    · decide
    · exact ⟨(boundary.plain c member).1, (boundary.plain c member).2.1⟩

theorem delimiter_long : 3 ≤ boundary.delimiter.length := by
  have := boundary.sized
  rw [Boundary.delimiter, List.length_cons, List.length_cons]
  omega

theorem delimiter_line {c : UInt8} {text : Bytes} (ends : c = cr ∨ c = lf) (inside : boundary.delimiter <:+: text ++ [c]) :
    boundary.delimiter <:+: text := by
  rcases List.infix_concat_iff.mp inside with back | later
  · have member : c ∈ boundary.delimiter := by
      rcases List.suffix_concat_iff.mp back with empty | ⟨front, own, -⟩
      · cases empty
      · rw [own]
        exact List.mem_append_right _ (List.mem_singleton_self c)
    rcases ends with rfl | rfl
    · exact absurd rfl (delimiter_plain member).1
    · exact absurd rfl (delimiter_plain member).2
  · exact later

theorem delimiter_region {headers : List PartHeader} {body : Bytes} (inside : boundary.delimiter <:+: regionOf headers body) :
    boundary.delimiter <:+: innerOf headers body := by
  have start : ∀ {c : UInt8} {text : Bytes}, c = cr ∨ c = lf → boundary.delimiter <:+: c :: text → boundary.delimiter <:+: text := by
    intro c text ends inside
    rcases List.infix_cons_iff.mp inside with front | later
    · have same := (List.cons_prefix_cons.mp front).1
      rcases ends with rfl | rfl <;> exact absurd same (by decide)
    · exact later
  have text : regionOf headers body = cr :: lf :: (innerOf headers body ++ [cr] ++ [lf]) := by
    rw [regionOf, List.append_assoc]
    rfl
  rw [text] at inside
  exact delimiter_line (.inl rfl) (delimiter_line (.inr rfl) (start (.inr rfl) (start (.inl rfl) inside)))

theorem takeBoundary_short {parser : MultipartParser} (short : parser.remainingBody.length < parser.prependedBoundary.length) :
    parser.takeBoundary = none := by
  unfold takeBoundary
  cases split : splitAtFirst parser.prependedBoundary parser.remainingBody with
  | none => rfl
  | some found =>
    have whole := congrArg List.length (splitAtFirst_eq split)
    rw [List.length_append, List.length_append] at whole
    omega

theorem getNextPart_begun {parser : MultipartParser} (begun : parser.first = false) :
    parser.getNextPart = match parser.takeBoundary with
      | none => (none, parser)
      | some (part, next) => (parsePart parser.offset part (parser.prependedBoundary ++ next.remainingBody), next) := by
  unfold getNextPart
  dsimp only
  by_cases short : parser.remainingBody.length < parser.prependedBoundary.length
  · rw [if_pos short, takeBoundary_short short]
  · rw [if_neg short, begun]
    rfl

theorem getNextPart_first {parser next : MultipartParser} {before : Bytes} (first : parser.first = true)
    (taken : parser.takeBoundary = some (before, next)) : parser.getNextPart = next.getNextPart := by
  have begun : next.first = false := by
    obtain ⟨found, -, own⟩ := Option.map_eq_some_iff.mp taken
    cases own
    rfl
  have long : ¬ parser.remainingBody.length < parser.prependedBoundary.length := by
    intro short
    rw [takeBoundary_short short] at taken
    cases taken
  rw [getNextPart_begun begun]
  unfold getNextPart
  dsimp only
  rw [if_neg long, if_pos first, taken]
  rfl

theorem getNextPart_behind {offset : Nat} {part : FormPart boundary} {parts : List (FormPart boundary)} {before after : Bytes}
    (split : splitAtFirst boundary.delimiter (partsText boundary (part :: parts)) = some (before, after)) :
    (behind boundary offset (part :: parts)).getNextPart =
      (parsePart offset before (boundary.delimiter ++ after),
        { prependedBoundary := boundary.delimiter, remainingBody := after,
          offset := offset + before.length + boundary.delimiter.length, first := false }) := by
  have taken : (behind boundary offset (part :: parts)).takeBoundary = some (before,
      { prependedBoundary := boundary.delimiter, remainingBody := after,
        offset := offset + before.length + boundary.delimiter.length, first := false }) := by
    show (splitAtFirst boundary.delimiter (partsText boundary (part :: parts))).map _ = _
    rw [split]
    rfl
  rw [getNextPart_begun rfl, taken]
  rfl

theorem getNextPart_undivided {offset : Nat} {part : FormPart boundary} (parts : List (FormPart boundary))
    (undivided : ¬ boundary.delimiter <:+: innerOf part.headers part.body) :
    ∃ (views : List (BodyView × BodyView)) (next : Nat), views.map headerTexts = part.headers.map PartHeader.read ∧
      (behind boundary offset (part :: parts)).getNextPart =
        (stripHeaders ⟨offset + 2, innerOf part.headers part.body⟩ (UInt32.ofNat ((blockOf part.headers).length + 2)) views,
          behind boundary next parts) := by
  have apart : lf ∉ boundary.delimiter := fun member => (delimiter_plain member).2 rfl
  have text : regionOf part.headers part.body = cr :: lf :: (innerOf part.headers part.body ++ [cr]) ++ [lf] := by
    rw [regionOf, List.cons_append, List.cons_append, List.append_assoc]
    rfl
  have split : splitAtFirst boundary.delimiter (partsText boundary (part :: parts)) =
      some (regionOf part.headers part.body, partsText boundary parts) := by
    apply splitAtFirst_first
    intro i inside
    rw [List.append_assoc]
    rw [text] at inside ⊢
    apply no_crossing apart _ inside
    rw [← text]
    exact fun region => undivided (delimiter_region region)
  obtain ⟨views, headers, parsed⟩ := @parsePart_whole offset part.headers part.body
    (boundary.delimiter ++ partsText boundary parts) part.few
  refine ⟨views, offset + (regionOf part.headers part.body).length + boundary.delimiter.length, headers, ?_⟩
  rw [getNextPart_behind split, parsed]
  rfl

theorem getNextPart_counted {offset : Nat} {part : FormPart boundary} (parts : List (FormPart boundary))
    (undivided : ¬ boundary.delimiter <:+: innerOf part.headers part.body) (counted : (blockOf part.headers).length + 2 < 2 ^ 31) :
    ∃ (delivered : Delivered) (next : Nat),
      (behind boundary offset (part :: parts)).getNextPart = (some delivered, behind boundary next parts) ∧
        delivered.texts = ⟨part.headers.map PartHeader.read, some part.body⟩ := by
  obtain ⟨views, next, headers, step⟩ := @getNextPart_undivided boundary offset part parts undivided
  rw [stripHeaders_small counted (by rw [innerOf_length]; omega), if_neg (Nat.succ_ne_zero _)] at step
  refine ⟨_, next, step, ?_⟩
  rw [Delivered.texts, headers]
  show PartTexts.mk _ (some ((innerOf part.headers part.body).drop ((blockOf part.headers).length + 2))) = _
  rw [innerOf_drop]

theorem getNextPart_uncounted {offset : Nat} {part : FormPart boundary} (parts : List (FormPart boundary))
    (undivided : ¬ boundary.delimiter <:+: innerOf part.headers part.body) (large : 2 ^ 31 ≤ (blockOf part.headers).length + 2) :
    ∃ (found : Option Delivered) (next : MultipartParser),
      (behind boundary offset (part :: parts)).getNextPart = (found, next) ∧
        ∀ delivered, found = some delivered → delivered.texts.body ≠ some part.body := by
  obtain ⟨views, next, headers, step⟩ := @getNextPart_undivided boundary offset part parts undivided
  refine ⟨_, _, step, ?_⟩
  intro delivered stripped same
  obtain ⟨data, shown, own⟩ := Option.map_eq_some_iff.mp same
  have longer := stripHeaders_large large (by rw [innerOf_length]; omega) stripped shown
  rw [own, innerOf_length] at longer
  omega

theorem getNextPart_divided {offset : Nat} {part : FormPart boundary} (parts : List (FormPart boundary))
    (divided : boundary.delimiter <:+: innerOf part.headers part.body) :
    ∃ (found : Option Delivered) (next : MultipartParser),
      (behind boundary offset (part :: parts)).getNextPart = (found, next) ∧
        ∀ delivered, found = some delivered → delivered.texts.body ≠ some part.body := by
  have inside : boundary.delimiter <:+: regionOf part.headers part.body := by
    obtain ⟨front, back, own⟩ := divided
    refine ⟨cr :: lf :: front, back ++ [cr, lf], ?_⟩
    rw [regionOf, ← own]
    simp
  obtain ⟨before, after, split, within⟩ := splitAtFirst_inside inside (boundary.delimiter ++ partsText boundary parts)
  have whole := splitAtFirst_eq split
  rw [List.append_assoc] at whole
  have cut : before = (regionOf part.headers part.body).take before.length := by
    have front := congrArg (List.take before.length) whole
    rw [List.take_left, List.take_append_of_le_length (by omega)] at front
    exact front.symm
  have next : boundary.delimiter <+: (regionOf part.headers part.body).drop before.length := by
    have back := congrArg (List.drop before.length) whole
    rw [List.drop_left, List.drop_append_of_le_length (by omega)] at back
    apply List.prefix_of_prefix_length_le (List.prefix_append boundary.delimiter after)
    · rw [← back]
      exact List.prefix_append _ _
    · rw [List.length_drop]
      omega
  have long := @delimiter_long boundary
  have first := splitAtFirst_before (List.ne_nil_of_length_pos (by omega)) split
  rw [← List.append_assoc] at split
  refine ⟨_, _, getNextPart_behind split, ?_⟩
  intro delivered parsed same
  obtain ⟨data, shown, own⟩ := Option.map_eq_some_iff.mp same
  rw [cut] at parsed
  obtain ⟨behindHeaders, front⟩ := parsePart_cut (by omega) parsed shown
  rw [own, ← cut] at front
  -- the delimiter behind what is delivered is one of the body, and would have been found in it
  apply first
  apply List.IsInfix.trans _ front
  have text : (regionOf part.headers part.body).drop ((blockOf part.headers).length + 4) = part.body ++ [cr] ++ [lf] := by
    rw [show (blockOf part.headers).length + 4 = 2 + ((blockOf part.headers).length + 2) by omega, ← List.drop_drop]
    show (innerOf part.headers part.body ++ [cr, lf]).drop ((blockOf part.headers).length + 2) = _
    rw [List.drop_append_of_le_length (by rw [innerOf_length]; omega), innerOf_drop, List.append_assoc]
    rfl
  have later : boundary.delimiter <:+: part.body ++ [cr] ++ [lf] := by
    rw [← text]
    apply next.isInfix.trans
    rw [show before.length = (blockOf part.headers).length + 4 + (before.length - ((blockOf part.headers).length + 4)) by omega,
      ← List.drop_drop]
    exact (List.drop_suffix _ _).isInfix
  exact delimiter_line (.inl rfl) (delimiter_line (.inr rfl) later)

theorem getNextPart_end (offset : Nat) : ((behind boundary offset []).getNextPart).1 = none := by
  have long := @delimiter_long boundary
  rw [getNextPart_begun rfl]
  split
  · rfl
  · rename_i part next taken
    obtain ⟨found, split, own⟩ := Option.map_eq_some_iff.mp taken
    have whole := congrArg List.length (splitAtFirst_eq split)
    rw [List.length_append, List.length_append] at whole
    change 4 = _ + boundary.delimiter.length + _ at whole
    cases own
    exact if_pos (by omega)

theorem read_kept (header : PartHeader) :
    header.read = (header.name.map lowerAscii, header.value) ↔
      (∀ c ∈ header.name, c ≠ 94 ∧ c ≠ 95) ∧ ∀ c, header.value.head? = some c → c ≠ colon ∧ 33 ≤ c := by
  rw [PartHeader.read, Prod.mk.injEq]
  apply and_congr
  · rw [List.map_inj_left]
    exact forall₂_congr fun c member => (tchar_name (header.token c member)).2
  · cases own : header.value with
    | nil => exact ⟨fun _ => nofun, fun _ => rfl⟩
    | cons c value =>
      have plain : c ≠ cr := (header.line c (by rw [own]; exact List.mem_cons_self)).1
      by_cases skip : isSkipped c = true
      · apply iff_of_false
        · rw [List.dropWhile_cons_of_pos skip]
          intro same
          have less := (List.dropWhile_suffix (l := value) isSkipped).length_le
          rw [same, List.length_cons] at less
          omega
        · intro kept
          obtain ⟨other, high⟩ := kept c rfl
          have low : c < 33 := by
            unfold isSkipped at skip
            simpa [other, plain] using skip
          exact absurd low (UInt8.not_lt.mpr high)
      · apply iff_of_true
        · exact List.dropWhile_cons_of_neg skip
        · intro d same
          cases same
          unfold isSkipped at skip
          simpa [plain] using skip

theorem getParts_texts (parts : List (FormPart boundary)) (fuel offset : Nat) (enough : parts.length < fuel) :
    ((getParts fuel (behind boundary offset parts)).1.map Delivered.texts = parts.map FormPart.texts ↔
      ∀ part ∈ parts, part.Kept) := by
  induction parts generalizing fuel offset with
  | nil =>
    obtain ⟨fuel, rfl⟩ : ∃ n, fuel = n + 1 := ⟨fuel - 1, by omega⟩
    have ends := @getNextPart_end boundary offset
    rw [getParts]
    cases step : (behind boundary offset []).getNextPart with
    | mk found next =>
      rw [step] at ends
      cases ends
      exact ⟨fun _ => List.forall_mem_nil _, fun _ => rfl⟩
  | cons part parts ih =>
    obtain ⟨fuel, rfl⟩ : ∃ n, fuel = n + 1 := ⟨fuel - 1, by omega⟩
    rw [getParts, List.forall_mem_cons]
    by_cases clear : ¬ boundary.delimiter <:+: innerOf part.headers part.body ∧ (blockOf part.headers).length + 2 < 2 ^ 31
    rotate_left
    · obtain ⟨found, next, step, other⟩ : ∃ (found : Option Delivered) (next : MultipartParser),
          (behind boundary offset (part :: parts)).getNextPart = (found, next) ∧
            ∀ delivered, found = some delivered → delivered.texts.body ≠ some part.body := by
        by_cases divided : boundary.delimiter <:+: innerOf part.headers part.body
        · exact getNextPart_divided parts divided
        · exact getNextPart_uncounted parts divided (Nat.le_of_not_lt fun counted => clear ⟨divided, counted⟩)
      rw [step]
      apply iff_of_false
      · intro same
        cases found with
        | none => cases same
        | some delivered =>
          obtain ⟨own, -⟩ := List.cons_eq_cons.mp same
          exact other delivered rfl (congrArg PartTexts.body own)
      · exact fun kept => clear ⟨kept.1.undivided, kept.1.counted⟩
    · obtain ⟨undivided, counted⟩ := clear
      obtain ⟨delivered, next, step, texts⟩ := @getNextPart_counted boundary offset part parts undivided counted
      rw [step]
      dsimp only
      rw [List.map_cons, List.map_cons, List.cons_eq_cons, ih fuel next (by rw [List.length_cons] at enough; omega), texts]
      apply and_congr_left
      intro _
      rw [FormPart.texts, PartTexts.mk.injEq, eq_self, and_true, List.map_inj_left]
      apply Iff.trans (forall₂_congr fun header _ => read_kept header)
      refine ⟨?_, ?_⟩
      · intro kept
        exact ⟨counted, undivided, fun header member => (kept header member).1, fun header member => (kept header member).2⟩
      · intro kept header member
        exact ⟨kept.names header member, kept.values header member⟩

theorem getParts_start (fuel : Nat) (parts : List (FormPart boundary)) :
    getParts (fuel + 1) { prependedBoundary := boundary.delimiter, remainingBody := encodeMultipart boundary parts } =
      getParts (fuel + 1) (behind boundary boundary.delimiter.length parts) := by
  have taken : takeBoundary { prependedBoundary := boundary.delimiter, remainingBody := encodeMultipart boundary parts } =
      some ([], behind boundary boundary.delimiter.length parts) := by
    show (splitAtFirst boundary.delimiter (encodeMultipart boundary parts)).map _ = _
    rw [encodeMultipart_parts, splitAtFirst_here (List.prefix_append _ _), List.drop_left]
    show some ([], _) = _
    rw [behind, List.length_nil, Nat.add_zero, Nat.zero_add]
  rw [getParts, getNextPart_first rfl taken, getParts]

theorem encodeMultipart_long (parts : List (FormPart boundary)) : parts.length < (encodeMultipart boundary parts).length := by
  rw [encodeMultipart_parts, List.length_append]
  have long := @delimiter_long boundary
  suffices parts.length < (partsText boundary parts).length by omega
  induction parts with
  | nil => exact Nat.zero_lt_succ 3
  | cons part parts ih =>
    rw [partsText, List.length_append, List.length_append, List.length_cons]
    omega

end Iteration

theorem announced_valid {boundary : Boundary} {contentType : Bytes} (announced : boundary.Announced contentType) :
    (ofContentType contentType).isValid = true := by
  rw [ofContentType_announced announced]
  rfl

def sampleBoundary : Boundary := ⟨[98], by decide +kernel, by decide +kernel⟩

def sampleHeader : PartHeader where
  name := [97]
  value := [49]
  named := by decide +kernel
  token := by decide +kernel
  line := by decide +kernel
  stripped := by
    rintro c (same | same) <;>
    · cases same
      rfl

def strangeHeader : PartHeader where
  name := [97, 95, 98]
  value := [58, 120]
  named := by decide +kernel
  token := by decide +kernel
  line := by decide +kernel
  stripped := by
    rintro c (same | same) <;>
    · cases same
      rfl

def samplePart : FormPart sampleBoundary := ⟨[sampleHeader], [120], by decide +kernel, by decide +kernel⟩

def strangePart : FormPart sampleBoundary := ⟨[strangeHeader], [120], by decide +kernel, by decide +kernel⟩

def dividedPart : FormPart sampleBoundary := ⟨[sampleHeader], [120, 45, 45, 98], by decide +kernel, by decide +kernel⟩

end Uws.Http
