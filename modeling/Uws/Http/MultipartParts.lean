import Uws.Http.Multipart

namespace Uws.Http

open Uws.TextSearch MultipartParser MessageParser

def lowerAscii (c : UInt8) : UInt8 := if 65 ≤ c ∧ c ≤ 90 then c + 32 else c

structure PartHeader where
  name : Bytes
  value : Bytes
  named : name ≠ []
  token : ∀ c ∈ name, isTchar c = true
  line : ∀ c ∈ value, c ≠ cr ∧ c ≠ lf
  stripped : ∀ c, value.head? = some c ∨ value.getLast? = some c → isPadding c = false

namespace PartHeader

def text (header : PartHeader) : Bytes := header.name ++ colon :: space :: header.value ++ [cr, lf]

def read (header : PartHeader) : Bytes × Bytes := (header.name.map (· ||| 32), header.value.dropWhile isSkipped)

end PartHeader

def headerTexts (header : BodyView × BodyView) : Bytes × Bytes := (header.1.text, header.2.text)

def blockOf (headers : List PartHeader) : Bytes := headers.flatMap PartHeader.text

section Headers

theorem tchar_facts : ∀ n < 256, isTchar (UInt8.ofNat n) = true →
    isName (UInt8.ofNat n) = true ∧ (UInt8.ofNat n ||| 32 = lowerAscii (UInt8.ofNat n) ↔ UInt8.ofNat n ≠ 94 ∧ UInt8.ofNat n ≠ 95) := by
  decide +kernel

theorem tchar_name {c : UInt8} (token : isTchar c = true) :
    isName c = true ∧ (c ||| 32 = lowerAscii c ↔ c ≠ 94 ∧ c ≠ 95) := by
  have facts := tchar_facts c.toNat c.toNat_lt
  rw [UInt8.ofNat_toNat] at facts
  exact facts token

variable {behind slots offset : Nat} {value tail : Bytes}

theorem skipped_value (value tail : Bytes) :
    (value ++ cr :: tail).takeWhile isSkipped = value.takeWhile isSkipped ∧
      (value ++ cr :: tail).drop (value.takeWhile isSkipped).length = value.dropWhile isSkipped ++ cr :: tail := by
  induction value with
  | nil => exact ⟨rfl, rfl⟩
  | cons c value ih =>
    by_cases skip : isSkipped c = true
    · rw [List.cons_append, List.takeWhile_cons_of_pos skip, List.takeWhile_cons_of_pos skip, List.dropWhile_cons_of_pos skip,
        ih.1, List.length_cons, List.drop_succ_cons]
      exact ⟨rfl, ih.2⟩
    · rw [List.cons_append, List.takeWhile_cons_of_neg skip, List.takeWhile_cons_of_neg skip, List.dropWhile_cons_of_neg skip]
      exact ⟨rfl, rfl⟩

theorem headerValue_line (name : BodyView) (plain : ∀ c ∈ value, c ≠ cr) (inside : behind ≤ tail.length) :
    headerValue behind name offset (value ++ cr :: lf :: tail) =
      .stored name ⟨offset + (value.takeWhile isSkipped).length, value.dropWhile isSkipped⟩ tail := by
  obtain ⟨blank, left⟩ := skipped_value value (lf :: tail)
  have rest : ∀ c ∈ value.dropWhile isSkipped, decide (c ≠ cr) = true := fun c member =>
    decide_eq_true (plain c ((List.dropWhile_suffix isSkipped).subset member))
  unfold headerValue
  dsimp only
  rw [blank, left]
  generalize value.dropWhile isSkipped = line at rest
  have size : (line ++ cr :: lf :: tail).length = line.length + tail.length + 2 := by
    simp
    omega
  have found : ((line ++ cr :: lf :: tail).take ((line ++ cr :: lf :: tail).length - behind)).takeWhile (fun c => decide (c ≠ cr)) =
      line := by
    rw [size, List.take_append, List.take_of_length_le (by omega), List.takeWhile_append_of_pos rest,
      show line.length + tail.length + 2 - behind - line.length = (tail.length + 1 - behind) + 1 by omega, List.take_succ_cons,
      List.takeWhile_cons_of_neg (by decide), List.append_nil]
  have next : (line ++ cr :: lf :: tail)[line.length + 1]? = some lf := by
    rw [List.getElem?_append_right (Nat.le_add_right _ _), Nat.add_sub_cancel_left]
    rfl
  have behindLine : (line ++ cr :: lf :: tail).drop (line.length + 2) = tail := by
    rw [← List.drop_drop, List.drop_left]
    rfl
  rw [found, if_pos ⟨by rw [size]; omega, next⟩, behindLine]

theorem headerValue_cut (name : BodyView) (plain : ∀ c ∈ value, c ≠ cr) :
    headerValue (tail.length + 1) name offset (value ++ cr :: tail) = .failed ∧
      headerValue (tail.length + 1) name offset (value ++ cr :: cr :: tail) = .failed := by
  have rest : ∀ c ∈ value.dropWhile isSkipped, decide (c ≠ cr) = true := fun c member =>
    decide_eq_true (plain c ((List.dropWhile_suffix isSkipped).subset member))
  refine ⟨?_, ?_⟩
  · obtain ⟨blank, left⟩ := skipped_value value tail
    unfold headerValue
    dsimp only
    rw [blank, left]
    generalize value.dropWhile isSkipped = line at rest
    have size : (line ++ cr :: tail).length - (tail.length + 1) = line.length := by
      rw [List.length_append, List.length_cons, Nat.add_sub_cancel]
    rw [size, List.take_left, List.takeWhile_eq_self_iff.mpr rest, if_neg fun both => Nat.lt_irrefl _ both.1]
  · obtain ⟨blank, left⟩ := skipped_value value (cr :: tail)
    unfold headerValue
    dsimp only
    rw [blank, left]
    generalize value.dropWhile isSkipped = line at rest
    have size : (line ++ cr :: cr :: tail).length - (tail.length + 1) = line.length + 1 := by
      rw [List.length_append, List.length_cons, List.length_cons]
      omega
    have found : ((line ++ cr :: cr :: tail).take (line.length + 1)).takeWhile (fun c => decide (c ≠ cr)) = line := by
      rw [List.take_append, List.take_of_length_le (Nat.le_succ _), List.takeWhile_append_of_pos rest, Nat.add_sub_cancel_left]
      show line ++ [] = line
      exact List.append_nil line
    have next : (line ++ cr :: cr :: tail)[line.length + 1]? = some cr := by
      rw [List.getElem?_append_right (Nat.le_add_right _ _), Nat.add_sub_cancel_left]
      rfl
    rw [size, found, next, if_neg fun both => absurd both.2 (by decide)]

variable (header : PartHeader)

theorem PartHeader.name_scanned : ∀ c ∈ header.name, isName c = true :=
  fun c member => (tchar_name (header.token c member)).1

theorem headerRound_name (rest : Bytes) :
    headerRound behind offset (header.name ++ colon :: rest) =
      headerValue behind ⟨offset, header.name.map (· ||| 32)⟩ (offset + header.name.length + 1) rest := by
  have key : (header.name ++ colon :: rest).takeWhile isName = header.name := by
    rw [List.takeWhile_append_of_pos header.name_scanned, List.takeWhile_cons_of_neg (by decide), List.append_nil]
  unfold headerRound
  dsimp only
  rw [key, List.drop_left]
  exact if_neg (by decide)

theorem headerRound_end (inside : behind ≤ tail.length) : headerRound behind offset (cr :: lf :: tail) = .ended (offset + 2) := by
  have some_ : (lf :: tail).length + 1 ≠ behind := by
    rw [List.length_cons]
    omega
  show (if (lf :: tail).length + 1 ≠ behind ∧ (lf :: tail).head? = some lf then _ else _) = _
  rw [if_pos ⟨some_, rfl⟩]
  rfl

theorem headerRound_cut (name : Bytes) (scanned : ∀ c ∈ name, isName c = true) :
    headerRound (tail.length + 1) offset (name ++ cr :: tail) = .failed := by
  have key : (name ++ cr :: tail).takeWhile isName = name := by
    rw [List.takeWhile_append_of_pos scanned, List.takeWhile_cons_of_neg (by decide), List.append_nil]
  unfold headerRound
  dsimp only
  rw [key, List.drop_left]
  dsimp only
  rw [if_pos rfl, if_neg fun both => both.1 rfl]

theorem headersLoop_line (inside : behind ≤ tail.length) :
    ∃ name value : BodyView, headerTexts (name, value) = header.read ∧
      headersLoop behind (slots + 1) offset (header.text ++ tail) =
        (headersLoop behind slots (offset + header.text.length) tail).map
          fun (consumed, headers) => (consumed, (name, value) :: headers) := by
  have shape : header.text ++ tail = header.name ++ colon :: (space :: header.value ++ cr :: lf :: tail) := by
    simp [PartHeader.text]
  have plain : ∀ c ∈ space :: header.value, c ≠ cr := by
    intro c member
    rcases List.mem_cons.mp member with rfl | member
    · decide
    · exact (header.line c member).1
  have whole := congrArg List.length (List.takeWhile_append_dropWhile (p := isSkipped) (l := space :: header.value))
  have size : header.text.length = header.name.length + header.value.length + 4 := by
    simp [PartHeader.text]
    omega
  rw [List.length_append, List.length_cons] at whole
  have read : (space :: header.value).dropWhile isSkipped = header.value.dropWhile isSkipped :=
    List.dropWhile_cons_of_pos (by decide)
  refine ⟨⟨offset, header.name.map (· ||| 32)⟩, ⟨offset + header.name.length + 1 +
    ((space :: header.value).takeWhile isSkipped).length, (space :: header.value).dropWhile isSkipped⟩, ?_, ?_⟩
  · rw [headerTexts, read]
    rfl
  · rw [shape, headersLoop, headerRound_name, headerValue_line _ plain inside]
    dsimp only
    rw [show offset + header.name.length + 1 + ((space :: header.value).takeWhile isSkipped).length +
      ((space :: header.value).dropWhile isSkipped).length + 2 = offset + header.text.length by omega]

theorem headersLoop_block (headers : List PartHeader) (few : headers.length < slots) (inside : behind ≤ tail.length) :
    ∃ views : List (BodyView × BodyView), views.map headerTexts = headers.map PartHeader.read ∧
      headersLoop behind slots offset (blockOf headers ++ cr :: lf :: tail) =
        some (offset + (blockOf headers).length + 2, views) := by
  induction headers generalizing slots offset with
  | nil =>
    obtain ⟨slots, rfl⟩ : ∃ n, slots = n + 1 := ⟨slots - 1, by rw [List.length_nil] at few; omega⟩
    refine ⟨[], rfl, ?_⟩
    show headersLoop behind (slots + 1) offset (cr :: lf :: tail) = _
    rw [headersLoop, headerRound_end inside]
    rfl
  | cons header headers ih =>
    rw [List.length_cons] at few
    obtain ⟨slots, rfl⟩ : ∃ n, slots = n + 1 := ⟨slots - 1, by omega⟩
    obtain ⟨views, texts, rest⟩ := @ih slots (offset + header.text.length) (by omega)
    obtain ⟨name, value, own, first⟩ :=
      @headersLoop_line behind slots offset (blockOf headers ++ cr :: lf :: tail) header (by
        rw [List.length_append, List.length_cons, List.length_cons]
        omega)
    refine ⟨(name, value) :: views, by rw [List.map_cons, List.map_cons, texts, own], ?_⟩
    rw [blockOf, List.flatMap_cons, List.append_assoc]
    change headersLoop behind (slots + 1) offset (header.text ++ (blockOf headers ++ cr :: lf :: tail)) = _
    rw [first, rest, List.length_append]
    show some (offset + header.text.length + (blockOf headers).length + 2, _) = _
    rw [Nat.add_assoc offset]
    rfl

theorem headersLoop_cutLine {m : Nat} (short : m < header.text.length) :
    headersLoop (tail.length + 1) (slots + 1) offset (header.text.take m ++ cr :: tail) = none := by
  have shape : header.text = header.name ++ colon :: (space :: header.value ++ [cr, lf]) := by simp [PartHeader.text]
  have size : header.text.length = header.name.length + header.value.length + 4 := by
    simp [PartHeader.text]
    omega
  have plain : ∀ c ∈ space :: header.value, c ≠ cr := by
    intro c member
    rcases List.mem_cons.mp member with rfl | member
    · decide
    · exact (header.line c member).1
  have failed : headerRound (tail.length + 1) offset (header.text.take m ++ cr :: tail) = .failed := by
    rw [shape]
    by_cases inName : m ≤ header.name.length
    · rw [List.take_append_of_le_length inName]
      exact headerRound_cut (header.name.take m) fun c member => header.name_scanned c (List.take_subset _ _ member)
    · obtain ⟨k, rfl⟩ : ∃ k, m = header.name.length + (k + 1) := ⟨m - header.name.length - 1, by omega⟩
      rw [List.take_length_add_append, List.take_succ_cons, List.append_assoc, List.cons_append, headerRound_name]
      by_cases inValue : k ≤ (space :: header.value).length
      · rw [List.take_append_of_le_length inValue]
        exact (headerValue_cut _ fun c member => plain c (List.take_subset _ _ member)).1
      · rw [List.length_cons] at inValue
        have last : k = (space :: header.value).length + 1 := by
          rw [List.length_cons]
          omega
        rw [last, List.take_length_add_append]
        show headerValue _ _ _ (space :: header.value ++ [cr] ++ cr :: tail) = _
        rw [List.append_assoc]
        exact (headerValue_cut _ plain).2
  rw [headersLoop, failed]

theorem headersLoop_cut (headers : List PartHeader) (body : Bytes) (m : Nat) {consumed : Nat} {views : List (BodyView × BodyView)}
    (read : headersLoop (tail.length + 1) slots offset ((blockOf headers ++ cr :: lf :: body).take m ++ cr :: tail) =
      some (consumed, views)) :
    consumed = offset + (blockOf headers).length + 2 ∧ (blockOf headers).length + 2 ≤ m := by
  induction headers generalizing slots offset m views with
  | nil =>
    change headersLoop _ slots offset ((cr :: lf :: body).take m ++ cr :: tail) = _ at read
    cases slots with
    | zero => cases read
    | succ slots =>
      match m with
      | 0 =>
        have failed := @headerRound_cut offset tail [] nofun
        rw [List.take_zero, headersLoop, failed] at read
        cases read
      | 1 =>
        have failed : headerRound (tail.length + 1) offset (cr :: cr :: tail) = .failed :=
          if_neg fun both => absurd (show some cr = some lf from both.2) (by decide)
        change headersLoop _ (slots + 1) offset (cr :: cr :: tail) = _ at read
        rw [headersLoop, failed] at read
        cases read
      | m + 2 =>
        change headersLoop _ (slots + 1) offset (cr :: lf :: (body.take m ++ cr :: tail)) = _ at read
        rw [headersLoop, headerRound_end (by rw [List.length_append, List.length_cons]; omega)] at read
        cases read
        exact ⟨rfl, Nat.le_add_left 2 m⟩
  | cons header headers ih =>
    rw [blockOf, List.flatMap_cons, List.append_assoc] at read
    change headersLoop _ slots offset ((header.text ++ (blockOf headers ++ cr :: lf :: body)).take m ++ cr :: tail) = _ at read
    cases slots with
    | zero => cases read
    | succ slots =>
      by_cases whole : header.text.length ≤ m
      · obtain ⟨k, rfl⟩ : ∃ k, m = header.text.length + k := ⟨m - header.text.length, by omega⟩
        rw [List.take_length_add_append, List.append_assoc] at read
        obtain ⟨name, value, -, first⟩ := @headersLoop_line (tail.length + 1) slots offset
          ((blockOf headers ++ cr :: lf :: body).take k ++ cr :: tail) header (by
            rw [List.length_append, List.length_cons]
            omega)
        rw [first] at read
        obtain ⟨⟨last, rest⟩, inner, own⟩ := Option.map_eq_some_iff.mp read
        cases own
        obtain ⟨place, within⟩ := ih k inner
        have size : (blockOf (header :: headers)).length = header.text.length + (blockOf headers).length := by
          rw [blockOf, List.flatMap_cons, List.length_append]
          rfl
        omega
      · rw [List.take_append_of_le_length (Nat.le_of_not_le whole), headersLoop_cutLine header (Nat.lt_of_not_le whole)] at read
        cases read

end Headers

section Parts

variable {offset : Nat} {headers : List PartHeader} {body after : Bytes}

/-- The text of a part between its line ends: the headers, the empty line, and the body. -/
def innerOf (headers : List PartHeader) (body : Bytes) : Bytes := blockOf headers ++ cr :: lf :: body

def regionOf (headers : List PartHeader) (body : Bytes) : Bytes := cr :: lf :: (innerOf headers body ++ [cr, lf])

@[simp] theorem innerOf_length : (innerOf headers body).length = (blockOf headers).length + 2 + body.length := by
  rw [innerOf, List.length_append, List.length_cons, List.length_cons]
  omega

@[simp] theorem regionOf_length : (regionOf headers body).length = (innerOf headers body).length + 4 := by
  simp [regionOf]

theorem innerOf_drop : (innerOf headers body).drop ((blockOf headers).length + 2) = body := by
  rw [innerOf, ← List.drop_drop, List.drop_left]
  rfl

section Counts

variable {part : BodyView} {views : List (BodyView × BodyView)} {n : Nat} {delivered : Delivered}

theorem count_small (small : n < 2 ^ 31) : (UInt32.ofNat n).toInt32.toInt = n := by
  rw [UInt32.toInt32_ofNat']
  exact Int32.toInt_ofNat_of_lt small

theorem count_large (large : 2 ^ 31 ≤ n) : (UInt32.ofNat n).toInt32.toInt < n := by
  have below := (UInt32.ofNat n).toInt32.toInt_lt
  omega

theorem stripHeaders_small (small : n < 2 ^ 31) (within : n ≤ part.text.length) :
    stripHeaders part (UInt32.ofNat n) views =
      if n = 0 then none else some ⟨views, some ⟨part.start + n, part.text.drop n⟩⟩ := by
  have left : part.removePrefix n = some ⟨part.start + n, part.text.drop n⟩ := by
    rw [BodyView.removePrefix, if_pos ⟨Int.natCast_nonneg n, Int.ofNat_le.mpr within⟩, Int.toNat_natCast]
  unfold stripHeaders
  dsimp only
  rw [count_small small, left]
  exact if_congr Int.natCast_eq_zero rfl rfl

theorem stripHeaders_text {count : UInt32} (stripped : stripHeaders part count views = some delivered) :
    ∀ data, delivered.data = some data →
      0 ≤ count.toInt32.toInt ∧ count.toInt32.toInt ≤ part.text.length ∧
        data = ⟨part.start + count.toInt32.toInt.toNat, part.text.drop count.toInt32.toInt.toNat⟩ := by
  unfold stripHeaders BodyView.removePrefix at stripped
  dsimp only at stripped
  split at stripped
  · cases stripped
  · cases stripped
    intro data shown
    dsimp only at shown
    split at shown
    · rename_i within
      cases shown
      exact ⟨within.1, within.2, rfl⟩
    · cases shown

/-- Behind headers of 2^31 bytes or more the data begins too early, if it is delivered. -/
theorem stripHeaders_large (large : 2 ^ 31 ≤ n) (within : n ≤ part.text.length)
    (stripped : stripHeaders part (UInt32.ofNat n) views = some delivered) {data : BodyView} (shown : delivered.data = some data) :
    part.text.length - n < data.text.length := by
  obtain ⟨least, most, rfl⟩ := stripHeaders_text stripped data shown
  have early := count_large large
  dsimp only
  rw [List.length_drop]
  omega

end Counts

theorem parsePart_whole (few : headers.length < maxHeaders) :
    ∃ views : List (BodyView × BodyView), views.map headerTexts = headers.map PartHeader.read ∧
      parsePart offset (regionOf headers body) after =
        stripHeaders ⟨offset + 2, innerOf headers body⟩ (UInt32.ofNat ((blockOf headers).length + 2)) views := by
  have room : ¬ (regionOf headers body).length < 4 := by
    rw [regionOf_length]
    omega
  have stripped : ((regionOf headers body).drop 2).take ((regionOf headers body).length - 4) = innerOf headers body := by
    rw [regionOf_length, Nat.add_sub_cancel]
    exact List.take_left
  have last : (regionOf headers body).drop ((regionOf headers body).length - 1) = [lf] := by
    rw [regionOf_length]
    show (lf :: (innerOf headers body ++ [cr, lf])).drop ((innerOf headers body).length + 2) = _
    rw [List.drop_succ_cons, ← List.drop_drop, List.drop_left]
    rfl
  obtain ⟨views, texts, read⟩ :=
    @headersLoop_block (cr :: lf :: after).length maxHeaders (offset + 2) (body ++ cr :: lf :: after) headers few (by
      rw [List.length_append]
      omega)
  have whole : innerOf headers body ++ (cr :: [lf] ++ after) = blockOf headers ++ cr :: lf :: (body ++ cr :: lf :: after) := by
    simp [innerOf]
  refine ⟨views, texts, ?_⟩
  unfold parsePart
  dsimp only
  have count : (cr :: [lf] ++ after).length = (cr :: lf :: after).length := rfl
  rw [if_neg room, stripped, last, whole, count, MessageParser.getHeaders, read]
  show stripHeaders _ (UInt32.ofNat (offset + 2 + (blockOf headers).length + 2 - (offset + 2))) views = _
  rw [show offset + 2 + (blockOf headers).length + 2 - (offset + 2) = (blockOf headers).length + 2 by omega]

theorem parsePart_cut {j : Nat} (short : j < (regionOf headers body).length) {part : Delivered} {data : BodyView}
    (parsed : parsePart offset ((regionOf headers body).take j) after = some part) (shown : part.data = some data) :
    (blockOf headers).length + 6 ≤ j ∧ data.text <:+: (regionOf headers body).take j := by
  rw [regionOf_length, innerOf_length] at short
  have size : ((regionOf headers body).take j).length = j := by
    rw [List.length_take, regionOf_length, innerOf_length]
    omega
  generalize front_ : (regionOf headers body).take j = front at parsed size ⊢
  unfold parsePart at parsed
  dsimp only at parsed
  rw [size] at parsed
  by_cases few : j < 4
  · rw [if_pos few] at parsed
    cases parsed
  obtain ⟨m, rfl⟩ : ∃ m, j = m + 4 := ⟨j - 4, by omega⟩
  have inside : (front.drop 2).take (m + 4 - 4) <:+: front :=
    (List.take_prefix _ _).isInfix.trans (List.drop_suffix _ _).isInfix
  have stripped : (front.drop 2).take (m + 4 - 4) = (innerOf headers body).take m := by
    rw [← front_]
    show ((innerOf headers body ++ [cr, lf]).take (m + 2)).take m = _
    rw [List.take_take, Nat.min_eq_left (Nat.le_add_right m 2)]
    exact List.take_append_of_le_length (by rw [innerOf_length]; omega)
  rw [stripped] at inside
  rw [if_neg few, stripped, MessageParser.getHeaders] at parsed
  generalize front.drop (m + 4 - 1) = last at parsed
  rw [List.cons_append, List.length_cons] at parsed
  cases read : headersLoop ((last ++ after).length + 1) maxHeaders (offset + 2) ((innerOf headers body).take m ++ cr :: (last ++ after)) with
  | none =>
    rw [read] at parsed
    cases parsed
  | some found =>
    obtain ⟨consumed, views⟩ := found
    have within := (headersLoop_cut headers body m read).2
    rw [read] at parsed
    obtain ⟨-, -, rfl⟩ := stripHeaders_text parsed data shown
    refine ⟨by omega, ?_⟩
    exact (List.drop_suffix _ _).isInfix.trans inside

end Parts

end Uws.Http
