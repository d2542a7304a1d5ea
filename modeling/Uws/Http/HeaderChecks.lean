import Uws.Http.HeaderFraming

/-! The checks between a parsed head and its handler, and the filter that they and the accessors go through. -/

namespace Uws.Http

/-- No framing name that the parser's filter takes for one of the names in front of it. -/
def Unclashed : BloomFilter → List Header → Prop
  | _, [] => True
  | bf, h :: headers => (h.key ∈ framingNames → bf.mightHave h.key = false) ∧ Unclashed (bf.add h.key) headers

theorem addHeaders_unclashed (headers : List Header) (req : HttpRequest) (walked : ∀ h ∈ headers, h ∈ req.walk) :
    (∃ filled, addHeaders headers req = some filled) ↔ Unclashed req.bf headers := by
  induction headers generalizing req with
  | nil => exact ⟨fun _ => trivial, fun _ => ⟨req, rfl⟩⟩
  | cons h headers ih =>
    have framing : (h.key == hostName || h.key == contentLengthName || h.key == transferEncodingName) = true ↔
        h.key ∈ framingNames := by
      simp [framingNames, or_assoc]
    have later := ih { req with bf := req.bf.add h.key } fun g member => walked g (List.mem_cons_of_mem _ member)
    rw [addHeaders, Unclashed]
    by_cases clash : h.key ∈ framingNames ∧ req.bf.mightHave h.key = true
    · have found : (req.getHeader h.key).isSome = true := by
        unfold HttpRequest.getHeader
        rw [if_pos clash.2, Option.isSome_map, List.find?_isSome]
        exact ⟨h, walked h List.mem_cons_self, by simp⟩
      rw [clash.2, framing.mpr clash.1, found]
      simp only [Bool.and_self, if_true]
      constructor
      · rintro ⟨filled, refused⟩
        cases refused
      · rintro ⟨free, -⟩
        cases free clash.1
    · have free : h.key ∈ framingNames → req.bf.mightHave h.key = false := by
        intro member
        cases had : req.bf.mightHave h.key with
        | false => rfl
        | true => exact absurd ⟨member, had⟩ clash
      rw [if_neg]
      · exact later.trans ⟨fun rest => ⟨free, rest⟩, And.right⟩
      · intro refused
        simp only [Bool.and_eq_true] at refused
        exact clash ⟨framing.mp refused.1.2, refused.1.1⟩

/-- What the checks are to refuse: a host that is missing or given twice, a second length or encoding, and a length
    beside an encoding. -/
def IllFramed (headers : List Header) : Prop :=
  headers.countP (·.key == hostName) ≠ 1 ∨ 1 < headers.countP (·.key == contentLengthName) ∨
    1 < headers.countP (·.key == transferEncodingName) ∨
    (∃ h ∈ headers, h.key = contentLengthName ∧ h.value ≠ []) ∧
      ∃ h ∈ headers, h.key = transferEncodingName ∧ h.value ≠ []

instance (headers : List Header) : Decidable (IllFramed headers) := by
  unfold IllFramed
  infer_instance

theorem Unclashed.counts {headers : List Header} {bf : BloomFilter} (unclashed : Unclashed bf headers) (name : Bytes)
    (framing : name ∈ framingNames) :
    headers.countP (·.key == name) ≤ 1 ∧ (bf.mightHave name = true → headers.countP (·.key == name) = 0) := by
  induction headers generalizing bf with
  | nil => exact ⟨Nat.zero_le _, fun _ => rfl⟩
  | cons h headers ih =>
    obtain ⟨once, none_⟩ := ih unclashed.2
    by_cases own : h.key = name
    · subst own
      have later := none_ (BloomFilter.mightHave_add _ _)
      have free := unclashed.1 framing
      refine ⟨by simp [later], fun had => ?_⟩
      rw [free] at had
      cases had
    · have other : (h.key == name) = false := by simpa using own
      simp only [List.countP_cons, other, Bool.false_eq_true, if_false, Nat.add_zero]
      exact ⟨once, fun had => none_ (BloomFilter.mightHave_add_of had _)⟩

theorem scanned_value {headers : List Header} {name : Bytes} (once : headers.countP (·.key == name) ≤ 1) :
    ((headers.find? (·.key == name)).map Header.value).getD [] ≠ [] ↔ ∃ h ∈ headers, h.key = name ∧ h.value ≠ [] := by
  cases found : headers.find? (·.key == name) with
  | none =>
    have absent := List.find?_eq_none.mp found
    simp only [Option.map_none, Option.getD_none, ne_eq, not_true_eq_false, false_iff]
    rintro ⟨h, member, key, -⟩
    exact absent h member (by simpa using key)
  | some g =>
    have key : g.key = name := by simpa using List.find?_some found
    constructor
    · intro value
      exact ⟨g, List.mem_of_find?_eq_some found, key, value⟩
    · rintro ⟨h, member, own, value⟩
      rw [← countP_one_find once member (by simpa using own) found]
      exact value

theorem checkHeaders_clashed {req : HttpRequest} (clashed : ¬ Unclashed .reset req.walk) :
    checkHeaders req = .error .badRequest := by
  have refused := mt (addHeaders_unclashed req.walk { req with bf := .reset } fun h member => member).mp clashed
  unfold checkHeaders
  cases added : addHeaders req.walk { req with bf := .reset } with
  | none => rfl
  | some filled => exact absurd ⟨filled, added⟩ refused

theorem checkHeaders_unclashed {req : HttpRequest} (unclashed : Unclashed .reset req.walk) :
    checkHeaders req = .error .badRequest ↔ IllFramed req.walk := by
  obtain ⟨filled, added⟩ := (addHeaders_unclashed req.walk { req with bf := .reset } fun h member => member).mpr unclashed
  obtain ⟨same, -⟩ := addHeaders_some { req with bf := .reset } (fun h member => member) added
  have walk : filled.walk = req.walk := by
    rw [same]
    rfl
  have had : ∀ h ∈ filled.walk, filled.bf.mightHave h.key = true := by
    intro h member
    rw [walk] at member
    rw [same]
    exact BloomFilter.mightHave_foldl _ _ (List.mem_map_of_mem member)
  have values : ∀ name, filled.getHeader name = (req.walk.find? (·.key == name)).map Header.value := by
    intro name
    rw [getHeader_walk had, walk]
  have hosts := (unclashed.counts hostName (by simp [framingNames])).1
  have lengths := (unclashed.counts contentLengthName (by simp [framingNames])).1
  have encodings := (unclashed.counts transferEncodingName (by simp [framingNames])).1
  have hosted : (filled.getHeader hostName).isNone = true ↔ req.walk.countP (·.key == hostName) ≠ 1 := by
    rw [values, Option.isNone_map, Option.isNone_iff_eq_none, List.find?_eq_none]
    have none_ := List.countP_eq_zero (p := (·.key == hostName)) (l := req.walk)
    rw [← none_]
    omega
  have both : (filled.transferEncodingString.length ≠ 0 ∧ filled.contentLengthString.length ≠ 0) ↔
      (∃ h ∈ req.walk, h.key = contentLengthName ∧ h.value ≠ []) ∧
        ∃ h ∈ req.walk, h.key = transferEncodingName ∧ h.value ≠ [] := by
    unfold HttpRequest.transferEncodingString HttpRequest.contentLengthString
    rw [values, values, ← scanned_value lengths, ← scanned_value encodings]
    simp only [ne_eq, List.length_eq_zero_iff]
    exact and_comm
  unfold checkHeaders IllFramed
  rw [added]
  simp only [hosted, both]
  split
  · rename_i missing
    exact ⟨fun _ => .inl missing, fun _ => rfl⟩
  · rename_i present
    split
    · rename_i given
      exact ⟨fun _ => .inr (.inr (.inr given)), fun _ => rfl⟩
    · rename_i apart
      constructor
      · intro refused
        cases refused
      rintro (missing | twice | twice | given)
      · exact absurd missing present
      · omega
      · omega
      · exact absurd given apart

/-- The checks refuse what they are to exactly where no framing name is taken for one in front of it, or where the
    list is to be refused anyway. -/
theorem headers_checked_exactly (req : HttpRequest) (named : ∀ h ∈ req.headers, h.key ≠ []) :
    (checkHeaders req = .error .badRequest ↔ IllFramed req.headers) ↔
      Unclashed .reset req.headers ∨ IllFramed req.headers := by
  rw [← walk_all named]
  by_cases unclashed : Unclashed .reset req.walk
  · simp only [unclashed, true_or, iff_true]
    exact checkHeaders_unclashed unclashed
  · simp [checkHeaders_clashed unclashed, unclashed]

def plainRequest : HttpRequest :=
  { method := ascii "GET"
    target := ascii "/"
    headers := [⟨ascii "accept", ascii "*/*"⟩, ⟨ascii "host", ascii "a"⟩, ⟨ascii "content-length", ascii "0"⟩] }

theorem plain_checked_exactly :
    checkHeaders plainRequest ≠ .error .badRequest ∧
      (checkHeaders plainRequest = .error .badRequest ↔ IllFramed plainRequest.headers) := by
  refine ⟨by decide +kernel, ?_⟩
  apply (headers_checked_exactly plainRequest (by decide +kernel)).mpr
  left
  refine ⟨by decide +kernel, by decide +kernel, by decide +kernel, True.intro⟩

/-- The filter has the same four bytes for `hast` as for `host`. -/
theorem host_taken_for_another :
    ¬ ∀ req : HttpRequest, (∀ h ∈ req.headers, h.key ≠ []) →
        (checkHeaders req = .error .badRequest ↔ IllFramed req.headers) := by
  intro exact_
  have refusedExactly := exact_ ⟨ascii "GET", ascii "/", [⟨ascii "hast", ascii "x"⟩, ⟨ascii "host", ascii "a"⟩], .reset⟩
    (by decide +kernel)
  have refused : checkHeaders ⟨ascii "GET", ascii "/", [⟨ascii "hast", ascii "x"⟩, ⟨ascii "host", ascii "a"⟩], .reset⟩ =
      .error .badRequest := by
    decide +kernel
  exact absurd (refusedExactly.mp refused) (by decide +kernel)

/-- A request object that a further head is parsed into: the entry behind the last header ends the list, and what
    earlier heads left behind that entry and in the filter stays. -/
def HttpRequest.refill (object parsed : HttpRequest) : HttpRequest :=
  { method := parsed.method
    target := parsed.target
    headers := parsed.headers ++ ⟨[], ((object.headers[parsed.headers.length]?).map Header.value).getD []⟩ ::
      object.headers.drop (parsed.headers.length + 1)
    bf := object.bf }

theorem walk_refill (object parsed : HttpRequest) : (object.refill parsed).walk = parsed.walk := by
  unfold HttpRequest.walk HttpRequest.refill
  rw [List.takeWhile_append]
  split
  · rename_i whole
    have same := List.IsPrefix.eq_of_length (List.takeWhile_prefix _) whole
    simp [same]
  · rfl

/-- Whatever earlier requests left in the object, the filter that a request is accepted with hides no header. -/
theorem filter_hides_nothing (object parsed req : HttpRequest) (accepted : checkHeaders (object.refill parsed) = .ok req)
    (lowerCasedHeader : Bytes) :
    req.getHeader lowerCasedHeader = (parsed.walk.find? (·.key == lowerCasedHeader)).map Header.value := by
  rw [← walk_refill object parsed]
  exact (checkHeaders_ok accepted).2.1 lowerCasedHeader

/-- The object of a request with more headers is used again. -/
theorem reused_hides_nothing :
    ∃ req, checkHeaders (({ plainRequest with bf := .add .reset (ascii "accept") } : HttpRequest).refill
        ⟨ascii "GET", ascii "/b", [⟨ascii "host", ascii "b"⟩], .reset⟩) = .ok req ∧
      req.getHeader (ascii "host") = some (ascii "b") ∧ req.getHeader (ascii "content-length") = none := by
  have taken : (checkHeaders (({ plainRequest with bf := .add .reset (ascii "accept") } : HttpRequest).refill
      ⟨ascii "GET", ascii "/b", [⟨ascii "host", ascii "b"⟩], .reset⟩)).toOption.isSome = true := by
    decide +kernel
  cases outcome : checkHeaders (({ plainRequest with bf := .add .reset (ascii "accept") } : HttpRequest).refill
      ⟨ascii "GET", ascii "/b", [⟨ascii "host", ascii "b"⟩], .reset⟩) with
  | error err =>
    rw [outcome] at taken
    cases taken
  | ok req =>
    refine ⟨req, rfl, ?_, ?_⟩
    · exact (filter_hides_nothing _ _ req outcome (ascii "host")).trans (by decide +kernel)
    · exact (filter_hides_nothing _ _ req outcome (ascii "content-length")).trans (by decide +kernel)

end Uws.Http
