import Uws.Http.HeaderChecks
import Uws.WebSocket.UrlAuthority

namespace Uws.WebSocket

open Uws.Http

def handshakeLines (behavior : ClientBehavior) (key : Bytes) : List (Bytes × Bytes) :=
  [(ascii "Upgrade", ascii "websocket"), (ascii "Connection", ascii "Upgrade"), (ascii "Sec-WebSocket-Key", key),
    (ascii "Sec-WebSocket-Version", ascii "13")] ++
    (if protocolsCsv behavior.protocols ≠ [] then [(ascii "Sec-WebSocket-Protocol", protocolsCsv behavior.protocols)] else []) ++
    if behavior.compression ≠ disabled then
      [(ascii "Sec-WebSocket-Extensions", extensionsOffer behavior.compression)] else []

def requestLines (parsed : ParsedUrl) (behavior : ClientBehavior) (key : Bytes) : List (Bytes × Bytes) :=
  (ascii "Host", hostValue parsed) :: (handshakeLines behavior key ++ behavior.headers)

def lineText (line : Bytes × Bytes) : Bytes := line.1 ++ ascii ": " ++ line.2 ++ crlf

theorem buildUpgradeRequest_lines (parsed : ParsedUrl) (behavior : ClientBehavior) (key : Bytes)
    (target : parsed.target ≠ []) :
    buildUpgradeRequest parsed.host parsed.port parsed.defaultPort parsed.target key (protocolsCsv behavior.protocols)
        behavior.compression behavior.headers =
      ascii "GET " ++ parsed.target ++ ascii " HTTP/1.1\r\n" ++
        (requestLines parsed behavior key).flatMap lineText ++ crlf := by
  have upgrade : ascii "Upgrade: websocket\r\n" = lineText (ascii "Upgrade", ascii "websocket") := by decide
  have connection : ascii "Connection: Upgrade\r\n" = lineText (ascii "Connection", ascii "Upgrade") := by decide
  have version : ascii "Sec-WebSocket-Version: 13\r\n" = lineText (ascii "Sec-WebSocket-Version", ascii "13") := by decide
  have host : ascii "Host: " = ascii "Host" ++ ascii ": " := by decide
  have keyName : ascii "Sec-WebSocket-Key: " = ascii "Sec-WebSocket-Key" ++ ascii ": " := by decide
  have protocol : ascii "Sec-WebSocket-Protocol: " = ascii "Sec-WebSocket-Protocol" ++ ascii ": " := by decide
  have extensions : ascii "Sec-WebSocket-Extensions: " = ascii "Sec-WebSocket-Extensions" ++ ascii ": " := by decide
  unfold buildUpgradeRequest requestLines handshakeLines hostValue
  rw [if_pos target, upgrade, connection, version, host, keyName, protocol, extensions]
  have users : (behavior.headers.flatMap fun h => h.1 ++ ascii ": " ++ h.2 ++ crlf) = behavior.headers.flatMap lineText := rfl
  rw [users]
  by_cases protocols : protocolsCsv behavior.protocols ≠ [] <;> by_cases compression : behavior.compression ≠ disabled
  · simp only [if_pos protocols, if_pos compression, List.flatMap_append, List.flatMap_cons, List.flatMap_nil, lineText,
      List.append_nil, List.append_assoc]
  · simp only [if_pos protocols, if_neg compression, List.flatMap_append, List.flatMap_cons, List.flatMap_nil, lineText,
      List.append_nil, List.append_assoc]
  · simp only [if_neg protocols, if_pos compression, List.flatMap_append, List.flatMap_cons, List.flatMap_nil, lineText,
      List.append_nil, List.append_assoc]
  · simp only [if_neg protocols, if_neg compression, List.flatMap_append, List.flatMap_cons, List.flatMap_nil, lineText,
      List.append_nil, List.append_assoc]

def lineHeader (line : Bytes × Bytes) : Header := ⟨line.1.map lowercased, trimBlanks line.2⟩

/-- Both parts of a line are what the parser takes for them. -/
def Plain (line : Bytes × Bytes) : Prop :=
  (∀ b ∈ line.1, isFieldNameByteFast b = true) ∧ ∀ b ∈ line.2, isFieldValueByte b

theorem isBlank_space : isBlank space = true := by decide

theorem trimBlanks_cons (value : Bytes) : trimBlanks (space :: value) = trimBlanks value := by
  unfold trimBlanks
  by_cases blank : ∀ c ∈ value, isBlank c = true
  · have none : value.rdropWhile isBlank = [] := List.rdropWhile_eq_nil_iff.mpr blank
    have none' : (space :: value).rdropWhile isBlank = [] := by
      rw [List.rdropWhile_eq_nil_iff]
      intro c member
      rcases List.mem_cons.mp member with rfl | member
      · exact isBlank_space
      · exact blank c member
    rw [none, none']
  · have kept : (space :: value).rdropWhile isBlank = space :: value.rdropWhile isBlank := by
      unfold List.rdropWhile
      rw [List.reverse_cons, List.dropWhile_append, if_neg]
      · rw [List.reverse_append]
        rfl
      · intro none
        apply blank
        intro c member
        have all := List.dropWhile_eq_nil_iff.mp (List.isEmpty_iff.mp none)
        exact all c (List.mem_reverse.mpr member)
    rw [kept, List.dropWhile_cons_of_pos isBlank_space]

theorem plain_fields {lines : List (Bytes × Bytes)} (plain : ∀ line ∈ lines, Plain line) :
    ∃ fields : List FieldLine, blockText fields = lines.flatMap lineText ∧
      fields.map FieldLine.header = lines.map lineHeader := by
  induction lines with
  | nil => exact ⟨[], rfl, rfl⟩
  | cons line lines ih =>
    obtain ⟨fields, text, headers⟩ := ih fun other member => plain other (List.mem_cons_of_mem _ member)
    obtain ⟨field, passed⟩ := plain line List.mem_cons_self
    have passed' : ∀ b ∈ space :: line.2, isFieldValueByte b := by
      intro b member
      rcases List.mem_cons.mp member with rfl | member
      · exact .inl (by decide)
      · exact passed b member
    refine ⟨⟨line.1, space :: line.2, field, passed'⟩ :: fields, ?_, ?_⟩
    · have separator : ascii ": " = [colon, space] := by decide
      rw [blockText, List.flatMap_cons, List.flatMap_cons, ← blockText, text]
      congr 1
      simp [FieldLine.text, fieldLine, lineText, separator, crlf]
    · rw [List.map_cons, List.map_cons, headers]
      congr 1
      unfold FieldLine.header lineHeader
      rw [trimValue_blank _ passed']
      congr 1
      exact trimBlanks_cons line.2

/-- What a client asks for is a request of the parser. -/
structure Readable (parsed : ParsedUrl) (lines : List (Bytes × Bytes)) : Prop where
  origin : parsed.target.head? = some 47
  visible : ∀ c ∈ parsed.target, 32 < c
  plain : ∀ line ∈ lines, Plain line
  fits : lines.length ≤ maxHeadersCount - 2

def requestText (parsed : ParsedUrl) (lines : List (Bytes × Bytes)) : Bytes :=
  ascii "GET " ++ parsed.target ++ ascii " HTTP/1.1\r\n" ++ lines.flatMap lineText ++ crlf

theorem requestText_apart (parsed : ParsedUrl) (lines : List (Bytes × Bytes)) :
    requestText parsed lines ≠ [] ∧ ProxyParser.offset (requestText parsed lines) = some 0 := by
  have first : (requestText parsed lines).take 4 = ascii "GET " := by
    unfold requestText
    rw [List.append_assoc, List.append_assoc, List.append_assoc, List.take_append_of_le_length (by decide)]
    decide
  have long : 4 ≤ (requestText parsed lines).length := by
    have size := congrArg List.length first
    have four : (ascii "GET ").length = 4 := by decide
    rw [List.length_take, four] at size
    omega
  refine ⟨List.length_pos_iff.mp (by omega), ?_⟩
  unfold ProxyParser.offset
  rw [if_neg (by omega), first, if_pos (by decide)]

theorem requestText_read {parsed : ParsedUrl} {lines : List (Bytes × Bytes)} (readable : Readable parsed lines)
    (some_ : lines ≠ []) : getHeaders (requestText parsed lines) =
      .complete { method := ascii "GET", target := parsed.target, headers := lines.map lineHeader } [] := by
  obtain ⟨fields, text, headers⟩ := plain_fields readable.plain
  have length : fields.length = lines.length := by
    have same := congrArg List.length headers
    rwa [List.length_map, List.length_map] at same
  cases fields with
  | nil =>
    rw [List.length_nil] at length
    exact absurd (List.length_eq_zero_iff.mp length.symm) some_
  | cons field fields =>
    let head : HeadText := ⟨⟨ascii "GET", parsed.target, by decide +kernel, readable.origin, readable.visible⟩, field, fields,
      length ▸ readable.fits⟩
    have whole : requestText parsed lines = head.headText := by
      have get : ascii "GET " = ascii "GET" ++ [space] := by decide
      have version : ascii " HTTP/1.1\r\n" = versionLine := by decide
      unfold requestText
      rw [← text, get, version]
      simp [head, HeadText.headText, RequestText.text, HeadText.fields, crlf]
    have read := head.read []
    rw [List.append_nil] at read
    unfold getHeaders
    rw [(requestText_apart parsed lines).2]
    simp only [List.drop_zero]
    rw [whole, read]
    simp only [HeadText.request, HeadText.fields, head, headers]

def recorder : Handlers (List HttpRequest) where
  requestHandler req requests := (requests ++ [req], true)
  dataHandler _ _ requests := (requests, true)

theorem emitChunks_recorder (fuel : Nat) (data : Bytes) (word : BitVec 64) (requests : List HttpRequest) :
    (emitChunks recorder fuel data word requests).2.2.2 = requests := by
  induction fuel generalizing data word with
  | zero => rfl
  | succ fuel ih =>
    unfold emitChunks
    split
    · rfl
    · exact ih _ _

theorem startBody_recorder (req : HttpRequest) (parser : HttpParser) (data : Bytes) (requests : List HttpRequest) :
    (startBody recorder false req parser data requests).state = requests := by
  unfold startBody
  split
  · have kept := emitChunks_recorder (data.length + 1) data stateIsChunked requests
    simp only [Bool.false_eq_true, if_false]
    unfold consumeChunked
    simp only
    split
    · exact kept
    · split <;> exact kept
  · split
    · simp only [recorder]
      split
      · rfl
      · rfl
    · rfl

theorem fenceLoop_round {maxHeaderSize : Nat} {data rest : Bytes} {req checked : HttpRequest} (some_ : data ≠ [])
    (complete : getHeaders data = .complete req rest) (small : ¬ maxHeaderSize < data.length - rest.length)
    (passed : checkHeaders req = .ok checked) (fuel : Nat) (parser : HttpParser) (requests : List HttpRequest) :
    fenceLoop recorder false maxHeaderSize (fuel + 1) parser data requests =
      if (startBody recorder false checked { parser with reserved := (parser.reserved.parse data).1 } rest
          (requests ++ [checked])).returned.isSome then
        startBody recorder false checked { parser with reserved := (parser.reserved.parse data).1 } rest
          (requests ++ [checked])
      else
        fenceLoop recorder false maxHeaderSize fuel
          (startBody recorder false checked { parser with reserved := (parser.reserved.parse data).1 } rest
            (requests ++ [checked])).parser
          (startBody recorder false checked { parser with reserved := (parser.reserved.parse data).1 } rest
            (requests ++ [checked])).data
          (startBody recorder false checked { parser with reserved := (parser.reserved.parse data).1 } rest
            (requests ++ [checked])).state := by
  have filled : data.isEmpty = false := by simpa using some_
  have handled : recorder.requestHandler checked requests = (requests ++ [checked], true) := rfl
  rw [fenceLoop]
  simp only [filled, complete, passed, if_neg small, handled, Bool.false_eq_true, Bool.not_true, if_false, Bool.or_false]

theorem fenceLoop_refused {maxHeaderSize : Nat} {data : Bytes}
    (refused : ∀ req rest checked, getHeaders data = .complete req rest → checkHeaders req = .ok checked →
      maxHeaderSize < data.length - rest.length) (fuel : Nat) (parser : HttpParser) (requests : List HttpRequest) :
    (fenceLoop recorder false maxHeaderSize fuel parser data requests).state = requests := by
  cases fuel with
  | zero => rfl
  | succ fuel =>
    rw [fenceLoop]
    cases data.isEmpty with
    | true => rfl
    | false =>
      simp only [Bool.false_eq_true, if_false]
      cases complete : getHeaders data with
      | incomplete buffer => rfl
      | failed err => rfl
      | complete req rest =>
        simp only
        by_cases large : maxHeaderSize < data.length - rest.length
        · rw [if_pos large]
        · rw [if_neg large]
          cases passed : checkHeaders req with
          | error err => rfl
          | ok checked => exact absurd (refused req rest checked complete passed) large

theorem fenceLoop_recorder (maxHeaderSize fuel : Nat) (parser : HttpParser) (data : Bytes) (requests : List HttpRequest) :
    requests <+: (fenceLoop recorder false maxHeaderSize fuel parser data requests).state := by
  induction fuel generalizing parser data requests with
  | zero => exact List.prefix_refl _
  | succ fuel ih =>
    by_cases dispatched : ∃ req rest checked, getHeaders data = .complete req rest ∧ checkHeaders req = .ok checked ∧
        ¬ maxHeaderSize < data.length - rest.length
    · obtain ⟨req, rest, checked, complete, passed, small⟩ := dispatched
      have some_ : data ≠ [] := by
        rintro rfl
        cases complete
      have kept := startBody_recorder checked { parser with reserved := (parser.reserved.parse data).1 } rest
        (requests ++ [checked])
      rw [fenceLoop_round some_ complete small passed]
      refine (List.prefix_append requests [checked]).trans ?_
      split
      · rw [kept]
      · rw [kept]
        exact ih _ _ _
    · rw [fenceLoop_refused]
      intro req rest checked complete passed
      by_contra small
      exact dispatched ⟨req, rest, checked, complete, passed, small⟩

/-- A head that is dispatched and announces no body. -/
structure Bodiless (headers : List Header) : Prop where
  unclashed : Unclashed .reset headers
  encoding : ∀ h ∈ headers, h.key = transferEncodingName → h.value = []
  length : ∀ h ∈ headers, h.key = contentLengthName → h.value = [] ∨ toUnsignedInteger h.value = 0#64

/-- What a dispatched request without a body shows. -/
structure DispatchedAlone (req checked : HttpRequest) : Prop where
  passed : checkHeaders req = .ok checked
  encoding : checked.transferEncodingString = []
  length : checked.contentLengthString = [] ∨ toUnsignedInteger checked.contentLengthString = 0#64

theorem DispatchedAlone.bodiless {req checked : HttpRequest} (alone : DispatchedAlone req checked) : Bodiless req.walk := by
  obtain ⟨passed, encoding, length⟩ := alone
  obtain ⟨-, values, counts, -⟩ := checkHeaders_ok passed
  have own : ∀ name ∈ framingNames, ∀ h ∈ req.walk, h.key = name → (checked.getHeader name).getD [] = h.value := by
    intro name framing h member key
    have here : (fun g : Header => g.key == name) h = true := by simpa using key
    rw [values]
    cases found : req.walk.find? (·.key == name) with
    | none => exact absurd here (List.find?_eq_none.mp found h member)
    | some g =>
      rw [countP_one_find (counts name framing) member here found]
      rfl
  refine ⟨?_, ?_, ?_⟩
  · unfold checkHeaders at passed
    cases added : addHeaders req.walk { req with bf := .reset } with
    | none =>
      rw [added] at passed
      cases passed
    | some filled => exact (addHeaders_unclashed _ { req with bf := .reset } fun h member => member).mp ⟨filled, added⟩
  · intro h member key
    rw [← own transferEncodingName (by simp [framingNames]) h member key]
    exact encoding
  · intro h member key
    rw [← own contentLengthName (by simp [framingNames]) h member key]
    exact length

theorem Bodiless.dispatched {req : HttpRequest} (bodiless : Bodiless req.walk) {host : Header} (member : host ∈ req.walk)
    (key : host.key = hostName) : ∃ checked, DispatchedAlone req checked ∧ checked.method = req.method ∧
      checked.target = req.target ∧ checked.headers = req.headers := by
  obtain ⟨filled, added⟩ : ∃ filled, addHeaders req.walk { req with bf := .reset } = some filled :=
    (addHeaders_unclashed _ { req with bf := .reset } fun h member => member).mpr bodiless.unclashed
  obtain ⟨same, -⟩ := addHeaders_some { req with bf := .reset } (fun h member => member) added
  have walk : filled.walk = req.walk := by
    rw [same]
    rfl
  have had : ∀ h ∈ filled.walk, filled.bf.mightHave h.key = true := by
    intro h member
    rw [walk] at member
    rw [same]
    exact BloomFilter.mightHave_foldl _ _ (List.mem_map_of_mem member)
  have values : ∀ name, filled.getHeader name = (req.walk.find? (·.key == name)).map Header.value := by
    intro name
    rw [getHeader_walk had, walk]
  have hosted : (filled.getHeader hostName).isNone = false := by
    rw [values]
    cases found : req.walk.find? (·.key == hostName) with
    | none => exact absurd (by simpa using key) (List.find?_eq_none.mp found host member)
    | some g => rfl
  have encoding : filled.transferEncodingString = [] := by
    unfold HttpRequest.transferEncodingString
    rw [values]
    cases found : req.walk.find? (·.key == transferEncodingName) with
    | none => rfl
    | some g => exact bodiless.encoding g (List.mem_of_find?_eq_some found) (by simpa using List.find?_some found)
  have length : filled.contentLengthString = [] ∨ toUnsignedInteger filled.contentLengthString = 0#64 := by
    unfold HttpRequest.contentLengthString
    rw [values]
    cases found : req.walk.find? (·.key == contentLengthName) with
    | none => exact .inl rfl
    | some g => exact bodiless.length g (List.mem_of_find?_eq_some found) (by simpa using List.find?_some found)
  refine ⟨filled, ⟨?_, encoding, length⟩, ?_, ?_, ?_⟩
  · unfold checkHeaders
    rw [added]
    simp only [hosted, encoding, Bool.false_eq_true, if_false, List.length_nil, ne_eq, not_true_eq_false, false_and]
  · rw [same]
  · rw [same]
  · rw [same]

theorem consumePostPadded_first (maxHeaderSize : Nat) (data : Bytes) (requests : List HttpRequest) :
    consumePostPadded recorder maxHeaderSize {} data requests = consumeHeads recorder maxHeaderSize {} data requests := rfl

theorem reserved_kept {data : Bytes} (apart : ProxyParser.offset data = some 0) :
    ({ ({} : HttpParser) with reserved := (({} : HttpParser).reserved.parse data).1 } : HttpParser) = {} := by
  unfold ProxyParser.parse
  rw [apart]
  rfl

theorem fenceLoop_nil (maxHeaderSize fuel : Nat) (parser : HttpParser) (requests : List HttpRequest) :
    fenceLoop recorder false maxHeaderSize fuel parser [] requests = ⟨none, parser, [], requests⟩ := by
  cases fuel <;> rfl

theorem startBody_chunked {checked : HttpRequest} (encoding : checked.transferEncodingString.length ≠ 0)
    (requests : List HttpRequest) : startBody recorder false checked {} [] requests =
      ⟨none, { remainingStreamingBytes := stateIsChunked }, [], requests⟩ := by
  unfold startBody
  rw [if_pos encoding]
  rfl

theorem startBody_sized {checked : HttpRequest} (encoding : ¬ checked.transferEncodingString.length ≠ 0)
    (length : checked.contentLengthString.length ≠ 0) (requests : List HttpRequest) :
    startBody recorder false checked {} [] requests =
      if (toUnsignedInteger checked.contentLengthString).toNat = uint64Max then
        ⟨some (.error .badRequest), { remainingStreamingBytes := toUnsignedInteger checked.contentLengthString }, [], requests⟩
      else ⟨none, { remainingStreamingBytes := toUnsignedInteger checked.contentLengthString }, [], requests⟩ := by
  unfold startBody
  rw [if_neg encoding, if_pos length]
  simp only [Bool.not_false, if_true, List.length_nil, Nat.min_zero, List.take_nil, List.drop_nil, Nat.sub_zero,
    BitVec.ofNat_toNat, BitVec.setWidth_eq]
  split
  · rfl
  · rfl

theorem startBody_bare {checked : HttpRequest} (encoding : ¬ checked.transferEncodingString.length ≠ 0)
    (length : ¬ checked.contentLengthString.length ≠ 0) (requests : List HttpRequest) :
    startBody recorder false checked {} [] requests = ⟨none, {}, [], requests⟩ := by
  unfold startBody
  rw [if_neg encoding, if_neg length]
  rfl

theorem consume_dispatched {maxHeaderSize : Nat} {data : Bytes} {req checked : HttpRequest} (some_ : data ≠ [])
    (apart : ProxyParser.offset data = some 0) (complete : getHeaders data = .complete req [])
    (small : ¬ maxHeaderSize < data.length) (passed : checkHeaders req = .ok checked) :
    (consumePostPadded recorder maxHeaderSize {} data [] = (.user, {}, [checked])) ↔ DispatchedAlone req checked := by
  obtain ⟨c, data', rfl⟩ := List.exists_cons_of_ne_nil some_
  rw [consumePostPadded_first]
  unfold consumeHeads fenceAndConsumePostPadded
  rw [List.length_cons, fenceLoop_round some_ complete (by rwa [List.length_nil, Nat.sub_zero]) passed, reserved_kept apart,
    List.nil_append]
  by_cases encoding : checked.transferEncodingString.length ≠ 0
  · rw [startBody_chunked encoding]
    simp only [Option.isSome_none, Bool.false_eq_true, if_false, fenceLoop_nil]
    constructor
    · intro same
      have idle : stateIsChunked = 0#64 :=
        congrArg (fun result : Returned × HttpParser × List HttpRequest => result.2.1.remainingStreamingBytes) same
      exact absurd idle (by decide)
    · intro alone
      rw [alone.encoding] at encoding
      exact absurd rfl encoding
  · have none : checked.transferEncodingString = [] := List.length_eq_zero_iff.mp (not_not.mp encoding)
    by_cases length : checked.contentLengthString.length ≠ 0
    · have sized : checked.contentLengthString ≠ [] := fun empty => length (List.length_eq_zero_iff.mpr empty)
      rw [startBody_sized encoding length]
      by_cases error : (toUnsignedInteger checked.contentLengthString).toNat = uint64Max
      · rw [if_pos error]
        simp only [Option.isSome_some, if_true]
        constructor
        · intro same
          cases same
        · intro alone
          rw [alone.length.resolve_left sized] at error
          exact absurd error (by decide)
      · rw [if_neg error]
        simp only [Option.isSome_none, Bool.false_eq_true, if_false, fenceLoop_nil]
        constructor
        · intro same
          have idle : toUnsignedInteger checked.contentLengthString = 0#64 :=
            congrArg (fun result : Returned × HttpParser × List HttpRequest => result.2.1.remainingStreamingBytes) same
          exact ⟨passed, none, .inr idle⟩
        · intro alone
          rw [alone.length.resolve_left sized]
          rfl
    · rw [startBody_bare encoding length]
      simp only [Option.isSome_none, Bool.false_eq_true, if_false, fenceLoop_nil]
      exact ⟨fun _ => ⟨passed, none, .inl (List.length_eq_zero_iff.mp (not_not.mp length))⟩, fun _ => rfl⟩

def urlRest (url : Bytes) : Bytes := ((splitScheme url).map Prod.snd).getD []

def urlAuthority (url : Bytes) : Bytes := authorityOf (urlRest url)

/-- The path and query; a slash where there are none. -/
def urlTarget (url : Bytes) : Bytes := if pathOf (urlRest url) ≠ [] then pathOf (urlRest url) else ascii "/"

theorem parseUrl_spec {ssl : Bool} {url : Bytes} {parsed : ParsedUrl} (read : parseUrl ssl url = some parsed) :
    parsed.target = urlTarget url ∧ ∃ portStr, Parts (urlAuthority url) portStr parsed := by
  unfold parseUrl at read
  unfold urlTarget urlAuthority urlRest
  cases scheme : splitScheme url with
  | none =>
    rw [scheme] at read
    cases read
  | some parts =>
    obtain ⟨scheme', rest⟩ := parts
    rw [scheme] at read
    simp only at read
    cases split : splitAuthority (authorityOf rest) with
    | none =>
      rw [split] at read
      cases read
    | some parts =>
      obtain ⟨host, portStr⟩ := parts
      rw [split] at read
      simp only at read
      by_cases none : host = []
      · rw [if_pos none] at read
        cases read
      · rw [if_neg none] at read
        by_cases default : portStr = []
        · rw [if_pos default] at read
          cases read
          exact ⟨rfl, portStr, none, split, .inl ⟨default, rfl⟩⟩
        · rw [if_neg default] at read
          obtain ⟨port, number, rfl⟩ := Option.map_eq_some_iff.mp read
          exact ⟨rfl, portStr, none, split, .inr ⟨default, rfl, number⟩⟩

/-- What a connect has checked of its arguments when it sends. -/
structure Accepted (parsed : ParsedUrl) (behavior : ClientBehavior) : Prop where
  host : ∀ c ∈ parsed.host, 32 ≤ c
  target : ∀ c ∈ parsed.target, 32 ≤ c
  headers : ∀ h ∈ behavior.headers, isValidUserHeader h.1 h.2 = true
  protocols : ∀ protocol ∈ behavior.protocols, ∀ c ∈ protocol, 32 ≤ c

theorem visible_of_checked {value : Bytes} (checked : hasControlOrCRLF value = false) : ∀ c ∈ value, 32 ≤ c := by
  intro c member
  have passes := List.any_eq_false.mp checked c member
  simp only [Bool.or_eq_true, decide_eq_true_eq, not_or, UInt8.not_lt] at passes
  exact passes.1

theorem connectRequest_ok {ssl : Bool} {url : Bytes} {behavior : ClientBehavior} {random : Fin 16 → UInt8} {request : Bytes}
    (sent : connectRequest ssl url behavior random = .ok request) :
    ∃ parsed, parseUrl ssl url = some parsed ∧ Accepted parsed behavior ∧
      request = requestText parsed (requestLines parsed behavior (generateKey random)) := by
  unfold connectRequest at sent
  cases read : parseUrl ssl url with
  | none =>
    rw [read] at sent
    cases sent
  | some parsed =>
    rw [read] at sent
    simp only at sent
    generalize (if ssl = true then ascii "wss" else ascii "ws") = scheme at sent
    split at sent
    · cases sent
    · split at sent
      · cases sent
      · rename_i controls
        split at sent
        · cases sent
        · rename_i headers
          split at sent
          · cases sent
          · rename_i protocols
            simp only [Bool.or_eq_true, not_or, Bool.not_eq_true] at controls
            have valid : ∀ h ∈ behavior.headers, isValidUserHeader h.1 h.2 = true := by simpa using headers
            simp only [Bool.not_eq_true, List.any_eq_false, Bool.or_eq_true, not_or] at protocols
            have target : parsed.target ≠ [] := by
              rw [(parseUrl_spec read).1]
              unfold urlTarget
              split
              · assumption
              · decide
            refine ⟨parsed, rfl, ⟨visible_of_checked controls.1, visible_of_checked controls.2, valid, ?_⟩, ?_⟩
            · intro protocol member
              exact visible_of_checked (by simpa using (protocols protocol member).1)
            · cases sent
              exact buildUpgradeRequest_lines parsed behavior (generateKey random) target

theorem value_of_all {value : Bytes} (all : (value.all fun c => 32 ≤ c) = true) : ∀ b ∈ value, isFieldValueByte b := by
  intro b member
  have least := List.all_eq_true.mp all b member
  rw [decide_eq_true_iff, UInt8.le_iff_toNat_le] at least
  exact .inl (UInt8.lt_iff_toNat_lt.mpr least)

theorem value_of_visible {value : Bytes} (visible : ∀ c ∈ value, 32 ≤ c) : ∀ b ∈ value, isFieldValueByte b :=
  value_of_all (List.all_eq_true.mpr fun c member => decide_eq_true (visible c member))

theorem value_append {left right : Bytes} (first : ∀ b ∈ left, isFieldValueByte b) (second : ∀ b ∈ right, isFieldValueByte b) :
    ∀ b ∈ left ++ right, isFieldValueByte b := by
  intro b member
  rcases List.mem_append.mp member with member | member
  · exact first b member
  · exact second b member

theorem value_decimal (n : Nat) : ∀ b ∈ ascii (toString n), isFieldValueByte b := by
  intro b member
  have digit := decimal_digit member
  simp only [isDigit, Bool.and_eq_true, decide_eq_true_eq, UInt8.le_iff_toNat_le] at digit
  have least : 48 ≤ b.toNat := digit.1
  refine .inl (UInt8.lt_iff_toNat_lt.mpr ?_)
  have bound : (31 : UInt8).toNat = 31 := rfl
  omega

theorem hostValue_plain {parsed : ParsedUrl} {behavior : ClientBehavior} (accepted : Accepted parsed behavior) :
    ∀ b ∈ hostValue parsed, isFieldValueByte b := by
  have host := value_of_visible accepted.host
  unfold hostValue
  apply value_append
  · rcases bracketed_cases parsed.host with ⟨-, -, literal⟩ | ⟨-, bare⟩
    · rw [literal]
      exact value_append (@value_append [openBracket] _ (value_of_all (by decide)) host) (value_of_all (by decide))
    · rw [bare]
      exact host
  · split
    · exact List.forall_mem_nil _
    · exact value_append (value_of_all (by decide)) (value_decimal _)

theorem extensionsOffer_plain (wanted : Nat) : ∀ b ∈ extensionsOffer wanted, isFieldValueByte b := by
  unfold extensionsOffer
  simp only
  apply value_append
  · apply value_append (value_of_all (by decide))
    split
    · exact value_of_all (by decide)
    · split
      · exact value_append (value_of_all (by decide)) (value_decimal _)
      · exact List.forall_mem_nil _
  · split
    · exact value_of_all (by decide)
    · split
      · exact value_append (value_of_all (by decide)) (value_decimal _)
      · exact value_of_all (by decide)

theorem protocolsCsv_visible {protocols : List Bytes} (visible : ∀ protocol ∈ protocols, ∀ c ∈ protocol, 32 ≤ c) :
    ∀ c ∈ protocolsCsv protocols, 32 ≤ c := by
  unfold protocolsCsv
  induction protocols with
  | nil => exact fun c member => nomatch member
  | cons first more ih =>
    have later := ih fun protocol member => visible protocol (List.mem_cons_of_mem _ member)
    have own := visible first List.mem_cons_self
    cases more with
    | nil =>
      intro c member
      exact own c (by simpa using member)
    | cons second more =>
      intro c member
      rw [List.intercalate_cons_cons] at member
      rcases List.mem_append.mp member with member | member
      · rcases List.mem_append.mp member with member | member
        · exact own c member
        · rcases List.mem_cons.mp member with rfl | member
          · decide
          · rw [List.mem_singleton.mp member]
            decide
      · exact later c member

theorem b64Digit_plain {index : UInt8} (small : index.toNat < 64) : isFieldValueByte (b64Digit index) := by
  have all : ∀ n < 64, 32 ≤ b64.getD n 0 := by decide +kernel
  have visible : ∀ c ∈ [b64Digit index], 32 ≤ c := by
    intro c member
    rw [List.mem_singleton.mp member]
    exact all index.toNat small
  exact value_of_visible visible _ (List.mem_singleton_self _)

theorem and_small (index : UInt8) (mask : UInt8) {bound : Nat} (below : mask.toNat < bound) : (index &&& mask).toNat < bound := by
  rw [UInt8.toNat_and]
  exact Nat.lt_of_le_of_lt Nat.and_le_right below

theorem or_small {left right : UInt8} (first : left.toNat < 64) (second : right.toNat < 64) : (left ||| right).toNat < 64 := by
  rw [UInt8.toNat_or]
  exact Nat.or_lt_two_pow (n := 6) first second

theorem shiftLeft_small (a : UInt8) : ((a &&& 3) <<< 4).toNat < 64 ∧ ((a &&& 15) <<< 2).toNat < 64 := by
  have three : a.toNat &&& 3 ≤ 3 := Nat.and_le_right
  have fifteen : a.toNat &&& 15 ≤ 15 := Nat.and_le_right
  simp only [UInt8.toNat_shiftLeft, UInt8.toNat_and, UInt8.reduceToNat, Nat.shiftLeft_eq, Nat.reduceMod,
    Nat.reducePow]
  omega

theorem shiftRight_small (a : UInt8) : ((a &&& 240) >>> 4).toNat < 64 ∧ ((a &&& 192) >>> 6).toNat < 64 := by
  have high : a.toNat &&& 240 ≤ 240 := Nat.and_le_right
  have higher : a.toNat &&& 192 ≤ 192 := Nat.and_le_right
  simp only [UInt8.toNat_shiftRight, UInt8.toNat_and, UInt8.reduceToNat, Nat.shiftRight_eq_div_pow, Nat.reduceMod,
    Nat.reducePow]
  omega

theorem keyGroup_plain (a b c : UInt8) : ∀ d ∈ keyGroup a b c, isFieldValueByte d := by
  intro d member
  simp only [keyGroup, List.mem_cons, List.not_mem_nil, or_false] at member
  rcases member with rfl | rfl | rfl | rfl
  · exact b64Digit_plain (and_small _ _ (by decide))
  · exact b64Digit_plain (or_small (shiftLeft_small a).1 (shiftRight_small b).1)
  · exact b64Digit_plain (or_small (shiftLeft_small b).2 (shiftRight_small c).2)
  · exact b64Digit_plain (and_small _ _ (by decide))

theorem generateKey_plain (random : Fin 16 → UInt8) : ∀ b ∈ generateKey random, isFieldValueByte b := by
  unfold generateKey
  refine value_append (value_append (value_append (value_append (value_append ?_ ?_) ?_) ?_) ?_) ?_
  · exact keyGroup_plain _ _ _
  · exact keyGroup_plain _ _ _
  · exact keyGroup_plain _ _ _
  · exact keyGroup_plain _ _ _
  · exact keyGroup_plain _ _ _
  · intro d member
    simp only [List.mem_cons, List.not_mem_nil, or_false] at member
    rcases member with rfl | rfl | rfl | rfl
    · exact b64Digit_plain (and_small _ _ (by decide))
    · exact b64Digit_plain (shiftLeft_small _).1
    · exact .inl (by decide)
    · exact .inl (by decide)

theorem plain_line {name value : Bytes} (field : name.all isFieldNameByteFast = true) (passed : ∀ b ∈ value, isFieldValueByte b) :
    Plain (name, value) := ⟨fun b member => List.all_eq_true.mp field b member, passed⟩

theorem handshakeLines_plain {parsed : ParsedUrl} {behavior : ClientBehavior} (accepted : Accepted parsed behavior)
    (random : Fin 16 → UInt8) : ∀ line ∈ handshakeLines behavior (generateKey random), Plain line := by
  intro line member
  unfold handshakeLines at member
  rcases List.mem_append.mp member with member | member
  · rcases List.mem_append.mp member with member | member
    · simp only [List.mem_cons, List.not_mem_nil, or_false] at member
      rcases member with rfl | rfl | rfl | rfl
      · exact plain_line (by decide) (value_of_all (by decide))
      · exact plain_line (by decide) (value_of_all (by decide))
      · exact plain_line (by decide) (generateKey_plain random)
      · exact plain_line (by decide) (value_of_all (by decide))
    · split at member
      · rw [List.mem_singleton.mp member]
        exact plain_line (by decide) (value_of_visible (protocolsCsv_visible accepted.protocols))
      · cases member
  · split at member
    · rw [List.mem_singleton.mp member]
      exact plain_line (by decide) (extensionsOffer_plain _)
    · cases member

/-- The headers that a caller asked for: the authority as the host, the handshake's own, and the caller's. -/
def expectedHeaders (url : Bytes) (behavior : ClientBehavior) (key : Bytes) : List Header :=
  ⟨hostName, urlAuthority url⟩ :: (handshakeLines behavior key ++ behavior.headers).map lineHeader

def expectedText (url : Bytes) (behavior : ClientBehavior) (key : Bytes) : Bytes :=
  ascii "GET " ++ urlTarget url ++ ascii " HTTP/1.1\r\n" ++
    ((ascii "Host", urlAuthority url) :: (handshakeLines behavior key ++ behavior.headers)).flatMap lineText ++ crlf

/-- The parser takes the bytes for one complete request, with nothing behind it, and it is the one asked for. -/
def Sent (url : Bytes) (behavior : ClientBehavior) (key : Bytes) (maxHeaderSize : Nat) (request : Bytes) : Prop :=
  ∃ checked, consumePostPadded recorder maxHeaderSize {} request [] = (.user, {}, [checked]) ∧
    checked.method = ascii "GET" ∧ checked.target = urlTarget url ∧ checked.headers = expectedHeaders url behavior key

/-- Arguments whose request the parser can read. -/
structure Parsable (url : Bytes) (behavior : ClientBehavior) (key : Bytes) (maxHeaderSize : Nat) : Prop where
  authority : NormalAuthority (urlAuthority url)
  origin : (urlTarget url).head? = some 47
  visible : space ∉ urlTarget url
  names : ∀ h ∈ behavior.headers, ∀ b ∈ h.1, isFieldNameByteFast b = true
  values : ∀ h ∈ behavior.headers, ∀ b ∈ h.2, isFieldValueByte b
  fits : (handshakeLines behavior key).length + behavior.headers.length < maxHeadersCount - 2
  bodiless : Bodiless (expectedHeaders url behavior key)
  size : (expectedText url behavior key).length ≤ maxHeaderSize

theorem lowercased_field_iff (c : UInt8) : isFieldNameByteFast (lowercased c) = isFieldNameByteFast c := by
  have all : ∀ n < 256, isFieldNameByteFast (lowercased (UInt8.ofNat n)) = isFieldNameByteFast (UInt8.ofNat n) := by
    decide +kernel
  have own := all c.toNat c.toNat_lt
  rwa [UInt8.ofNat_toNat] at own

theorem mem_trimBlanks {value : Bytes} {b : UInt8} (member : b ∈ value) : b ∈ trimBlanks value ∨ isBlank b = true := by
  unfold trimBlanks
  have back : value.rdropWhile isBlank ++ value.rtakeWhile isBlank = value := List.rdropWhile_append_rtakeWhile
  rw [← back] at member
  rcases List.mem_append.mp member with member | member
  · rw [← List.takeWhile_append_dropWhile (p := isBlank) (l := value.rdropWhile isBlank)] at member
    rcases List.mem_append.mp member with member | member
    · exact .inr (List.mem_takeWhile_imp member)
    · exact .inl member
  · exact .inr (List.mem_rtakeWhile_imp member)

theorem blank_value {b : UInt8} (blank : isBlank b = true) : isFieldValueByte b := by
  simp only [isBlank, Bool.or_eq_true, beq_iff_eq] at blank
  rcases blank with rfl | rfl
  · exact .inl (by decide)
  · exact .inr rfl

theorem mem_trimValue {value : Bytes} {b : UInt8} (member : b ∈ trimValue value) : b ∈ value := by
  unfold trimValue at member
  exact (List.rdropWhile_prefix _ _).mem ((List.dropWhile_suffix _).mem member)

theorem plain_of_header {field : FieldLine} {line : Bytes × Bytes} (same : field.header = lineHeader line) : Plain line := by
  obtain ⟨key, value⟩ := Header.mk.inj same
  refine ⟨fun b member => ?_, fun b member => ?_⟩
  · have lowered : lowercased b ∈ field.name.map lowercased := key ▸ List.mem_map_of_mem member
    obtain ⟨c, own, equal⟩ := List.mem_map.mp lowered
    have read := lowercased_field c (field.field c own)
    rwa [equal, lowercased_field_iff] at read
  · rcases mem_trimBlanks member with kept | blank
    · rw [← value] at kept
      exact field.passed b (mem_trimValue kept)
    · exact blank_value blank

theorem consume_first {maxHeaderSize : Nat} {data : Bytes} {returned : Returned} {parser : HttpParser} {checked : HttpRequest}
    (consumed : consumePostPadded recorder maxHeaderSize {} data [] = (returned, parser, [checked])) :
    ∃ req rest, getHeaders data = .complete req rest ∧ checkHeaders req = .ok checked ∧
      ¬ maxHeaderSize < data.length - rest.length := by
  have state : (fenceLoop recorder false maxHeaderSize data.length {} data []).state = [checked] := by
    rw [consumePostPadded_first] at consumed
    unfold consumeHeads fenceAndConsumePostPadded at consumed
    generalize fenceLoop recorder false maxHeaderSize data.length {} data [] = after at consumed
    simp only at consumed
    split at consumed
    · exact (Prod.mk.inj (Prod.mk.inj consumed).2).2
    · split at consumed
      · split at consumed
        · exact (Prod.mk.inj (Prod.mk.inj consumed).2).2
        · exact (Prod.mk.inj (Prod.mk.inj consumed).2).2
      · exact (Prod.mk.inj (Prod.mk.inj consumed).2).2
  by_contra none
  have refused : ∀ req rest other, getHeaders data = .complete req rest → checkHeaders req = .ok other →
      maxHeaderSize < data.length - rest.length := by
    intro req rest other complete passed
    by_contra small
    apply none
    have some_ : data ≠ [] := by
      rintro rfl
      cases complete
    obtain ⟨c, data', rfl⟩ := List.exists_cons_of_ne_nil some_
    refine ⟨req, rest, complete, ?_, small⟩
    rw [List.length_cons, fenceLoop_round some_ complete small passed, List.nil_append] at state
    have first : [other] <+: [checked] := by
      rw [← state]
      split
      · rw [startBody_recorder]
      · rw [startBody_recorder]
        exact fenceLoop_recorder _ _ _ _ _
    rw [passed, (List.cons_prefix_cons.mp first).1]
  rw [fenceLoop_refused refused] at state
  cases state

theorem checkHeaders_same {req checked : HttpRequest} (passed : checkHeaders req = .ok checked) :
    checked.method = req.method ∧ checked.target = req.target ∧ checked.headers = req.headers := by
  unfold checkHeaders at passed
  cases added : addHeaders req.walk { req with bf := .reset } with
  | none =>
    rw [added] at passed
    cases passed
  | some filled =>
    obtain ⟨same, -⟩ := addHeaders_some { req with bf := .reset } (fun h member => member) added
    rw [added] at passed
    simp only at passed
    split at passed
    · cases passed
    · split at passed
      · cases passed
      · cases passed
        rw [same]
        exact ⟨rfl, rfl, rfl⟩

theorem walk_lines {req : HttpRequest} {lines : List (Bytes × Bytes)} (headers : req.headers = lines.map lineHeader)
    (named : ∀ line ∈ lines, line.1 ≠ []) : req.walk = req.headers := by
  apply walk_all
  intro h member
  rw [headers] at member
  obtain ⟨line, own, rfl⟩ := List.mem_map.mp member
  intro none
  exact named line own (List.map_eq_nil_iff.mp none)

theorem named_line {name : Bytes} (some_ : name ≠ []) (value : Bytes) : (name, value).1 ≠ [] := some_

theorem requestLines_named {parsed : ParsedUrl} {behavior : ClientBehavior} (accepted : Accepted parsed behavior) (key : Bytes) :
    ∀ line ∈ requestLines parsed behavior key, line.1 ≠ [] := by
  intro line member
  rcases List.mem_cons.mp member with rfl | member
  · exact named_line (by decide) _
  · rcases List.mem_append.mp member with member | member
    · unfold handshakeLines at member
      rcases List.mem_append.mp member with member | member
      · rcases List.mem_append.mp member with member | member
        · simp only [List.mem_cons, List.not_mem_nil, or_false] at member
          rcases member with rfl | rfl | rfl | rfl <;> exact named_line (by decide) _
        · split at member
          · rw [List.mem_singleton.mp member]
            exact named_line (by decide) _
          · cases member
      · split at member
        · rw [List.mem_singleton.mp member]
          exact named_line (by decide) _
        · cases member
    · have valid := accepted.headers line member
      intro none
      unfold isValidUserHeader at valid
      rw [if_pos (.inl none)] at valid
      cases valid

theorem requestLines_headers {parsed : ParsedUrl} {url : Bytes} {behavior : ClientBehavior} {key : Bytes} :
    (requestLines parsed behavior key).map lineHeader = expectedHeaders url behavior key ↔
      trimBlanks (hostValue parsed) = urlAuthority url := by
  have name : (ascii "Host").map lowercased = hostName := by decide
  unfold requestLines expectedHeaders
  rw [List.map_cons, List.cons.injEq, lineHeader, name, Header.mk.injEq]
  exact ⟨fun same => same.1.2, fun same => ⟨⟨rfl, same⟩, rfl⟩⟩

theorem readable_of_sent {parsed : ParsedUrl} {url : Bytes} {behavior : ClientBehavior} {random : Fin 16 → UInt8}
    (accepted : Accepted parsed behavior) (target : parsed.target = urlTarget url) {maxHeaderSize : Nat} {request : Bytes}
    (sent : Sent url behavior (generateKey random) maxHeaderSize request) :
    Readable parsed (requestLines parsed behavior (generateKey random)) := by
  obtain ⟨checked, consumed, -, targeted, headers⟩ := sent
  obtain ⟨req, rest, complete, passed, -⟩ := consume_first consumed
  obtain ⟨-, sameTarget, sameHeaders⟩ := checkHeaders_same passed
  obtain ⟨proxy, head, -, rfl, -⟩ := getHeaders_complete complete
  have own : head.target = parsed.target := sameTarget.symm.trans (targeted.trans target.symm)
  have fields : head.fields.map FieldLine.header = expectedHeaders url behavior (generateKey random) :=
    sameHeaders.symm.trans headers
  refine ⟨own ▸ head.origin, own ▸ head.visible, ?_, ?_⟩
  · intro line member
    rcases List.mem_cons.mp member with rfl | member
    · exact plain_line (by decide) (hostValue_plain accepted)
    · have expected : lineHeader line ∈ head.fields.map FieldLine.header := by
        rw [fields]
        exact List.mem_cons_of_mem _ (List.mem_map_of_mem member)
      obtain ⟨field, -, same⟩ := List.mem_map.mp expected
      exact plain_of_header same
  · have size := congrArg List.length fields
    have fits := head.fits
    simp only [HeadText.fields, List.length_map, expectedHeaders, List.length_cons] at size fits
    simp only [requestLines, List.length_cons]
    omega

theorem requestText_expected {parsed : ParsedUrl} {url : Bytes} (behavior : ClientBehavior) (key : Bytes)
    (target : parsed.target = urlTarget url) (host : hostValue parsed = urlAuthority url) :
    requestText parsed (requestLines parsed behavior key) = expectedText url behavior key := by
  unfold requestText requestLines expectedText
  rw [target, host]

/-- What a client sends is read as its caller asked for exactly where its arguments can be read at all. -/
theorem request_sent {ssl : Bool} {url : Bytes} {behavior : ClientBehavior} {random : Fin 16 → UInt8} (maxHeaderSize : Nat)
    {request : Bytes} (connected : connectRequest ssl url behavior random = .ok request) :
    Sent url behavior (generateKey random) maxHeaderSize request ↔
      Parsable url behavior (generateKey random) maxHeaderSize := by
  obtain ⟨parsed, read, accepted, rfl⟩ := connectRequest_ok connected
  obtain ⟨target, portStr, parts⟩ := parseUrl_spec read
  obtain ⟨some_, apart⟩ := requestText_apart parsed (requestLines parsed behavior (generateKey random))
  have lines : requestLines parsed behavior (generateKey random) ≠ [] := List.cons_ne_nil _ _
  constructor
  · intro sent
    have readable := readable_of_sent accepted target sent
    have text := requestText_read readable lines
    obtain ⟨checked, consumed, method, targeted, headers⟩ := sent
    obtain ⟨req, rest, complete, passed, small⟩ := consume_first consumed
    rw [text] at complete
    simp only [HeadersResult.complete.injEq] at complete
    obtain ⟨own, rfl⟩ := complete
    obtain ⟨-, -, sameHeaders⟩ := checkHeaders_same passed
    have reqHeaders : req.headers = (requestLines parsed behavior (generateKey random)).map lineHeader := by rw [← own]
    have expected : (requestLines parsed behavior (generateKey random)).map lineHeader =
        expectedHeaders url behavior (generateKey random) := by
      rw [← reqHeaders, ← sameHeaders, headers]
    have normal := (trimmed_host parts).mp (requestLines_headers.mp expected)
    rw [List.length_nil, Nat.sub_zero] at small
    have alone := (consume_dispatched some_ apart (own ▸ text) small passed).mp consumed
    have bodiless := alone.bodiless
    rw [walk_lines reqHeaders (requestLines_named accepted _), reqHeaders, expected] at bodiless
    have users : ∀ h ∈ behavior.headers, Plain h := fun h member =>
      readable.plain h (List.mem_cons_of_mem _ (List.mem_append_right _ member))
    have fits := readable.fits
    rw [requestLines, List.length_cons, List.length_append] at fits
    refine ⟨normal, target ▸ readable.origin, ?_, fun h member => (users h member).1, fun h member => (users h member).2,
      fits, bodiless, ?_⟩
    · intro member
      exact absurd (readable.visible space (target ▸ member)) (by decide)
    · rw [← requestText_expected behavior _ target (hostValue_normal parts normal)]
      omega
  · intro parsable
    have host := hostValue_normal parts parsable.authority
    have readable : Readable parsed (requestLines parsed behavior (generateKey random)) := by
      refine ⟨target ▸ parsable.origin, ?_, ?_, ?_⟩
      · intro c member
        have least := accepted.target c member
        have other : c ≠ space := by
          rintro rfl
          exact parsable.visible (target ▸ member)
        exact UInt8.lt_of_le_of_ne least (Ne.symm other)
      · intro line member
        rcases List.mem_cons.mp member with rfl | member
        · exact plain_line (by decide) (hostValue_plain accepted)
        · rcases List.mem_append.mp member with member | member
          · exact handshakeLines_plain accepted random line member
          · exact ⟨parsable.names line member, parsable.values line member⟩
      · rw [requestLines, List.length_cons, List.length_append]
        exact parsable.fits
    have text := requestText_read readable lines
    have expected : (requestLines parsed behavior (generateKey random)).map lineHeader =
        expectedHeaders url behavior (generateKey random) :=
      requestLines_headers.mpr ((trimmed_host parts).mpr parsable.authority)
    rw [expected] at text
    have walk : ({ method := ascii "GET", target := parsed.target, headers := expectedHeaders url behavior (generateKey random) } :
        HttpRequest).walk = expectedHeaders url behavior (generateKey random) :=
      walk_lines expected.symm (requestLines_named accepted _)
    obtain ⟨checked, alone, method, targeted, headers⟩ := Bodiless.dispatched (walk.symm ▸ parsable.bodiless)
      (by rw [walk]; exact List.mem_cons_self) rfl
    have size := parsable.size
    rw [← requestText_expected behavior _ target host] at size
    exact ⟨checked, (consume_dispatched some_ apart text (by omega) alone.passed).mpr alone, method, targeted.trans target,
      headers⟩

theorem plain_headers :
    expectedHeaders (ascii "ws://h:8080/chat") { headers := [(ascii "X-Id", ascii " 7")] } (generateKey fun _ => 0) =
      [⟨ascii "host", ascii "h:8080"⟩, ⟨ascii "upgrade", ascii "websocket"⟩, ⟨ascii "connection", ascii "Upgrade"⟩,
        ⟨ascii "sec-websocket-key", ascii "AAAAAAAAAAAAAAAAAAAAAA=="⟩, ⟨ascii "sec-websocket-version", ascii "13"⟩,
        ⟨ascii "x-id", ascii "7"⟩] := by
  decide +kernel

theorem plain_parsable :
    Parsable (ascii "ws://h:8080/chat") { headers := [(ascii "X-Id", ascii " 7")] } (generateKey fun _ => 0) 4096 where
  authority := ⟨by decide +kernel, ascii "h", ascii ":8080", .inr ⟨8080, by decide +kernel⟩,
    .inl ⟨by decide +kernel, by decide +kernel, by decide +kernel⟩⟩
  origin := by decide +kernel
  visible := by decide +kernel
  names := by decide +kernel
  values := by
    unfold isFieldValueByte
    decide +kernel
  fits := by decide +kernel
  bodiless := by
    rw [plain_headers]
    refine ⟨⟨?_, ?_, ?_, ?_, ?_, ?_, True.intro⟩, ?_, ?_⟩ <;> decide +kernel
  size := by decide +kernel

/-- The handshake of a plain URL, and what is read from it. -/
theorem plain_sent :
    ∃ checked,
      consumePostPadded recorder 4096 {}
          (ascii "GET /chat HTTP/1.1\r\nHost: h:8080\r\nUpgrade: websocket\r\nConnection: Upgrade\r\n" ++
            ascii "Sec-WebSocket-Key: AAAAAAAAAAAAAAAAAAAAAA==\r\nSec-WebSocket-Version: 13\r\nX-Id:  7\r\n\r\n") [] =
        (.user, {}, [checked]) ∧
      checked.method = ascii "GET" ∧ checked.target = ascii "/chat" ∧
        checked.headers =
          [⟨ascii "host", ascii "h:8080"⟩, ⟨ascii "upgrade", ascii "websocket"⟩, ⟨ascii "connection", ascii "Upgrade"⟩,
            ⟨ascii "sec-websocket-key", ascii "AAAAAAAAAAAAAAAAAAAAAA=="⟩, ⟨ascii "sec-websocket-version", ascii "13"⟩,
            ⟨ascii "x-id", ascii "7"⟩] := by
  obtain ⟨checked, consumed, method, target, headers⟩ := (@request_sent false _ _ _ 4096
    (ascii "GET /chat HTTP/1.1\r\nHost: h:8080\r\nUpgrade: websocket\r\nConnection: Upgrade\r\n" ++
      ascii "Sec-WebSocket-Key: AAAAAAAAAAAAAAAAAAAAAA==\r\nSec-WebSocket-Version: 13\r\nX-Id:  7\r\n\r\n")
    (by decide +kernel)).mpr plain_parsable
  refine ⟨checked, consumed, method, target.trans ?_, headers.trans plain_headers⟩
  decide +kernel

/-- A space in the path, a query behind the authority, and a space in a header's name. -/
theorem request_malformed :
    ¬ ∀ (ssl : Bool) (url : Bytes) (behavior : ClientBehavior) (random : Fin 16 → UInt8) (maxHeaderSize : Nat)
      (request : Bytes), connectRequest ssl url behavior random = .ok request → request.length ≤ maxHeaderSize →
      Sent url behavior (generateKey random) maxHeaderSize request := by
  intro all
  obtain ⟨checked, consumed, -⟩ := all false (ascii "ws://h/a b") {} (fun _ => 0) 4096
    (buildUpgradeRequest (ascii "h") 80 true (ascii "/a b") (generateKey fun _ => 0) [] disabled []) (by decide +kernel)
    (by decide +kernel)
  have none : (consumePostPadded recorder 4096 {} (buildUpgradeRequest (ascii "h") 80 true (ascii "/a b")
    (generateKey fun _ => 0) [] disabled []) []).2.2 = [] := by decide +kernel
  rw [consumed] at none
  cases none

end Uws.WebSocket
