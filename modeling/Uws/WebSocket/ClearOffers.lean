import Uws.WebSocket.ExtensionOffers

namespace Uws.WebSocket

open Uws.Http (Bytes ascii isTchar)
open Uws.WordScan

def isPlainWord (word : Int) : Bool :=
  0 < word && !stopsAt word && !isIntegerWord word && word != tokServerNoContextTakeover && word != tokClientNoContextTakeover

def PlainText (text : Bytes) : Prop := ∀ word ∈ extensionWords text, isPlainWord word = true

namespace OfferedParameter

def words (parameter : OfferedParameter) : List Int := parameter.pieces.flatMap extensionWords

def Plain (parameter : OfferedParameter) : Prop := ∀ text ∈ parameter.pieces, PlainText text

/-- A parameter of permessage-deflate, without backslashes; numbers of more than five digits are not read in full. -/
inductive Standard (parameter : OfferedParameter) : Prop
  | server (name : parameter.name.val = ascii "server_no_context_takeover") (bare : parameter.value = none)
  | client (name : parameter.name.val = ascii "client_no_context_takeover") (bare : parameter.value = none)
  | window (which : LastInteger) (name : parameter.name.val = Parameter.integerName which)
    (number : 0 < parameter.number ∧ parameter.number < 327680) (plain : ∀ value ∈ parameter.value, parameter.written value = value.val)

end OfferedParameter

/-- An offer in which only the names of permessage-deflate and of its parameters have a meaning. -/
def ExtensionsOffer.Clear (offer : ExtensionsOffer) : Prop :=
  ∀ extension ∈ offer.extensions,
    (extension.name.val = ascii "permessage-deflate" ∧ ∀ parameter ∈ extension.parameters, parameter.Plain ∨ parameter.Standard) ∨
      extension.name.val = ascii "x-webkit-deflate-frame" ∨
        PlainText extension.name.val ∧ ∀ parameter ∈ extension.parameters, parameter.Plain

section Tokens

theorem digits_words {digits : Bytes} (some_ : digits ≠ []) (all : ∀ c ∈ digits, isDigit c = true)
    (small : decimalValue digits < 327680) : extensionWords digits = [-(decimalValue digits : Int)] := by
  have fold : digits.foldl hashByte 0 = -(decimalValue digits : Int) := by
    clear some_
    induction digits using List.reverseRecOn with
    | nil => rfl
    | append_singleton digits c ih =>
      have value : decimalValue (digits ++ [c]) = decimalValue digits * 10 + (c.toNat - 48) := by
        unfold decimalValue
        rw [List.foldl_append]
        rfl
      have digit : isDigit c = true := all c (List.mem_append_right _ (List.mem_singleton_self c))
      have least : 48 ≤ c.toNat := by
        unfold isDigit at digit
        simp only [Bool.and_eq_true, decide_eq_true_eq, UInt8.le_iff_toNat_le] at digit
        exact digit.1
      rw [value] at small
      rw [List.foldl_append, ih (fun d member => all d (List.mem_append_left _ member)) (by omega), value]
      show hashByte _ c = _
      rw [hashByte, if_pos digit, if_pos (by omega)]
      omega
  cases digits with
  | nil => exact absurd rfl some_
  | cons c digits =>
    have alnum : ∀ d ∈ c :: digits, isAlnum d = true := by
      intro d member
      unfold isAlnum
      rw [all d member]
      rfl
    have tokens : ∀ d ∈ digits, isTokenByte d = true := fun d member =>
      isAlnum_inside d (alnum d (List.mem_cons_of_mem c member))
    unfold extensionWords
    rw [scan, if_pos (alnum c List.mem_cons_self), scan_word isAlnum_inside, List.takeWhile_eq_self_iff.mpr tokens,
      List.dropWhile_eq_nil_iff.mpr tokens, ← fold]
    rfl

theorem name_words :
    extensionWords (ascii "permessage-deflate") = [tokPermessageDeflate] ∧
      extensionWords (ascii "x-webkit-deflate-frame") = [tokXWebkitDeflateFrame] ∧
      extensionWords (ascii "server_no_context_takeover") = [tokServerNoContextTakeover] ∧
      extensionWords (ascii "client_no_context_takeover") = [tokClientNoContextTakeover] ∧
      extensionWords (ascii "server_max_window_bits") = [tokServerMaxWindowBits] ∧
      extensionWords (ascii "client_max_window_bits") = [tokClientMaxWindowBits] := by
  decide +kernel

theorem plain_facts {word : Int} (plain : isPlainWord word = true) :
    0 < word ∧ stopsAt word = false ∧ isIntegerWord word = false ∧ word ≠ tokServerNoContextTakeover ∧
      word ≠ tokClientNoContextTakeover := by
  unfold isPlainWord at plain
  simp only [Bool.and_eq_true, decide_eq_true_eq, Bool.not_eq_true', bne_iff_ne] at plain
  exact ⟨plain.1.1.1.1, plain.1.1.1.2, plain.1.1.2, plain.1.2, plain.2⟩

theorem plain_name {text : Bytes} (plain : PlainText text) {name : Bytes} {word : Int}
    (words : extensionWords name = [word]) (meaning : isPlainWord word = false) : text ≠ name := by
  intro same
  have own := plain word (by rw [same, words]; exact List.mem_singleton_self word)
  rw [meaning] at own
  cases own

end Tokens

namespace OfferedParameter

inductive Numbers : Int → List Int → Prop
  | bare : Numbers 1 []
  | given (number : Int) (positive : 0 < number) : Numbers number [-number]

inductive Kind (parameter : OfferedParameter) : Prop
  | plain (words : ∀ word ∈ parameter.words, isPlainWord word = true)
    (server : parameter.name.val ≠ ascii "server_no_context_takeover")
    (client : parameter.name.val ≠ ascii "client_no_context_takeover")
    (windows : ∀ which, parameter.name.val ≠ Parameter.integerName which)
  | server (name : parameter.name.val = ascii "server_no_context_takeover") (words : parameter.words = [tokServerNoContextTakeover])
  | client (name : parameter.name.val = ascii "client_no_context_takeover") (words : parameter.words = [tokClientNoContextTakeover])
  | window (which : LastInteger) (name : parameter.name.val = Parameter.integerName which) (numbers : List Int)
    (words : parameter.words = integerWord which :: numbers) (read : Numbers parameter.number numbers)

theorem kind {parameter : OfferedParameter} (clear : parameter.Plain ∨ parameter.Standard)
    (numbered : ∀ which, parameter.name.val = Parameter.integerName which →
      ∀ value ∈ parameter.value, ∀ c ∈ value.val, isDigit c = true) : parameter.Kind := by
  obtain ⟨-, -, server, client, serverWindow, clientWindow⟩ := name_words
  rcases clear with plain | standard
  · have name : PlainText parameter.name.val := plain _ List.mem_cons_self
    refine .plain ?_ (plain_name name server (by decide)) (plain_name name client (by decide)) ?_
    · intro word member
      obtain ⟨token, token_, inside⟩ := List.mem_flatMap.mp member
      exact plain token token_ word inside
    · intro which
      cases which with
      | maxWindowBits => exact parameter.name.property.1
      | serverMaxWindowBits => exact plain_name name serverWindow (by decide)
      | clientMaxWindowBits => exact plain_name name clientWindow (by decide)
  · cases standard with
    | server name bare =>
      apply Kind.server name
      rw [words, pieces, bare]
      show extensionWords parameter.name.val ++ [] = _
      rw [name, server, List.append_nil]
    | client name bare =>
      apply Kind.client name
      rw [words, pieces, bare]
      show extensionWords parameter.name.val ++ [] = _
      rw [name, client, List.append_nil]
    | window which name number plain =>
      have own : extensionWords parameter.name.val = [integerWord which] := by
        cases which with
        | maxWindowBits => exact absurd name parameter.name.property.1
        | serverMaxWindowBits => rw [name]; exact serverWindow
        | clientMaxWindowBits => rw [name]; exact clientWindow
      cases given : parameter.value with
      | none =>
        apply Kind.window which name []
        · rw [words, pieces, given]
          show extensionWords parameter.name.val ++ [] = _
          rw [own, List.append_nil]
        · unfold OfferedParameter.number
          rw [given]
          exact .bare
      | some value =>
        have value_ : parameter.number = (decimalValue value.val : Int) := by
          unfold OfferedParameter.number
          rw [given]
        have digits := digits_words value.property.1 (numbered which name value given) (by rw [value_] at number; omega)
        apply Kind.window which name [-parameter.number]
        · rw [words, pieces, given]
          show extensionWords parameter.name.val ++ (extensionWords (parameter.written value) ++ []) = _
          rw [plain value given, own, digits, value_]
          rfl
        · exact .given _ number.1

theorem numbers_negative {number : Int} {numbers : List Int} (read : Numbers number numbers) : ∀ word ∈ numbers, word < 0 := by
  cases read with
  | bare => nofun
  | given positive =>
    intro word member
    rw [List.mem_singleton.mp member]
    omega

theorem integerWord_facts (which : LastInteger) :
    stopsAt (integerWord which) = false ∧ 0 < integerWord which ∧ integerWord which ≠ tokServerNoContextTakeover ∧
      integerWord which ≠ tokClientNoContextTakeover ∧ isIntegerWord (integerWord which) = true ∧
      Parameter.integerName which ≠ ascii "server_no_context_takeover" ∧
      Parameter.integerName which ≠ ascii "client_no_context_takeover" := by
  cases which <;> decide +kernel

theorem integer_injective {which other : LastInteger} :
    (integerWord which = integerWord other ↔ which = other) ∧
      (Parameter.integerName which = Parameter.integerName other ↔ which = other) := by
  cases which <;> cases other <;> decide +kernel

variable {parameter : OfferedParameter}

theorem Kind.goes (kind : parameter.Kind) : ∀ word ∈ parameter.words, stopsAt word = false := by
  cases kind with
  | plain words => exact fun word member => (plain_facts (words word member)).2.1
  | server name words =>
    rw [words]
    decide
  | client name words =>
    rw [words]
    decide
  | window which name numbers words read =>
    rw [words]
    intro word member
    rcases List.mem_cons.mp member with rfl | member
    · exact (integerWord_facts which).1
    · have negative := numbers_negative read word member
      unfold stopsAt tokPermessageDeflate tokXWebkitDeflateFrame
      simp only [Bool.or_eq_false_iff, beq_eq_false_iff_ne]
      omega

theorem Kind.flags (kind : parameter.Kind) :
    (tokServerNoContextTakeover ∈ parameter.words ↔ parameter.name.val = ascii "server_no_context_takeover") ∧
      (tokClientNoContextTakeover ∈ parameter.words ↔ parameter.name.val = ascii "client_no_context_takeover") := by
  have apart : ascii "server_no_context_takeover" ≠ ascii "client_no_context_takeover" := by decide +kernel
  cases kind with
  | plain words server client windows =>
    refine ⟨iff_of_false ?_ server, iff_of_false ?_ client⟩
    · exact fun member => (plain_facts (words _ member)).2.2.2.1 rfl
    · exact fun member => (plain_facts (words _ member)).2.2.2.2 rfl
  | server name words =>
    rw [words, name]
    exact ⟨iff_of_true (List.mem_singleton_self _) rfl, iff_of_false (by decide) apart⟩
  | client name words =>
    rw [words, name]
    exact ⟨iff_of_false (by decide) apart.symm, iff_of_true (List.mem_singleton_self _) rfl⟩
  | window which name numbers words read =>
    obtain ⟨-, -, server, client, -, serverName, clientName⟩ := integerWord_facts which
    rw [words, name]
    refine ⟨iff_of_false ?_ serverName, iff_of_false ?_ clientName⟩
    · intro member
      rcases List.mem_cons.mp member with same | member
      · exact server same.symm
      · exact absurd (numbers_negative read _ member) (by decide)
    · intro member
      rcases List.mem_cons.mp member with same | member
      · exact client same.symm
      · exact absurd (numbers_negative read _ member) (by decide)

theorem Kind.integers (kind : parameter.Kind) (which : LastInteger) :
    integerWord which ∈ parameter.words ↔ parameter.name.val = Parameter.integerName which := by
  obtain ⟨-, positive, -, -, integer_, serverName, clientName⟩ := integerWord_facts which
  cases kind with
  | plain words server client windows =>
    refine iff_of_false (fun member => ?_) (windows which)
    have other := (plain_facts (words _ member)).2.2.1
    rw [integer_] at other
    cases other
  | server name words =>
    rw [words, name]
    refine iff_of_false (fun member => ?_) (Ne.symm serverName)
    cases which <;> exact absurd member (by decide)
  | client name words =>
    rw [words, name]
    refine iff_of_false (fun member => ?_) (Ne.symm clientName)
    cases which <;> exact absurd member (by decide)
  | window own name numbers words read =>
    rw [words, name, integer_injective.2, List.mem_cons, or_iff_left, integer_injective.1]
    · exact eq_comm
    · intro member
      have negative := numbers_negative read _ member
      omega

end OfferedParameter

section Integers

open OfferedParameter (Numbers numbers_negative integerWord_facts)

variable {token : Int} {front back : List Int}

theorem wordsInteger_later (later : token ∈ back) : wordsInteger token (front ++ back) = wordsInteger token back := by
  induction front with
  | nil => rfl
  | cons word front ih =>
    rw [List.cons_append, wordsInteger, if_neg fun both => both.2 (List.mem_append_right _ later), ih]

theorem wordsInteger_other (other : token ∉ front) : wordsInteger token (front ++ back) = wordsInteger token back := by
  induction front with
  | nil => rfl
  | cons word front ih =>
    rw [List.mem_cons, not_or] at other
    rw [List.cons_append, wordsInteger, if_neg fun both => other.1 both.1.symm, ih other.2]

theorem lastNumber_positive (plain : ∀ word ∈ front, 0 < word ∧ isIntegerWord word = false) :
    lastNumber ((front ++ back).takeWhile fun word => !isIntegerWord word) =
      lastNumber (back.takeWhile fun word => !isIntegerWord word) := by
  induction front with
  | nil => rfl
  | cons word front ih =>
    obtain ⟨positive, other⟩ := plain word List.mem_cons_self
    rw [List.cons_append, List.takeWhile_cons_of_pos (by rw [other]; rfl), lastNumber_cons, if_neg (by omega)]
    exact ih fun word member => plain word (List.mem_cons_of_mem _ member)

variable {parameters : List OfferedParameter} {rest : List Int}

theorem lastNumber_parameters (kinds : ∀ parameter ∈ parameters, parameter.Kind) (plain : ∀ word ∈ rest, isPlainWord word = true) :
    lastNumber ((parameters.flatMap OfferedParameter.words ++ rest).takeWhile fun word => !isIntegerWord word) = none := by
  induction parameters with
  | nil =>
    have positive := @lastNumber_positive rest [] fun word member =>
      ⟨(plain_facts (plain word member)).1, (plain_facts (plain word member)).2.2.1⟩
    rw [List.append_nil] at positive
    exact positive
  | cons parameter parameters ih =>
    have later := ih fun other member => kinds other (List.mem_cons_of_mem _ member)
    rw [List.flatMap_cons, List.append_assoc]
    cases kinds parameter List.mem_cons_self with
    | plain words =>
      rw [lastNumber_positive fun word member => ⟨(plain_facts (words word member)).1, (plain_facts (words word member)).2.2.1⟩]
      exact later
    | server name words =>
      rw [words, lastNumber_positive (by decide)]
      exact later
    | client name words =>
      rw [words, lastNumber_positive (by decide)]
      exact later
    | window which name numbers words read =>
      rw [words, List.cons_append, List.takeWhile_cons_of_neg (by rw [(integerWord_facts which).2.2.2.2.1]; decide)]
      rfl

theorem wordsInteger_parameters (which : LastInteger) (kinds : ∀ parameter ∈ parameters, parameter.Kind)
    (plain : ∀ word ∈ rest, isPlainWord word = true) :
    (∃ parameter ∈ parameters, parameter.name.val = Parameter.integerName which ∧
        wordsInteger (integerWord which) (parameters.flatMap OfferedParameter.words ++ rest) = parameter.number) ∨
      (∀ parameter ∈ parameters, parameter.name.val ≠ Parameter.integerName which) ∧
        wordsInteger (integerWord which) (parameters.flatMap OfferedParameter.words ++ rest) = 0 := by
  have absent : integerWord which ∉ rest := by
    intro member
    have other := (plain_facts (plain _ member)).2.2.1
    rw [(integerWord_facts which).2.2.2.2.1] at other
    cases other
  induction parameters with
  | nil => exact .inr ⟨nofun, wordsInteger_absent absent⟩
  | cons parameter parameters ih =>
    have kinds_ : ∀ other ∈ parameters, other.Kind := fun other member => kinds other (List.mem_cons_of_mem _ member)
    have kind := kinds parameter List.mem_cons_self
    rw [List.flatMap_cons, List.append_assoc]
    by_cases own : parameter.name.val = Parameter.integerName which
    · by_cases later : integerWord which ∈ parameters.flatMap OfferedParameter.words ++ rest
      · rw [wordsInteger_later later]
        rcases ih kinds_ with ⟨other, member, name, read⟩ | ⟨none_, -⟩
        · exact .inl ⟨other, List.mem_cons_of_mem _ member, name, read⟩
        · rcases List.mem_append.mp later with inside | inside
          · obtain ⟨other, member, word⟩ := List.mem_flatMap.mp inside
            exact absurd (((kinds_ other member).integers which).mp word) (none_ other member)
          · exact absurd inside absent
      · refine .inl ⟨parameter, List.mem_cons_self, own, ?_⟩
        have quiet := lastNumber_parameters kinds_ plain
        cases kind with
        | plain words server client windows => exact absurd own (windows which)
        | server name words => exact absurd (own.symm.trans name) (integerWord_facts which).2.2.2.2.2.1
        | client name words => exact absurd (own.symm.trans name) (integerWord_facts which).2.2.2.2.2.2
        | window other name numbers words read =>
          have same : which = other := OfferedParameter.integer_injective.2.mp (own.symm.trans name)
          subst same
          have behind : integerWord which ∉ numbers ++ (parameters.flatMap OfferedParameter.words ++ rest) := by
            intro member
            rcases List.mem_append.mp member with inside | inside
            · have negative := numbers_negative read _ inside
              have positive := (integerWord_facts which).2.1
              omega
            · exact later inside
          rw [words, List.cons_append, wordsInteger, if_pos ⟨rfl, behind⟩]
          generalize number_ : parameter.number = number at read
          cases read with
          | bare =>
            rw [List.nil_append, quiet]
            rfl
          | given positive =>
            have plain_ : isIntegerWord (-number) = false := by
              unfold isIntegerWord tokMaxWindowBits tokServerMaxWindowBits tokClientMaxWindowBits
              simp only [Bool.or_eq_false_iff, beq_eq_false_iff_ne]
              omega
            rw [List.singleton_append, List.takeWhile_cons_of_pos (by rw [plain_]; rfl), lastNumber_cons, if_pos (by omega), quiet]
            exact Int.neg_neg number
    · rw [wordsInteger_other fun member => own ((kind.integers which).mp member)]
      rcases ih kinds_ with ⟨other, member, name, read⟩ | ⟨none_, read⟩
      · exact .inl ⟨other, List.mem_cons_of_mem _ member, name, read⟩
      · exact .inr ⟨List.forall_mem_cons.mpr ⟨own, none_⟩, read⟩

end Integers

section Offers

variable {front more : List Int} {word : Int}

theorem words_at (front_ : ∀ word ∈ front, stopsAt word = false) (stop : stopsAt word = true) :
    protocolWord (front ++ word :: more) = word ∧
      parameterWords (front ++ word :: more) = more.takeWhile fun word => !stopsAt word := by
  have none_ : front.find? stopsAt = none := List.find?_eq_none.mpr fun other member => by rw [front_ other member]; decide
  refine ⟨?_, ?_⟩
  · rw [protocolWord, List.find?_append, none_, List.find?_cons_of_pos stop]
    rfl
  · rw [parameterWords, List.dropWhile_append_of_pos fun other member => by rw [front_ other member]; rfl,
      List.dropWhile_cons_of_neg (by rw [stop]; decide)]
    rfl

def OfferedExtension.words (extension : OfferedExtension) : List Int :=
  extension.pieces.flatMap extensionWords

theorem OfferedExtension.words_eq (extension : OfferedExtension) :
    extension.words = extensionWords extension.name.val ++ extension.parameters.flatMap OfferedParameter.words := by
  rw [words, pieces, List.flatMap_cons, List.flatMap_assoc]
  rfl

def OfferedExtension.isProtocol (extension : OfferedExtension) : Bool :=
  extension.name.val == ascii "permessage-deflate" || extension.name.val == ascii "x-webkit-deflate-frame"

theorem plain_words {offer : ExtensionsOffer} (clear : offer.Clear) {extensions : List OfferedExtension}
    (among : ∀ extension ∈ extensions, extension ∈ offer.extensions)
    (others : ∀ extension ∈ extensions, extension.isProtocol = false) :
    ∀ word ∈ extensions.flatMap OfferedExtension.words, isPlainWord word = true := by
  intro word member
  obtain ⟨extension, member, inside⟩ := List.mem_flatMap.mp member
  have other := others extension member
  unfold OfferedExtension.isProtocol at other
  rw [Bool.or_eq_false_iff, beq_eq_false_iff_ne, beq_eq_false_iff_ne] at other
  rcases clear extension (among extension member) with ⟨name, -⟩ | name | ⟨name, parameters⟩
  · exact absurd name other.1
  · exact absurd name other.2
  · rw [extension.words_eq] at inside
    rcases List.mem_append.mp inside with inside | inside
    · exact name word inside
    · obtain ⟨parameter, parameter_, inside⟩ := List.mem_flatMap.mp inside
      obtain ⟨token, token_, inside⟩ := List.mem_flatMap.mp inside
      exact parameters parameter parameter_ token token_ word inside

theorem protocol_stops {extensions : List OfferedExtension}
    (begins : ∀ extension ∈ extensions.head?, extension.isProtocol = true) :
    (extensions.flatMap OfferedExtension.words).takeWhile (fun word => !stopsAt word) = [] := by
  obtain ⟨deflate, webkit, -⟩ := name_words
  cases extensions with
  | nil => rfl
  | cons extension extensions =>
    rw [List.flatMap_cons, extension.words_eq]
    rcases Bool.or_eq_true_iff.mp (begins extension rfl) with name | name
    · rw [eq_of_beq name, deflate]
      rfl
    · rw [eq_of_beq name, webkit]
      rfl

theorem said_parameters {extension : OfferedExtension} {rest last : List Int}
    (kinds : ∀ parameter ∈ extension.parameters, parameter.Kind) (front_ : ∀ word ∈ front, stopsAt word = false)
    (plain : ∀ word ∈ rest, isPlainWord word = true) (ends : last.takeWhile (fun word => !stopsAt word) = []) :
    extension.Said (front ++ tokPermessageDeflate :: (extension.parameters.flatMap OfferedParameter.words ++ rest ++ last)) := by
  obtain ⟨protocol, parameters⟩ := @words_at front
    (extension.parameters.flatMap OfferedParameter.words ++ rest ++ last) tokPermessageDeflate front_ (by decide)
  have go : ∀ word ∈ extension.parameters.flatMap OfferedParameter.words ++ rest, (!stopsAt word) = true := by
    intro word member
    rcases List.mem_append.mp member with inside | inside
    · obtain ⟨parameter, member, inside⟩ := List.mem_flatMap.mp inside
      rw [(kinds parameter member).goes word inside]
      rfl
    · rw [(plain_facts (plain word inside)).2.1]
      rfl
  rw [List.takeWhile_append_of_pos go, ends, List.append_nil] at parameters
  have flag : ∀ {token : Int} {name : Bytes}, isPlainWord token = false →
      (∀ parameter ∈ extension.parameters, (token ∈ parameter.words ↔ parameter.name.val = name)) →
      (token ∈ extension.parameters.flatMap OfferedParameter.words ++ rest ↔ extension.Has name) := by
    intro token name meaning each
    rw [List.mem_append, or_iff_left, List.mem_flatMap]
    · exact exists_congr fun parameter => and_congr_right fun member => each parameter member
    · intro inside
      rw [plain token inside] at meaning
      cases meaning
  have window : ∀ which, wordsInteger (integerWord which) (extension.parameters.flatMap OfferedParameter.words ++ rest) ∈
      extension.windows which := by
    intro which
    unfold OfferedExtension.windows
    rcases wordsInteger_parameters which kinds plain with ⟨parameter, member, name, read⟩ | ⟨none_, read⟩
    · have among : parameter ∈ extension.parameters.filter fun parameter => parameter.name.val == Parameter.integerName which :=
        List.mem_filter.mpr ⟨member, by rw [name]; exact beq_self_eq_true _⟩
      rw [read]
      split
      · rename_i empty
        rw [empty] at among
        cases among
      · exact List.mem_map_of_mem among
    · have empty : (extension.parameters.filter fun parameter => parameter.name.val == Parameter.integerName which) = [] :=
        List.filter_eq_nil_iff.mpr fun parameter member own => none_ parameter member (eq_of_beq own)
      rw [read, empty]
      exact List.mem_singleton_self 0
  refine ⟨protocol, ?_, ?_, ?_, ?_⟩
  · rw [parameters]
    exact flag (by decide) fun parameter member => (kinds parameter member).flags.1
  · rw [parameters]
    exact flag (by decide) fun parameter member => (kinds parameter member).flags.2
  · rw [parameters]
    exact window .serverMaxWindowBits
  · rw [parameters]
    exact window .clientMaxWindowBits

theorem ExtensionsOffer.said_of_clear (offer : ExtensionsOffer) (clear : offer.Clear) : offer.Said offer.words := by
  obtain ⟨deflate, webkit, -⟩ := name_words
  have chosen_ : offer.chosen = (offer.extensions.find? OfferedExtension.isProtocol).filter
    fun extension => extension.name.val == ascii "permessage-deflate" := rfl
  have words_ : offer.words = offer.extensions.flatMap OfferedExtension.words := rfl
  unfold ExtensionsOffer.Said
  rw [chosen_, words_]
  cases found : offer.extensions.find? OfferedExtension.isProtocol with
  | none =>
    have plain := plain_words clear (fun _ member => member) fun extension member =>
      eq_false_of_ne_true (List.find?_eq_none.mp found extension member)
    have none_ : (offer.extensions.flatMap OfferedExtension.words).find? stopsAt = none :=
      List.find?_eq_none.mpr fun word member => by rw [(plain_facts (plain word member)).2.1]; decide
    show protocolWord _ ≠ _
    rw [protocolWord, none_]
    decide
  | some extension =>
    obtain ⟨protocol, before, after, split, others⟩ := List.find?_eq_some_iff_append.mp found
    have plain := @plain_words offer clear before
      (fun other member => by rw [split]; exact List.mem_append_left _ member)
      fun other member => by simpa using others other member
    have front : ∀ word ∈ before.flatMap OfferedExtension.words, stopsAt word = false := fun word member =>
      (plain_facts (plain word member)).2.1
    rw [split, List.flatMap_append, List.flatMap_cons, extension.words_eq, Option.filter_some]
    by_cases name : extension.name.val = ascii "permessage-deflate"
    · have among : extension ∈ offer.extensions := by
        rw [split]
        exact List.mem_append_right _ List.mem_cons_self
      have kinds : ∀ parameter ∈ extension.parameters, parameter.Kind := by
        intro parameter member
        refine OfferedParameter.kind ?_ (extension.numbered name parameter member)
        rcases clear extension among with ⟨-, parameters⟩ | safari | ⟨own, -⟩
        · exact parameters parameter member
        · exact absurd (name.symm.trans safari) (by decide +kernel)
        · exact absurd name (plain_name own deflate (by decide))
      have next : after = after.takeWhile (fun other => !other.isProtocol) ++ after.dropWhile (fun other => !other.isProtocol) :=
        List.takeWhile_append_dropWhile.symm
      have plain_ := @plain_words offer clear (after.takeWhile fun other => !other.isProtocol)
        (fun other member => by
          rw [split]
          exact List.mem_append_right _ (List.mem_cons_of_mem _ ((List.takeWhile_prefix _).subset member)))
        fun other member => by simpa using List.mem_takeWhile_imp member
      have ends := @protocol_stops (after.dropWhile fun other => !other.isProtocol) fun other head => by
        have first := List.head?_dropWhile_not (fun other : OfferedExtension => !other.isProtocol) after
        rw [head] at first
        simpa using first
      rw [if_pos (by rw [name]; exact beq_self_eq_true _), name, deflate, next, List.flatMap_append]
      show extension.Said _
      simpa only [List.append_assoc, List.nil_append, List.cons_append] using said_parameters kinds front plain_ ends
    · have safari : extension.name.val = ascii "x-webkit-deflate-frame" := by
        rcases Bool.or_eq_true_iff.mp protocol with own | own
        · exact absurd (eq_of_beq own) name
        · exact eq_of_beq own
      rw [if_neg fun own => name (eq_of_beq own), safari, webkit, List.singleton_append, List.cons_append]
      show protocolWord _ ≠ _
      rw [(words_at front (by decide)).1]
      decide

end Offers

/-- The parser reports the first permessage-deflate of an offer if and only if the words of its names and values, up to the next word
of a protocol, say what it has; in clear offers they do. -/
theorem extensions_iff (offer : ExtensionsOffer) :
    (offer.Reported (ExtensionsParser.parse offer.text) ↔ offer.Said offer.words) ∧ (offer.Clear → offer.Said offer.words) :=
  ⟨offer.reported_iff, offer.said_of_clear⟩

section Samples

def writeParameter (name : HttpToken) (value : Option HttpToken) : OfferedParameter :=
  ⟨name, value, (noBlank, ⟨[Uws.Http.space], fun _ member => .inl (List.mem_singleton.mp member)⟩), (noBlank, noBlank), none⟩

def writeOffer (extensions : List OfferedExtension) : ExtensionsOffer :=
  ⟨extensions.map fun extension => ⟨noBlank, some extension, noBlank⟩⟩

def deflateToken : HttpToken := ⟨ascii "permessage-deflate", by decide +kernel⟩
def anagramToken : HttpToken := ⟨ascii "permessage-edflate", by decide +kernel⟩
def fooToken : HttpToken := ⟨ascii "foo", by decide +kernel⟩
def twelveToken : HttpToken := ⟨ascii "12", by decide +kernel⟩
def serverWindowToken : HttpToken := ⟨ascii "server_max_window_bits", by decide +kernel⟩
def clientWindowToken : HttpToken := ⟨ascii "client_max_window_bits", by decide +kernel⟩

def browserExtension : OfferedExtension where
  name := deflateToken
  parameters := [writeParameter clientWindowToken none]
  numbered := by
    intro _ parameter member which _ value given
    cases List.mem_singleton.mp member
    cases given

theorem extensions_browser :
    (writeOffer [browserExtension]).Clear ∧ (writeOffer [browserExtension]).Said (writeOffer [browserExtension]).words ∧
      (writeOffer [browserExtension]).Reported (ExtensionsParser.parse (writeOffer [browserExtension]).text) := by
  have clear : (writeOffer [browserExtension]).Clear := by
    intro extension member
    change extension ∈ [browserExtension] at member
    rw [List.mem_singleton.mp member]
    refine .inl ⟨rfl, ?_⟩
    intro parameter member
    change parameter ∈ [writeParameter clientWindowToken none] at member
    rw [List.mem_singleton.mp member]
    exact .inr (.window .clientMaxWindowBits rfl (by decide) nofun)
  obtain ⟨reported, said⟩ := extensions_iff (writeOffer [browserExtension])
  exact ⟨clear, said clear, reported.mpr (said clear)⟩

def anagramOffer : ExtensionsOffer :=
  writeOffer [{ name := anagramToken, parameters := [], numbered := fun _ => nofun }]

def laterOffer : ExtensionsOffer :=
  writeOffer [{ name := deflateToken, parameters := [], numbered := fun _ => nofun },
    { name := fooToken, parameters := [writeParameter clientWindowToken none],
      numbered := fun same => absurd same (by decide +kernel) }]

theorem pending_numbered : ∀ parameter ∈ [writeParameter serverWindowToken none, writeParameter fooToken (some twelveToken)],
    ∀ which, parameter.name.val = Parameter.integerName which → ∀ value ∈ parameter.value, ∀ c ∈ value.val, isDigit c = true := by
  have digits : ∀ c ∈ twelveToken.val, isDigit c = true := by decide +kernel
  intro parameter member which _ value given
  rcases List.mem_cons.mp member with rfl | member
  · cases given
  · cases List.mem_singleton.mp member
    cases given
    exact digits

def pendingOffer : ExtensionsOffer :=
  writeOffer [{ name := deflateToken,
                parameters := [writeParameter serverWindowToken none, writeParameter fooToken (some twelveToken)],
                numbered := fun _ => pending_numbered }]

/-- An anagram of its name is taken for permessage-deflate, a parameter of a later extension for its own, and the value of another
parameter for its window. -/
theorem offers_misread :
    ¬ anagramOffer.Reported (ExtensionsParser.parse anagramOffer.text) ∧
      ¬ laterOffer.Reported (ExtensionsParser.parse laterOffer.text) ∧
      ¬ pendingOffer.Reported (ExtensionsParser.parse pendingOffer.text) := by
  refine ⟨?_, ?_, ?_⟩
  · have chosen : anagramOffer.chosen.isNone = true := by decide +kernel
    have read : (ExtensionsParser.parse anagramOffer.text).perMessageDeflate = true := by decide +kernel
    unfold ExtensionsOffer.Reported
    rw [Option.isNone_iff_eq_none.mp chosen]
    dsimp only
    rw [read]
    decide
  · have chosen : laterOffer.chosen.map (·.windows .clientMaxWindowBits) = some [0] := by decide +kernel
    have read : (ExtensionsParser.parse laterOffer.text).clientMaxWindowBits = 1 := by decide +kernel
    obtain ⟨extension, own, windows⟩ := Option.map_eq_some_iff.mp chosen
    unfold ExtensionsOffer.Reported
    rw [own]
    intro reported
    have window := reported.clientWindow
    rw [windows, read] at window
    exact absurd window (by decide)
  · have chosen : pendingOffer.chosen.map (·.windows .serverMaxWindowBits) = some [1] := by decide +kernel
    have read : (ExtensionsParser.parse pendingOffer.text).serverMaxWindowBits = 12 := by decide +kernel
    obtain ⟨extension, own, windows⟩ := Option.map_eq_some_iff.mp chosen
    unfold ExtensionsOffer.Reported
    rw [own]
    intro reported
    have window := reported.serverWindow
    rw [windows, read] at window
    exact absurd window (by decide)

end Samples

end Uws.WebSocket
