import Uws.WebSocket.CompressionNegotiation
import Uws.WebSocket.WebSocketClientHandshake

namespace Uws.WebSocket

open Uws.Http (Bytes ascii space tab)

/-- Every value of `CompressOptions` that a behavior can have. -/
def compressors : List Nat :=
  [disabled, sharedCompressor, dedicatedCompressor3kb, 9 <<< 4 ||| 2, 10 <<< 4 ||| 3, 11 <<< 4 ||| 4, 12 <<< 4 ||| 5,
    13 <<< 4 ||| 6, 14 <<< 4 ||| 7, dedicatedCompressor]

def decompressors : List Nat :=
  [disabled, sharedDecompressor, 9 <<< 8, 10 <<< 8, 11 <<< 8, 12 <<< 8, 13 <<< 8, 14 <<< 8, dedicatedDecompressor]

def compressOptions : List Nat := compressors.flatMap fun compressor => decompressors.map (compressor ||| ·)

abbrev WindowBits := { bits : Nat // 8 ≤ bits ∧ bits ≤ 15 }

abbrev Blank := { bytes : Bytes // ∀ c ∈ bytes, c = space ∨ c = tab }

inductive Parameter where
  | serverNoContextTakeover
  | clientNoContextTakeover
  | serverMaxWindowBits (bits : WindowBits)
  | clientMaxWindowBits (bits : WindowBits)
deriving DecidableEq

namespace Parameter

def name : Parameter → Bytes
  | serverNoContextTakeover => ascii "server_no_context_takeover"
  | clientNoContextTakeover => ascii "client_no_context_takeover"
  | serverMaxWindowBits _ => ascii "server_max_window_bits"
  | clientMaxWindowBits _ => ascii "client_max_window_bits"

def bits : Parameter → Option WindowBits
  | serverNoContextTakeover => none
  | clientNoContextTakeover => none
  | serverMaxWindowBits bits => some bits
  | clientMaxWindowBits bits => some bits

def stated (integer : LastInteger) : Parameter → Option WindowBits
  | serverNoContextTakeover => none
  | clientNoContextTakeover => none
  | serverMaxWindowBits bits => if integer = .serverMaxWindowBits then some bits else none
  | clientMaxWindowBits bits => if integer = .clientMaxWindowBits then some bits else none

def read (ep : ExtensionsParser) : Parameter → ExtensionsParser
  | serverNoContextTakeover => { ep with serverNoContextTakeover := true }
  | clientNoContextTakeover => { ep with clientNoContextTakeover := true }
  | serverMaxWindowBits bits => { ep with serverMaxWindowBits := bits.val, lastInteger := some .serverMaxWindowBits }
  | clientMaxWindowBits bits => { ep with clientMaxWindowBits := bits.val, lastInteger := some .clientMaxWindowBits }

end Parameter

/-- A parameter with the blanks around its semicolon and its equals sign, and its value quoted or not. -/
structure WrittenParameter where
  parameter : Parameter
  blanks : Blank × Blank
  valueBlanks : Blank × Blank
  quoted : Bool

def quote : Bytes := [34]
def semicolon : Bytes := [59]
def equals : Bytes := [61]

def WrittenParameter.value (written : WrittenParameter) (bits : WindowBits) : Bytes :=
  let digits := ascii (toString bits.val)
  written.valueBlanks.1.val ++ equals ++ written.valueBlanks.2.val ++
    if written.quoted then quote ++ digits ++ quote else digits

def WrittenParameter.text (written : WrittenParameter) : Bytes :=
  written.blanks.1.val ++ semicolon ++ written.blanks.2.val ++ written.parameter.name ++
    match written.parameter.bits with
    | none => []
    | some bits => written.value bits

/-- A response that accepts permessage-deflate; no parameter has two values. -/
structure DeflateResponse where
  parameters : List WrittenParameter
  distinct : (parameters.map fun written => written.parameter.name).Nodup
  blank : Blank

def DeflateResponse.text (response : DeflateResponse) : Bytes :=
  ascii "permessage-deflate" ++ response.parameters.flatMap WrittenParameter.text ++ response.blank.val

def DeflateResponse.states (response : DeflateResponse) (parameter : Parameter) : Prop :=
  parameter ∈ response.parameters.map WrittenParameter.parameter

def Separators (data : Bytes) : Prop := ∀ c ∈ data, isTokenByte c = false

/-- What stands behind a token. -/
def Ended (rest : Bytes) : Prop := ∀ c ∈ rest.head?, isTokenByte c = false

structure Word (word : Bytes) : Prop where
  starts : ∃ c ∈ word.head?, isAlnum c = true
  token : ∀ c ∈ word, isTokenByte c = true

theorem Separators.append {data more : Bytes} (left : Separators data) (right : Separators more) :
    Separators (data ++ more) := by
  intro c member
  rcases List.mem_append.mp member with member | member
  · exact left c member
  · exact right c member

theorem Separators.ended {data : Bytes} (separators : Separators data) : Ended data := by
  intro c head
  exact separators c (List.mem_of_mem_head? head)

theorem Ended.append {data rest : Bytes} (ended : Ended data) (behind : Ended rest) : Ended (data ++ rest) := by
  cases data with
  | nil => exact behind
  | cons c data => exact ended

theorem Separators.blank (blank : Blank) : Separators blank.val := by
  intro c member
  rcases blank.property c member with rfl | rfl <;> decide

theorem isAlnum_token {c : UInt8} (between : isTokenByte c = false) : isAlnum c = false := by
  simp only [isTokenByte, Bool.or_eq_false_iff] at between
  exact between.1.1

theorem Separators.single {c : UInt8} (between : isTokenByte c = false) : Separators [c] := by
  intro d member
  rw [List.mem_singleton.mp member]
  exact between

theorem quote_separators : Separators quote := Separators.single (by decide)
theorem semicolon_separators : Separators semicolon := Separators.single (by decide)
theorem equals_separators : Separators equals := Separators.single (by decide)

theorem getToken_skip {data : Bytes} (separators : Separators data) (rest : Bytes) :
    getToken (data ++ rest) = getToken rest := by
  unfold getToken
  rw [List.dropWhile_append_of_pos fun c member => by rw [isAlnum_token (separators c member)]; rfl]

theorem getToken_word {word rest : Bytes} (isWord : Word word) (ended : Ended rest) :
    getToken (word ++ rest) = (word.foldl hashByte 0, rest) := by
  have skipped : (word ++ rest).dropWhile (fun c => !isAlnum c) = word ++ rest := by
    obtain ⟨c, head, alnum⟩ := isWord.starts
    obtain ⟨word', split⟩ := List.head?_eq_some_iff.mp head
    rw [split, List.cons_append, List.dropWhile_cons_of_neg (by simp [alnum])]
  have behind : rest.takeWhile isTokenByte = [] ∧ rest.dropWhile isTokenByte = rest := by
    cases rest with
    | nil => exact ⟨rfl, rfl⟩
    | cons c rest =>
      have stop := ended c rfl
      exact ⟨List.takeWhile_cons_of_neg (by simp [stop]), List.dropWhile_cons_of_neg (by simp [stop])⟩
  unfold getToken
  simp only [skipped]
  rw [List.takeWhile_append_of_pos isWord.token, List.dropWhile_append_of_pos isWord.token, behind.1, behind.2,
    List.append_nil]

namespace ExtensionsParser

theorem takeTokens_skip {data : Bytes} (separators : Separators data) (fuel : Nat) (rest : Bytes) (ep : ExtensionsParser) :
    takeTokens fuel (data ++ rest) ep = takeTokens fuel rest ep := by
  cases fuel with
  | zero => rfl
  | succ fuel => rw [takeTokens, takeTokens, getToken_skip separators]

theorem takeTokens_nil (fuel : Nat) (ep : ExtensionsParser) : takeTokens fuel [] ep = ep := by
  cases fuel <;> rfl

theorem takeTokens_word {word rest : Bytes} (isWord : Word word) (ended : Ended rest) {token : Int}
    (hash : word.foldl hashByte 0 = token) (more : token ≠ 0) {ep next : ExtensionsParser}
    (taken : ep.takeToken token = some next) (fuel : Nat) :
    takeTokens (fuel + 1) (word ++ rest) ep = takeTokens fuel rest next := by
  rw [takeTokens, getToken_word isWord ended, hash]
  simp only
  rw [if_neg more, taken]

end ExtensionsParser

theorem word_of_all {word : Bytes} (starts : (word.head?.any isAlnum) = true) (token : word.all isTokenByte = true) :
    Word word := by
  refine ⟨?_, fun c member => List.all_eq_true.mp token c member⟩
  cases word with
  | nil => cases starts
  | cons c word => exact ⟨c, rfl, starts⟩

namespace Parameter

theorem name_word (parameter : Parameter) : Word parameter.name := by
  cases parameter with
  | serverNoContextTakeover => exact word_of_all (by decide) (by decide)
  | clientNoContextTakeover => exact word_of_all (by decide) (by decide)
  | serverMaxWindowBits bits =>
    exact @word_of_all (ascii "server_max_window_bits") (by decide) (by decide)
  | clientMaxWindowBits bits =>
    exact @word_of_all (ascii "client_max_window_bits") (by decide) (by decide)

def token : Parameter → Int
  | serverNoContextTakeover => tokServerNoContextTakeover
  | clientNoContextTakeover => tokClientNoContextTakeover
  | serverMaxWindowBits _ => tokServerMaxWindowBits
  | clientMaxWindowBits _ => tokClientMaxWindowBits

theorem name_hash (parameter : Parameter) : parameter.name.foldl hashByte 0 = parameter.token ∧ parameter.token ≠ 0 := by
  cases parameter with
  | serverNoContextTakeover => exact ⟨rfl, by decide⟩
  | clientNoContextTakeover => exact ⟨rfl, by decide⟩
  | serverMaxWindowBits bits => exact ⟨rfl, (by decide : tokServerMaxWindowBits ≠ 0)⟩
  | clientMaxWindowBits bits => exact ⟨rfl, (by decide : tokClientMaxWindowBits ≠ 0)⟩

theorem windowBits_cases (bits : WindowBits) (motive : Nat → Prop)
    (every : ∀ value ∈ [8, 9, 10, 11, 12, 13, 14, 15], motive value) : motive bits.val := by
  obtain ⟨bits, least, most⟩ := bits
  apply every
  simp only [List.mem_cons, List.not_mem_nil, or_false]
  omega

theorem digits_word (bits : WindowBits) : Word (ascii (toString bits.val)) := by
  apply windowBits_cases bits (fun value => Word (ascii (toString value)))
  have all : ∀ value ∈ [8, 9, 10, 11, 12, 13, 14, 15],
      ((ascii (toString value)).head?.any isAlnum) = true ∧ (ascii (toString value)).all isTokenByte = true := by
    decide +kernel
  intro value member
  exact word_of_all (all value member).1 (all value member).2

theorem digits_hash (bits : WindowBits) : (ascii (toString bits.val)).foldl hashByte 0 = -(bits.val : Int) := by
  apply windowBits_cases bits (fun value => (ascii (toString value)).foldl hashByte 0 = -(value : Int))
  decide +kernel

end Parameter

namespace ExtensionsParser

theorem takeToken_digits (ep : ExtensionsParser) (bits : WindowBits) :
    ep.takeToken (-(bits.val : Int)) = some (ep.storeInteger bits.val) := by
  have small : (8 : Int) ≤ bits.val := by exact_mod_cast bits.property.1
  generalize (bits.val : Int) = value at small ⊢
  unfold takeToken tokXWebkitDeflateFrame tokPermessageDeflate tokNoContextTakeover tokMaxWindowBits
    tokServerNoContextTakeover tokClientNoContextTakeover tokServerMaxWindowBits tokClientMaxWindowBits
  rw [if_neg (by omega), if_neg (by omega), if_neg (by omega), if_neg (by omega), if_neg (by omega), if_neg (by omega),
    if_neg (by omega), if_pos (by omega), Int.neg_neg]

end ExtensionsParser

namespace WrittenParameter

theorem text_ended (written : WrittenParameter) (rest : Bytes) : Ended (written.text ++ rest) := by
  have front : Ended (written.blanks.1.val ++ semicolon) :=
    (Separators.append (Separators.blank _) semicolon_separators).ended
  unfold text
  simp only [List.append_assoc] at front ⊢
  cases blanks : written.blanks.1.val with
  | nil =>
    intro c head
    cases head
    decide
  | cons c blanks' =>
    rw [blanks] at front
    exact front

theorem value_ended (written : WrittenParameter) (bits : WindowBits) (rest : Bytes) :
    Ended (written.value bits ++ rest) := by
  have front : Ended (written.valueBlanks.1.val ++ equals) :=
    (Separators.append (Separators.blank _) equals_separators).ended
  unfold value
  simp only [List.append_assoc] at front ⊢
  cases blanks : written.valueBlanks.1.val with
  | nil =>
    intro c head
    cases head
    decide
  | cons c blanks' =>
    rw [blanks] at front
    exact front

theorem takeTokens_value (written : WrittenParameter) (bits : WindowBits) {rest : Bytes} (ended : Ended rest)
    (ep : ExtensionsParser) (fuel : Nat) :
    ExtensionsParser.takeTokens (fuel + 1) (written.value bits ++ rest) ep =
      ExtensionsParser.takeTokens fuel rest (ep.storeInteger bits.val) := by
  have taken := ep.takeToken_digits bits
  have more : (-(bits.val : Int)) ≠ 0 := by
    have least := bits.property.1
    omega
  unfold value
  simp only [List.append_assoc]
  rw [ExtensionsParser.takeTokens_skip (Separators.blank _), ExtensionsParser.takeTokens_skip equals_separators,
    ExtensionsParser.takeTokens_skip (Separators.blank _)]
  split
  · rw [List.append_assoc, List.append_assoc, ExtensionsParser.takeTokens_skip quote_separators,
      ExtensionsParser.takeTokens_word (Parameter.digits_word bits) (quote_separators.ended.append ended)
        (Parameter.digits_hash bits) more taken,
      ExtensionsParser.takeTokens_skip quote_separators]
  · exact ExtensionsParser.takeTokens_word (Parameter.digits_word bits) ended (Parameter.digits_hash bits) more taken fuel

theorem takeTokens_text (written : WrittenParameter) {rest : Bytes} (ended : Ended rest) (ep : ExtensionsParser) :
    ∃ spent ≤ 2, ∀ fuel, ExtensionsParser.takeTokens (fuel + spent) (written.text ++ rest) ep =
      ExtensionsParser.takeTokens fuel rest (written.parameter.read ep) := by
  have skipped : ∀ fuel, ExtensionsParser.takeTokens fuel (written.text ++ rest) ep =
      ExtensionsParser.takeTokens fuel (written.parameter.name ++ ((match written.parameter.bits with
        | none => []
        | some bits => written.value bits) ++ rest)) ep := by
    intro fuel
    unfold text
    simp only [List.append_assoc]
    rw [ExtensionsParser.takeTokens_skip (Separators.blank _),
      ExtensionsParser.takeTokens_skip semicolon_separators, ExtensionsParser.takeTokens_skip (Separators.blank _)]
  simp only [skipped]
  have word := written.parameter.name_word
  obtain ⟨hash, more⟩ := written.parameter.name_hash
  cases parameter : written.parameter with
  | serverNoContextTakeover =>
    rw [parameter] at word hash more
    exact ⟨1, by decide, fun fuel => ExtensionsParser.takeTokens_word word ended hash more rfl fuel⟩
  | clientNoContextTakeover =>
    rw [parameter] at word hash more
    exact ⟨1, by decide, fun fuel => ExtensionsParser.takeTokens_word word ended hash more rfl fuel⟩
  | serverMaxWindowBits bits =>
    rw [parameter] at word hash more
    refine ⟨2, le_refl 2, fun fuel => ?_⟩
    refine (ExtensionsParser.takeTokens_word word (written.value_ended bits rest) hash more rfl (fuel + 1)).trans ?_
    exact takeTokens_value written bits ended _ fuel
  | clientMaxWindowBits bits =>
    rw [parameter] at word hash more
    refine ⟨2, le_refl 2, fun fuel => ?_⟩
    refine (ExtensionsParser.takeTokens_word word (written.value_ended bits rest) hash more rfl (fuel + 1)).trans ?_
    exact takeTokens_value written bits ended _ fuel

theorem text_length (written : WrittenParameter) : 2 ≤ written.text.length := by
  obtain ⟨c, head, -⟩ := written.parameter.name_word.starts
  have name := List.length_pos_of_mem (List.mem_of_mem_head? head)
  unfold text semicolon
  simp only [List.length_append, List.length_cons]
  omega

theorem takeTokens_texts (written : List WrittenParameter) {last : Bytes} (separators : Separators last) (fuel : Nat)
    (enough : (written.flatMap text).length ≤ fuel) (ep : ExtensionsParser) :
    ExtensionsParser.takeTokens fuel (written.flatMap text ++ last) ep =
      written.foldl (fun ep written => written.parameter.read ep) ep := by
  induction written generalizing fuel ep with
  | nil =>
    have done := ExtensionsParser.takeTokens_skip separators fuel [] ep
    rw [List.append_nil, ExtensionsParser.takeTokens_nil] at done
    exact done
  | cons first more ih =>
    have ended : Ended (more.flatMap text ++ last) := by
      cases more with
      | nil => exact separators.ended
      | cons second more =>
        rw [List.flatMap_cons, List.append_assoc]
        exact second.text_ended _
    obtain ⟨spent, few, taken⟩ := first.takeTokens_text ended ep
    have length := first.text_length
    rw [List.flatMap_cons, List.length_append] at enough
    rw [List.flatMap_cons, List.append_assoc, List.foldl_cons]
    have split : fuel = (fuel - spent) + spent := by omega
    rw [split, taken (fuel - spent)]
    exact ih (fuel - spent) (by omega) _

end WrittenParameter

def Parameter.readAll (parameters : List Parameter) (ep : ExtensionsParser) : ExtensionsParser :=
  parameters.foldl Parameter.read ep

theorem permessageDeflate_word : Word (ascii "permessage-deflate") := word_of_all (by decide) (by decide)

theorem DeflateResponse.text_read (response : DeflateResponse) :
    ExtensionsParser.parse response.text =
      Parameter.readAll (response.parameters.map WrittenParameter.parameter) { perMessageDeflate := true } := by
  have separators := Separators.blank response.blank
  have ended : Ended (response.parameters.flatMap WrittenParameter.text ++ response.blank.val) := by
    cases response.parameters with
    | nil => exact separators.ended
    | cons first more =>
      rw [List.flatMap_cons, List.append_assoc]
      exact first.text_ended _
  have found : ExtensionsParser.findProtocol (response.text.length + 2) 1 response.text =
      (tokPermessageDeflate, response.parameters.flatMap WrittenParameter.text ++ response.blank.val) := by
    have hash : (ascii "permessage-deflate").foldl hashByte 0 = tokPermessageDeflate := by decide
    unfold DeflateResponse.text
    rw [ExtensionsParser.findProtocol, if_pos (by decide), List.append_assoc, getToken_word permessageDeflate_word ended,
      hash]
    simp only
    rw [ExtensionsParser.findProtocol, if_neg (by decide)]
  unfold ExtensionsParser.parse
  rw [found]
  simp only
  rw [WrittenParameter.takeTokens_texts _ separators _ (by rw [List.length_append]; omega), Parameter.readAll,
    List.foldl_map]
  rfl

namespace Parameter

def integer (which : LastInteger) (ep : ExtensionsParser) : Int :=
  match which with
  | .maxWindowBits => ep.maxWindowBits
  | .serverMaxWindowBits => ep.serverMaxWindowBits
  | .clientMaxWindowBits => ep.clientMaxWindowBits

theorem read_integer (which : LastInteger) (ep : ExtensionsParser) (parameter : Parameter) :
    integer which (parameter.read ep) =
      match parameter.stated which with
      | none => integer which ep
      | some bits => bits.val := by
  cases parameter <;> cases which <;> rfl

/-- One name stands for one integer. -/
def integerName : LastInteger → Bytes
  | .maxWindowBits => []
  | .serverMaxWindowBits => ascii "server_max_window_bits"
  | .clientMaxWindowBits => ascii "client_max_window_bits"

theorem stated_name {which : LastInteger} {parameter : Parameter} {bits : WindowBits}
    (stated : parameter.stated which = some bits) : parameter.name = integerName which := by
  cases parameter with
  | serverNoContextTakeover => cases stated
  | clientNoContextTakeover => cases stated
  | serverMaxWindowBits value =>
    cases which with
    | maxWindowBits => cases stated
    | serverMaxWindowBits => rfl
    | clientMaxWindowBits => cases stated
  | clientMaxWindowBits value =>
    cases which with
    | maxWindowBits => cases stated
    | serverMaxWindowBits => cases stated
    | clientMaxWindowBits => rfl

theorem readAll_integer (which : LastInteger) (parameters : List Parameter) (ep : ExtensionsParser) :
    integer which (readAll parameters ep) = integer which ep ∨
      ∃ p ∈ parameters, ∃ bits, p.stated which = some bits ∧ integer which (readAll parameters ep) = bits.val := by
  induction parameters generalizing ep with
  | nil => exact .inl rfl
  | cons first more ih =>
    have step := read_integer which ep first
    rcases ih (first.read ep) with same | ⟨p, member, bits, stated, read⟩
    · cases stated : first.stated which with
      | none =>
        rw [stated] at step
        exact .inl (same.trans step)
      | some bits =>
        rw [stated] at step
        exact .inr ⟨first, List.mem_cons_self, bits, stated, same.trans step⟩
    · exact .inr ⟨p, List.mem_cons_of_mem _ member, bits, stated, read⟩

theorem readAll_states {which : LastInteger} {parameters : List Parameter} (distinct : (parameters.map name).Nodup)
    {p : Parameter} (member : p ∈ parameters) {bits : WindowBits} (stated : p.stated which = some bits)
    (ep : ExtensionsParser) : integer which (readAll parameters ep) = bits.val := by
  induction parameters generalizing ep with
  | nil => cases member
  | cons first more ih =>
    rw [List.map_cons, List.nodup_cons] at distinct
    obtain ⟨alone, distinct⟩ := distinct
    rcases List.mem_cons.mp member with rfl | member
    · have step := read_integer which ep p
      rw [stated] at step
      rcases readAll_integer which more (p.read ep) with same | ⟨q, other, bits', stated', -⟩
      · exact same.trans step
      · apply absurd _ alone
        rw [stated_name stated, ← stated_name stated']
        exact List.mem_map_of_mem other
    · exact ih distinct member (first.read ep)

theorem readAll_resets (parameters : List Parameter) (ep : ExtensionsParser) :
    ((readAll parameters ep).serverNoContextTakeover = true ↔
        ep.serverNoContextTakeover = true ∨ serverNoContextTakeover ∈ parameters) ∧
      ((readAll parameters ep).clientNoContextTakeover = true ↔
        ep.clientNoContextTakeover = true ∨ clientNoContextTakeover ∈ parameters) := by
  induction parameters generalizing ep with
  | nil => simp [readAll]
  | cons first more ih =>
    obtain ⟨server, client⟩ := ih (first.read ep)
    refine ⟨server.trans ?_, client.trans ?_⟩ <;> cases first <;> simp [read]

theorem readAll_protocol (parameters : List Parameter) (ep : ExtensionsParser) :
    (readAll parameters ep).perMessageDeflate = ep.perMessageDeflate ∧
      (readAll parameters ep).xWebKitDeflateFrame = ep.xWebKitDeflateFrame := by
  induction parameters generalizing ep with
  | nil => exact ⟨rfl, rfl⟩
  | cons first more ih =>
    obtain ⟨standard, safari⟩ := ih (first.read ep)
    refine ⟨standard.trans ?_, safari.trans ?_⟩ <;> cases first <;> rfl

end Parameter

theorem Parameter.eq_server {parameter : Parameter} {bits : WindowBits}
    (stated : parameter.stated .serverMaxWindowBits = some bits) : parameter = serverMaxWindowBits bits := by
  cases parameter <;> cases stated
  rfl

theorem Parameter.eq_client {parameter : Parameter} {bits : WindowBits}
    (stated : parameter.stated .clientMaxWindowBits = some bits) : parameter = clientMaxWindowBits bits := by
  cases parameter <;> cases stated
  rfl

theorem acceptServer_spec {ep : ExtensionsParser} {wanted inflationWindow : Int}
    (accepted : acceptServer ep wanted = some inflationWindow) :
    (ep.serverMaxWindowBits = 0 ∨ ep.serverMaxWindowBits = 1 →
        inflationWindow = if ep.serverNoContextTakeover then 0 else wanted) ∧
      (ep.serverMaxWindowBits ≠ 0 → ep.serverMaxWindowBits ≠ 1 → inflationWindow = ep.serverMaxWindowBits) := by
  unfold acceptServer at accepted
  simp only at accepted
  by_cases present : ep.serverMaxWindowBits ≠ 0
  · rw [if_pos present] at accepted
    split at accepted
    · cases accepted
    · by_cases value : ep.serverMaxWindowBits ≠ 1
      · rw [if_pos value] at accepted
        split at accepted
        · cases accepted
        · cases accepted
          exact ⟨fun none => by omega, fun _ _ => rfl⟩
      · rw [if_neg value] at accepted
        cases accepted
        exact ⟨fun _ => rfl, fun _ other => absurd other value⟩
  · rw [if_neg present] at accepted
    cases accepted
    exact ⟨fun _ => rfl, fun other => absurd other present⟩

theorem acceptClient_spec {ep : ExtensionsParser} {wanted compressionWindow : Int}
    (accepted : acceptClient ep wanted = some compressionWindow) :
    (ep.clientMaxWindowBits = 0 ∨ ep.clientMaxWindowBits = 1 →
        compressionWindow = if ep.clientNoContextTakeover then 0 else wanted) ∧
      (ep.clientMaxWindowBits ≠ 0 → ep.clientMaxWindowBits ≠ 1 → compressionWindow = ep.clientMaxWindowBits) := by
  unfold acceptClient at accepted
  simp only at accepted
  generalize (if wanted ≠ 0 then wanted else 15) = upper at accepted
  by_cases present : ep.clientMaxWindowBits ≠ 0
  · rw [if_pos present] at accepted
    split at accepted
    · cases accepted
    · by_cases value : ep.clientMaxWindowBits ≠ 1
      · rw [if_pos value] at accepted
        split at accepted
        · cases accepted
        · cases accepted
          exact ⟨fun none => by omega, fun _ _ => rfl⟩
      · rw [if_neg value] at accepted
        cases accepted
        exact ⟨fun _ => rfl, fun _ other => absurd other value⟩
  · rw [if_neg present] at accepted
    cases accepted
    exact ⟨fun _ => rfl, fun other => absurd other present⟩

/-- What a client that took a response has to keep to, as far as it holds the server to its offer. -/
structure Safe (wanted : Nat) (response : ExtensionsParser) (streams : Streams) : Prop where
  shared : wantedInflationWindow wanted ≠ 0 → streams.inflationStream = none → response.serverNoContextTakeover = true
  inflation : ∀ window, streams.inflationStream = some window → response.serverMaxWindowBits ≤ window ∧
    (response.serverMaxWindowBits = 0 → wantedInflationWindow wanted = 15 → window = 15)
  reset : response.clientNoContextTakeover = true →
    response.clientMaxWindowBits = 0 ∨ response.clientMaxWindowBits = 1 → streams.deflationStream = none
  deflation : 1 < response.clientMaxWindowBits → response.clientMaxWindowBits ≠ 8 →
    ∃ window, streams.deflationStream = some window ∧ (window : Int) ≤ response.clientMaxWindowBits

theorem acceptCompressionResponse_taken {wanted : Nat} {ext : Bytes} (ok : (acceptCompressionResponse wanted ext).ok = true)
    (compression : (acceptCompressionResponse wanted ext).compression = true) :
    ∃ inflationWindow compressionWindow,
      acceptServer (ExtensionsParser.parse ext) (wantedInflationWindow wanted) = some inflationWindow ∧
      acceptClient (ExtensionsParser.parse ext) (wantedCompressionWindow wanted) = some compressionWindow ∧
      insaneWindows compressionWindow inflationWindow = false ∧
      acceptCompressionResponse wanted ext = ⟨true, true, windowOptions wanted compressionWindow inflationWindow⟩ := by
  unfold acceptCompressionResponse at ok compression ⊢
  by_cases off : wanted = disabled
  · rw [if_pos off] at compression
    simp only at compression
    split at compression <;> cases compression
  · rw [if_neg off] at ok compression ⊢
    by_cases empty : ext = []
    · rw [if_pos empty] at compression
      cases compression
    · rw [if_neg empty] at ok compression ⊢
      simp only at ok compression ⊢
      generalize ExtensionsParser.parse ext = ep at ok compression ⊢
      by_cases safari : ep.xWebKitDeflateFrame = true
      · rw [if_pos safari] at ok
        cases ok
      · rw [if_neg safari] at ok compression ⊢
        by_cases other : (!ep.perMessageDeflate) = true
        · rw [if_pos other] at ok
          cases ok
        · rw [if_neg other] at ok compression ⊢
          cases server : acceptServer ep (wantedInflationWindow wanted) with
          | none =>
            rw [server] at ok
            cases ok
          | some inflationWindow =>
            cases client : acceptClient ep (wantedCompressionWindow wanted) with
            | none =>
              rw [server, client] at ok
              cases ok
            | some compressionWindow =>
              rw [server, client] at ok
              simp only at ok ⊢
              cases insane : insaneWindows compressionWindow inflationWindow with
              | true =>
                rw [insane] at ok
                cases ok
              | false => exact ⟨inflationWindow, compressionWindow, rfl, rfl, insane, rfl⟩

theorem acceptCompressionResponse_safe {wanted : Nat} {ext : Bytes} (ok : (acceptCompressionResponse wanted ext).ok = true)
    (compression : (acceptCompressionResponse wanted ext).compression = true) :
    Safe wanted (ExtensionsParser.parse ext) (createStreams true (acceptCompressionResponse wanted ext).options) := by
  obtain ⟨inflationWindow, compressionWindow, server, client, sane, outcome⟩ := acceptCompressionResponse_taken ok compression
  obtain ⟨compressionSane, inflationSane⟩ := windows_of_sane sane
  obtain ⟨inflation, deflation⟩ := createStreams_windows wanted _ compressionSane _ inflationSane
  obtain ⟨serverKept, serverStated⟩ := acceptServer_spec server
  obtain ⟨clientKept, clientStated⟩ := acceptClient_spec client
  rw [mem_windows] at compressionSane inflationSane
  rw [outcome]
  simp only
  refine ⟨?_, ?_, ?_, ?_⟩
  · intro dedicated shared
    rw [inflation] at shared
    split at shared
    · rename_i reset
      by_cases kept : (ExtensionsParser.parse ext).serverMaxWindowBits = 0 ∨ (ExtensionsParser.parse ext).serverMaxWindowBits = 1
      · have window := serverKept kept
        split at window
        · assumption
        · omega
      · rw [not_or] at kept
        have window := serverStated kept.1 kept.2
        omega
    · cases shared
  · intro window dedicated
    rw [inflation] at dedicated
    split at dedicated
    · cases dedicated
    · rename_i going
      cases dedicated
      by_cases kept : (ExtensionsParser.parse ext).serverMaxWindowBits = 0 ∨ (ExtensionsParser.parse ext).serverMaxWindowBits = 1
      · have window := serverKept kept
        split at window <;> omega
      · rw [not_or] at kept
        have window := serverStated kept.1 kept.2
        omega
  · intro reset absent
    have window := clientKept absent
    rw [if_pos reset] at window
    rw [deflation, if_pos window]
  · intro value less
    have window := clientStated (by omega) (by omega)
    have going : ¬ compressionWindow = 0 := by omega
    rw [deflation, if_neg going]
    refine ⟨_, rfl, ?_⟩
    split <;> omega

/-- The parameters keep to the offer: a server's window only where one was offered, no window over an offered one. -/
structure DeflateResponse.Answers (response : DeflateResponse) (offered : ExtensionsParser) : Prop where
  server : ∀ bits, response.states (.serverMaxWindowBits bits) →
    offered.serverMaxWindowBits ≠ 0 ∧ (bits.val : Int) ≤ offered.serverMaxWindowBits
  client : ∀ bits, response.states (.clientMaxWindowBits bits) →
    offered.clientMaxWindowBits ≠ 0 ∧ (offered.clientMaxWindowBits ≠ 1 → (bits.val : Int) ≤ offered.clientMaxWindowBits)

theorem extensionsOffer_read : ∀ wanted ∈ compressOptions, wanted ≠ disabled →
    (ExtensionsParser.parse (extensionsOffer wanted)).serverMaxWindowBits =
        (if 0 < wantedInflationWindow wanted ∧ wantedInflationWindow wanted < 15 then (wantedInflationWindow wanted : Int)
        else 0) ∧
      (ExtensionsParser.parse (extensionsOffer wanted)).clientMaxWindowBits =
        (if wantedCompressionWindow wanted = 0 then 0
        else if wantedCompressionWindow wanted < 15 then (wantedCompressionWindow wanted : Int) else 1) ∧
      (wantedInflationWindow wanted : Int) ∈ windows ∧ (wantedCompressionWindow wanted : Int) ∈ windows := by
  decide +kernel

theorem acceptServer_answer {ep : ExtensionsParser} {wanted : Int} (wantedSane : wanted ∈ windows)
    (answer : ep.serverMaxWindowBits = 0 ∨ (8 ≤ ep.serverMaxWindowBits ∧ 0 < wanted ∧ wanted < 15 ∧
      ep.serverMaxWindowBits ≤ wanted)) :
    ∃ inflationWindow ∈ windows, acceptServer ep wanted = some inflationWindow := by
  unfold acceptServer
  simp only
  rcases answer with absent | ⟨least, some_, less, bound⟩
  · rw [if_neg (not_not_intro absent)]
    refine ⟨_, ?_, rfl⟩
    split
    · decide
    · exact wantedSane
  · rw [if_pos (by omega), if_neg (not_not_intro ⟨some_, less⟩), if_pos (by omega), if_neg (by omega)]
    refine ⟨_, ?_, rfl⟩
    rw [mem_windows]
    omega

theorem acceptClient_answer {ep : ExtensionsParser} {wanted : Int} (wantedSane : wanted ∈ windows)
    (answer : ep.clientMaxWindowBits = 0 ∨ (8 ≤ ep.clientMaxWindowBits ∧ ep.clientMaxWindowBits ≤ wanted)) :
    ∃ compressionWindow ∈ windows, acceptClient ep wanted = some compressionWindow := by
  unfold acceptClient
  simp only
  rcases answer with absent | ⟨least, bound⟩
  · rw [if_neg (not_not_intro absent)]
    refine ⟨_, ?_, rfl⟩
    split
    · decide
    · exact wantedSane
  · have upper : (if wanted ≠ 0 then wanted else 15) = wanted := if_pos (by omega)
    rw [upper, if_pos (by omega), if_neg (not_not_intro (by omega)), if_pos (by omega), if_neg (by omega)]
    refine ⟨_, ?_, rfl⟩
    rw [mem_windows] at wantedSane ⊢
    omega

theorem insaneWindows_of_mem {compressionWindow inflationWindow : Int} (compression : compressionWindow ∈ windows)
    (inflation : inflationWindow ∈ windows) : insaneWindows compressionWindow inflationWindow = false := by
  rw [mem_windows] at compression inflation
  simp only [insaneWindows, Bool.or_eq_false_iff, Bool.and_eq_false_iff, decide_eq_false_iff_not]
  omega

theorem DeflateResponse.text_ne_nil (response : DeflateResponse) : response.text ≠ [] := by
  intro empty
  have length := congrArg List.length empty
  have name : (ascii "permessage-deflate").length = 18 := by decide
  unfold DeflateResponse.text at length
  simp only [List.length_append, name, List.length_nil] at length
  omega

theorem DeflateResponse.integer_stated (response : DeflateResponse) (which : LastInteger) :
    Parameter.integer which (ExtensionsParser.parse response.text) = 0 ∨
      ∃ p, response.states p ∧ ∃ bits, p.stated which = some bits ∧
        Parameter.integer which (ExtensionsParser.parse response.text) = bits.val := by
  rw [response.text_read]
  rcases Parameter.readAll_integer which (response.parameters.map WrittenParameter.parameter) { perMessageDeflate := true }
    with absent | ⟨p, member, stated⟩
  · refine .inl (absent.trans ?_)
    cases which <;> rfl
  · exact .inr ⟨p, member, stated⟩

/-- What a response states, and what is read of it. -/
structure DeflateResponse.Reads (response : DeflateResponse) (ep : ExtensionsParser) : Prop where
  serverReset : ep.serverNoContextTakeover = true ↔ response.states .serverNoContextTakeover
  clientReset : ep.clientNoContextTakeover = true ↔ response.states .clientNoContextTakeover
  server : ∀ bits, response.states (.serverMaxWindowBits bits) ↔ ep.serverMaxWindowBits = bits.val
  client : ∀ bits, response.states (.clientMaxWindowBits bits) ↔ ep.clientMaxWindowBits = bits.val

theorem WindowBits.eq_of_read {bits other : WindowBits} (read : (bits.val : Int) = other.val) : bits = other := by
  apply Subtype.ext
  exact_mod_cast read

theorem DeflateResponse.reads (response : DeflateResponse) : response.Reads (ExtensionsParser.parse response.text) := by
  have distinct : ((response.parameters.map WrittenParameter.parameter).map Parameter.name).Nodup := by
    rw [List.map_map]
    exact response.distinct
  have resets := Parameter.readAll_resets (response.parameters.map WrittenParameter.parameter) { perMessageDeflate := true }
  have value : ∀ (which : LastInteger) (p : Parameter) (bits : WindowBits), response.states p → p.stated which = some bits →
      Parameter.integer which (ExtensionsParser.parse response.text) = bits.val := by
    intro which p bits states stated
    rw [response.text_read]
    exact Parameter.readAll_states distinct states stated _
  refine ⟨?_, ?_, ?_, ?_⟩
  · rw [response.text_read, resets.1]
    exact ⟨fun read => read.resolve_left Bool.false_ne_true, .inr⟩
  · rw [response.text_read, resets.2]
    exact ⟨fun read => read.resolve_left Bool.false_ne_true, .inr⟩
  · intro bits
    have least := bits.property.1
    refine ⟨fun states => value .serverMaxWindowBits _ bits states rfl, fun read => ?_⟩
    rcases response.integer_stated .serverMaxWindowBits with absent | ⟨p, states, bits', stated, read'⟩
    · have none : (ExtensionsParser.parse response.text).serverMaxWindowBits = 0 := absent
      omega
    · rw [WindowBits.eq_of_read (read.symm.trans read'), ← Parameter.eq_server stated]
      exact states
  · intro bits
    have least := bits.property.1
    refine ⟨fun states => value .clientMaxWindowBits _ bits states rfl, fun read => ?_⟩
    rcases response.integer_stated .clientMaxWindowBits with absent | ⟨p, states, bits', stated, read'⟩
    · have none : (ExtensionsParser.parse response.text).clientMaxWindowBits = 0 := absent
      omega
    · rw [WindowBits.eq_of_read (read.symm.trans read'), ← Parameter.eq_client stated]
      exact states

theorem DeflateResponse.protocol_read (response : DeflateResponse) :
    (ExtensionsParser.parse response.text).perMessageDeflate = true ∧
      (ExtensionsParser.parse response.text).xWebKitDeflateFrame = false := by
  rw [response.text_read, (Parameter.readAll_protocol _ _).1, (Parameter.readAll_protocol _ _).2]
  exact ⟨rfl, rfl⟩

theorem acceptCompressionResponse_answer {wanted : Nat} (options : wanted ∈ compressOptions) (configured : wanted ≠ disabled)
    {response : DeflateResponse} (answers : response.Answers (ExtensionsParser.parse (extensionsOffer wanted))) :
    (acceptCompressionResponse wanted response.text).ok = true ∧
      (acceptCompressionResponse wanted response.text).compression = true := by
  obtain ⟨offeredServer, offeredClient, inflationSane, compressionSane⟩ := extensionsOffer_read wanted options configured
  obtain ⟨server, client⟩ := answers
  obtain ⟨standard, safari⟩ := response.protocol_read
  rw [offeredServer] at server
  rw [offeredClient] at client
  have serverAnswer : (ExtensionsParser.parse response.text).serverMaxWindowBits = 0 ∨
      (8 ≤ (ExtensionsParser.parse response.text).serverMaxWindowBits ∧ 0 < (wantedInflationWindow wanted : Int) ∧
        (wantedInflationWindow wanted : Int) < 15 ∧
        (ExtensionsParser.parse response.text).serverMaxWindowBits ≤ wantedInflationWindow wanted) := by
    rcases response.integer_stated .serverMaxWindowBits with absent | ⟨p, states, bits, stated, read⟩
    · exact .inl absent
    · right
      rw [Parameter.eq_server stated] at states
      have least := bits.property.1
      obtain ⟨offered, bound⟩ := server bits states
      have read' : (ExtensionsParser.parse response.text).serverMaxWindowBits = bits.val := read
      split at bound <;> omega
  have clientAnswer : (ExtensionsParser.parse response.text).clientMaxWindowBits = 0 ∨
      (8 ≤ (ExtensionsParser.parse response.text).clientMaxWindowBits ∧
        (ExtensionsParser.parse response.text).clientMaxWindowBits ≤ wantedCompressionWindow wanted) := by
    rcases response.integer_stated .clientMaxWindowBits with absent | ⟨p, states, bits, stated, read⟩
    · exact .inl absent
    · right
      rw [Parameter.eq_client stated] at states
      have least := bits.property.1
      have most := bits.property.2
      obtain ⟨offered, bound⟩ := client bits states
      have read' : (ExtensionsParser.parse response.text).clientMaxWindowBits = bits.val := read
      rw [mem_windows] at compressionSane
      split at bound
      · omega
      · split at bound <;> omega
  obtain ⟨inflationWindow, inflation, accepted⟩ := acceptServer_answer inflationSane serverAnswer
  obtain ⟨compressionWindow, compression, accepted'⟩ := acceptClient_answer compressionSane clientAnswer
  unfold acceptCompressionResponse
  rw [if_neg configured, if_neg response.text_ne_nil]
  simp only [safari, standard, accepted, accepted', insaneWindows_of_mem compression inflation, Bool.false_eq_true,
    Bool.not_true, if_false, and_self]

/-- A client takes every response that keeps to its offer, reads it as written, and keeps to what it took. -/
theorem compression_accepted (wanted : Nat) (options : wanted ∈ compressOptions) :
    (acceptCompressionResponse wanted []).ok = true ∧
      (∀ response : DeflateResponse, response.Reads (ExtensionsParser.parse response.text) ∧
        (wanted ≠ disabled → response.Answers (ExtensionsParser.parse (extensionsOffer wanted)) →
          (acceptCompressionResponse wanted response.text).ok = true ∧
            (acceptCompressionResponse wanted response.text).compression = true)) ∧
      ∀ ext, (acceptCompressionResponse wanted ext).ok = true → (acceptCompressionResponse wanted ext).compression = true →
        Safe wanted (ExtensionsParser.parse ext) (createStreams true (acceptCompressionResponse wanted ext).options) := by
  refine ⟨?_, ?_, ?_⟩
  · unfold acceptCompressionResponse
    split <;> rfl
  · intro response
    exact ⟨response.reads, fun configured answers => acceptCompressionResponse_answer options configured answers⟩
  · intro ext ok compression
    exact acceptCompressionResponse_safe ok compression

def noBlank : Blank := ⟨[], fun _ member => nomatch member⟩

def oneParameter (parameter : Parameter) : DeflateResponse :=
  ⟨[⟨parameter, (noBlank, noBlank), (noBlank, noBlank), false⟩], List.nodup_singleton _, noBlank⟩

/-- A server that answers an offered window of 12 with one of 10. -/
theorem window_accepted :
    (acceptCompressionResponse (dedicatedCompressor ||| 12 <<< 8)
        (oneParameter (.serverMaxWindowBits ⟨10, by decide⟩)).text).ok = true ∧
      Safe (dedicatedCompressor ||| 12 <<< 8)
        (ExtensionsParser.parse (oneParameter (.serverMaxWindowBits ⟨10, by decide⟩)).text)
        (createStreams true (acceptCompressionResponse (dedicatedCompressor ||| 12 <<< 8)
          (oneParameter (.serverMaxWindowBits ⟨10, by decide⟩)).text).options) := by
  obtain ⟨-, answered, safe⟩ := compression_accepted (dedicatedCompressor ||| 12 <<< 8) (by decide +kernel)
  have answers : (oneParameter (.serverMaxWindowBits ⟨10, by decide⟩)).Answers
      (ExtensionsParser.parse (extensionsOffer (dedicatedCompressor ||| 12 <<< 8))) := by
    refine ⟨?_, ?_⟩
    · intro bits states
      cases List.mem_singleton.mp states
      decide +kernel
    · intro bits states
      cases List.mem_singleton.mp states
  obtain ⟨ok, compression⟩ := (answered _).2 (by decide) answers
  exact ⟨ok, safe _ ok compression⟩

/-- Responses that are refused, and ones that are taken but not kept to. -/
theorem acceptance_deviates :
    (¬ ∀ wanted ∈ compressOptions, ∀ bits, wanted ≠ disabled →
      (acceptCompressionResponse wanted (oneParameter (.serverMaxWindowBits bits)).text).ok = true) ∧
    (¬ ∀ wanted ∈ compressOptions, ∀ bits,
      (ExtensionsParser.parse (extensionsOffer wanted)).clientMaxWindowBits ≠ 0 →
      (acceptCompressionResponse wanted (oneParameter (.clientMaxWindowBits bits)).text).ok = true) ∧
    (acceptCompressionResponse (dedicatedCompressor ||| dedicatedDecompressor)
      (ascii "permessage-deflate; client_max_window_bits=\"1\\5\"")).ok = false ∧
    (¬ ∀ wanted ∈ compressOptions, ∀ ext, (acceptCompressionResponse wanted ext).ok = true →
      (acceptCompressionResponse wanted ext).compression = true →
      (createStreams true (acceptCompressionResponse wanted ext).options).inflationStream = none →
      (ExtensionsParser.parse ext).serverNoContextTakeover = true) ∧
    (¬ ∀ wanted ∈ compressOptions, ∀ ext, (acceptCompressionResponse wanted ext).ok = true →
      (acceptCompressionResponse wanted ext).compression = true → (ExtensionsParser.parse ext).serverMaxWindowBits = 0 →
      ∀ window, (createStreams true (acceptCompressionResponse wanted ext).options).inflationStream = some window →
        15 ≤ window) ∧
    (¬ ∀ wanted ∈ compressOptions, ∀ ext, (acceptCompressionResponse wanted ext).ok = true →
      (acceptCompressionResponse wanted ext).compression = true → (ExtensionsParser.parse ext).clientNoContextTakeover = true →
      (createStreams true (acceptCompressionResponse wanted ext).options).deflationStream = none) ∧
    ¬ ∀ wanted ∈ compressOptions, ∀ ext, (acceptCompressionResponse wanted ext).ok = true →
      (acceptCompressionResponse wanted ext).compression = true → 8 ≤ (ExtensionsParser.parse ext).clientMaxWindowBits →
      ∀ window, (createStreams true (acceptCompressionResponse wanted ext).options).deflationStream = some window →
        (window : Int) ≤ (ExtensionsParser.parse ext).clientMaxWindowBits := by
  refine ⟨fun all => ?_, fun all => ?_, by decide +kernel, fun all => ?_, fun all => ?_, fun all => ?_, fun all => ?_⟩
  · have taken := all (dedicatedCompressor ||| dedicatedDecompressor) (by decide +kernel) ⟨10, by decide⟩ (by decide)
    exact absurd taken (by decide +kernel)
  · have taken := all (dedicatedCompressor3kb ||| dedicatedDecompressor) (by decide +kernel) ⟨15, by decide⟩
      (by decide +kernel)
    exact absurd taken (by decide +kernel)
  · have stated := all (dedicatedCompressor ||| sharedDecompressor) (by decide +kernel) (ascii "permessage-deflate")
      (by decide +kernel) (by decide +kernel) (by decide +kernel)
    exact absurd stated (by decide +kernel)
  · have whole := all (dedicatedCompressor ||| 10 <<< 8) (by decide +kernel) (ascii "permessage-deflate")
      (by decide +kernel) (by decide +kernel) (by decide +kernel) 10 (by decide +kernel)
    exact absurd whole (by decide)
  · have reset := all (dedicatedCompressor ||| dedicatedDecompressor) (by decide +kernel)
      (ascii "permessage-deflate; client_no_context_takeover; client_max_window_bits=10")
      (by decide +kernel) (by decide +kernel) (by decide +kernel)
    exact absurd reset (by decide +kernel)
  · have bound := all (dedicatedCompressor ||| dedicatedDecompressor) (by decide +kernel)
      (ascii "permessage-deflate; client_max_window_bits=8")
      (by decide +kernel) (by decide +kernel) (by decide +kernel) 9 (by decide +kernel)
    exact absurd bound (by decide +kernel)

end Uws.WebSocket
