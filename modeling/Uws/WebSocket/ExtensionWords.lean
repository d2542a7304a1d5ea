import Uws.WebSocket.CompressionAcceptance
import Uws.Library.WordScan

namespace Uws.WebSocket

open Uws.Http (Bytes ascii)
open Uws.WordScan

def extensionWords (data : Bytes) : List Int := scan isAlnum isTokenByte hashByte 0 none data

theorem isAlnum_inside (c : UInt8) (alnum : isAlnum c = true) : isTokenByte c = true := by
  unfold isTokenByte
  rw [alnum]
  rfl

theorem getToken_words (data : Bytes) :
    (getToken data).1 = (extensionWords data).headD 0 ∧ extensionWords (getToken data).2 = (extensionWords data).tail := by
  unfold getToken extensionWords
  dsimp only
  rw [scan_skip data]
  cases own : data.dropWhile fun c => !isAlnum c with
  | nil => exact ⟨rfl, rfl⟩
  | cons c text =>
    have alnum : isAlnum c = true := by
      have head := List.head?_dropWhile_not (fun c => !isAlnum c) data
      rw [own] at head
      simpa using head
    rw [scan, if_pos alnum, scan_word isAlnum_inside, List.takeWhile_cons_of_pos (isAlnum_inside c alnum),
      List.dropWhile_cons_of_pos (isAlnum_inside c alnum)]
    exact ⟨rfl, rfl⟩

theorem extensionWords_length (data : Bytes) : (extensionWords data).length ≤ data.length := scan_length none data

/-- The words that the first loop stops at, and that end the parameters. -/
def stopsAt (word : Int) : Bool := word == 0 || word == tokPermessageDeflate || word == tokXWebkitDeflateFrame

def protocolWord (words : List Int) : Int := (words.find? stopsAt).getD 0

def parameterWords (words : List Int) : List Int :=
  ((words.dropWhile fun word => !stopsAt word).tail).takeWhile fun word => !stopsAt word

namespace ExtensionsParser

def takeWord (ep : ExtensionsParser) (word : Int) : ExtensionsParser := (ep.takeToken word).getD ep

theorem findProtocol_words (fuel : Nat) (token : Int) (data : Bytes) (enough : (extensionWords data).length + 2 ≤ fuel) :
    (findProtocol fuel token data).1 = protocolWord (token :: extensionWords data) ∧
      extensionWords (findProtocol fuel token data).2 =
        ((token :: extensionWords data).dropWhile fun word => !stopsAt word).tail := by
  induction fuel generalizing token data with
  | zero => omega
  | succ fuel ih =>
    rw [findProtocol, protocolWord]
    by_cases stop : stopsAt token = true
    · rw [List.find?_cons_of_pos stop, List.dropWhile_cons_of_neg (by rw [stop]; decide), if_neg]
      · exact ⟨rfl, rfl⟩
      · unfold stopsAt at stop
        simp only [Bool.or_eq_true, beq_iff_eq] at stop
        tauto
    · have goes : token ≠ 0 ∧ token ≠ tokPermessageDeflate ∧ token ≠ tokXWebkitDeflateFrame := by
        unfold stopsAt at stop
        simp only [Bool.or_eq_true, beq_iff_eq] at stop
        tauto
      rw [List.find?_cons_of_neg stop, List.dropWhile_cons_of_pos (by rw [eq_false_of_ne_true stop]; rfl), if_pos goes]
      dsimp only
      obtain ⟨next, rest⟩ := getToken_words data
      cases words : extensionWords data with
      | nil =>
        rw [words] at next rest
        obtain ⟨fuel, rfl⟩ : ∃ n, fuel = n + 1 := ⟨fuel - 1, by omega⟩
        rw [next]
        exact ⟨rfl, rest⟩
      | cons word more =>
        rw [words] at next rest
        rw [words, List.length_cons] at enough
        have later := ih (getToken data).1 (getToken data).2 (by rw [rest, List.tail_cons]; omega)
        rw [next, rest] at later
        rw [next]
        exact later

theorem takeToken_stops (ep : ExtensionsParser) {word : Int} (some_ : word ≠ 0) :
    ep.takeToken word = if stopsAt word = true then none else some (ep.takeWord word) := by
  have names : stopsAt word = true ↔ word = tokXWebkitDeflateFrame ∨ word = tokPermessageDeflate := by
    unfold stopsAt
    simp only [Bool.or_eq_true, beq_iff_eq, some_, false_or]
    exact or_comm
  unfold takeWord takeToken
  by_cases stop : stopsAt word = true
  · rw [if_pos stop, if_pos (names.mp stop)]
  · rw [if_neg stop, if_neg (fun named => stop (names.mpr named))]
    split_ifs <;> rfl

theorem takeTokens_words (fuel : Nat) (data : Bytes) (ep : ExtensionsParser) (enough : (extensionWords data).length < fuel) :
    takeTokens fuel data ep = ((extensionWords data).takeWhile fun word => !stopsAt word).foldl takeWord ep := by
  induction fuel generalizing data ep with
  | zero => omega
  | succ fuel ih =>
    obtain ⟨next, rest⟩ := getToken_words data
    rw [takeTokens]
    dsimp only
    cases words : extensionWords data with
    | nil =>
      rw [words] at next
      change (getToken data).1 = 0 at next
      rw [if_pos next]
      rfl
    | cons word more =>
      rw [words] at next rest
      rw [words, List.length_cons] at enough
      change (getToken data).1 = word at next
      change extensionWords (getToken data).2 = more at rest
      rw [next]
      by_cases zero : word = 0
      · rw [if_pos zero, List.takeWhile_cons_of_neg (by rw [zero]; decide)]
        rfl
      · rw [if_neg zero, takeToken_stops ep zero]
        by_cases stop : stopsAt word = true
        · rw [if_pos stop, List.takeWhile_cons_of_neg (by rw [stop]; decide)]
          rfl
        · rw [if_neg stop, List.takeWhile_cons_of_pos (by rw [eq_false_of_ne_true stop]; rfl), List.foldl_cons, ← rest]
          exact ih _ _ (by rw [rest]; omega)

end ExtensionsParser

def integerWord : LastInteger → Int
  | .maxWindowBits => tokMaxWindowBits
  | .serverMaxWindowBits => tokServerMaxWindowBits
  | .clientMaxWindowBits => tokClientMaxWindowBits

/-- The words behind which a number goes to another integer. -/
def isIntegerWord (word : Int) : Bool :=
  word == tokMaxWindowBits || word == tokServerMaxWindowBits || word == tokClientMaxWindowBits

def lastNumber (words : List Int) : Option Int := (words.filter (· < 0)).getLast?.map (- ·)

/-- The integer that words leave: the last number behind its last word and in front of the next integer's word, or 1; without its
word it is 0. -/
def wordsInteger (token : Int) : List Int → Int
  | [] => 0
  | word :: words =>
    if word = token ∧ token ∉ words then (lastNumber (words.takeWhile fun word => !isIntegerWord word)).getD 1
    else wordsInteger token words

theorem lastNumber_cons (word : Int) (words : List Int) :
    lastNumber (word :: words) = if word < 0 then some ((lastNumber words).getD (-word)) else lastNumber words := by
  unfold lastNumber
  by_cases negative : word < 0
  · rw [if_pos negative, List.filter_cons_of_pos (by exact decide_eq_true negative)]
    cases (words.filter (· < 0)) with
    | nil => rfl
    | cons other more =>
      rw [List.getLast?_cons_cons, List.getLast?_eq_some_getLast (List.cons_ne_nil _ _)]
      rfl
  · rw [if_neg negative, List.filter_cons_of_neg (by rw [decide_eq_false negative]; decide)]

theorem wordsInteger_absent {token : Int} {words : List Int} (absent : token ∉ words) : wordsInteger token words = 0 := by
  induction words with
  | nil => rfl
  | cons word words ih =>
    rw [List.mem_cons, not_or] at absent
    rw [wordsInteger, if_neg fun both => absent.1 both.1.symm, ih absent.2]

namespace ExtensionsParser

open Parameter (integer)

theorem storeInteger_flags (ep : ExtensionsParser) (value : Int) :
    (ep.storeInteger value).perMessageDeflate = ep.perMessageDeflate ∧
      (ep.storeInteger value).serverNoContextTakeover = ep.serverNoContextTakeover ∧
      (ep.storeInteger value).clientNoContextTakeover = ep.clientNoContextTakeover := by
  unfold storeInteger
  split <;> exact ⟨rfl, rfl, rfl⟩

theorem storeInteger_integer (which : LastInteger) (ep : ExtensionsParser) (value : Int) :
    (ep.storeInteger value).lastInteger = ep.lastInteger ∧
      integer which (ep.storeInteger value) = if ep.lastInteger = some which then value else integer which ep := by
  refine ⟨?_, ?_⟩
  · unfold storeInteger
    split <;> rfl
  · unfold storeInteger
    split <;> rename_i own <;> rw [own] <;> cases which <;> rfl

theorem takeWord_flags (ep : ExtensionsParser) (word : Int) :
    (ep.takeWord word).perMessageDeflate = ep.perMessageDeflate ∧
      (ep.takeWord word).serverNoContextTakeover = (word == tokServerNoContextTakeover || ep.serverNoContextTakeover) ∧
      (ep.takeWord word).clientNoContextTakeover = (word == tokClientNoContextTakeover || ep.clientNoContextTakeover) := by
  unfold takeWord takeToken
  split_ifs with stop flag integer server client serverInteger clientInteger negative
  · rcases stop with rfl | rfl <;> exact ⟨rfl, rfl, rfl⟩
  · rw [flag]
    exact ⟨rfl, rfl, rfl⟩
  · rw [integer]
    exact ⟨rfl, rfl, rfl⟩
  · rw [server]
    exact ⟨rfl, rfl, rfl⟩
  · rw [client]
    exact ⟨rfl, rfl, rfl⟩
  · rw [serverInteger]
    exact ⟨rfl, rfl, rfl⟩
  · rw [clientInteger]
    exact ⟨rfl, rfl, rfl⟩
  · rw [beq_false_of_ne server, beq_false_of_ne client]
    exact storeInteger_flags ep (-word)
  · rw [beq_false_of_ne server, beq_false_of_ne client]
    exact ⟨rfl, rfl, rfl⟩

theorem takeWord_own (which : LastInteger) (ep : ExtensionsParser) :
    integer which (ep.takeWord (integerWord which)) = 1 ∧ (ep.takeWord (integerWord which)).lastInteger = some which := by
  cases which <;> exact ⟨rfl, rfl⟩

theorem takeWord_other (which : LastInteger) (ep : ExtensionsParser) {word : Int} (integer_ : isIntegerWord word = true)
    (other : word ≠ integerWord which) :
    integer which (ep.takeWord word) = integer which ep ∧ (ep.takeWord word).lastInteger ≠ some which := by
  unfold isIntegerWord at integer_
  simp only [Bool.or_eq_true, beq_iff_eq] at integer_
  rcases integer_ with (rfl | rfl) | rfl <;> cases which <;>
    first
      | exact absurd rfl other
      | exact ⟨rfl, nofun⟩

theorem takeWord_plain (which : LastInteger) (ep : ExtensionsParser) {word : Int} (plain : isIntegerWord word = false) :
    (ep.takeWord word).lastInteger = ep.lastInteger ∧
      integer which (ep.takeWord word) = if word < 0 ∧ ep.lastInteger = some which then -word else integer which ep := by
  unfold isIntegerWord at plain
  simp only [Bool.or_eq_false_iff, beq_eq_false_iff_ne] at plain
  by_cases negative : word < 0
  · have apart : ∀ token : Int, 0 < token → word ≠ token := fun token positive => by omega
    have taken : ep.takeWord word = ep.storeInteger (-word) := by
      unfold takeWord takeToken
      rw [if_neg, if_neg (apart _ (by decide)), if_neg (apart _ (by decide)), if_neg (apart _ (by decide)),
        if_neg (apart _ (by decide)), if_neg (apart _ (by decide)), if_neg (apart _ (by decide)), if_pos negative]
      · rfl
      · rintro (named | named) <;> exact apart _ (by decide) named
    obtain ⟨pointer, stored⟩ := storeInteger_integer which ep (-word)
    rw [taken, stored, if_congr (and_iff_right negative) rfl rfl]
    exact ⟨pointer, rfl⟩
  · have kept : (ep.takeWord word).lastInteger = ep.lastInteger ∧ integer which (ep.takeWord word) = integer which ep := by
      unfold takeWord takeToken
      rw [if_neg plain.1.1, if_neg plain.1.2, if_neg plain.2, if_neg negative]
      split_ifs <;> cases which <;> exact ⟨rfl, rfl⟩
    rw [if_neg fun both => negative both.1]
    exact kept

theorem takeWords_flags (words : List Int) (ep : ExtensionsParser) :
    (words.foldl takeWord ep).perMessageDeflate = ep.perMessageDeflate ∧
      ((words.foldl takeWord ep).serverNoContextTakeover = true ↔
        tokServerNoContextTakeover ∈ words ∨ ep.serverNoContextTakeover = true) ∧
      ((words.foldl takeWord ep).clientNoContextTakeover = true ↔
        tokClientNoContextTakeover ∈ words ∨ ep.clientNoContextTakeover = true) := by
  induction words generalizing ep with
  | nil => simp
  | cons word words ih =>
    obtain ⟨protocol, server, client⟩ := takeWord_flags ep word
    obtain ⟨protocol_, server_, client_⟩ := ih (ep.takeWord word)
    rw [List.foldl_cons, protocol_, protocol, server_, server, client_, client]
    simp only [Bool.or_eq_true, beq_iff_eq, List.mem_cons, true_and]
    refine ⟨?_, ?_⟩ <;> grind

theorem takeWords_integer (which : LastInteger) (words : List Int) (ep : ExtensionsParser) :
    integer which (words.foldl takeWord ep) =
      if integerWord which ∈ words then wordsInteger (integerWord which) words
      else if ep.lastInteger = some which then
        (lastNumber (words.takeWhile fun word => !isIntegerWord word)).getD (integer which ep)
      else integer which ep := by
  induction words generalizing ep with
  | nil =>
    show integer which ep = if integerWord which ∈ [] then _ else if ep.lastInteger = some which then integer which ep else _
    rw [if_neg List.not_mem_nil, ite_self]
  | cons word words ih =>
    rw [List.foldl_cons, ih]
    by_cases own : word = integerWord which
    · subst own
      obtain ⟨one, points⟩ := takeWord_own which ep
      rw [one, points, if_pos rfl, if_pos List.mem_cons_self, wordsInteger]
      by_cases again : integerWord which ∈ words
      · rw [if_pos again, if_neg fun both => both.2 again]
      · rw [if_neg again, if_pos ⟨rfl, again⟩]
    · have later : wordsInteger (integerWord which) (word :: words) = wordsInteger (integerWord which) words :=
        if_neg fun both => own both.1
      have member : integerWord which ∈ word :: words ↔ integerWord which ∈ words := by
        rw [List.mem_cons, or_iff_right (Ne.symm own)]
      rw [later, if_congr member rfl rfl]
      apply congrArg
      by_cases integer_ : isIntegerWord word = true
      · obtain ⟨same, points⟩ := takeWord_other which ep integer_ own
        rw [List.takeWhile_cons_of_neg (by rw [integer_]; decide), same, if_neg points]
        exact (ite_self _).symm
      · have plain := eq_false_of_ne_true integer_
        obtain ⟨pointer, stored⟩ := takeWord_plain which ep plain
        rw [List.takeWhile_cons_of_pos (by rw [plain]; rfl), pointer, stored, lastNumber_cons]
        by_cases points : ep.lastInteger = some which
        · rw [if_pos points, if_pos points, if_congr (and_iff_left points) rfl rfl]
          by_cases negative : word < 0
          · rw [if_pos negative, if_pos negative, Option.getD_some]
          · rw [if_neg negative, if_neg negative]
        · rw [if_neg points, if_neg points, if_neg fun both => points both.2]

theorem parse_words (data : Bytes) :
    parse data = (parameterWords (extensionWords data)).foldl takeWord
      { perMessageDeflate := protocolWord (extensionWords data) == tokPermessageDeflate
        xWebKitDeflateFrame := protocolWord (extensionWords data) == tokXWebkitDeflateFrame } := by
  have bound := extensionWords_length data
  obtain ⟨token, rest⟩ := findProtocol_words (data.length + 2) 1 data (by omega)
  unfold parse
  dsimp only
  rw [takeTokens_words _ _ _ (Nat.lt_succ_of_le (extensionWords_length _)), token, rest]
  rfl

theorem parse_reports (data : Bytes) :
    (parse data).perMessageDeflate = (protocolWord (extensionWords data) == tokPermessageDeflate) ∧
      ((parse data).serverNoContextTakeover = true ↔ tokServerNoContextTakeover ∈ parameterWords (extensionWords data)) ∧
      ((parse data).clientNoContextTakeover = true ↔ tokClientNoContextTakeover ∈ parameterWords (extensionWords data)) ∧
      ∀ which, integer which (parse data) = wordsInteger (integerWord which) (parameterWords (extensionWords data)) := by
  rw [parse_words]
  generalize words_ : parameterWords (extensionWords data) = words
  obtain ⟨protocol, server, client⟩ := takeWords_flags words
    { perMessageDeflate := protocolWord (extensionWords data) == tokPermessageDeflate
      xWebKitDeflateFrame := protocolWord (extensionWords data) == tokXWebkitDeflateFrame }
  refine ⟨protocol, server.trans (or_iff_left nofun), client.trans (or_iff_left nofun), ?_⟩
  intro which
  rw [takeWords_integer]
  by_cases present : integerWord which ∈ words
  · exact if_pos present
  · rw [if_neg present, wordsInteger_absent present]
    cases which <;> rfl

end ExtensionsParser

end Uws.WebSocket
