import Uws.Http.HeaderFraming
import Uws.WebSocket.ClientApp

namespace Uws.WebSocket

open Uws.Http

theorem ascii_toString (n : Nat) : ascii (toString n) = (Nat.toDigits 10 n).map fun c => UInt8.ofNat c.toNat := by
  unfold ascii
  rw [Nat.toString_eq_ofList_toDigits, String.toList_ofList]

theorem toDigits_digit {n : Nat} {c : Char} (member : c ∈ Nat.toDigits 10 n) : 48 ≤ c.toNat ∧ c.toNat ≤ 57 := by
  have digit := Nat.isDigit_of_mem_toDigits (by decide) (by decide) member
  simpa [Char.isDigit, Char.le_def, UInt32.le_iff_toNat_le] using digit

theorem decimal_digit {n : Nat} {c : UInt8} (member : c ∈ ascii (toString n)) : isDigit c = true := by
  rw [ascii_toString] at member
  obtain ⟨digit, own, rfl⟩ := List.mem_map.mp member
  obtain ⟨least, most⟩ := toDigits_digit own
  have value : (UInt8.ofNat digit.toNat).toNat = digit.toNat := by
    rw [UInt8.toNat_ofNat']
    omega
  simp only [isDigit, Bool.and_eq_true, decide_eq_true_eq, UInt8.le_iff_toNat_le, value]
  exact ⟨least, most⟩

theorem decimal_ne_nil (n : Nat) : ascii (toString n) ≠ [] := by
  rw [ascii_toString]
  intro empty
  exact Nat.toDigits_ne_nil (List.map_eq_nil_iff.mp empty)

def decimalValue (digits : Bytes) : Nat := digits.foldl (fun p c => p * 10 + (c.toNat - 48)) 0

theorem foldl_digits (digits : List Char) (small : ∀ c ∈ digits, c.toNat ≤ 57) (p : Nat) :
    (digits.map fun c => UInt8.ofNat c.toNat).foldl (fun p c => p * 10 + (c.toNat - 48)) p =
      Nat.ofDigitChars 10 digits p := by
  induction digits generalizing p with
  | nil => rfl
  | cons c digits ih =>
    have most := small c List.mem_cons_self
    have value : (UInt8.ofNat c.toNat).toNat = c.toNat := by
      rw [UInt8.toNat_ofNat']
      omega
    rw [List.map_cons, List.foldl_cons, ih fun d member => small d (List.mem_cons_of_mem _ member), Nat.ofDigitChars_cons,
      value, Nat.mul_comm]
    rfl

theorem decimalValue_toString (n : Nat) : decimalValue (ascii (toString n)) = n := by
  unfold decimalValue
  rw [ascii_toString, foldl_digits _ fun c member => (toDigits_digit member).2]
  exact Nat.ofDigitChars_ten_toDigits

theorem foldl_bound (digits : Bytes) (all : ∀ c ∈ digits, isDigit c = true) (p k : Nat) (bound : p < 10 ^ k) :
    digits.foldl (fun p c => p * 10 + (c.toNat - 48)) p < 10 ^ (k + digits.length) := by
  induction digits generalizing p k with
  | nil => exact bound
  | cons c digits ih =>
    have digit := all c List.mem_cons_self
    simp only [isDigit, Bool.and_eq_true, decide_eq_true_eq, UInt8.le_iff_toNat_le] at digit
    have most : c.toNat ≤ 57 := digit.2
    have next : p * 10 + (c.toNat - 48) < 10 ^ (k + 1) := by
      rw [Nat.pow_succ]
      omega
    have rest := ih (fun d member => all d (List.mem_cons_of_mem _ member)) _ _ next
    rw [List.foldl_cons, List.length_cons, ← Nat.add_assoc, Nat.add_right_comm]
    exact rest

theorem decimal_length {digits : Bytes} (all : ∀ c ∈ digits, isDigit c = true) (some_ : digits ≠ []) :
    (ascii (toString (decimalValue digits))).length ≤ digits.length := by
  have bound := foldl_bound digits all 0 0 (by decide)
  rw [Nat.zero_add] at bound
  rw [ascii_toString, List.length_map]
  exact (Nat.length_toDigits_le_iff (by decide) (List.length_pos_iff.mpr some_)).mpr bound

theorem portNumber_spec {portStr : Bytes} {port : Nat} (read : portNumber portStr = some port) :
    (∀ c ∈ portStr, isDigit c = true) ∧ port = decimalValue portStr := by
  unfold portNumber at read
  split at read
  · rename_i all
    simp only at read
    split at read
    · cases read
      exact ⟨fun c member => List.all_eq_true.mp all c member, rfl⟩
    · cases read
  · cases read

def trimBlanks (value : Bytes) : Bytes := (value.rdropWhile isBlank).dropWhile isBlank

theorem trimBlanks_length (value : Bytes) : (trimBlanks value).length ≤ value.length :=
  (List.dropWhile_suffix _).length_le.trans (List.rdropWhile_prefix _ _).length_le

theorem trimBlanks_of_length {value trimmed : Bytes} (trim : trimBlanks value = trimmed)
    (long : value.length ≤ trimmed.length) : value = trimmed := by
  have front := (List.rdropWhile_prefix isBlank value).length_le
  have back := (List.dropWhile_suffix (p := isBlank) (l := value.rdropWhile isBlank)).length_le
  have size := congrArg List.length trim
  unfold trimBlanks at trim size
  have whole : value.rdropWhile isBlank = value := (List.rdropWhile_prefix isBlank value).eq_of_length (by omega)
  rw [whole] at trim size back
  have kept : value.dropWhile isBlank = value := (List.dropWhile_suffix isBlank).eq_of_length (by omega)
  rw [← trim, kept]

theorem trimBlanks_head {value : Bytes} {c : UInt8} (head : value.head? = some c) (visible : isBlank c = false) :
    (trimBlanks value).head? = some c := by
  obtain ⟨rest, rfl⟩ := List.head?_eq_some_iff.mp head
  have kept : (c :: rest).rdropWhile isBlank ≠ [] := by
    intro none
    have blank := List.rdropWhile_eq_nil_iff.mp none c List.mem_cons_self
    rw [visible] at blank
    cases blank
  obtain ⟨d, more, split⟩ := List.exists_cons_of_ne_nil kept
  have front := List.rdropWhile_prefix isBlank (c :: rest)
  rw [split] at front
  obtain ⟨rfl, -⟩ := List.cons_prefix_cons.mp front
  unfold trimBlanks
  rw [split, List.dropWhile_cons_of_neg (by rw [visible]; exact Bool.false_ne_true)]
  rfl

def openBracket : UInt8 := 91
def closeBracket : UInt8 := 93

def hostValue (parsed : ParsedUrl) : Bytes :=
  bracketed parsed.host ++ if parsed.defaultPort then [] else ascii ":" ++ ascii (toString parsed.port)

/-- An authority as the host line prints one: a name without colons or a bracketed literal with one, and no port or
    one without leading zeros. -/
def NormalAuthority (authority : Bytes) : Prop :=
  trimBlanks authority = authority ∧ ∃ host port,
    (port = [] ∨ ∃ number : Nat, port = colon :: ascii (toString number)) ∧
    ((authority = host ++ port ∧ colon ∉ host ∧ host.head? ≠ some openBracket) ∨
      (authority = openBracket :: host ++ closeBracket :: port ∧ colon ∈ host ∧ host.head? ≠ some openBracket ∧
        closeBracket ∉ host))

structure Parts (authority portStr : Bytes) (parsed : ParsedUrl) : Prop where
  host : parsed.host ≠ []
  split : splitAuthority authority = some (parsed.host, portStr)
  port : (portStr = [] ∧ parsed.defaultPort = true) ∨
    (portStr ≠ [] ∧ parsed.defaultPort = false ∧ portNumber portStr = some parsed.port)

theorem hostValue_port {authority portStr : Bytes} {parsed : ParsedUrl} (parts : Parts authority portStr parsed) :
    (portStr = [] ∧ hostValue parsed = bracketed parsed.host) ∨
      (portStr ≠ [] ∧ hostValue parsed = bracketed parsed.host ++ colon :: ascii (toString (decimalValue portStr)) ∧
        (ascii (toString (decimalValue portStr))).length ≤ portStr.length ∧ ∀ c ∈ portStr, isDigit c = true) := by
  unfold hostValue
  rcases parts.port with ⟨none, default⟩ | ⟨some_, explicit, number⟩
  · rw [default]
    exact .inl ⟨none, by simp⟩
  · obtain ⟨digits, value⟩ := portNumber_spec number
    have separator : ascii ":" = [colon] := by decide
    rw [explicit, value, separator]
    exact .inr ⟨some_, rfl, decimal_length digits some_, digits⟩

theorem bracketed_cases (host : Bytes) :
    (colon ∈ host ∧ host.head? ≠ some openBracket ∧ bracketed host = openBracket :: host ++ [closeBracket]) ∨
      (¬ (colon ∈ host ∧ host.head? ≠ some openBracket) ∧ bracketed host = host) := by
  unfold bracketed
  by_cases literal : colon ∈ host ∧ host.head? ≠ some 91
  · rw [if_pos literal]
    exact .inl ⟨literal.1, literal.2, rfl⟩
  · rw [if_neg literal]
    exact .inr ⟨literal, rfl⟩

theorem splitAt?_append {c : UInt8} {before : Bytes} (apart : c ∉ before) (after : Bytes) :
    splitAt? c (before ++ c :: after) = some (before, after) := by
  have passes : ∀ d ∈ before, decide (d ≠ c) = true := by
    intro d member
    rw [decide_eq_true_iff]
    rintro rfl
    exact apart member
  unfold splitAt?
  rw [if_pos (by simp), List.takeWhile_append_of_pos passes, List.dropWhile_append_of_pos passes]
  simp

theorem splitAt?_spec {c : UInt8} {data before after : Bytes} (split : splitAt? c data = some (before, after)) :
    data = before ++ c :: after ∧ c ∉ before := by
  unfold splitAt? at split
  split at split
  · rename_i member
    cases split
    have whole := List.takeWhile_append_dropWhile (p := fun d => decide (d ≠ c)) (l := data)
    refine ⟨?_, ?_⟩
    · cases rest : data.dropWhile fun d => decide (d ≠ c) with
      | nil =>
        have passes := List.dropWhile_eq_nil_iff.mp rest c member
        simp at passes
      | cons d rest' =>
        have stop := List.head?_dropWhile_not (fun d => decide (d ≠ c)) data
        rw [rest] at stop whole
        simp only [List.head?_cons, decide_not, Bool.not_eq_false', decide_eq_true_eq] at stop
        rw [stop] at whole
        exact whole.symm
    · intro inside
      have passes := List.mem_takeWhile_imp inside
      simp at passes
  · cases split

theorem lastColon_split {authority : Bytes} (member : colon ∈ authority) :
    authority = (authority.rdropWhile (· ≠ colon)).dropLast ++ colon :: authority.rtakeWhile (· ≠ colon) := by
  have whole : authority.rdropWhile (· ≠ colon) ++ authority.rtakeWhile (· ≠ colon) = authority :=
    List.rdropWhile_append_rtakeWhile
  have kept : authority.rdropWhile (· ≠ colon) ≠ [] := by
    intro none
    have passes := List.rdropWhile_eq_nil_iff.mp none colon member
    simp at passes
  have last : (authority.rdropWhile (· ≠ colon)).getLast kept = colon := by
    have stop := List.rdropWhile_last_not (fun c => decide (c ≠ colon)) authority kept
    simpa using stop
  have split := List.dropLast_append_getLast kept
  rw [last] at split
  conv => lhs; rw [← whole, ← split]
  rw [List.append_assoc]
  rfl

theorem lastColon_append (host : Bytes) {digits : Bytes} (plain : ∀ c ∈ digits, isDigit c = true) :
    ((host ++ colon :: digits).rdropWhile (· ≠ colon)).dropLast = host ∧
      (host ++ colon :: digits).rtakeWhile (· ≠ colon) = digits := by
  have passes : ∀ c ∈ digits.reverse, decide (c ≠ colon) = true := by
    intro c member
    rw [decide_eq_true_iff]
    rintro rfl
    exact absurd (plain colon (List.mem_reverse.mp member)) (by decide)
  have reversed : (host ++ colon :: digits).reverse = digits.reverse ++ colon :: host.reverse := by simp
  have stop : (List.dropWhile (fun c => decide (c ≠ colon)) (colon :: host.reverse) = colon :: host.reverse) ∧
      List.takeWhile (fun c => decide (c ≠ colon)) (colon :: host.reverse) = [] := by
    simp
  refine ⟨?_, ?_⟩
  · unfold List.rdropWhile
    rw [reversed, List.dropWhile_append_of_pos passes, stop.1, List.reverse_cons,
      List.reverse_reverse, List.dropLast_concat]
  · unfold List.rtakeWhile
    rw [reversed, List.takeWhile_append_of_pos passes, stop.2, List.append_nil,
      List.reverse_reverse]

theorem splitAuthority_spec {authority host portStr : Bytes} (split : splitAuthority authority = some (host, portStr)) :
    (authority = openBracket :: host ++ [closeBracket] ∧ portStr = [] ∧ closeBracket ∉ host) ∨
      (authority = openBracket :: host ++ closeBracket :: colon :: portStr ∧ closeBracket ∉ host) ∨
      (authority.head? ≠ some openBracket ∧ authority = host ++ colon :: portStr) ∨
      (authority.head? ≠ some openBracket ∧ colon ∉ authority ∧ authority = host ∧ portStr = []) := by
  unfold splitAuthority at split
  by_cases literal : authority.head? = some 91
  · rw [if_pos literal] at split
    cases found : splitAt? 93 authority with
    | none =>
      rw [found] at split
      cases split
    | some parts =>
      obtain ⟨before, after⟩ := parts
      rw [found] at split
      obtain ⟨whole, apart⟩ := splitAt?_spec found
      cases before with
      | nil =>
        rw [whole] at literal
        have other : (93 : UInt8) = 91 := Option.some.inj literal
        exact absurd other (by decide)
      | cons first inner =>
        rw [whole] at literal
        obtain rfl : first = 91 := by simpa using literal
        have apart' : closeBracket ∉ inner := fun member => apart (List.mem_cons_of_mem _ member)
        cases after with
        | nil =>
          cases split
          exact .inl ⟨whole, rfl, apart'⟩
        | cons c rest =>
          simp only at split
          by_cases other : c ≠ colon
          · rw [if_pos other] at split
            cases split
          · rw [if_neg other] at split
            rw [not_not.mp other] at whole
            cases split
            exact .inr (.inl ⟨whole, apart'⟩)
  · rw [if_neg literal] at split
    by_cases member : colon ∈ authority
    · rw [if_pos member] at split
      cases split
      exact .inr (.inr (.inl ⟨literal, lastColon_split member⟩))
    · rw [if_neg member] at split
      cases split
      exact .inr (.inr (.inr ⟨literal, member, rfl, rfl⟩))

theorem normal_of_trimmed {authority portStr : Bytes} {parsed : ParsedUrl} (parts : Parts authority portStr parsed)
    (trim : trimBlanks (hostValue parsed) = authority) : NormalAuthority authority := by
  have same : (hostValue parsed).length ≤ authority.length → hostValue parsed = authority ∧
      trimBlanks authority = authority := by
    intro long
    have equal := trimBlanks_of_length trim long
    exact ⟨equal, equal ▸ trim⟩
  have literalHead : bracketed parsed.host = openBracket :: parsed.host ++ [closeBracket] →
      authority.head? = some openBracket := by
    intro literal
    have head : (hostValue parsed).head? = some openBracket := by
      unfold hostValue
      rw [literal]
      rfl
    rw [← trim]
    exact trimBlanks_head head (by decide)
  have shorter := trimBlanks_length (hostValue parsed)
  rw [trim] at shorter
  have hostSome := List.length_pos_iff.mpr parts.host
  rcases splitAuthority_spec parts.split with ⟨whole, none, apart⟩ | ⟨whole, apart⟩ | ⟨head, whole⟩ | ⟨head, plain, whole, none⟩
  · have printed : hostValue parsed = bracketed parsed.host := by
      rcases hostValue_port parts with ⟨-, printed⟩ | ⟨some_, -⟩
      · exact printed
      · exact absurd none some_
    have size := congrArg List.length whole
    rcases bracketed_cases parsed.host with ⟨colons, head, literal⟩ | ⟨-, bare⟩
    · rw [printed, literal, ← whole] at same
      exact ⟨(same (le_refl _)).2, parsed.host, [], .inl rfl, .inr ⟨by rw [whole], colons, head, apart⟩⟩
    · rw [printed, bare] at shorter
      simp only [List.length_append, List.length_cons, List.length_nil] at size
      omega
  · have size := congrArg List.length whole
    simp only [List.length_append, List.length_cons] at size
    rcases bracketed_cases parsed.host with ⟨colons, head, literal⟩ | ⟨-, bare⟩
    · rcases hostValue_port parts with ⟨none, printed⟩ | ⟨some_, printed, long, -⟩
      · rw [printed, literal] at shorter
        simp only [List.length_append, List.length_cons, List.length_nil] at shorter
        omega
      · rw [literal] at printed
        obtain ⟨equal, trimmed⟩ := same (by
          rw [printed]
          simp only [List.length_append, List.length_cons, List.length_nil]
          omega)
        rw [printed] at equal
        refine ⟨trimmed, parsed.host, _, .inr ⟨decimalValue portStr, rfl⟩, .inr ⟨?_, colons, head, apart⟩⟩
        rw [← equal]
        simp
    · rcases hostValue_port parts with ⟨none, printed⟩ | ⟨some_, printed, long, -⟩
      · rw [printed, bare] at shorter
        omega
      · rw [printed, bare] at shorter
        simp only [List.length_append, List.length_cons] at shorter
        omega
  · have size := congrArg List.length whole
    simp only [List.length_append, List.length_cons] at size
    rcases bracketed_cases parsed.host with ⟨-, -, literal⟩ | ⟨other, bare⟩
    · exact absurd (literalHead literal) head
    · have first : parsed.host.head? ≠ some openBracket := by
        intro here
        rw [whole] at head
        obtain ⟨rest, split⟩ := List.head?_eq_some_iff.mp here
        rw [split] at head
        exact head rfl
      have plain : colon ∉ parsed.host := fun member => other ⟨member, first⟩
      rcases hostValue_port parts with ⟨none, printed⟩ | ⟨some_, printed, long, -⟩
      · rw [printed, bare] at shorter
        omega
      · rw [bare] at printed
        obtain ⟨equal, trimmed⟩ := same (by
          rw [printed]
          simp only [List.length_append, List.length_cons]
          omega)
        rw [printed] at equal
        exact ⟨trimmed, parsed.host, _, .inr ⟨decimalValue portStr, rfl⟩, .inl ⟨equal.symm, plain, first⟩⟩
  · have printed : hostValue parsed = bracketed parsed.host := by
      rcases hostValue_port parts with ⟨-, printed⟩ | ⟨some_, -⟩
      · exact printed
      · exact absurd none some_
    rw [whole] at plain head
    rcases bracketed_cases parsed.host with ⟨colons, -, -⟩ | ⟨-, bare⟩
    · exact absurd colons plain
    · rw [bare, ← whole] at printed
      rw [printed] at trim
      exact ⟨trim, parsed.host, [], .inl rfl, .inl ⟨by rw [List.append_nil, whole], plain, head⟩⟩

theorem splitAuthority_port {host port : Bytes} (form : port = [] ∨ ∃ number : Nat, port = colon :: ascii (toString number))
    (plain : colon ∉ host) (head : host.head? ≠ some openBracket) (some_ : host ++ port ≠ []) :
    splitAuthority (host ++ port) = some (host, port.drop 1) := by
  have first : (host ++ port).head? ≠ some 91 := by
    cases host with
    | cons c host => exact head
    | nil =>
      rcases form with rfl | ⟨number, rfl⟩
      · exact absurd rfl some_
      · intro here
        have other : colon = 91 := Option.some.inj here
        exact absurd other (by decide)
  unfold splitAuthority
  rw [if_neg first]
  rcases form with rfl | ⟨number, rfl⟩
  · rw [if_neg (by rwa [List.append_nil]), List.append_nil]
    rfl
  · obtain ⟨front, back⟩ := lastColon_append host fun c member => @decimal_digit number c member
    rw [if_pos (by simp), front, back]
    rfl

theorem splitAuthority_literal {host port : Bytes} (form : port = [] ∨ ∃ number : Nat, port = colon :: ascii (toString number))
    (apart : closeBracket ∉ host) :
    splitAuthority (openBracket :: host ++ closeBracket :: port) = some (host, port.drop 1) := by
  have apart' : (93 : UInt8) ∉ openBracket :: host := by
    rw [List.mem_cons, not_or]
    exact ⟨by decide, apart⟩
  have split : splitAt? 93 (openBracket :: host ++ closeBracket :: port) = some (openBracket :: host, port) :=
    splitAt?_append apart' port
  have first : (openBracket :: host ++ closeBracket :: port).head? = some 91 := rfl
  unfold splitAuthority
  rw [if_pos first, split]
  rcases form with rfl | ⟨number, rfl⟩
  · rfl
  · simp only [ne_eq, not_true_eq_false, if_false, List.drop_one, List.tail_cons]

theorem hostValue_of_normal {authority portStr : Bytes} {parsed : ParsedUrl} (parts : Parts authority portStr parsed)
    {host port : Bytes} (form : port = [] ∨ ∃ number : Nat, port = colon :: ascii (toString number))
    (split : splitAuthority authority = some (host, port.drop 1)) : hostValue parsed = bracketed host ++ port := by
  have same := parts.split.symm.trans split
  simp only [Option.some.injEq, Prod.mk.injEq] at same
  obtain ⟨rfl, portStr⟩ := same
  rcases form with rfl | ⟨number, rfl⟩
  · rcases hostValue_port parts with ⟨-, printed⟩ | ⟨some_, -⟩
    · rw [printed, List.append_nil]
    · exact absurd portStr some_
  · rw [List.drop_one, List.tail_cons] at portStr
    rcases hostValue_port parts with ⟨none, -⟩ | ⟨-, printed, -⟩
    · rw [none] at portStr
      exact absurd portStr.symm (decimal_ne_nil number)
    · rw [printed, portStr, decimalValue_toString]

theorem hostValue_normal {authority portStr : Bytes} {parsed : ParsedUrl} (parts : Parts authority portStr parsed)
    (normal : NormalAuthority authority) : hostValue parsed = authority := by
  obtain ⟨trimmed, host, port, form, ⟨rfl, plain, head⟩ | ⟨rfl, colons, head, apart⟩⟩ := normal
  · have some_ : host ++ port ≠ [] := by
      intro empty
      have split := parts.split
      rw [empty] at split
      have none : some (([] : Bytes), ([] : Bytes)) = some (parsed.host, portStr) := split
      exact parts.host (Prod.mk.inj (Option.some.inj none)).1.symm
    have bare : bracketed host = host := by
      rcases bracketed_cases host with ⟨colons, -⟩ | ⟨-, bare⟩
      · exact absurd colons plain
      · exact bare
    rw [hostValue_of_normal parts form (splitAuthority_port form plain head some_), bare]
  · have literal : bracketed host = openBracket :: host ++ [closeBracket] := by
      rcases bracketed_cases host with ⟨-, -, literal⟩ | ⟨other, -⟩
      · exact literal
      · exact absurd ⟨colons, head⟩ other
    rw [hostValue_of_normal parts form (splitAuthority_literal form apart), literal, List.append_assoc]
    rfl

theorem trimmed_host {authority portStr : Bytes} {parsed : ParsedUrl} (parts : Parts authority portStr parsed) :
    trimBlanks (hostValue parsed) = authority ↔ NormalAuthority authority := by
  constructor
  · exact normal_of_trimmed parts
  · intro normal
    rw [hostValue_normal parts normal]
    exact normal.1

end Uws.WebSocket
