import Uws.WebSocket.ExtensionWords
import Uws.WebSocket.UrlAuthority

namespace Uws.WebSocket

open Uws.Http (Bytes ascii isTchar)
open Uws.WordScan

abbrev HttpToken := { text : Bytes // text ≠ [] ∧ ∀ c ∈ text, isTchar c = true }

def backslash : UInt8 := 92

/-- The inside of a quoted text; any byte can have a backslash in front of it. -/
def escapeText : List Bool → Bytes → Bytes
  | true :: escaped, c :: text => backslash :: c :: escapeText escaped text
  | false :: escaped, c :: text => c :: escapeText escaped text
  | _, text => text

/-- A parameter with the blanks around its semicolon and its equals sign; `quoted` is where a quoted value has backslashes. -/
structure OfferedParameter where
  name : HttpToken
  value : Option HttpToken
  blanks : Blank × Blank
  valueBlanks : Blank × Blank
  quoted : Option (List Bool)

namespace OfferedParameter

def written (parameter : OfferedParameter) (value : HttpToken) : Bytes :=
  match parameter.quoted with
  | none => value.val
  | some escaped => escapeText escaped value.val

def text (parameter : OfferedParameter) : Bytes :=
  parameter.blanks.1.val ++ semicolon ++ parameter.blanks.2.val ++ parameter.name.val ++
    match parameter.value with
    | none => []
    | some value =>
      parameter.valueBlanks.1.val ++ equals ++ parameter.valueBlanks.2.val ++
        if parameter.quoted.isSome then quote ++ parameter.written value ++ quote else parameter.written value

def pieces (parameter : OfferedParameter) : List Bytes := parameter.name.val :: parameter.value.toList.map parameter.written

def number (parameter : OfferedParameter) : Int :=
  match parameter.value with
  | none => 1
  | some value => decimalValue value.val

end OfferedParameter

/-- An extension; the windows of permessage-deflate have numbers as their values. -/
structure OfferedExtension where
  name : HttpToken
  parameters : List OfferedParameter
  numbered : name.val = ascii "permessage-deflate" → ∀ parameter ∈ parameters, ∀ which,
    parameter.name.val = Parameter.integerName which → ∀ value ∈ parameter.value, ∀ c ∈ value.val, isDigit c = true

namespace OfferedExtension

def text (extension : OfferedExtension) : Bytes :=
  extension.name.val ++ extension.parameters.flatMap OfferedParameter.text

def pieces (extension : OfferedExtension) : List Bytes :=
  extension.name.val :: extension.parameters.flatMap OfferedParameter.pieces

def Has (extension : OfferedExtension) (name : Bytes) : Prop := ∃ parameter ∈ extension.parameters, parameter.name.val = name

def windows (extension : OfferedExtension) (which : LastInteger) : List Int :=
  match extension.parameters.filter fun parameter => parameter.name.val == Parameter.integerName which with
  | [] => [0]
  | parameters => parameters.map OfferedParameter.number

end OfferedExtension

structure OfferSlot where
  before : Blank
  extension : Option OfferedExtension
  after : Blank

namespace OfferSlot

def text (slot : OfferSlot) : Bytes :=
  slot.before.val ++ (slot.extension.elim [] OfferedExtension.text) ++ slot.after.val

end OfferSlot

/-- A value of `Sec-WebSocket-Extensions`. -/
structure ExtensionsOffer where
  slots : List OfferSlot

namespace ExtensionsOffer

def text (offer : ExtensionsOffer) : Bytes := [comma].intercalate (offer.slots.map OfferSlot.text)

def extensions (offer : ExtensionsOffer) : List OfferedExtension := offer.slots.filterMap OfferSlot.extension

def words (offer : ExtensionsOffer) : List Int :=
  offer.extensions.flatMap fun extension => extension.pieces.flatMap extensionWords

/-- The first extension named permessage-deflate, unless the one for Safari is in front of it. -/
def chosen (offer : ExtensionsOffer) : Option OfferedExtension :=
  (offer.extensions.find? fun extension =>
    extension.name.val == ascii "permessage-deflate" || extension.name.val == ascii "x-webkit-deflate-frame").filter
      fun extension => extension.name.val == ascii "permessage-deflate"

end ExtensionsOffer

structure OfferedExtension.Reported (extension : OfferedExtension) (ep : ExtensionsParser) : Prop where
  protocol : ep.perMessageDeflate = true
  serverFlag : ep.serverNoContextTakeover = true ↔ extension.Has (ascii "server_no_context_takeover")
  clientFlag : ep.clientNoContextTakeover = true ↔ extension.Has (ascii "client_no_context_takeover")
  serverWindow : ep.serverMaxWindowBits ∈ extension.windows .serverMaxWindowBits
  clientWindow : ep.clientMaxWindowBits ∈ extension.windows .clientMaxWindowBits

structure OfferedExtension.Said (extension : OfferedExtension) (words : List Int) : Prop where
  protocol : protocolWord words = tokPermessageDeflate
  serverFlag : tokServerNoContextTakeover ∈ parameterWords words ↔ extension.Has (ascii "server_no_context_takeover")
  clientFlag : tokClientNoContextTakeover ∈ parameterWords words ↔ extension.Has (ascii "client_no_context_takeover")
  serverWindow : wordsInteger tokServerMaxWindowBits (parameterWords words) ∈ extension.windows .serverMaxWindowBits
  clientWindow : wordsInteger tokClientMaxWindowBits (parameterWords words) ∈ extension.windows .clientMaxWindowBits

namespace ExtensionsOffer

def Reported (offer : ExtensionsOffer) (ep : ExtensionsParser) : Prop :=
  match offer.chosen with
  | none => ep.perMessageDeflate = false
  | some extension => extension.Reported ep

def Said (offer : ExtensionsOffer) (words : List Int) : Prop :=
  match offer.chosen with
  | none => protocolWord words ≠ tokPermessageDeflate
  | some extension => extension.Said words

end ExtensionsOffer

section Words

theorem extensionWords_ended (front : Bytes) {rest : Bytes} (ended : Ended rest) :
    extensionWords (front ++ rest) = extensionWords front ++ extensionWords rest := by
  cases rest with
  | nil => rw [List.append_nil]; exact (List.append_nil _).symm
  | cons c rest =>
    have outside : isTokenByte c = false := ended c rfl
    have alnum := isAlnum_token outside
    unfold extensionWords
    rw [scan_append isAlnum_inside outside, scan, if_neg (by rw [alnum]; decide)]

theorem extensionWords_separators {blank : Bytes} (separators : Separators blank) (text : Bytes) :
    extensionWords (blank ++ text) = extensionWords text :=
  scan_separators isAlnum_inside separators text

theorem ended_front {front : Bytes} (separators : Separators front) (some_ : front ≠ []) (rest : Bytes) : Ended (front ++ rest) := by
  cases front with
  | nil => exact absurd rfl some_
  | cons c front => exact separators.ended

theorem OfferedParameter.value_words (parameter : OfferedParameter) (value : HttpToken) {rest : Bytes} (ended : Ended rest) :
    extensionWords ((parameter.valueBlanks.1.val ++ equals ++ parameter.valueBlanks.2.val ++
        if parameter.quoted.isSome then quote ++ parameter.written value ++ quote else parameter.written value) ++ rest) =
      extensionWords (parameter.written value) ++ extensionWords rest := by
  have front := ((Separators.blank parameter.valueBlanks.1).append equals_separators).append
    (Separators.blank parameter.valueBlanks.2)
  by_cases quoted : parameter.quoted.isSome = true
  · rw [if_pos quoted, List.append_assoc, extensionWords_separators front, List.append_assoc, List.append_assoc,
      extensionWords_separators quote_separators, extensionWords_ended _ (quote_separators.ended.append ended),
      extensionWords_separators quote_separators]
  · rw [if_neg quoted, List.append_assoc, extensionWords_separators front, extensionWords_ended _ ended]

theorem OfferedParameter.text_ended (parameter : OfferedParameter) (rest : Bytes) : Ended (parameter.text ++ rest) := by
  unfold OfferedParameter.text
  rw [List.append_assoc, List.append_assoc, List.append_assoc]
  exact ended_front ((Separators.blank parameter.blanks.1).append semicolon_separators) (List.concat_ne_nil _ _) _

theorem OfferedParameter.text_words (parameter : OfferedParameter) {rest : Bytes} (ended : Ended rest) :
    extensionWords (parameter.text ++ rest) =
      parameter.pieces.flatMap extensionWords ++ extensionWords rest := by
  have front := ((Separators.blank parameter.blanks.1).append semicolon_separators).append
    (Separators.blank parameter.blanks.2)
  unfold OfferedParameter.text OfferedParameter.pieces
  cases own : parameter.value with
  | none =>
    dsimp only
    rw [List.append_nil, List.append_assoc, extensionWords_separators front, extensionWords_ended _ ended]
    simp
  | some value =>
    dsimp only
    have starts : Ended ((parameter.valueBlanks.1.val ++ equals ++ parameter.valueBlanks.2.val ++
        if parameter.quoted.isSome then quote ++ parameter.written value ++ quote else parameter.written value) ++ rest) := by
      rw [List.append_assoc, List.append_assoc]
      exact ended_front ((Separators.blank parameter.valueBlanks.1).append equals_separators) (List.concat_ne_nil _ _) _
    rw [List.append_assoc, List.append_assoc, extensionWords_separators front, extensionWords_ended _ starts,
      parameter.value_words value ended]
    simp

theorem texts_ended (parameters : List OfferedParameter) {rest : Bytes} (ended : Ended rest) :
    Ended (parameters.flatMap OfferedParameter.text ++ rest) := by
  cases parameters with
  | nil => exact ended
  | cons parameter parameters =>
    rw [List.flatMap_cons, List.append_assoc]
    exact parameter.text_ended _

theorem texts_words (parameters : List OfferedParameter) {rest : Bytes} (ended : Ended rest) :
    extensionWords (parameters.flatMap OfferedParameter.text ++ rest) =
      (parameters.flatMap OfferedParameter.pieces).flatMap extensionWords ++ extensionWords rest := by
  induction parameters with
  | nil => rfl
  | cons parameter parameters ih =>
    rw [List.flatMap_cons, List.append_assoc, parameter.text_words (texts_ended parameters ended), ih, List.flatMap_cons,
      List.flatMap_append, List.append_assoc]

theorem OfferedExtension.text_words (extension : OfferedExtension) {rest : Bytes} (ended : Ended rest) :
    extensionWords (extension.text ++ rest) =
      (extension.pieces.flatMap extensionWords) ++ extensionWords rest := by
  unfold OfferedExtension.text OfferedExtension.pieces
  rw [List.append_assoc, extensionWords_ended _ (texts_ended _ ended), texts_words _ ended, List.flatMap_cons, List.append_assoc]

def OfferSlot.words (slot : OfferSlot) : List Int :=
  slot.extension.elim [] fun extension => extension.pieces.flatMap extensionWords

theorem OfferSlot.text_words (slot : OfferSlot) {rest : Bytes} (ended : Ended rest) :
    extensionWords (slot.text ++ rest) = slot.words ++ extensionWords rest := by
  unfold OfferSlot.text OfferSlot.words
  rw [List.append_assoc, List.append_assoc, extensionWords_separators (Separators.blank slot.before)]
  have behind := (Separators.blank slot.after).ended.append ended
  cases own : slot.extension with
  | none => exact extensionWords_separators (Separators.blank slot.after) rest
  | some extension =>
    show extensionWords (extension.text ++ (slot.after.val ++ rest)) = _
    rw [extension.text_words behind, extensionWords_separators (Separators.blank slot.after)]
    rfl

theorem ExtensionsOffer.text_words (offer : ExtensionsOffer) : extensionWords offer.text = offer.words := by
  obtain ⟨slots⟩ := offer
  have each : ∀ slots : List OfferSlot, extensionWords ([comma].intercalate (slots.map OfferSlot.text)) =
      slots.flatMap OfferSlot.words := by
    intro slots
    induction slots with
    | nil => rfl
    | cons slot slots ih =>
      cases slots with
      | nil =>
        have alone := @OfferSlot.text_words slot [] nofun
        rw [List.append_nil] at alone
        rw [List.map_singleton, List.intercalate_singleton, alone]
        simp [extensionWords, scan]
      | cons next slots =>
        have separators : Separators [comma] := Separators.single (by decide)
        rw [List.map_cons, List.map_cons, List.intercalate_cons_cons, ← List.map_cons, List.append_assoc,
          slot.text_words (ended_front separators (by decide) _), extensionWords_separators separators, ih]
        rfl
  unfold ExtensionsOffer.text ExtensionsOffer.words ExtensionsOffer.extensions
  rw [each]
  induction slots with
  | nil => rfl
  | cons slot slots ih =>
    rw [List.flatMap_cons, ih, List.filterMap_cons, OfferSlot.words]
    cases slot.extension <;> rfl

end Words

theorem ExtensionsOffer.reported_iff (offer : ExtensionsOffer) :
    offer.Reported (ExtensionsParser.parse offer.text) ↔ offer.Said offer.words := by
  obtain ⟨protocol, server, client, integers⟩ := ExtensionsParser.parse_reports offer.text
  rw [offer.text_words] at protocol server client integers
  unfold ExtensionsOffer.Reported ExtensionsOffer.Said
  cases offer.chosen with
  | none =>
    dsimp only
    rw [protocol, beq_eq_false_iff_ne]
  | some extension =>
    have serverWindow : (ExtensionsParser.parse offer.text).serverMaxWindowBits =
        wordsInteger tokServerMaxWindowBits (parameterWords offer.words) := integers .serverMaxWindowBits
    have clientWindow : (ExtensionsParser.parse offer.text).clientMaxWindowBits =
        wordsInteger tokClientMaxWindowBits (parameterWords offer.words) := integers .clientMaxWindowBits
    refine ⟨?_, ?_⟩
    · intro reported
      refine ⟨eq_of_beq (protocol.symm.trans reported.protocol), server.symm.trans reported.serverFlag,
        client.symm.trans reported.clientFlag, ?_, ?_⟩
      · rw [← serverWindow]
        exact reported.serverWindow
      · rw [← clientWindow]
        exact reported.clientWindow
    · intro said
      refine ⟨?_, server.trans said.serverFlag, client.trans said.clientFlag, ?_, ?_⟩
      · rw [protocol, said.protocol]
        rfl
      · rw [serverWindow]
        exact said.serverWindow
      · rw [clientWindow]
        exact said.clientWindow

end Uws.WebSocket
