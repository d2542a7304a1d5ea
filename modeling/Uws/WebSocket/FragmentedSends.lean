import Uws.WebSocket.Compression

namespace Uws.WebSocket

open Uws.Http (Bytes)

theorem rsv1_format (isServer : Bool) (mask : Bytes) (frame : OutgoingFrame) (small : frame.opCode < 3) :
    rsv1 (frame.format isServer mask) = (frame.compress && frame.opCode ≠ 0) := by
  have all : ∀ opCode < 3, ∀ compress fin : Bool,
      (firstByte opCode compress fin &&& 64 != 0) = (compress && opCode ≠ 0) := by decide
  have first : (frame.format isServer mask).getD 0 0 = firstByte frame.opCode frame.compress frame.fin := by
    unfold OutgoingFrame.format formatMessage
    cases isServer <;> rfl
  rw [rsv1, first]
  exact all frame.opCode small frame.compress frame.fin

section Sends

variable {zlib : Zlib} (streams : DeflationStreams zlib) (fragment : Fragment) (opCode : Nat) (fin : Bool)

theorem sendFrame_plain (plain : fragment.compressed = false) :
    sendFrame streams fragment.status fragment.message opCode (compressFlag fragment.compress) fin =
      (streams, ⟨fragment.message, opCode, false, fin⟩) := by
  unfold sendFrame compressFlag
  cases asked : fragment.compress with
  | false => rfl
  | true =>
    have other : fragment.status ≠ .enabled := by
      intro enabled
      rw [Fragment.compressed, asked, enabled] at plain
      exact absurd plain (by decide)
    simp only [if_true, ne_eq, reduceCtorEq, not_false_eq_true, other, and_false, if_false]

theorem sendFrame_compressed (small : opCode < 3) (compressed : fragment.compressed = true) :
    ∃ stream, (sendFrame streams fragment.status fragment.message opCode (compressFlag fragment.compress) fin).2 =
      ⟨(zlib.deflate stream fragment.message).2.take ((zlib.deflate stream fragment.message).2.length - 4), opCode, true,
        fin⟩ := by
  rw [Fragment.compressed, Bool.and_eq_true, beq_iff_eq] at compressed
  have some : fragment.message.length ≠ 0 := fun zero => fragment.nonempty (List.eq_nil_of_length_eq_zero zero)
  unfold sendFrame compressFlag
  rw [compressed.1, compressed.2]
  simp only [if_true, ne_eq, reduceCtorEq, not_false_eq_true, small, some, and_self]
  cases streams.dedicated with
  | none => exact ⟨streams.shared, rfl⟩
  | some stream => exact ⟨stream, rfl⟩

end Sends

theorem send_rest {zlib : Zlib} (streams : DeflationStreams zlib) (message : FragmentedMessage)
    (p : Fragment → OutgoingFrame → Prop)
    (own : ∀ streams : DeflationStreams zlib, ∀ fragment ∈ message.middle ++ [message.last], ∀ fin,
      p fragment (sendFrame streams fragment.status fragment.message 0 (compressFlag fragment.compress) fin).2) :
    List.Forall₂ p (message.middle ++ [message.last]) (message.send streams).tail := by
  have middle : ∀ (fragments : List Fragment) (streams : DeflationStreams zlib),
      (∀ fragment ∈ fragments, fragment ∈ message.middle ++ [message.last]) →
        List.Forall₂ p fragments (sendFragments fragments streams).2 := by
    intro fragments
    induction fragments with
    | nil =>
      intro streams _
      exact .nil
    | cons fragment fragments ih =>
      intro streams members
      rw [List.forall_mem_cons] at members
      exact .cons (own _ fragment members.1 false) (ih _ members.2)
  apply List.rel_append
  · exact middle _ _ fun fragment member => List.mem_append_left _ member
  · exact .cons (own _ message.last (List.mem_append_right _ (List.mem_singleton_self _)) true) .nil

theorem flatMap_forall₂ {α β : Type} {f : α → Bytes} {g : β → Bytes} {first : List α} {second : List β}
    (same : List.Forall₂ (fun a b => g b = f a) first second) : second.flatMap g = first.flatMap f := by
  induction same with
  | nil => rfl
  | cons own _ ih => rw [List.flatMap_cons, List.flatMap_cons, own, ih]

theorem forall₂_right {α β : Type} {p : β → Prop} {first : List α} {second : List β}
    (each : List.Forall₂ (fun _ b => p b) first second) : ∀ b ∈ second, p b := by
  induction each with
  | nil => exact fun b member => absurd member List.not_mem_nil
  | cons own _ ih => exact List.forall_mem_cons.mpr ⟨own, ih⟩

theorem FragmentedMessage.small (message : FragmentedMessage) : message.opCode < 3 ∧ message.opCode ≠ 0 := by
  rcases message.data with text | binary
  · rw [text]
    decide
  · rw [binary]
    decide

theorem plain_decodes (isServer dedicated : Bool) (message : FragmentedMessage)
    (plain : ∀ fragment ∈ message.fragments, fragment.compressed = false) : message.Decodes isServer dedicated := by
  intro zlib _ past _
  have rest := send_rest (.after zlib dedicated past) message
    (fun fragment frame => frame.message = fragment.message ∧ frame.compress = false ∧ frame.opCode = 0)
    (by
      intro streams fragment inside fin
      rw [sendFrame_plain streams fragment 0 fin (plain fragment (List.mem_cons_of_mem _ inside))]
      exact ⟨rfl, rfl, rfl⟩)
  have whole : message.send (.after zlib dedicated past) =
      ⟨message.first.message, message.opCode, false, false⟩ :: (message.send (.after zlib dedicated past)).tail := by
    have own := sendFrame_plain (DeflationStreams.after zlib dedicated past) message.first message.opCode false
      (plain _ List.mem_cons_self)
    rw [FragmentedMessage.send, sendFirstFragment, own]
    rfl
  rw [whole]
  constructor
  · intro frame member mask
    obtain ⟨compress, opCode⟩ := forall₂_right (rest.imp fun _ _ own => own.2) frame member
    rw [rsv1_format isServer mask frame (by rw [opCode]; decide), compress]
    rfl
  · intro frame own mask marked
    rw [List.head?_cons, Option.mem_def, Option.some.injEq] at own
    rw [← own, rsv1_format isServer mask _ message.small.1] at marked
    exact absurd marked Bool.false_ne_true
  · intro frame own mask _
    rw [List.flatMap_cons, flatMap_forall₂ (rest.imp fun _ _ own => own.1)]
    rfl

section Blocks

variable (block : Bytes → Option (Bytes × Bytes)) (encode : UInt8 → Bytes) (marker : Bytes)

def inflateBlocks : Nat → Bytes → Option Bytes
  | 0, bytes => if bytes = [] then some [] else none
  | fuel + 1, bytes =>
    match block bytes with
    | none => if bytes = [] then some [] else none
    | some (output, bytes) => (inflateBlocks fuel bytes).map (output ++ ·)

def blockOutput (raw : Bytes) : Bytes := raw.flatMap encode ++ (marker ++ flushTail)

/-- A deflater that makes a block of every byte, and of every flush. -/
def blockZlib : Zlib where
  State := Unit
  reset := ()
  deflate := fun _ raw => ((), blockOutput encode marker raw)
  inflate := fun bytes => inflateBlocks block bytes.length bytes

variable {block encode marker}

theorem blockZlib_output (raws : List Bytes) :
    ((blockZlib block encode marker).deflateAll () raws).2 = raws.flatMap (blockOutput encode marker) := by
  induction raws with
  | nil => rfl
  | cons raw raws ih =>
    rw [List.flatMap_cons, ← ih]
    rfl

theorem inflateBlocks_bytes (byte : ∀ b rest, block (encode b ++ rest) = some ([b], rest)) (raw rest : Bytes) (fuel : Nat) :
    inflateBlocks block (raw.length + fuel) (raw.flatMap encode ++ rest) =
      (inflateBlocks block fuel rest).map (raw ++ ·) := by
  induction raw with
  | nil =>
    rw [List.length_nil, Nat.zero_add, List.flatMap_nil, List.nil_append]
    cases inflateBlocks block fuel rest <;> rfl
  | cons b raw ih =>
    have size : (b :: raw).length + fuel = raw.length + fuel + 1 := by
      rw [List.length_cons]
      omega
    rw [size, List.flatMap_cons, List.append_assoc, inflateBlocks, byte]
    simp only
    rw [ih, Option.map_map]
    rfl

theorem blockZlib_lawful (byte : ∀ b rest, block (encode b ++ rest) = some ([b], rest))
    (flush : ∀ rest, block (marker ++ flushTail ++ rest) = some ([], rest)) (some : ∀ b, encode b ≠ [])
    (none : block [] = none) : (blockZlib block encode marker).Lawful := by
  have whole : ∀ (raws : List Bytes) (fuel : Nat), (raws.map fun raw => raw.length + 1).sum ≤ fuel →
      inflateBlocks block fuel (raws.flatMap (blockOutput encode marker)) = .some raws.flatten := by
    intro raws
    induction raws with
    | nil =>
      intro fuel _
      cases fuel with
      | zero => rfl
      | succ fuel =>
        rw [List.flatMap_nil, inflateBlocks, none]
        rfl
    | cons raw raws ih =>
      intro fuel enough
      rw [List.map_cons, List.sum_cons] at enough
      obtain ⟨rest, enough⟩ := Nat.exists_eq_add_of_le enough
      have split : fuel = raw.length + ((raws.map fun raw => raw.length + 1).sum + rest + 1) := by omega
      rw [split, List.flatMap_cons, blockOutput, List.append_assoc, inflateBlocks_bytes byte, inflateBlocks, flush]
      simp only
      rw [ih _ (Nat.le_add_right _ _)]
      rfl
  have long : ∀ raws : List Bytes,
      (raws.map fun raw => raw.length + 1).sum ≤ (raws.flatMap (blockOutput encode marker)).length := by
    intro raws
    induction raws with
    | nil => exact Nat.le_refl _
    | cons raw raws ih =>
      have own : raw.length ≤ (raw.flatMap encode).length := by
        clear ih
        induction raw with
        | nil => exact Nat.le_refl _
        | cons b raw ih =>
          have positive := List.length_pos_of_ne_nil (some b)
          rw [List.flatMap_cons, List.length_append, List.length_cons]
          omega
      have tail : flushTail.length = 4 := rfl
      rw [List.map_cons, List.sum_cons, List.flatMap_cons, List.length_append, blockOutput, List.length_append,
        List.length_append, tail]
      omega
  constructor
  · intro state raw _
    exact ⟨raw.flatMap encode ++ marker, List.append_assoc _ _ _⟩
  · intro raws _
    have output := @blockZlib_output block encode marker raws
    have inflated := whole raws _ (long raws)
    rw [← output] at inflated
    exact inflated

end Blocks

section Padded

def paddedByte (padding : Nat) (b : UInt8) : Bytes := 1 :: b :: List.replicate padding 0

def paddedBlock (padding : Nat) : Bytes → Option (Bytes × Bytes)
  | 1 :: b :: bytes => if padding ≤ bytes.length then some ([b], bytes.drop padding) else none
  | 2 :: 0x00 :: 0x00 :: 0xff :: 0xff :: bytes => some ([], bytes)
  | _ => none

def paddedZlib (padding : Nat) : Zlib := blockZlib (paddedBlock padding) (paddedByte padding) [2]

variable {padding : Nat}

theorem paddedBlock_byte (b : UInt8) (rest : Bytes) : paddedBlock padding (paddedByte padding b ++ rest) = some ([b], rest) := by
  simp only [paddedByte, List.cons_append, paddedBlock]
  rw [if_pos (by simp), List.drop_left' List.length_replicate]

theorem paddedZlib_lawful : (paddedZlib padding).Lawful :=
  blockZlib_lawful paddedBlock_byte (fun _ => rfl) (fun _ => List.cons_ne_nil _ _) rfl

theorem paddedBlock_long {bytes output rest : Bytes} (block : paddedBlock padding bytes = some (output, rest)) :
    (padding + 2) * output.length + rest.length ≤ bytes.length := by
  unfold paddedBlock at block
  split at block
  · split at block
    · rename_i long
      rw [Option.some.injEq, Prod.mk.injEq] at block
      rw [← block.1, ← block.2, List.length_singleton, List.length_drop]
      simp only [List.length_cons]
      omega
    · exact absurd block (by simp)
  · rw [Option.some.injEq, Prod.mk.injEq] at block
    rw [← block.1, ← block.2, List.length_nil]
    simp only [List.length_cons]
    omega
  · exact absurd block (by simp)

theorem inflate_long (fuel : Nat) (bytes output : Bytes)
    (inflated : inflateBlocks (paddedBlock padding) fuel bytes = some output) :
    (padding + 2) * output.length ≤ bytes.length := by
  have empty : ∀ bytes output : Bytes, (if bytes = [] then some [] else none) = some output →
      (padding + 2) * output.length ≤ bytes.length := by
    intro bytes output same
    split at same
    · rw [← Option.some.inj same]
      exact Nat.zero_le _
    · exact absurd same (by simp)
  induction fuel generalizing bytes output with
  | zero => exact empty bytes output inflated
  | succ fuel ih =>
    rw [inflateBlocks] at inflated
    cases first : paddedBlock padding bytes with
    | none =>
      rw [first] at inflated
      exact empty bytes output inflated
    | some parts =>
      rw [first] at inflated
      obtain ⟨rest, behind, whole⟩ := Option.map_eq_some_iff.mp inflated
      have own := paddedBlock_long first
      have more := ih _ _ behind
      rw [← whole, List.length_append, Nat.mul_add]
      omega

theorem inflate_unflushed (fuel : Nat) (raw rest : Bytes) :
    inflateBlocks (paddedBlock padding) fuel (raw.flatMap (paddedByte padding) ++ 2 :: 1 :: rest) = none := by
  induction fuel generalizing raw with
  | zero =>
    rw [inflateBlocks, if_neg]
    exact List.append_ne_nil_of_right_ne_nil _ (List.cons_ne_nil _ _)
  | succ fuel ih =>
    cases raw with
    | nil => rfl
    | cons b raw =>
      rw [List.flatMap_cons, List.append_assoc, inflateBlocks, paddedBlock_byte]
      simp only
      rw [ih]
      rfl

def paddedPiece (padding : Nat) (fragment : Fragment) : Bytes :=
  if fragment.compressed then fragment.message.flatMap (paddedByte padding) ++ [2] else fragment.message

theorem sendFrame_piece (streams : DeflationStreams (paddedZlib padding)) (fragment : Fragment) (opCode : Nat) (fin : Bool)
    (small : opCode < 3) :
    (sendFrame streams fragment.status fragment.message opCode (compressFlag fragment.compress) fin).2 =
      ⟨paddedPiece padding fragment, opCode, fragment.compressed, fin⟩ := by
  unfold paddedPiece
  cases compressed : fragment.compressed with
  | false =>
    rw [sendFrame_plain streams fragment opCode fin compressed]
    rfl
  | true =>
    obtain ⟨stream, own⟩ := sendFrame_compressed streams fragment opCode fin small compressed
    have output : ((paddedZlib padding).deflate stream fragment.message).2 =
        (fragment.message.flatMap (paddedByte padding) ++ [2]) ++ flushTail := (List.append_assoc _ _ _).symm
    have stripped : ((fragment.message.flatMap (paddedByte padding) ++ [2]) ++ flushTail).take
        (((fragment.message.flatMap (paddedByte padding) ++ [2]) ++ flushTail).length - 4) =
          fragment.message.flatMap (paddedByte padding) ++ [2] := by
      apply List.take_left'
      rw [@List.length_append _ _ flushTail]
      exact (Nat.add_sub_cancel _ 4).symm
    rw [own, output, stripped, if_pos rfl]

theorem paddedByte_length (raw : Bytes) : (raw.flatMap (paddedByte padding)).length = (padding + 2) * raw.length := by
  induction raw with
  | nil => rfl
  | cons b raw ih =>
    rw [List.flatMap_cons, List.length_append, ih, List.length_cons, Nat.mul_add, paddedByte]
    simp only [List.length_cons, List.length_replicate]
    omega

theorem paddedPiece_length (fragment : Fragment) :
    fragment.message.length ≤ (paddedPiece padding fragment).length ∧
      (paddedPiece padding fragment).length ≤ (padding + 2) * fragment.message.length + 1 ∧
      (fragment.compressed = true → fragment.message.length < (paddedPiece padding fragment).length) ∧
      (fragment.compressed = false →
        (paddedPiece padding fragment).length + (padding + 1) ≤ (padding + 2) * fragment.message.length) := by
  have positive := List.length_pos_of_ne_nil fragment.nonempty
  have product : (padding + 2) * fragment.message.length =
      (padding + 1) * fragment.message.length + fragment.message.length := by
    rw [← Nat.succ_mul]
  have most := Nat.le_mul_of_pos_right (padding + 1) positive
  unfold paddedPiece
  cases fragment.compressed with
  | false =>
    simp only [Bool.false_eq_true, if_false, false_implies, true_implies, true_and]
    omega
  | true =>
    simp only [if_true, true_implies, List.length_append, List.length_singleton, paddedByte_length, Bool.true_eq_false,
      false_implies, and_true]
    omega

theorem pieces_longer (fragments : List Fragment) (some : ∃ fragment ∈ fragments, fragment.compressed = true) :
    (fragments.flatMap Fragment.message).length < (fragments.flatMap (paddedPiece padding)).length := by
  have least : ∀ fragments : List Fragment,
      (fragments.flatMap Fragment.message).length ≤ (fragments.flatMap (paddedPiece padding)).length := by
    intro fragments
    induction fragments with
    | nil => exact Nat.le_refl _
    | cons fragment fragments ih =>
      have own := (@paddedPiece_length padding fragment).1
      rw [List.flatMap_cons, List.flatMap_cons, List.length_append, List.length_append]
      omega
  obtain ⟨fragment, member, compressed⟩ := some
  obtain ⟨front, back, parts⟩ := List.append_of_mem member
  have before := least front
  have behind := least back
  have own := (@paddedPiece_length padding fragment).2.2.1 compressed
  rw [parts, List.flatMap_append, List.flatMap_append, List.flatMap_cons, List.flatMap_cons]
  simp only [List.length_append]
  omega

theorem pieces_shorter (fragments : List Fragment) (none : ∃ fragment ∈ fragments, fragment.compressed = false) :
    (fragments.flatMap (paddedPiece padding)).length + (padding + 1) ≤
      (padding + 2) * (fragments.flatMap Fragment.message).length + fragments.length := by
  have most : ∀ fragments : List Fragment, (fragments.flatMap (paddedPiece padding)).length ≤
      (padding + 2) * (fragments.flatMap Fragment.message).length + fragments.length := by
    intro fragments
    induction fragments with
    | nil => exact Nat.zero_le _
    | cons fragment fragments ih =>
      have own := (@paddedPiece_length padding fragment).2.1
      rw [List.flatMap_cons, List.flatMap_cons, List.length_append, List.length_append, Nat.mul_add, List.length_cons]
      omega
  obtain ⟨fragment, member, plain⟩ := none
  obtain ⟨front, back, parts⟩ := List.append_of_mem member
  have before := most front
  have behind := most back
  have own := (@paddedPiece_length padding fragment).2.2.2 plain
  rw [parts, List.flatMap_append, List.flatMap_append, List.flatMap_cons, List.flatMap_cons]
  simp only [List.length_append, Nat.mul_add, List.length_cons]
  omega

theorem send_pieces (streams : DeflationStreams (paddedZlib padding)) (message : FragmentedMessage) :
    (message.send streams).flatMap OutgoingFrame.message = message.fragments.flatMap (paddedPiece padding) := by
  have rest := send_rest streams message (fun fragment frame => frame.message = paddedPiece padding fragment) (by
    intro streams fragment _ fin
    rw [sendFrame_piece streams fragment 0 fin (by decide)])
  have first := sendFrame_piece streams message.first message.opCode false message.small.1
  have whole : message.send streams =
      (sendFirstFragment streams message.first.status message.first.message message.opCode message.first.compress).2 ::
        (message.send streams).tail := rfl
  rw [whole, List.flatMap_cons, flatMap_forall₂ rest, sendFirstFragment, first]
  rfl

theorem compressed_spoils (isServer dedicated : Bool) (message : FragmentedMessage)
    (compressed : ∃ fragment ∈ message.fragments, fragment.compressed = true)
    (decodes : message.Decodes isServer dedicated) : False := by
  let padding := message.fragments.length + 4
  have decodable := decodes (paddedZlib padding) paddedZlib_lawful [] (by simp)
  have before : history dedicated [] = [] := ite_self _
  have first := sendFrame_piece (DeflationStreams.after (paddedZlib padding) dedicated []) message.first message.opCode false
    message.small.1
  have head : (message.send (.after (paddedZlib padding) dedicated [])).head? =
      some ⟨paddedPiece padding message.first, message.opCode, message.first.compressed, false⟩ := congrArg some first
  have marked := rsv1_format isServer [] ⟨paddedPiece padding message.first, message.opCode, message.first.compressed, false⟩
    message.small.1
  cases begins : message.first.compressed with
  | false =>
    have same := decodable.equals _ head [] (by rw [marked, begins]; rfl)
    rw [send_pieces] at same
    have longer := @pieces_longer padding message.fragments compressed
    rw [same] at longer
    exact Nat.lt_irrefl _ longer
  | true =>
    have inflated := decodable.inflates _ head [] (by
      rw [marked, begins]
      exact decide_eq_true message.small.2)
    rw [send_pieces, before] at inflated
    by_cases plain : ∃ fragment ∈ message.fragments, fragment.compressed = false
    · have shorter := @pieces_shorter padding message.fragments plain
      have longer := inflate_long _ _ _ inflated
      simp only [Zlib.deflateAll, List.nil_append, List.flatten_nil, List.length_append] at longer
      have tail : flushTail.length = 4 := rfl
      have some : padding = message.fragments.length + 4 := rfl
      rw [tail] at longer
      omega
    · obtain ⟨second, rest, behind⟩ := List.exists_cons_of_ne_nil
        (List.append_ne_nil_of_right_ne_nil message.middle (List.cons_ne_nil message.last []))
      have member : second ∈ message.fragments := by
        rw [FragmentedMessage.fragments, behind]
        exact List.mem_cons_of_mem _ List.mem_cons_self
      have begun : second.compressed = true := by
        by_contra other
        exact plain ⟨second, member, Bool.eq_false_of_not_eq_true other⟩
      obtain ⟨b, bytes, message'⟩ := List.exists_cons_of_ne_nil second.nonempty
      rw [FragmentedMessage.fragments, behind, List.flatMap_cons, List.flatMap_cons, paddedPiece, if_pos begins, paddedPiece,
        if_pos begun, message', List.flatMap_cons, paddedByte] at inflated
      simp only [Zlib.deflateAll, List.nil_append, List.append_assoc, List.cons_append] at inflated
      exact absurd ((inflate_unflushed _ message.first.message _).symm.trans inflated) (by simp)

end Padded

theorem fragments_decodable (isServer dedicated : Bool) (message : FragmentedMessage) :
    message.Decodes isServer dedicated ↔ ∀ fragment ∈ message.fragments, fragment.compressed = false := by
  constructor
  · intro decodes fragment member
    by_contra compressed
    exact compressed_spoils isServer dedicated message ⟨fragment, member, Bool.eq_true_of_not_eq_false compressed⟩ decodes
  · exact plain_decodes isServer dedicated message

def storedBlock : Bytes → Option (Bytes × Bytes)
  | 0 :: low :: high :: lowComplement :: highComplement :: bytes =>
    let length := low.toNat + 256 * high.toNat
    if lowComplement = ~~~low ∧ highComplement = ~~~high ∧ length ≤ bytes.length then
      some (bytes.take length, bytes.drop length)
    else none
  | _ => none

def storedZlib : Zlib := blockZlib storedBlock (fun b => [0, 1, 0, 254, 255, b]) [0]

theorem storedZlib_lawful : storedZlib.Lawful := by
  apply blockZlib_lawful
  · intro b rest
    have complement : (254 : UInt8) = ~~~1 ∧ (255 : UInt8) = ~~~0 := by decide
    simp only [List.cons_append, List.nil_append, storedBlock, List.length_cons]
    rw [if_pos ⟨complement.1, complement.2, Nat.le_add_left 1 _⟩]
    rfl
  · intro rest
    have complement : (255 : UInt8) = ~~~0 := by decide
    simp only [flushTail, List.cons_append, List.nil_append, storedBlock]
    rw [if_pos ⟨complement, complement, Nat.zero_le _⟩]
    rfl
  · intro b
    exact List.cons_ne_nil _ _
  · rfl

def twoFragments : FragmentedMessage where
  opCode := binaryCode
  first := ⟨[65], true, .enabled, by decide, by decide⟩
  middle := []
  last := ⟨[66], true, .enabled, by decide, by decide⟩
  data := .inr rfl

theorem twoFragments_undecodable : ¬ twoFragments.Decodes true false := by
  intro decodes
  have decodable := decodes storedZlib storedZlib_lawful [] (by simp)
  have inflated := decodable.inflates _ rfl [] (by decide)
  exact absurd inflated (by decide)

end Uws.WebSocket
