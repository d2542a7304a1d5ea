import Uws.Http.HttpResponse

/-! Responses that are written down as instructions when a route is made, and played back for every request. -/

namespace Uws.Http

open Uws.Socket

def maxU8 : Nat := 2 ^ 8 - 1
def maxU16 : Nat := 2 ^ 16 - 1

inductive Thrown where
  | controlCharacters
  | dataLength (exceeds : Nat)
deriving DecidableEq, Repr

def Thrown.message : Thrown → String
  | .controlCharacters => "uWS: header contains control characters"
  | .dataLength exceeds => "uws: data length exceeds " ++ toString exceeds

def hasHeaderControlCharacters (bytes : Bytes) (allowTab : Bool) : Bool :=
  bytes.any fun byte => (byte < 0x20 && (!allowTab || byte != 0x09)) || byte == 0x7f

def validateHeader (key value : Bytes) : Bool :=
  !(key.contains colon || hasHeaderControlCharacters key false || hasHeaderControlCharacters value true)

def validateStatus (status : Bytes) : Bool := !hasHeaderControlCharacters status false

/-- An instruction, as the builder is called for it and as it is played back. -/
inductive Instruction where
  | finish (value : Bytes)
  | writeHeader (key value : Bytes)
  | writeBody
  | writeQueryValue (key : Bytes)
  | writeHeaderValue (key : Bytes)
  | write (value : Bytes)
  | writeParameterValue (key : Bytes)
  | writeStatus (status : Bytes)
deriving DecidableEq, Repr

namespace DeclarativeResponse

/-- Values of up to 255 bytes behind what is there; those in front of one that is too long stay. -/
def appendValues (instructions : Bytes) : List Bytes → Bytes × Option Thrown
  | [] => (instructions, none)
  | bytes :: values =>
    if maxU8 < bytes.length then (instructions, some (.dataLength maxU8))
    else appendValues (instructions ++ UInt8.ofNat bytes.length :: bytes) values

def appendInstruction (instructions : Bytes) (opcode : UInt8) (values : List Bytes) : Bytes × Option Thrown :=
  appendValues (instructions ++ [opcode]) values

def appendInstructionWithLength (instructions : Bytes) (opcode : UInt8) (bytes : Bytes) : Bytes × Option Thrown :=
  if maxU16 < bytes.length then (instructions, some (.dataLength maxU16))
  else
    (instructions ++ opcode :: UInt8.ofNat bytes.length :: UInt8.ofNat (bytes.length / 256) :: bytes, none)

/-- A call of the builder on its instructions; the buffer of `end` is a copy of them. -/
def append (instructions : Bytes) : Instruction → Bytes × Option Thrown
  | .finish value => appendInstructionWithLength instructions 0 value
  | .writeHeader key value =>
    if validateHeader key value then appendInstruction instructions 1 [key, value]
    else (instructions, some .controlCharacters)
  | .writeBody => (instructions ++ [2], none)
  | .writeQueryValue key => appendInstruction instructions 3 [key]
  | .writeHeaderValue key => appendInstruction instructions 4 [key]
  | .write value => appendInstructionWithLength instructions 5 value
  | .writeParameterValue key => appendInstruction instructions 6 [key]
  | .writeStatus status =>
    if validateStatus status then appendInstruction instructions 7 [status]
    else (instructions, some .controlCharacters)

/-- The instructions behind calls whose exceptions are ignored. -/
def build (calls : List Instruction) : Bytes := calls.foldl (fun instructions call => (append instructions call).1) []

end DeclarativeResponse

/-- A string behind its length in one byte, and what follows it. -/
def takeU8 : Bytes → Option (Bytes × Bytes)
  | [] => none
  | length :: rest =>
    if rest.length < length.toNat then none else some (rest.take length.toNat, rest.drop length.toNat)

def takeU16 : Bytes → Option (Bytes × Bytes)
  | low :: high :: rest =>
    let length := low.toNat + 256 * high.toNat
    if rest.length < length then none else some (rest.take length, rest.drop length)
  | _ => none

/-- The instruction at the front; nothing where it is not complete or not known. -/
def takeInstruction : Bytes → Option (Instruction × Bytes)
  | 0 :: rest => (takeU16 rest).map fun (value, rest) => (.finish value, rest)
  | 1 :: rest =>
    match takeU8 rest with
    | none => none
    | some (key, rest) => (takeU8 rest).map fun (value, rest) => (.writeHeader key value, rest)
  | 2 :: rest => some (.writeBody, rest)
  | 3 :: rest => (takeU8 rest).map fun (key, rest) => (.writeQueryValue key, rest)
  | 4 :: rest => (takeU8 rest).map fun (key, rest) => (.writeHeaderValue key, rest)
  | 5 :: rest => (takeU16 rest).map fun (value, rest) => (.write value, rest)
  | 6 :: rest => (takeU8 rest).map fun (key, rest) => (.writeParameterValue key, rest)
  | 7 :: rest => (takeU8 rest).map fun (status, rest) => (.writeStatus status, rest)
  | _ => none

section Playing

variable {ρ : Type} (perform : ρ → Instruction → ρ)

/-- The loop of the route's handler, with the response, what remains of the instructions, and whether they are valid.
    Every round takes a byte, so `fuel` need not exceed the length. -/
def playLoop : Nat → Bytes → ρ → ρ × Bytes × Bool
  | 0, remainingInstructions, response => (response, remainingInstructions, true)
  | fuel + 1, remainingInstructions, response =>
    if remainingInstructions.isEmpty then (response, remainingInstructions, true)
    else
      match takeInstruction remainingInstructions with
      | none => (response, remainingInstructions, false)
      | some (instruction, rest) => playLoop fuel rest (perform response instruction)

def play (buffer : Bytes) (response : ρ) : ρ × Bytes × Bool := playLoop perform buffer.length buffer response

end Playing

/-- What an instruction does to a response; `writeBody` is only skipped. -/
def Instruction.perform (query header parameter : Bytes → Bytes) (s : Nat) (loop : Loop HttpResponseData) :
    Instruction → Loop HttpResponseData
  | .finish value => HttpResponse.endResponse loop s value false
  | .writeHeader key value => HttpResponse.writeHeader loop s key value
  | .writeBody => loop
  | .writeQueryValue key => (HttpResponse.write loop s (query key)).1
  | .writeHeaderValue key => (HttpResponse.write loop s (header key)).1
  | .write value => (HttpResponse.write loop s value).1
  | .writeParameterValue key => (HttpResponse.write loop s (parameter key)).1
  | .writeStatus status => HttpResponse.writeStatus loop s status

namespace Instruction

/-- Calls that find out only behind their opcode that an argument is too long. -/
def Oversized : Instruction → Prop
  | .writeHeader key value => validateHeader key value = true ∧ (maxU8 < key.length ∨ maxU8 < value.length)
  | .writeQueryValue key => maxU8 < key.length
  | .writeHeaderValue key => maxU8 < key.length
  | .writeParameterValue key => maxU8 < key.length
  | .writeStatus status => validateStatus status = true ∧ maxU8 < status.length
  | _ => False

def thrown (call : Instruction) : Option Thrown := (DeclarativeResponse.append [] call).2

def shortString (bytes : Bytes) : Bytes := UInt8.ofNat bytes.length :: bytes

def longString (bytes : Bytes) : Bytes := UInt8.ofNat bytes.length :: UInt8.ofNat (bytes.length / 256) :: bytes

def encode : Instruction → Bytes
  | .finish value => 0 :: longString value
  | .writeHeader key value => 1 :: (shortString key ++ shortString value)
  | .writeBody => [2]
  | .writeQueryValue key => 3 :: shortString key
  | .writeHeaderValue key => 4 :: shortString key
  | .write value => 5 :: longString value
  | .writeParameterValue key => 6 :: shortString key
  | .writeStatus status => 7 :: shortString status

/-- The arguments have the lengths that are given in front of them. -/
def Fits : Instruction → Prop
  | .finish value => value.length ≤ maxU16
  | .writeHeader key value => key.length ≤ maxU8 ∧ value.length ≤ maxU8
  | .writeBody => True
  | .writeQueryValue key => key.length ≤ maxU8
  | .writeHeaderValue key => key.length ≤ maxU8
  | .write value => value.length ≤ maxU16
  | .writeParameterValue key => key.length ≤ maxU8
  | .writeStatus status => status.length ≤ maxU8

end Instruction

open DeclarativeResponse Instruction

theorem takeU8_shortString {bytes : Bytes} (fits : bytes.length ≤ maxU8) (rest : Bytes) :
    takeU8 (shortString bytes ++ rest) = some (bytes, rest) := by
  have length : (UInt8.ofNat bytes.length).toNat = bytes.length := by
    rw [UInt8.toNat_ofNat']
    unfold maxU8 at fits
    omega
  unfold shortString
  rw [List.cons_append, takeU8, length, if_neg (by rw [List.length_append]; omega), List.take_left, List.drop_left]

theorem takeU16_longString {bytes : Bytes} (fits : bytes.length ≤ maxU16) (rest : Bytes) :
    takeU16 (longString bytes ++ rest) = some (bytes, rest) := by
  have length : (UInt8.ofNat bytes.length).toNat + 256 * (UInt8.ofNat (bytes.length / 256)).toNat = bytes.length := by
    rw [UInt8.toNat_ofNat', UInt8.toNat_ofNat']
    unfold maxU16 at fits
    omega
  unfold longString
  simp only [List.cons_append, takeU16]
  rw [length, if_neg (by rw [List.length_append]; omega), List.take_left, List.drop_left]

theorem takeInstruction_encode {instruction : Instruction} (fits : instruction.Fits) (rest : Bytes) :
    takeInstruction (instruction.encode ++ rest) = some (instruction, rest) := by
  cases instruction with
  | finish value =>
    rw [encode, List.cons_append, takeInstruction, takeU16_longString fits]
    rfl
  | writeHeader key value =>
    rw [encode, List.cons_append, List.append_assoc, takeInstruction, takeU8_shortString fits.1]
    simp only
    rw [takeU8_shortString fits.2]
    rfl
  | writeBody => rfl
  | writeQueryValue key =>
    rw [encode, List.cons_append, takeInstruction, takeU8_shortString fits]
    rfl
  | writeHeaderValue key =>
    rw [encode, List.cons_append, takeInstruction, takeU8_shortString fits]
    rfl
  | write value =>
    rw [encode, List.cons_append, takeInstruction, takeU16_longString fits]
    rfl
  | writeParameterValue key =>
    rw [encode, List.cons_append, takeInstruction, takeU8_shortString fits]
    rfl
  | writeStatus status =>
    rw [encode, List.cons_append, takeInstruction, takeU8_shortString fits]
    rfl

theorem appendValues_short (instructions : Bytes) {values : List Bytes} (fits : ∀ bytes ∈ values, bytes.length ≤ maxU8) :
    appendValues instructions values = (instructions ++ values.flatMap shortString, none) := by
  induction values generalizing instructions with
  | nil => rw [appendValues, List.flatMap_nil, List.append_nil]
  | cons bytes values ih =>
    have short := fits bytes List.mem_cons_self
    rw [appendValues, if_neg (Nat.not_lt.mpr short), ih _ fun b member => fits b (List.mem_cons_of_mem _ member),
      List.flatMap_cons, List.append_assoc]
    rfl

theorem appendValues_long (instructions : Bytes) {values : List Bytes} (long : ∃ bytes ∈ values, maxU8 < bytes.length) :
    (appendValues instructions values).2 = some (.dataLength maxU8) ∧
      instructions.length ≤ (appendValues instructions values).1.length := by
  induction values generalizing instructions with
  | nil =>
    obtain ⟨bytes, member, -⟩ := long
    cases member
  | cons bytes values ih =>
    rw [appendValues]
    split
    · exact ⟨rfl, Nat.le_refl _⟩
    · rename_i short
      have later : ∃ bytes ∈ values, maxU8 < bytes.length := by
        obtain ⟨b, member, over_⟩ := long
        rcases List.mem_cons.mp member with rfl | member
        · exact absurd over_ short
        · exact ⟨b, member, over_⟩
      obtain ⟨thrown, kept⟩ := ih (instructions ++ UInt8.ofNat bytes.length :: bytes) later
      refine ⟨thrown, Nat.le_trans ?_ kept⟩
      rw [List.length_append]
      omega

theorem appendInstruction_cases (instructions : Bytes) (opcode : UInt8) (values : List Bytes) :
    (∀ bytes ∈ values, bytes.length ≤ maxU8) ∧
        appendInstruction instructions opcode values = (instructions ++ opcode :: values.flatMap shortString, none) ∨
      (∃ bytes ∈ values, maxU8 < bytes.length) ∧ (appendInstruction instructions opcode values).2 ≠ none ∧
        (appendInstruction instructions opcode values).1 ≠ instructions := by
  by_cases long : ∃ bytes ∈ values, maxU8 < bytes.length
  · right
    obtain ⟨thrown, kept⟩ := appendValues_long (instructions ++ [opcode]) long
    refine ⟨long, ?_, ?_⟩
    · rw [appendInstruction, thrown]
      exact Option.some_ne_none _
    · intro same
      rw [appendInstruction] at same
      rw [same, List.length_append, List.length_singleton] at kept
      omega
  · left
    have fits : ∀ bytes ∈ values, bytes.length ≤ maxU8 := by
      intro bytes member
      by_contra over_
      exact long ⟨bytes, member, Nat.lt_of_not_le over_⟩
    refine ⟨fits, ?_⟩
    rw [appendInstruction, appendValues_short _ fits, List.append_assoc]
    rfl

theorem appendValues_thrown (instructions other : Bytes) (values : List Bytes) :
    (appendValues instructions values).2 = (appendValues other values).2 := by
  induction values generalizing instructions other with
  | nil => rfl
  | cons bytes values ih =>
    rw [appendValues, appendValues]
    split
    · rfl
    · exact ih _ _

theorem append_thrown (instructions : Bytes) (call : Instruction) : (append instructions call).2 = call.thrown := by
  unfold thrown append appendInstruction appendInstructionWithLength
  cases call with
  | finish value =>
    simp only
    split <;> rfl
  | writeHeader key value =>
    simp only
    split
    · exact appendValues_thrown ..
    · rfl
  | writeBody => rfl
  | writeQueryValue key => exact appendValues_thrown ..
  | writeHeaderValue key => exact appendValues_thrown ..
  | write value =>
    simp only
    split <;> rfl
  | writeParameterValue key => exact appendValues_thrown ..
  | writeStatus status =>
    simp only
    split
    · exact appendValues_thrown ..
    · rfl

/-- What a call does: it appends its instruction, or it throws and leaves what was there, or it is too long and
    leaves a part of its instruction behind. -/
structure Appends (instructions : Bytes) (call : Instruction) : Prop where
  called : ¬ call.Oversized → call.thrown = none → call.Fits ∧ (append instructions call).1 = instructions ++ call.encode
  kept : ¬ call.Oversized → call.thrown ≠ none → (append instructions call).1 = instructions
  broken : call.Oversized → call.thrown ≠ none ∧ (append instructions call).1 ≠ instructions

theorem append_short (instructions : Bytes) (call : Instruction) (opcode : UInt8) (values : List Bytes)
    (appended : append instructions call = appendInstruction instructions opcode values)
    (encoded : call.encode = opcode :: values.flatMap shortString)
    (fits : (∀ bytes ∈ values, bytes.length ≤ maxU8) → call.Fits)
    (oversized : call.Oversized ↔ ∃ bytes ∈ values, maxU8 < bytes.length) : Appends instructions call := by
  have thrown := append_thrown instructions call
  rw [appended] at thrown
  rcases appendInstruction_cases instructions opcode values with ⟨short, done⟩ | ⟨long, failed, left⟩
  · have sized : ¬ call.Oversized := by
      rw [oversized]
      rintro ⟨bytes, member, over_⟩
      exact absurd (short bytes member) (Nat.not_le.mpr over_)
    refine ⟨fun _ _ => ⟨fits short, ?_⟩, ?_, fun over_ => absurd over_ sized⟩
    · rw [appended, done, encoded]
    · intro _ failed
      rw [← thrown, done] at failed
      exact absurd rfl failed
  · have over_ := oversized.mpr long
    refine ⟨fun sized => absurd over_ sized, fun sized => absurd over_ sized, fun _ => ⟨?_, ?_⟩⟩
    · rwa [← thrown]
    · rwa [appended]

theorem append_long (instructions : Bytes) (call : Instruction) (opcode : UInt8) (value : Bytes)
    (appended : append instructions call = appendInstructionWithLength instructions opcode value)
    (encoded : call.encode = opcode :: longString value) (fits : value.length ≤ maxU16 → call.Fits)
    (sized : ¬ call.Oversized) : Appends instructions call := by
  have thrown := append_thrown instructions call
  rw [appended, appendInstructionWithLength] at thrown
  refine ⟨fun _ passed => ?_, fun _ failed => ?_, fun over_ => absurd over_ sized⟩
  · rw [appended, appendInstructionWithLength]
    split at thrown
    · rw [passed] at thrown
      cases thrown
    · rename_i short
      rw [if_neg short, encoded]
      exact ⟨fits (Nat.not_lt.mp short), rfl⟩
  · rw [appended, appendInstructionWithLength]
    split at thrown
    · rename_i long
      rw [if_pos long]
    · exact absurd thrown.symm failed

theorem append_refused (instructions : Bytes) (call : Instruction)
    (refused : append instructions call = (instructions, some .controlCharacters)) (sized : ¬ call.Oversized) :
    Appends instructions call := by
  have thrown := append_thrown instructions call
  rw [refused] at thrown
  refine ⟨fun _ passed => ?_, fun _ _ => ?_, fun over_ => absurd over_ sized⟩
  · rw [passed] at thrown
    cases thrown
  · rw [refused]

theorem append_spec (instructions : Bytes) (call : Instruction) : Appends instructions call := by
  cases call with
  | finish value => exact append_long instructions _ 0 value rfl rfl id id
  | writeHeader key value =>
    by_cases valid : validateHeader key value = true
    · refine append_short instructions _ 1 [key, value] (if_pos valid) ?_ ?_ ?_
      · simp [encode]
      · intro fits
        exact ⟨fits key (by simp), fits value (by simp)⟩
      · simp [Oversized, valid]
    · exact append_refused instructions _ (if_neg valid) fun over_ => valid over_.1
  | writeBody => exact ⟨fun _ _ => ⟨True.intro, rfl⟩, fun _ failed => absurd rfl failed, False.elim⟩
  | writeQueryValue key =>
    exact append_short instructions _ 3 [key] rfl (by simp [encode]) (fun fits => fits key (by simp)) (by simp [Oversized])
  | writeHeaderValue key =>
    exact append_short instructions _ 4 [key] rfl (by simp [encode]) (fun fits => fits key (by simp)) (by simp [Oversized])
  | write value => exact append_long instructions _ 5 value rfl rfl id id
  | writeParameterValue key =>
    exact append_short instructions _ 6 [key] rfl (by simp [encode]) (fun fits => fits key (by simp)) (by simp [Oversized])
  | writeStatus status =>
    by_cases valid : validateStatus status = true
    · exact append_short instructions _ 7 [status] (if_pos valid) (by simp [encode]) (fun fits => fits status (by simp))
        (by simp [Oversized, valid])
    · exact append_refused instructions _ (if_neg valid) fun over_ => valid over_.1

def performed (calls : List Instruction) : List Instruction := calls.filter fun call => call.thrown.isNone

theorem build_append (calls : List Instruction) (call : Instruction) :
    build (calls ++ [call]) = (append (build calls) call).1 := by
  unfold build
  rw [List.foldl_append]
  rfl

theorem build_performed (calls : List Instruction) (sized : ∀ call ∈ calls, ¬ call.Oversized) :
    build calls = (performed calls).flatMap encode ∧ ∀ call ∈ performed calls, call.Fits := by
  induction calls using List.reverseRecOn with
  | nil => exact ⟨rfl, nofun⟩
  | append_singleton calls call ih =>
    obtain ⟨built, fits⟩ := ih fun other member => sized other (List.mem_append_left _ member)
    have own := sized call (by simp)
    have spec := append_spec (build calls) call
    unfold performed at built fits ⊢
    rw [build_append, List.filter_append]
    cases thrown : call.thrown with
    | none =>
      obtain ⟨fit, appended⟩ := spec.called own thrown
      have single : [call].filter (fun call => call.thrown.isNone) = [call] := by simp [thrown]
      rw [single, appended, built, List.flatMap_append, List.flatMap_singleton]
      refine ⟨rfl, fun other member => ?_⟩
      rcases List.mem_append.mp member with member | member
      · exact fits other member
      · rwa [List.mem_singleton.mp member]
    | some error =>
      have kept := spec.kept own (by rw [thrown]; exact Option.some_ne_none _)
      have none_ : [call].filter (fun call => call.thrown.isNone) = [] := by simp [thrown]
      rw [none_, kept, List.append_nil]
      exact ⟨built, fits⟩

theorem encode_pos (instruction : Instruction) : 0 < instruction.encode.length := by
  cases instruction <;> exact Nat.succ_pos _

theorem playLoop_encoded {ρ : Type} (perform : ρ → Instruction → ρ) (instructions : List Instruction)
    (fits : ∀ instruction ∈ instructions, instruction.Fits) (fuel : Nat) (response : ρ)
    (enough : (instructions.flatMap encode).length ≤ fuel) :
    playLoop perform fuel (instructions.flatMap encode) response = (instructions.foldl perform response, [], true) := by
  induction instructions generalizing fuel response with
  | nil =>
    cases fuel with
    | zero => rfl
    | succ fuel => rfl
  | cons instruction instructions ih =>
    have pos := encode_pos instruction
    rw [List.flatMap_cons, List.length_append] at enough
    cases fuel with
    | zero => omega
    | succ fuel =>
      have more : (instruction.encode ++ instructions.flatMap encode).isEmpty = false := by
        rw [List.isEmpty_eq_false_iff_exists_mem]
        exact ⟨_, List.mem_append_left _ (List.getElem_mem pos)⟩
      rw [List.flatMap_cons, playLoop, more, takeInstruction_encode (fits instruction List.mem_cons_self)]
      simp only [Bool.false_eq_true, if_false, List.foldl_cons]
      exact ih (fun other member => fits other (List.mem_cons_of_mem _ member)) fuel _ (by omega)

/-- The builder's calls with the last one, `end`: a call that throws leaves what was built, and a buffer is played as
    the calls that did not throw, to its end. -/
structure Declares (calls : List Instruction) (body : Bytes) : Prop where
  kept : ∀ front call back, calls ++ [Instruction.finish body] = front ++ call :: back → call.thrown ≠ none →
    (append (build front) call).1 = build front
  played : (Instruction.finish body).thrown = none → ∀ (ρ : Type) (perform : ρ → Instruction → ρ) (response : ρ),
    play perform (build (calls ++ [Instruction.finish body])) response =
      ((performed calls ++ [Instruction.finish body]).foldl perform response, [], true)

theorem Declares.sized {calls : List Instruction} {body : Bytes} (declares : Declares calls body) :
    ∀ call ∈ calls, ¬ call.Oversized := by
  intro call member over_
  obtain ⟨front, back, rfl⟩ := List.append_of_mem member
  obtain ⟨thrown, changed⟩ := (append_spec (build front) call).broken over_
  exact changed (declares.kept front call (back ++ [.finish body]) (by simp) thrown)

theorem declares_sized {calls : List Instruction} (sized : ∀ call ∈ calls, ¬ call.Oversized) (body : Bytes) :
    Declares calls body := by
  have all : ∀ call ∈ calls ++ [.finish body], ¬ call.Oversized := by
    intro call member
    rcases List.mem_append.mp member with member | member
    · exact sized call member
    · rw [List.mem_singleton.mp member]
      exact id
  constructor
  · intro front call back split thrown
    exact (append_spec (build front) call).kept (all call (by rw [split]; simp)) thrown
  · intro finished ρ perform response
    obtain ⟨built, fits⟩ := build_performed _ all
    have last : performed (calls ++ [.finish body]) = performed calls ++ [.finish body] := by
      unfold performed
      rw [List.filter_append]
      congr 1
      simp [finished]
    rw [last] at built fits
    rw [play, built]
    exact playLoop_encoded perform _ fits _ response (Nat.le_refl _)

/-- A response does what it was built to do exactly if no call finds out too late that it throws. -/
theorem declares_exactly (calls : List Instruction) (body : Bytes) :
    Declares calls body ↔ ∀ call ∈ calls, ¬ call.Oversized :=
  ⟨Declares.sized, fun sized => declares_sized sized body⟩

theorem responds_as_declared (calls : List Instruction) (sized : ∀ call ∈ calls, ¬ call.Oversized) {body : Bytes}
    (finished : (Instruction.finish body).thrown = none) (query header parameter : Bytes → Bytes) (s : Nat)
    (loop : Loop HttpResponseData) :
    (play (Instruction.perform query header parameter s) (build (calls ++ [.finish body])) loop).1 =
      HttpResponse.endResponse
        ((performed calls).foldl (Instruction.perform query header parameter s) loop) s body false := by
  have played := (declares_sized sized body).played finished _
    (Instruction.perform query header parameter s) loop
  rw [played, List.foldl_append]
  rfl

/-- The key of a query value is too long: its opcode is there, and takes the next byte for the length of its key. -/
theorem opcode_left_behind : ¬ Declares [.writeQueryValue (List.replicate 256 0x61)] (ascii "ok") := by
  intro declares
  apply declares.sized _ List.mem_cons_self
  change maxU8 < (List.replicate 256 (0x61 : UInt8)).length
  rw [List.length_replicate]
  decide

example : play (fun played instruction => played ++ [instruction])
    (build [.writeQueryValue (List.replicate 256 0x61), .finish (ascii "ok")]) [] =
      ([.writeQueryValue [], .writeBody], [0, 111, 107], false) := by
  decide +kernel

end Uws.Http
