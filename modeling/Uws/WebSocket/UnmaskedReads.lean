import Uws.WebSocket.FrameReads

namespace Uws.WebSocket

open Uws.Http (Bytes)

/-- What the first part of a partial frame leaves: the buffer, unmasked in place, and the mask for what follows. -/
def unmaskFirst (messageHeader length : Nat) (src : Bytes) : Bytes × Bytes :=
  let mask := (src.drop (messageHeader - 4)).take 4
  (unmaskImprecise8 0 messageHeader (mask ++ mask) length src, rotateMask (4 - (length - messageHeader) % 4) mask)

/-- What a read inside of the payload leaves: the buffer and the mask. -/
def unmaskPartial (length : Nat) (src mask : Bytes) : Bytes × Bytes :=
  (if mask ≠ [0, 0, 0, 0] then
      if recvBufferLength = length then unmaskAll src mask else unmaskInplace (length / 4 + 1) src mask
    else src,
    if length % 4 ≠ 0 then rotateMask (4 - length % 4) mask else mask)

/-- What the read that completes the payload leaves of the buffer. -/
def unmaskLast (remainingBytes : Nat) (src mask : Bytes) : Bytes :=
  let n := remainingBytes / 4
  let src := unmaskInplace n src mask
  store src (n * 4) (xorChunk ((src.drop (n * 4)).take (remainingBytes % 4)) mask)

/-- A received part of a payload, and what is in the buffer behind it. -/
structure PartialRead where
  data : Bytes
  behind : Bytes

def unmaskReads : List PartialRead → Bytes → List Bytes × Bytes
  | [], mask => ([], mask)
  | read :: reads, mask =>
    let (buffer, mask) := unmaskPartial read.data.length (read.data ++ read.behind) mask
    let (parts, mask) := unmaskReads reads mask
    (buffer.take read.data.length :: parts, mask)

variable {key mask : Bytes} {position : Nat}

theorem take_unmaskFrom (data more : Bytes) (i : Nat) (rest : Bytes) :
    (unmaskFrom mask i (data ++ more) ++ rest).take data.length = unmaskFrom mask i data := by
  rw [unmaskFrom_append, List.append_assoc]
  exact List.take_left' (unmaskFrom_length mask data i)

theorem header_mask (header rest : Bytes) (masked : 4 ≤ header.length) :
    ((header ++ rest).drop (header.length - 4)).take 4 = header.drop (header.length - 4) ∧
      (header.drop (header.length - 4)).length = 4 := by
  have four : (header.drop (header.length - 4)).length = 4 := by
    rw [List.length_drop]
    omega
  rw [List.drop_append_of_le_length (by omega)]
  exact ⟨List.take_left' four, four⟩

theorem unmaskFirst_exact (header data behind : Bytes) (masked : 4 ≤ header.length) :
    ((unmaskFirst header.length (header.length + data.length) (header ++ (data ++ behind))).1.drop header.length).take data.length =
        unmaskFrom (header.drop (header.length - 4)) 0 data ∧
      TurnedTo (header.drop (header.length - 4)) data.length
        (unmaskFirst header.length (header.length + data.length) (header ++ (data ++ behind))).2 := by
  obtain ⟨copied, four⟩ := header_mask header (data ++ behind) masked
  unfold unmaskFirst
  dsimp only
  rw [copied]
  generalize header.drop (header.length - 4) = key at four
  refine ⟨?_, ?_⟩
  · rw [unmaskImprecise8, unmaskImprecise_eq 8 0 key _ _ _ _ rfl (Nat.zero_le _) (fun _ => xorChunk_eight four), List.drop_left,
      Nat.sub_zero, List.take_left, List.drop_left]
    have covered : (data ++ behind).take (((header.length + data.length) / 8 + 1) * 8) =
        data ++ behind.take (((header.length + data.length) / 8 + 1) * 8 - data.length) := by
      rw [List.take_append, List.take_of_length_le (by omega)]
    rw [covered]
    exact take_unmaskFrom data _ 0 _
  · rw [Nat.add_sub_cancel_left]
    exact .start four data.length

theorem unmaskPartial_exact (at_ : TurnedTo key position mask) (data behind : Bytes) :
    (unmaskPartial data.length (data ++ behind) mask).1.take data.length = unmaskFrom key position data ∧
      TurnedTo key (position + data.length) (unmaskPartial data.length (data ++ behind) mask).2 := by
  unfold unmaskPartial
  dsimp only
  refine ⟨?_, ?_⟩
  · rw [← at_.unmask]
    by_cases zero : mask = [0, 0, 0, 0]
    · rw [if_neg (not_not_intro zero), zero, unmaskFrom_zero]
      exact List.take_left
    · rw [if_pos zero]
      split
      · rename_i full
        have sixteens : 16 * (recvBufferLength / 16) = data.length := by
          rw [← full]
          decide
        rw [unmaskAll, unmaskAllLoop_eq mask _ _ (by rw [List.length_append]; omega), sixteens, List.take_left, List.drop_left]
        exact List.take_left' (unmaskFrom_length mask data 0)
      · have covered : (data ++ behind).take (4 * (data.length / 4 + 1)) =
            data ++ behind.take (4 * (data.length / 4 + 1) - data.length) := by
          rw [List.take_append, List.take_of_length_le (by omega)]
        rw [unmaskInplace_eq at_.four, covered]
        exact take_unmaskFrom data _ 0 _
  · split
    · exact at_.rotate data.length
    · rename_i fours
      exact at_.whole (not_not.mp fours)

theorem unmaskReads_exact (reads : List PartialRead) (at_ : TurnedTo key position mask) :
    (unmaskReads reads mask).1.flatten = unmaskFrom key position (reads.flatMap PartialRead.data) ∧
      TurnedTo key (position + (reads.flatMap PartialRead.data).length) (unmaskReads reads mask).2 := by
  induction reads generalizing position mask with
  | nil => exact ⟨rfl, at_⟩
  | cons read reads ih =>
    obtain ⟨part, turned⟩ := unmaskPartial_exact at_ read.data read.behind
    obtain ⟨parts, last⟩ := ih turned
    rw [List.flatMap_cons, unmaskFrom_append, List.length_append, ← Nat.add_assoc]
    refine ⟨?_, last⟩
    exact congrArg₂ (· ++ ·) part parts

theorem unmaskLast_exact (at_ : TurnedTo key position mask) (data rest : Bytes) :
    (unmaskLast data.length (data ++ rest) mask).take data.length = unmaskFrom key position data ∧
      (unmaskLast data.length (data ++ rest) mask).drop data.length = rest := by
  have exact_ := unmaskInplace_tail at_.four data.length (data ++ rest) (by rw [List.length_append]; omega)
  rw [List.take_left, List.drop_left] at exact_
  rw [← at_.unmask]
  exact exact_

section Sockets

variable {ι : Type} (context : WebSocketContextData ι)

def handParts (key : Bytes) (opCode : Nat) (fin : Bool) (position remainingBytes : Nat) :
    List Bytes → WebSocketData ι → WebSocketData ι × List Event
  | [], data => (data, [])
  | part :: parts, data =>
    match handleFragment context (unmaskFrom key position part) (remainingBytes - part.length) opCode fin data with
    | (data, events, true) => (data, events)
    | (data, events, false) =>
      let (data, more) := handParts key opCode fin (position + part.length) (remainingBytes - part.length) parts data
      (data, events ++ more)

structure Inside (key : Bytes) (position : Nat) (socket : Socket ι) : Prop where
  mask : TurnedTo key position socket.state.mask
  payload : socket.state.wantsHead = false
  spilled : socket.state.spill = []
  opened : socket.data.isShuttingDown = false

/-- What the parser hands on of a server's frames, and what it goes on with behind them. -/
structure HandsOn : Prop where
  whole : ∀ (header payload rest : Bytes) (socket : Socket ι) (stack : OpStack),
    header.length = 6 ∨ header.length = 8 ∨ header.length = 14 →
    socket.state.openFrame (header ++ (payload ++ rest)) = some stack →
    refusePayloadLength context payload.length = false →
    consumeMessage context header.length payload.length (header ++ (payload ++ rest)) socket =
      let state := { socket.state with toOpStack := { stack with lastFin := isFin (header ++ (payload ++ rest)) } }
      match handleFragment context (unmaskFrom (header.drop (header.length - 4)) 0 payload) 0 state.currentOpCode state.lastFin
        socket.data with
      | (data, events, true) => ({ state, data }, events, none)
      | (data, events, false) =>
        ({ state := { state with toOpStack := state.popOpCode state.lastFin, spill := [] }, data }, events, some rest)
  first : ∀ (header part : Bytes) (payLength : Nat) (socket : Socket ι) (stack : OpStack),
    header.length = 6 ∨ header.length = 8 ∨ header.length = 14 → part.length < payLength →
    socket.state.openFrame (header ++ part) = some stack → refusePayloadLength context payLength = false →
    ∃ mask, TurnedTo (header.drop (header.length - 4)) part.length mask ∧
      consumeMessage context header.length payLength (header ++ part) socket =
        let remainingBytes := payLength - part.length
        let state := { socket.state with
          toOpStack := { stack with lastFin := isFin (header ++ part) }, spill := [], wantsHead := false, remainingBytes, mask }
        match handleFragment context (unmaskFrom (header.drop (header.length - 4)) 0 part) remainingBytes state.currentOpCode
          state.lastFin socket.data with
        | (data, events, _) => ({ state, data }, events, none)
  inside : ∀ (key : Bytes) (position : Nat) (parts : List Bytes) (socket : Socket ι), Inside key position socket →
    parts.flatten.length < socket.state.remainingBytes →
    let run := Machine.reads (consumeRead context) socket parts
    (run.1.data, run.2) = handParts context key socket.state.currentOpCode socket.state.lastFin position socket.state.remainingBytes parts
      socket.data ∧
    (run.1.data.isShuttingDown = false → Inside key (position + parts.flatten.length) run.1 ∧
      run.1.state.remainingBytes = socket.state.remainingBytes - parts.flatten.length ∧
      run.1.state.toOpStack = socket.state.toOpStack)
  last : ∀ (key part rest : Bytes) (position : Nat) (socket : Socket ι), TurnedTo key position socket.state.mask →
    part.length = socket.state.remainingBytes →
    consumeContinuation context (part ++ rest) socket =
      match handleFragment context (unmaskFrom key position part) 0 socket.state.currentOpCode socket.state.lastFin socket.data with
      | (data, events, true) => ({ state := socket.state, data }, events, none)
      | (data, events, false) =>
        ({ state := { socket.state with toOpStack := socket.state.popOpCode socket.state.lastFin, wantsHead := true }, data }, events,
          some rest)

theorem consumeMessage_whole (server : context.isServer = true) (header payload rest : Bytes) (socket : Socket ι) (stack : OpStack)
    (masked : header.length = 6 ∨ header.length = 8 ∨ header.length = 14)
    (opened : socket.state.openFrame (header ++ (payload ++ rest)) = some stack)
    (fits : refusePayloadLength context payload.length = false) :
    consumeMessage context header.length payload.length (header ++ (payload ++ rest)) socket =
      let state := { socket.state with toOpStack := { stack with lastFin := isFin (header ++ (payload ++ rest)) } }
      match handleFragment context (unmaskFrom (header.drop (header.length - 4)) 0 payload) 0 state.currentOpCode state.lastFin
        socket.data with
      | (data, events, true) => ({ state, data }, events, none)
      | (data, events, false) =>
        ({ state := { state with toOpStack := state.popOpCode state.lastFin, spill := [] }, data }, events, some rest) := by
  obtain ⟨moved, behind⟩ := unmaskImpreciseCopyMask_frame header payload rest masked
  have within : payload.length + header.length ≤ (header ++ (payload ++ rest)).length := by
    rw [List.length_append, List.length_append]
    omega
  rw [Nat.add_comm] at behind
  unfold consumeMessage
  rw [opened]
  dsimp only
  rw [fits, if_neg Bool.false_ne_true, if_pos within, if_pos server, if_pos server, moved, behind]
  generalize handleFragment context _ _ _ _ _ = result
  obtain ⟨data, events, broken⟩ := result
  cases broken <;> rfl

theorem consumeMessage_first (server : context.isServer = true) (header part : Bytes) (payLength : Nat) (socket : Socket ι)
    (stack : OpStack) (masked : header.length = 6 ∨ header.length = 8 ∨ header.length = 14) (partly : part.length < payLength)
    (opened : socket.state.openFrame (header ++ part) = some stack) (fits : refusePayloadLength context payLength = false) :
    ∃ mask, TurnedTo (header.drop (header.length - 4)) part.length mask ∧
      consumeMessage context header.length payLength (header ++ part) socket =
        let remainingBytes := payLength - part.length
        let state := { socket.state with
          toOpStack := { stack with lastFin := isFin (header ++ part) }, spill := [], wantsHead := false, remainingBytes, mask }
        match handleFragment context (unmaskFrom (header.drop (header.length - 4)) 0 part) remainingBytes state.currentOpCode
          state.lastFin socket.data with
        | (data, events, _) => ({ state, data }, events, none) := by
  obtain ⟨copied, four⟩ := header_mask header part (by omega)
  obtain ⟨-, turned⟩ := unmaskFirst_exact header part [] (by omega)
  have size : (header ++ part).length = header.length + part.length := List.length_append
  have received := unmaskImprecise8_received header part (header.drop (header.length - 4)) (header ++ part).length four (by omega)
  have short : ¬ payLength + header.length ≤ (header ++ part).length := by
    rw [size]
    omega
  have remaining : (payLength + header.length - (header ++ part).length) % 2 ^ 32 = payLength - part.length := by
    have bounded := context.bounded
    have least : payLength ≤ context.maxPayloadLength := by
      by_contra above
      rw [(refusePayloadLength_iff context payLength).mpr (by omega)] at fits
      cases fits
    rw [size, Nat.mod_eq_of_lt (by omega)]
    omega
  rw [List.append_nil, ← size, unmaskFirst, copied] at turned
  refine ⟨_, turned, ?_⟩
  unfold consumeMessage
  rw [opened]
  dsimp only
  rw [fits, if_neg Bool.false_ne_true, if_neg short, if_pos server, if_pos server, remaining, copied, received]

theorem consumeContinuation_inside (server : context.isServer = true) (key part : Bytes) (position : Nat) (socket : Socket ι)
    (at_ : TurnedTo key position socket.state.mask) (partly : part.length < socket.state.remainingBytes) :
    ∃ mask, TurnedTo key (position + part.length) mask ∧
      consumeContinuation context part socket =
        let remainingBytes := socket.state.remainingBytes - part.length
        match handleFragment context (unmaskFrom key position part) remainingBytes socket.state.currentOpCode socket.state.lastFin
          socket.data with
        | (data, events, true) => ({ state := { socket.state with remainingBytes }, data }, events, none)
        | (data, events, false) => ({ state := { socket.state with remainingBytes, mask }, data }, events, none) := by
  obtain ⟨-, turned⟩ := unmaskPartial_exact at_ part []
  have payload := fullPayload context part socket.state.mask key position (by rw [Turned, if_pos server]; exact ⟨at_.four, at_.turned⟩)
  refine ⟨_, turned, ?_⟩
  unfold consumeContinuation unmaskPartial
  dsimp only
  rw [if_neg (Nat.not_le.mpr partly), payload]
  generalize handleFragment context _ _ _ _ _ = result
  obtain ⟨data, events, broken⟩ := result
  cases broken with
  | true => rfl
  | false =>
    dsimp only
    rw [server]
    simp only [Bool.not_false, true_and]

theorem consumeRead_shut (parts : List Bytes) (socket : Socket ι) (shut : socket.data.isShuttingDown = true) :
    Machine.reads (consumeRead context) socket parts = (socket, []) := by
  induction parts with
  | nil => rfl
  | cons part parts ih =>
    have ignored : consumeRead context socket part = (socket, []) := if_pos shut
    rw [Machine.reads, ignored, ih]
    rfl

theorem reads_inside (server : context.isServer = true) (key : Bytes) (position : Nat) (parts : List Bytes) (socket : Socket ι)
    (inside : Inside key position socket) (within : parts.flatten.length < socket.state.remainingBytes) :
    let run := Machine.reads (consumeRead context) socket parts
    (run.1.data, run.2) = handParts context key socket.state.currentOpCode socket.state.lastFin position socket.state.remainingBytes parts
      socket.data ∧
    (run.1.data.isShuttingDown = false → Inside key (position + parts.flatten.length) run.1 ∧
      run.1.state.remainingBytes = socket.state.remainingBytes - parts.flatten.length ∧
      run.1.state.toOpStack = socket.state.toOpStack) := by
  induction parts generalizing position socket with
  | nil => exact ⟨rfl, fun _ => ⟨inside, rfl, rfl⟩⟩
  | cons part parts ih =>
    rw [List.flatten_cons, List.length_append] at within ⊢
    obtain ⟨mask, turned, taken⟩ := consumeContinuation_inside context server key part position socket inside.mask (by omega)
    have closes := handleFragment_open context (unmaskFrom key position part) (socket.state.remainingBytes - part.length)
      socket.state.currentOpCode socket.state.lastFin socket.data inside.opened
    have read : ∀ next events, consumeContinuation context part socket = (next, events, none) →
        consumeRead context socket part = (next, events) := by
      intro next events continued
      unfold consumeRead consume
      rw [inside.opened, if_neg Bool.false_ne_true, inside.spilled, List.nil_append, inside.payload]
      dsimp only
      rw [if_neg Bool.false_ne_true, continued]
    dsimp only at taken ⊢
    rw [Machine.reads, handParts]
    cases result : handleFragment context (unmaskFrom key position part) (socket.state.remainingBytes - part.length)
      socket.state.currentOpCode socket.state.lastFin socket.data with
    | mk data more =>
      obtain ⟨events, broken⟩ := more
      rw [result] at taken closes
      cases broken with
      | true =>
        rw [read _ _ taken]
        dsimp only
        rw [consumeRead_shut context parts _ closes, List.append_nil]
        refine ⟨rfl, ?_⟩
        intro open_
        change data.isShuttingDown = true at closes
        change data.isShuttingDown = false at open_
        rw [closes] at open_
        cases open_
      | false =>
        obtain ⟨handed, later⟩ := ih (position + part.length)
          { state := { socket.state with remainingBytes := socket.state.remainingBytes - part.length, mask := mask }, data := data }
          ⟨turned, inside.payload, inside.spilled, closes⟩ (by show _ < socket.state.remainingBytes - part.length; omega)
        rw [read _ _ taken]
        dsimp only at handed later ⊢
        rw [← handed]
        refine ⟨rfl, ?_⟩
        intro open_
        obtain ⟨inside_, left, stack⟩ := later open_
        refine ⟨?_, ?_, stack⟩
        · rw [← Nat.add_assoc]
          exact inside_
        · rw [left]
          omega

theorem consumeContinuation_last (server : context.isServer = true) (key part rest : Bytes) (position : Nat) (socket : Socket ι)
    (at_ : TurnedTo key position socket.state.mask) (all : part.length = socket.state.remainingBytes) :
    consumeContinuation context (part ++ rest) socket =
      match handleFragment context (unmaskFrom key position part) 0 socket.state.currentOpCode socket.state.lastFin socket.data with
      | (data, events, true) => ({ state := socket.state, data }, events, none)
      | (data, events, false) =>
        ({ state := { socket.state with toOpStack := socket.state.popOpCode socket.state.lastFin, wantsHead := true }, data }, events,
          some rest) := by
  obtain ⟨payload, behind⟩ := unmaskLast_exact at_ part rest
  have within : socket.state.remainingBytes ≤ (part ++ rest).length := by
    rw [List.length_append]
    omega
  rw [all] at payload behind
  unfold unmaskLast at payload behind
  unfold consumeContinuation
  dsimp only at payload behind ⊢
  rw [if_pos within, if_pos server, payload, behind]
  generalize handleFragment context _ _ _ _ _ = result
  obtain ⟨data, events, broken⟩ := result
  cases broken <;> rfl

theorem handsOn (server : context.isServer = true) : HandsOn context where
  whole := consumeMessage_whole context server
  first := consumeMessage_first context server
  inside := reads_inside context server
  last := consumeContinuation_last context server

end Sockets

def unmaskSpread (header first behind : Bytes) (reads : List PartialRead) (last rest : Bytes) : Bytes × List Bytes × Bytes :=
  let (buffer, mask) := unmaskFirst header.length (header.length + first.length) (header ++ (first ++ behind))
  let (parts, mask) := unmaskReads reads mask
  ((buffer.drop header.length).take first.length, parts, unmaskLast last.length (last ++ rest) mask)

theorem unmaskSpread_exact (header first behind : Bytes) (reads : List PartialRead) (last rest : Bytes) (masked : 4 ≤ header.length) :
    let spread := unmaskSpread header first behind reads last rest
    spread.1 ++ spread.2.1.flatten ++ spread.2.2.take last.length =
        unmaskFrom (header.drop (header.length - 4)) 0 (first ++ reads.flatMap PartialRead.data ++ last) ∧
      spread.2.2.drop last.length = rest := by
  obtain ⟨part, turned⟩ := unmaskFirst_exact header first behind masked
  obtain ⟨parts, later⟩ := unmaskReads_exact reads turned
  obtain ⟨completed, untouched⟩ := unmaskLast_exact later last rest
  refine ⟨?_, untouched⟩
  show _ ++ _ ++ _ = _
  rw [unmaskFrom_append, unmaskFrom_append, List.length_append, Nat.zero_add, Nat.zero_add]
  exact congrArg₂ (· ++ ·) (congrArg₂ (· ++ ·) part parts) completed

/-- Unmasking gives every byte of a payload the mask byte of its position, however the payload is read, and spares what is behind it. -/
theorem unmasking_exact {ι : Type} (context : WebSocketContextData ι) (server : context.isServer = true) :
    (∀ header payload rest : Bytes, header.length = 6 ∨ header.length = 8 ∨ header.length = 14 →
      let moved := unmaskImpreciseCopyMask header.length header.length payload.length (header ++ (payload ++ rest))
      moved.take payload.length = unmaskFrom (header.drop (header.length - 4)) 0 payload ∧
        moved.drop (header.length + payload.length) = rest) ∧
    (∀ (header first behind : Bytes) (reads : List PartialRead) (last rest : Bytes),
      header.length = 6 ∨ header.length = 8 ∨ header.length = 14 →
      let spread := unmaskSpread header first behind reads last rest
      spread.1 ++ spread.2.1.flatten ++ spread.2.2.take last.length =
          unmaskFrom (header.drop (header.length - 4)) 0 (first ++ reads.flatMap PartialRead.data ++ last) ∧
        spread.2.2.drop last.length = rest) ∧
    HandsOn context := by
  refine ⟨unmaskImpreciseCopyMask_frame, ?_, handsOn context server⟩
  intro header first behind reads last rest masked
  apply unmaskSpread_exact
  omega

theorem unmasking_exact_server :
    (serverContext 1000 (by decide)).isServer = true ∧
      unmaskSpread [0x82, 0xfe, 0, 5, 1, 2, 3, 4] [1, 2] [9] [⟨[3, 4], [7]⟩] [2] [0x82] = ([0, 0], [[0, 0]], [3, 0x82]) ∧
      HandsOn (serverContext 1000 (by decide)) :=
  ⟨rfl, by decide, (unmasking_exact (serverContext 1000 (by decide)) rfl).2.2⟩

end Uws.WebSocket
