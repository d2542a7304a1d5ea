import Uws.WebSocket.WebSocketClientContext

namespace Uws.WebSocket

open Uws.Http (Bytes ascii cr lf)

theorem findHeaderEnd_least {data : Bytes} {headerBytes : Nat} (found : findHeaderEnd data = some headerBytes) :
    4 ≤ headerBytes ∧ headerBytes ≤ data.length := by
  induction data generalizing headerBytes with
  | nil => cases found
  | cons c data ih =>
    unfold findHeaderEnd at found
    split at found
    · rename_i here
      cases found
      exact ⟨le_refl 4, here.length_le⟩
    · obtain ⟨behind, later, rfl⟩ := Option.map_eq_some_iff.mp found
      obtain ⟨least, most⟩ := ih later
      rw [List.length_cons]
      omega

theorem findHeaderEnd_append {data : Bytes} {headerBytes : Nat} (found : findHeaderEnd data = some headerBytes)
    (more : Bytes) : findHeaderEnd (data ++ more) = some headerBytes := by
  induction data generalizing headerBytes with
  | nil => cases found
  | cons c data ih =>
    unfold findHeaderEnd at found
    rw [List.cons_append, findHeaderEnd]
    split at found
    · rename_i here
      rw [if_pos (List.IsPrefix.trans here (List.prefix_append (c :: data) more) : [cr, lf, cr, lf] <+: c :: (data ++ more))]
      exact found
    · rename_i apart
      obtain ⟨behind, later, rfl⟩ := Option.map_eq_some_iff.mp found
      have least := (findHeaderEnd_least later).1
      have most := (findHeaderEnd_least later).2
      have still : ¬ [cr, lf, cr, lf] <+: c :: (data ++ more) := by
        intro here
        apply apart
        rw [← List.cons_append] at here
        exact List.prefix_of_prefix_length_le here (List.prefix_append _ _) (by simp only [List.length_cons, List.length_nil]; omega)
      rw [if_neg still, ih later]
      rfl

theorem findHeaderEnd_of_append {data more : Bytes} {headerBytes : Nat}
    (found : findHeaderEnd (data ++ more) = some headerBytes) (inside : headerBytes ≤ data.length) :
    findHeaderEnd data = some headerBytes := by
  cases here : findHeaderEnd data with
  | some other =>
    rw [findHeaderEnd_append here] at found
    exact found
  | none =>
    induction data generalizing headerBytes with
    | nil =>
      have least := (findHeaderEnd_least found).1
      simp only [List.length_nil] at inside
      omega
    | cons c data ih =>
      rw [List.cons_append, findHeaderEnd] at found
      rw [findHeaderEnd] at here
      split at here
      · cases here
      · rename_i apart
        rw [Option.map_eq_none_iff] at here
        split at found
        · rename_i early
          cases found
          apply absurd _ apart
          rw [← List.cons_append] at early
          exact List.prefix_of_prefix_length_le early (List.prefix_append _ _) inside
        · obtain ⟨behind, later, rfl⟩ := Option.map_eq_some_iff.mp found
          have none := ih later (by rw [List.length_cons] at inside; omega) here
          cases none

theorem findHeaderEnd_none {data more : Bytes} (open_ : findHeaderEnd (data ++ more) = none) : findHeaderEnd data = none := by
  cases here : findHeaderEnd data with
  | none => rfl
  | some other =>
    rw [findHeaderEnd_append here] at open_
    cases open_

theorem parseResponse_incomplete {data : Bytes} (open_ : findHeaderEnd data = none) : parseResponse data = some {} := by
  unfold parseResponse
  rw [open_]

theorem parseResponse_append {data : Bytes} {headerBytes : Nat} (found : findHeaderEnd data = some headerBytes)
    (more : Bytes) : parseResponse (data ++ more) = parseResponse data := by
  unfold parseResponse
  rw [found, findHeaderEnd_append found]
  simp only
  rw [List.take_append_of_le_length (findHeaderEnd_least found).2]

theorem parseResponse_complete {data : Bytes} {headerBytes : Nat} (found : findHeaderEnd data = some headerBytes)
    {head : ResponseHead} (read : parseResponse data = some head) :
    head.complete = true ∧ head.headerBytes = headerBytes := by
  unfold parseResponse at read
  rw [found] at read
  simp only at read
  cases line : splitLine (data.take headerBytes) with
  | none =>
    rw [line] at read
    cases read
  | some lines =>
    rw [line] at read
    simp only at read
    cases status : parseStatusLine lines.1 with
    | none =>
      rw [status] at read
      cases read
    | some codes =>
      rw [status] at read
      cases read
      exact ⟨rfl, rfl⟩

def runReads (generate : Bytes → Bytes) (socket : ClientSocket) (reads : List Bytes) : ClientSocket :=
  reads.foldl (onData generate) socket

def ClientSocket.fedMore (socket : ClientSocket) (data : Bytes) : ClientSocket :=
  match socket with
  | .handshake hd => .handshake hd
  | .failed error => .failed error
  | .frames compression options fed => .frames compression options (fed ++ data)

def ClientSocket.Settled (socket : ClientSocket) : Prop := ∀ hd, socket ≠ .handshake hd

theorem failed_settled (error : ClientConnectError) : (ClientSocket.failed error).Settled := by
  intro hd same
  cases same

theorem frames_settled (compression : Bool) (options : Nat) (fed : Bytes) :
    (ClientSocket.frames compression options fed).Settled := by
  intro hd same
  cases same

theorem runReads_settled (generate : Bytes → Bytes) {socket : ClientSocket} (settled : socket.Settled) (reads : List Bytes) :
    runReads generate socket reads = socket.fedMore reads.flatten := by
  unfold runReads
  induction reads generalizing socket with
  | nil =>
    cases socket with
    | handshake hd => rfl
    | failed error => rfl
    | frames compression options fed =>
      unfold ClientSocket.fedMore
      simp
  | cons data reads ih =>
    cases socket with
    | handshake hd => exact absurd rfl (settled hd)
    | failed error => exact ih settled
    | frames compression options fed =>
      rw [List.foldl_cons]
      refine (ih (frames_settled _ _ _)).trans ?_
      simp only [ClientSocket.fedMore, List.flatten_cons, List.append_assoc]

def settleUpgrade (generate : Bytes → Bytes) (hd : HandshakeData) (response : Bytes) : ClientSocket :=
  match parseResponse response with
  | none => .failed ⟨.handshakeInvalid, 0, "malformed response", []⟩
  | some head => upgradeResponse generate hd response head

def settleProxy (hd : HandshakeData) (response : Bytes) : ClientSocket :=
  if maxResponse < response.length then .failed ⟨.proxyStatus, 0, "proxy response header too large", []⟩
  else
    match parseResponse response with
    | none => .failed ⟨.proxyStatus, 0, "malformed proxy response", []⟩
    | some head =>
      if head.status = 407 then .failed ⟨.proxyAuth, 407, "proxy authentication required", head.headers⟩
      else if head.status ≠ 200 ∨ head.headerBytes < response.length then
        .failed ⟨.proxyStatus, head.status, "proxy CONNECT failed", head.headers⟩
      else .handshake { hd with phase := .wsUpgrade, response := [] }

def settle (generate : Bytes → Bytes) (hd : HandshakeData) (response : Bytes) : ClientSocket :=
  match hd.phase with
  | .proxyConnect => settleProxy hd response
  | .wsUpgrade => settleUpgrade generate hd response

def tooLarge : HandshakePhase → ClientConnectError
  | .proxyConnect => ⟨.proxyStatus, 0, "proxy response header too large", []⟩
  | .wsUpgrade => ⟨.handshakeInvalid, 0, "response header too large", []⟩

theorem settleUpgrade_append (generate : Bytes → Bytes) (hd : HandshakeData) {response : Bytes} {headerBytes : Nat}
    (found : findHeaderEnd response = some headerBytes) (more : Bytes) :
    (settleUpgrade generate hd response).Settled ∧
      settleUpgrade generate hd (response ++ more) = (settleUpgrade generate hd response).fedMore more := by
  have inside := (findHeaderEnd_least found).2
  unfold settleUpgrade
  rw [parseResponse_append found]
  cases read : parseResponse response with
  | none => exact ⟨failed_settled _, rfl⟩
  | some head =>
    have complete := (parseResponse_complete found read).2
    simp only
    unfold upgradeResponse
    split
    · exact ⟨failed_settled _, rfl⟩
    · split
      · exact ⟨failed_settled _, rfl⟩
      · simp only
        split
        · exact ⟨failed_settled _, rfl⟩
        · refine ⟨frames_settled _ _ _, ?_⟩
          rw [List.drop_append_of_le_length (by rw [complete]; exact inside)]
          rfl

theorem onData_cases (generate : Bytes → Bytes) (hd : HandshakeData) (data : Bytes) :
    (∀ headerBytes, findHeaderEnd (hd.response ++ data) = some headerBytes →
        onData generate (.handshake hd) data = settle generate hd (hd.response ++ data)) ∧
      (findHeaderEnd (hd.response ++ data) = none → onData generate (.handshake hd) data =
        if maxResponse < (hd.response ++ data).length then .failed (tooLarge hd.phase)
        else .handshake { hd with response := hd.response ++ data }) := by
  obtain ⟨phase, before, key, protocols, wanted⟩ := hd
  unfold onData settle tooLarge
  cases phase with
  | proxyConnect =>
    unfold onProxyData settleProxy
    refine ⟨?_, ?_⟩
    · intro headerBytes found
      simp only
      split
      · rfl
      · cases read : parseResponse (before ++ data) with
        | none => rfl
        | some head =>
          have complete := (parseResponse_complete found read).1
          simp only [complete, Bool.not_true, Bool.false_eq_true, if_false]
    · intro open_
      simp only [parseResponse_incomplete open_]
      rfl
  | wsUpgrade =>
    unfold onUpgradeData settleUpgrade
    refine ⟨?_, ?_⟩
    · intro headerBytes found
      simp only
      cases read : parseResponse (before ++ data) with
      | none => rfl
      | some head =>
        have complete := (parseResponse_complete found read).1
        simp only [complete, Bool.not_true, Bool.false_eq_true, if_false]
    · intro open_
      simp only [parseResponse_incomplete open_]
      rfl

theorem runReads_cons (generate : Bytes → Bytes) (socket : ClientSocket) (data : Bytes) (reads : List Bytes) :
    runReads generate socket (data :: reads) = runReads generate (onData generate socket data) reads := rfl

theorem runReads_open (generate : Bytes → Bytes) (reads : List Bytes) {hd : HandshakeData}
    (small : hd.response.length ≤ maxResponse) (open_ : findHeaderEnd (hd.response ++ reads.flatten) = none) :
    runReads generate (.handshake hd) reads =
      if maxResponse < (hd.response ++ reads.flatten).length then .failed (tooLarge hd.phase)
      else .handshake { hd with response := hd.response ++ reads.flatten } := by
  induction reads generalizing hd with
  | nil =>
    rw [List.flatten_nil, List.append_nil, if_neg (by omega)]
    rfl
  | cons data reads ih =>
    rw [List.flatten_cons, ← List.append_assoc] at open_ ⊢
    rw [runReads_cons, (onData_cases generate hd data).2 (findHeaderEnd_none open_)]
    by_cases large : maxResponse < (hd.response ++ data).length
    · rw [if_pos large, runReads_settled generate (failed_settled _), if_pos (by rw [List.length_append]; omega)]
      rfl
    · rw [if_neg large]
      exact @ih { hd with response := hd.response ++ data } (by simp only; omega) open_

theorem runReads_found (generate : Bytes → Bytes) (reads : List Bytes) {hd : HandshakeData}
    (apart : findHeaderEnd hd.response = none) {headerBytes : Nat}
    (found : findHeaderEnd (hd.response ++ reads.flatten) = some headerBytes) :
    (∃ response, ∃ rest ⊆ reads, hd.response ++ reads.flatten = response ++ rest.flatten ∧
        findHeaderEnd response = some headerBytes ∧
        runReads generate (.handshake hd) reads = runReads generate (settle generate hd response) rest) ∨
      (maxResponse + 1 < headerBytes ∧ runReads generate (.handshake hd) reads = .failed (tooLarge hd.phase)) := by
  induction reads generalizing hd with
  | nil =>
    rw [List.flatten_nil, List.append_nil, apart] at found
    cases found
  | cons data reads ih =>
    rw [List.flatten_cons, ← List.append_assoc] at found ⊢
    rw [runReads_cons]
    obtain ⟨ends, goes⟩ := onData_cases generate hd data
    cases here : findHeaderEnd (hd.response ++ data) with
    | some other =>
      left
      refine ⟨hd.response ++ data, reads, List.subset_cons_self _ _, rfl, ?_, by rw [ends other here]⟩
      rw [findHeaderEnd_append here] at found
      cases found
      exact here
    | none =>
      rw [goes here]
      by_cases large : maxResponse < (hd.response ++ data).length
      · right
        rw [if_pos large, runReads_settled generate (failed_settled _)]
        refine ⟨?_, rfl⟩
        by_contra short
        have inside := findHeaderEnd_of_append found (by omega)
        rw [here] at inside
        cases inside
      · rw [if_neg large]
        rcases @ih { hd with response := hd.response ++ data } here found with ⟨response, rest, part, split, most, run⟩ | failed
        · exact .inl ⟨response, rest, fun read member => List.mem_cons_of_mem _ (part member), split, most, run⟩
        · exact .inr failed

inductive HandshakeOutcome where
  | waiting (phase : HandshakePhase)
  | failed (code : ErrorCode) (status : Nat)
  | opened (compression : Bool) (options : Nat) (fed : Bytes)
deriving DecidableEq, Repr

def ClientSocket.outcome : ClientSocket → HandshakeOutcome
  | handshake hd => .waiting hd.phase
  | failed error => .failed error.code error.status
  | frames compression options fed => .opened compression options fed

structure Cut (stream : Bytes) (reads : List Bytes) : Prop where
  whole : reads.flatten = stream
  filled : [] ∉ reads

/-- All ways to read a stream come to the same. -/
def ReadsAgree (generate : Bytes → Bytes) (hd : HandshakeData) (stream : Bytes) : Prop :=
  ∀ reads others, Cut stream reads → Cut stream others →
    (runReads generate (.handshake hd) reads).outcome = (runReads generate (.handshake hd) others).outcome

def handshakeData (phase : HandshakePhase) (key protocols : Bytes) (wanted : Nat) : HandshakeData :=
  { phase, key, protocols, wanted }

theorem Cut.single {stream : Bytes} (more : stream ≠ []) : Cut stream [stream] :=
  ⟨by simp, fun member => more (List.mem_singleton.mp member).symm⟩

theorem Cut.pair {stream : Bytes} {count : Nat} (some_ : 0 < count) (inside : count < stream.length) :
    Cut stream [stream.take count, stream.drop count] := by
  refine ⟨by simp, fun member => ?_⟩
  rcases List.mem_cons.mp member with empty | member
  · have length := congrArg List.length empty
    rw [List.length_take, List.length_nil] at length
    omega
  · have length := congrArg List.length (List.mem_singleton.mp member)
    rw [List.length_drop, List.length_nil] at length
    omega

/-- No header block runs past the limit by more than the byte that tells, or the response is refused either way. -/
def UpgradeWithin (generate : Bytes → Bytes) (hd : HandshakeData) (stream : Bytes) : Prop :=
  ∀ headerBytes, findHeaderEnd stream = some headerBytes → headerBytes ≤ maxResponse + 1 ∨
    (settleUpgrade generate hd stream).outcome = .failed .handshakeInvalid 0

section

variable (generate : Bytes → Bytes) (key protocols : Bytes) (wanted : Nat) (stream : Bytes)

theorem Cut.ends {stream : Bytes} {reads : List Bytes} (cut : Cut stream reads) (phase : HandshakePhase) :
    (handshakeData phase key protocols wanted).response ++ reads.flatten = stream := by
  rw [cut.whole]
  rfl

theorem stream_ne_nil {stream : Bytes} {headerBytes : Nat} (found : findHeaderEnd stream = some headerBytes) :
    stream ≠ [] := by
  intro empty
  rw [empty] at found
  cases found

theorem single_settles (phase : HandshakePhase) {stream : Bytes} {headerBytes : Nat}
    (found : findHeaderEnd stream = some headerBytes) :
    runReads generate (.handshake (handshakeData phase key protocols wanted)) [stream] =
      settle generate (handshakeData phase key protocols wanted) stream :=
  (onData_cases generate (handshakeData phase key protocols wanted) stream).1 headerBytes found

theorem upgrade_settles {stream : Bytes} {reads : List Bytes} (cut : Cut stream reads) {headerBytes : Nat}
    (found : findHeaderEnd stream = some headerBytes) :
    runReads generate (.handshake (handshakeData .wsUpgrade key protocols wanted)) reads =
        settleUpgrade generate (handshakeData .wsUpgrade key protocols wanted) stream ∨
      (maxResponse + 1 < headerBytes ∧
        runReads generate (.handshake (handshakeData .wsUpgrade key protocols wanted)) reads =
          .failed (tooLarge .wsUpgrade)) := by
  have whole := cut.ends key protocols wanted .wsUpgrade
  rcases runReads_found generate reads rfl (whole ▸ found) with ⟨response, rest, -, split, here, run⟩ | failed
  · obtain ⟨settled, handed⟩ := settleUpgrade_append generate (handshakeData .wsUpgrade key protocols wanted) here rest.flatten
    rw [whole] at split
    rw [run, split, handed]
    exact .inl (runReads_settled generate settled rest)
  · exact .inr failed

theorem upgrade_independent :
    ReadsAgree generate (handshakeData .wsUpgrade key protocols wanted) stream ↔
      UpgradeWithin generate (handshakeData .wsUpgrade key protocols wanted) stream := by
  constructor
  · intro same headerBytes found
    by_contra beyond
    rw [not_or, not_le] at beyond
    obtain ⟨long, other⟩ := beyond
    obtain ⟨least, most⟩ := findHeaderEnd_least found
    have early : findHeaderEnd (stream.take (maxResponse + 1)) = none := by
      cases here : findHeaderEnd (stream.take (maxResponse + 1)) with
      | none => rfl
      | some earlier =>
        have again := findHeaderEnd_append here (stream.drop (maxResponse + 1))
        have inside := (findHeaderEnd_least here).2
        rw [List.take_append_drop, found] at again
        cases again
        rw [List.length_take] at inside
        omega
    have cut : runReads generate (.handshake (handshakeData .wsUpgrade key protocols wanted))
        [stream.take (maxResponse + 1), stream.drop (maxResponse + 1)] = .failed (tooLarge .wsUpgrade) := by
      have step := (onData_cases generate (handshakeData .wsUpgrade key protocols wanted)
        (stream.take (maxResponse + 1))).2 early
      rw [if_pos (by rw [List.length_append, List.length_take]; omega)] at step
      rw [runReads_cons, step, runReads_settled generate (failed_settled _)]
      rfl
    have pieces : Cut stream [stream.take (maxResponse + 1), stream.drop (maxResponse + 1)] :=
      Cut.pair (Nat.succ_pos _) (by omega)
    have equal := same _ _ (Cut.single (stream_ne_nil found)) pieces
    rw [single_settles generate key protocols wanted .wsUpgrade found, cut] at equal
    exact other equal
  · intro within reads others cut cut'
    cases found : findHeaderEnd stream with
    | none =>
      have open_ : ∀ reads : List Bytes, Cut stream reads →
          findHeaderEnd ((handshakeData .wsUpgrade key protocols wanted).response ++ reads.flatten) = none := by
        intro reads cut
        rw [cut.ends key protocols wanted .wsUpgrade]
        exact found
      rw [runReads_open generate reads (Nat.zero_le _) (open_ reads cut),
        runReads_open generate others (Nat.zero_le _) (open_ others cut'), cut.whole, cut'.whole]
    | some headerBytes =>
      have settles : ∀ reads : List Bytes, Cut stream reads →
          (runReads generate (.handshake (handshakeData .wsUpgrade key protocols wanted)) reads).outcome =
            (settleUpgrade generate (handshakeData .wsUpgrade key protocols wanted) stream).outcome := by
        intro reads cut
        rcases upgrade_settles generate key protocols wanted cut found with settled | ⟨long, failed⟩
        · rw [settled]
        · rcases within headerBytes found with short | refused
          · omega
          · rw [failed, refused]
            rfl
      rw [settles reads cut, settles others cut']

/-- How far behind the proxy's response nothing else may come, for all ways of reading to agree. -/
def ProxyWithin : Prop :=
  ∀ headerBytes, findHeaderEnd stream = some headerBytes → headerBytes ≤ maxResponse →
    ∀ head, parseResponse stream = some head →
      if head.status = 200 then stream.length = headerBytes else stream.length ≤ maxResponse ∨ head.status = 0

theorem proxy_settles {stream : Bytes} {reads : List Bytes} (cut : Cut stream reads) {headerBytes : Nat}
    (found : findHeaderEnd stream = some headerBytes) :
    (∃ response, ∃ rest ⊆ reads, stream = response ++ rest.flatten ∧ findHeaderEnd response = some headerBytes ∧
        parseResponse response = parseResponse stream ∧
        runReads generate (.handshake (handshakeData .proxyConnect key protocols wanted)) reads =
          runReads generate (settleProxy (handshakeData .proxyConnect key protocols wanted) response) rest) ∨
      (maxResponse + 1 < headerBytes ∧
        runReads generate (.handshake (handshakeData .proxyConnect key protocols wanted)) reads =
          .failed (tooLarge .proxyConnect)) := by
  have whole := cut.ends key protocols wanted .proxyConnect
  rcases runReads_found generate reads rfl (whole ▸ found) with ⟨response, rest, part, split, here, run⟩ | failed
  · rw [whole] at split
    refine .inl ⟨response, rest, part, split, here, ?_, run⟩
    rw [split, parseResponse_append here]
  · exact .inr failed

theorem proxy_large {response : Bytes} (large : maxResponse < response.length) (hd : HandshakeData) (rest : List Bytes) :
    (runReads generate (settleProxy hd response) rest).outcome = .failed .proxyStatus 0 := by
  unfold settleProxy
  rw [if_pos large, runReads_settled generate (failed_settled _)]
  rfl

theorem proxy_malformed {response : Bytes} (malformed : parseResponse response = none) (hd : HandshakeData)
    (rest : List Bytes) : (runReads generate (settleProxy hd response) rest).outcome = .failed .proxyStatus 0 := by
  unfold settleProxy
  rw [malformed]
  split <;> rw [runReads_settled generate (failed_settled _)] <;> rfl

theorem proxy_refused {response : Bytes} (small : response.length ≤ maxResponse) {head : ResponseHead}
    (read : parseResponse response = some head) (refused : head.status ≠ 200) (hd : HandshakeData) (rest : List Bytes) :
    (runReads generate (settleProxy hd response) rest).outcome =
      .failed (if head.status = 407 then .proxyAuth else .proxyStatus) head.status := by
  unfold settleProxy
  rw [if_neg (by omega), read]
  simp only
  by_cases auth : head.status = 407
  · rw [if_pos auth, if_pos auth, runReads_settled generate (failed_settled _), auth]
    rfl
  · rw [if_neg auth, if_neg auth, if_pos (.inl refused), runReads_settled generate (failed_settled _)]
    rfl

theorem proxy_tunnel {response : Bytes} (found : findHeaderEnd response = some response.length)
    (small : response.length ≤ maxResponse) {head : ResponseHead} (read : parseResponse response = some head)
    (taken : head.status = 200) (rest : List Bytes) :
    runReads generate (settleProxy (handshakeData .proxyConnect key protocols wanted) response) rest =
      runReads generate (.handshake (handshakeData .wsUpgrade key protocols wanted)) rest := by
  have complete := (parseResponse_complete found read).2
  unfold settleProxy
  rw [if_neg (by omega), read]
  simp only
  rw [if_neg (by omega), if_neg (by omega)]
  rfl

theorem proxy_trailing {response : Bytes} {headerBytes : Nat} (found : findHeaderEnd response = some headerBytes)
    (more : headerBytes < response.length) (small : response.length ≤ maxResponse) {head : ResponseHead}
    (read : parseResponse response = some head) (taken : head.status = 200) (hd : HandshakeData) (rest : List Bytes) :
    (runReads generate (settleProxy hd response) rest).outcome = .failed .proxyStatus 200 := by
  have complete := (parseResponse_complete found read).2
  unfold settleProxy
  rw [if_neg (by omega), read]
  simp only
  rw [if_neg (by omega), if_pos (.inr (by omega)), runReads_settled generate (failed_settled _), taken]
  rfl

theorem upgrade_not_proxy {stream : Bytes} {reads : List Bytes} (cut : Cut stream reads) (status : Nat) :
    (runReads generate (.handshake (handshakeData .wsUpgrade key protocols wanted)) reads).outcome ≠
      .failed .proxyStatus status := by
  have whole := cut.ends key protocols wanted .wsUpgrade
  cases found : findHeaderEnd stream with
  | none =>
    rw [runReads_open generate reads (Nat.zero_le _) (whole ▸ found)]
    split <;> intro same <;> cases same
  | some headerBytes =>
    rcases upgrade_settles generate key protocols wanted cut found with settled | ⟨-, failed⟩
    · rw [settled]
      unfold settleUpgrade upgradeResponse
      simp only
      repeat' split
      all_goals
        intro same
        cases same
    · rw [failed]
      intro same
      cases same

theorem Cut.tunnel {stream : Bytes} {headerBytes : Nat} (found : findHeaderEnd stream = some headerBytes)
    (more : headerBytes < stream.length) : Cut stream [stream.take headerBytes, stream.drop headerBytes] ∧
      findHeaderEnd (stream.take headerBytes) = some headerBytes ∧ (stream.take headerBytes).length = headerBytes ∧
      parseResponse (stream.take headerBytes) = parseResponse stream := by
  have least := (findHeaderEnd_least found).1
  have length : (stream.take headerBytes).length = headerBytes := by
    rw [List.length_take]
    omega
  have whole : stream.take headerBytes ++ stream.drop headerBytes = stream := List.take_append_drop _ _
  have here : findHeaderEnd (stream.take headerBytes) = some headerBytes :=
    findHeaderEnd_of_append (whole.symm ▸ found) (by omega)
  have read := parseResponse_append here (stream.drop headerBytes)
  rw [whole] at read
  exact ⟨Cut.pair (by omega) more, here, length, read.symm⟩

theorem proxy_independent :
    ReadsAgree generate (handshakeData .proxyConnect key protocols wanted) stream ↔ ProxyWithin stream := by
  constructor
  · intro same headerBytes found short head read
    have single := single_settles generate key protocols wanted .proxyConnect found
    have most := (findHeaderEnd_least found).2
    by_contra beyond
    have more : headerBytes < stream.length := by
      split at beyond
      · omega
      · rw [not_or] at beyond
        omega
    obtain ⟨cut, here, length, read'⟩ := Cut.tunnel found more
    rw [read] at read'
    have equal := same _ _ (Cut.single (stream_ne_nil found)) cut
    rw [single, runReads_cons, (onData_cases generate (handshakeData .proxyConnect key protocols wanted) _).1 headerBytes here]
      at equal
    have whole : (runReads generate (settleProxy (handshakeData .proxyConnect key protocols wanted) stream) []).outcome =
        (runReads generate (settleProxy (handshakeData .proxyConnect key protocols wanted) (stream.take headerBytes))
          [stream.drop headerBytes]).outcome := equal
    by_cases taken : head.status = 200
    · rw [proxy_tunnel generate key protocols wanted (by rw [length]; exact here) (by omega) read' taken] at whole
      have rest : Cut (stream.drop headerBytes) [stream.drop headerBytes] := by
        apply Cut.single
        intro empty
        have none := congrArg List.length empty
        rw [List.length_drop, List.length_nil] at none
        omega
      apply upgrade_not_proxy generate key protocols wanted rest (if maxResponse < stream.length then 0 else 200)
      rw [← whole]
      by_cases large : maxResponse < stream.length
      · rw [if_pos large, proxy_large generate large]
      · rw [if_neg large, proxy_trailing generate found more (by omega) read taken]
    · rw [if_neg taken, not_or] at beyond
      rw [proxy_large generate (by omega), proxy_refused generate (by omega) read' taken] at whole
      obtain ⟨-, zero⟩ := HandshakeOutcome.failed.inj whole
      exact beyond.2 zero.symm
  · intro within reads others cut cut'
    cases found : findHeaderEnd stream with
    | none =>
      have whole := cut.ends key protocols wanted .proxyConnect
      have whole' := cut'.ends key protocols wanted .proxyConnect
      rw [runReads_open generate reads (Nat.zero_le _) (whole ▸ found),
        runReads_open generate others (Nat.zero_le _) (whole' ▸ found), cut.whole, cut'.whole]
    | some headerBytes =>
      have settles : ∀ reads : List Bytes, Cut stream reads →
          (runReads generate (.handshake (handshakeData .proxyConnect key protocols wanted)) reads).outcome =
            if maxResponse < headerBytes then .failed .proxyStatus 0
            else
              match parseResponse stream with
              | none => .failed .proxyStatus 0
              | some head =>
                if head.status = 200 then .waiting .wsUpgrade
                else .failed (if head.status = 407 then .proxyAuth else .proxyStatus) head.status := by
        intro reads cut
        rcases proxy_settles generate key protocols wanted cut found with
          ⟨response, rest, part, split, here, read, run⟩ | ⟨long, failed⟩
        · have inside := (findHeaderEnd_least here).2
          have length := congrArg List.length split
          rw [List.length_append] at length
          rw [run]
          by_cases long : maxResponse < headerBytes
          · rw [if_pos long, proxy_large generate (by omega)]
          · rw [if_neg long]
            cases read' : parseResponse stream with
            | none => rw [proxy_malformed generate (read.trans read')]
            | some head =>
              have bound := within headerBytes found (by omega) head read'
              simp only
              by_cases taken : head.status = 200
              · rw [if_pos taken] at bound ⊢
                have none : rest = [] := by
                  cases rest with
                  | nil => rfl
                  | cons data rest =>
                    have filled : data ≠ [] := by
                      rintro rfl
                      exact cut.filled (part List.mem_cons_self)
                    have some_ := List.length_pos_iff.mpr filled
                    rw [List.flatten_cons, List.length_append] at length
                    omega
                rw [none, List.flatten_nil, List.length_nil] at length
                have all : response.length = headerBytes := by omega
                rw [none, proxy_tunnel generate key protocols wanted (by rw [all]; exact here) (by omega)
                  (read.trans read') taken]
                rfl
              · rw [if_neg taken] at bound ⊢
                by_cases large : maxResponse < response.length
                · have zero : head.status = 0 := bound.resolve_left (by omega)
                  rw [proxy_large generate large, zero]
                  rfl
                · rw [proxy_refused generate (by omega) (read.trans read') taken]
        · rw [failed, if_pos (by omega)]
          rfl
      rw [settles reads cut, settles others cut']

theorem tunnel_reads {tunnel : Bytes} (found : findHeaderEnd tunnel = some tunnel.length)
    (small : tunnel.length ≤ maxResponse) {head : ResponseHead} (read : parseResponse tunnel = some head)
    (taken : head.status = 200) {reads : List Bytes} (cut : Cut tunnel reads) (more : List Bytes) :
    runReads generate (.handshake (handshakeData .proxyConnect key protocols wanted)) (reads ++ more) =
      runReads generate (.handshake (handshakeData .wsUpgrade key protocols wanted)) more := by
  have append : runReads generate (.handshake (handshakeData .proxyConnect key protocols wanted)) (reads ++ more) =
      runReads generate (runReads generate (.handshake (handshakeData .proxyConnect key protocols wanted)) reads) more :=
    List.foldl_append
  rcases proxy_settles generate key protocols wanted cut found with
    ⟨response, rest, part, split, here, read', run⟩ | ⟨long, -⟩
  · have inside := (findHeaderEnd_least here).2
    have length := congrArg List.length split
    rw [List.length_append] at length
    have none : rest = [] := by
      cases rest with
      | nil => rfl
      | cons data rest =>
        have filled : data ≠ [] := by
          rintro rfl
          exact cut.filled (part List.mem_cons_self)
        have some_ := List.length_pos_iff.mpr filled
        rw [List.flatten_cons, List.length_append] at length
        omega
    rw [none, List.flatten_nil, List.append_nil] at split
    rw [← split] at run
    rw [append, run, none]
    congr 1
    exact proxy_tunnel generate key protocols wanted found small read taken []
  · omega

end

/-- When the outcome of a handshake does not depend on how its bytes are cut into reads. -/
theorem handshake_reads (generate : Bytes → Bytes) (key protocols : Bytes) (wanted : Nat) (stream : Bytes) :
    (ReadsAgree generate (handshakeData .wsUpgrade key protocols wanted) stream ↔
        UpgradeWithin generate (handshakeData .wsUpgrade key protocols wanted) stream) ∧
      (ReadsAgree generate (handshakeData .proxyConnect key protocols wanted) stream ↔ ProxyWithin stream) ∧
      ∀ tunnel server head, findHeaderEnd tunnel = some tunnel.length → tunnel.length ≤ maxResponse →
        parseResponse tunnel = some head → head.status = 200 →
        ((∀ reads others more others', Cut tunnel reads → Cut tunnel others → Cut server more → Cut server others' →
            (runReads generate (.handshake (handshakeData .proxyConnect key protocols wanted)) (reads ++ more)).outcome =
              (runReads generate (.handshake (handshakeData .proxyConnect key protocols wanted))
                (others ++ others')).outcome) ↔
          UpgradeWithin generate (handshakeData .wsUpgrade key protocols wanted) server) := by
  refine ⟨upgrade_independent generate key protocols wanted stream, proxy_independent generate key protocols wanted stream, ?_⟩
  intro tunnel server head found small read taken
  rw [← upgrade_independent generate key protocols wanted server]
  constructor
  · intro same more others' cut cut'
    have single : Cut tunnel [tunnel] := Cut.single (stream_ne_nil found)
    have equal := same _ _ _ _ single single cut cut'
    rwa [tunnel_reads generate key protocols wanted found small read taken single,
      tunnel_reads generate key protocols wanted found small read taken single] at equal
  · intro same reads others more others' cut cut' cutMore cutMore'
    rw [tunnel_reads generate key protocols wanted found small read taken cut,
      tunnel_reads generate key protocols wanted found small read taken cut']
    exact same _ _ cutMore cutMore'

theorem findHeaderEnd_cons {c : UInt8} {data : Bytes} (apart : ¬ [cr, lf, cr, lf] <+: c :: data) :
    findHeaderEnd (c :: data) = (findHeaderEnd data).map (· + 1) := by
  rw [findHeaderEnd, if_neg apart]

theorem findHeaderEnd_skip {line : Bytes} (plain : cr ∉ line) (rest : Bytes) :
    findHeaderEnd (line ++ rest) = (findHeaderEnd rest).map (· + line.length) := by
  induction line with
  | nil => simp
  | cons c line ih =>
    rw [List.mem_cons, not_or] at plain
    have apart : ¬ [cr, lf, cr, lf] <+: c :: (line ++ rest) := by
      intro here
      exact plain.1 (List.cons_prefix_cons.mp here).1
    rw [List.cons_append, findHeaderEnd_cons apart, ih plain.2, Option.map_map]
    rfl

def longResponse (line : Bytes) : Bytes := ascii "HTTP/1.1 404 " ++ cr :: lf :: (line ++ [cr, lf, cr, lf])

theorem longResponse_end {line : Bytes} (plain : cr ∉ line) (some_ : line ≠ []) :
    findHeaderEnd (longResponse line) = some (line.length + 19) := by
  have last : findHeaderEnd [cr, lf, cr, lf] = some 4 := by decide
  obtain ⟨c, line', rfl⟩ := List.exists_cons_of_ne_nil some_
  have first : ¬ [cr, lf, cr, lf] <+: cr :: lf :: (c :: line' ++ [cr, lf, cr, lf]) := by
    intro here
    have behind := (List.cons_prefix_cons.mp (List.cons_prefix_cons.mp here).2).2
    exact plain ((List.cons_prefix_cons.mp behind).1 ▸ List.mem_cons_self)
  have second : ¬ [cr, lf, cr, lf] <+: lf :: (c :: line' ++ [cr, lf, cr, lf]) := by
    intro here
    exact absurd (List.cons_prefix_cons.mp here).1 (by decide)
  unfold longResponse
  rw [findHeaderEnd_skip (by decide), findHeaderEnd_cons first, findHeaderEnd_cons second, findHeaderEnd_skip plain, last]
  have front : (ascii "HTTP/1.1 404 ").length = 13 := by decide
  simp only [Option.map_some, front]
  congr 1
  omega

theorem longResponse_settles {line : Bytes} (plain : cr ∉ line) (some_ : line ≠ []) (hd : HandshakeData) :
    (settleUpgrade id hd (longResponse line)).outcome = .failed .httpStatus 404 := by
  have split : splitLine (longResponse line) = some (ascii "HTTP/1.1 404 ", line ++ [cr, lf, cr, lf]) := rfl
  have status : parseStatusLine (ascii "HTTP/1.1 404 ") = some (404, []) := by decide
  have length : (longResponse line).length = line.length + 19 := by
    have front : (ascii "HTTP/1.1 404 ").length = 13 := by decide
    unfold longResponse
    simp only [List.length_append, List.length_cons, List.length_nil, front]
    omega
  unfold settleUpgrade parseResponse
  rw [longResponse_end plain some_]
  simp only
  rw [← length, List.take_length, split]
  simp only [status]
  have other : 404 ≠ 101 := by decide
  unfold upgradeResponse
  rw [if_pos other]
  rfl

/-- A header block of more than the limit, and a byte behind the tunnel's response. -/
theorem handshake_reads_deviate :
    (¬ ∀ generate key protocols wanted stream,
      ReadsAgree generate (handshakeData .wsUpgrade key protocols wanted) stream) ∧
    ¬ ∀ generate key protocols wanted stream,
      ReadsAgree generate (handshakeData .proxyConnect key protocols wanted) stream := by
  refine ⟨fun all => ?_, fun all => ?_⟩
  · have plain : cr ∉ List.replicate 8200 (120 : UInt8) := by
      intro member
      exact absurd (List.eq_of_mem_replicate member) (by decide)
    have some_ : List.replicate 8200 (120 : UInt8) ≠ [] := by
      intro empty
      have none := congrArg List.length empty
      rw [List.length_replicate] at none
      cases none
    have within := (upgrade_independent _ _ _ _ _).mp (all id [] [] 0 (longResponse (List.replicate 8200 120)))
    rcases within _ (longResponse_end plain some_) with short | refused
    · rw [List.length_replicate] at short
      exact absurd short (by decide)
    · rw [longResponse_settles plain some_] at refused
      cases refused
  · have equal := all id [] [] 0 (ascii "HTTP/1.1 200 \r\n\r\nH") [ascii "HTTP/1.1 200 \r\n\r\n", ascii "H"]
      [ascii "HTTP/1.1 200 \r\n\r\nH"] ⟨by decide +kernel, by decide +kernel⟩ ⟨by decide +kernel, by decide +kernel⟩
    exact absurd equal (by decide +kernel)

end Uws.WebSocket
