import Uws.Http.Headers

/-! The collection of a body up to a size, and the data handler of a context that calls it. -/

namespace Uws.Http

/-- A view of bytes that are somewhere in memory. -/
structure View where
  bytes : Bytes
  sized : bytes.length < 2 ^ 64

namespace View

def size (data : View) : UInt64 := UInt64.ofNat data.bytes.length

@[simp]
theorem toNat_size (data : View) : data.size.toNat = data.bytes.length :=
  Nat.mod_eq_of_lt data.sized

end View

/-- What a collector does: the subtractions of its tests, its preallocation, and its calls of the callback, where
    nothing stands for null. -/
inductive Collecting where
  | subtracted (from_ taken : UInt64)
  | reserved (size : UInt64)
  | called (body : Option Bytes)
deriving DecidableEq

/-- The captures of the handler of `collectBody` that change. -/
structure Collector where
  buffer : Option Bytes := none
  overflow : Bool := false

def collectBody (maxSize : UInt64) (c : Collector) (data : View) (maxRemainingBodyLength : UInt64) :
    Collector × List Collecting :=
  if c.overflow then (c, [])
  else
    match c.buffer with
    | none =>
      if maxSize < data.size then ({ c with overflow := true }, [.called none])
      else if maxRemainingBodyLength = 0 then (c, [.called (some data.bytes)])
      else
        ({ c with buffer := some data.bytes },
          .subtracted maxSize data.size ::
            if maxRemainingBodyLength ≤ maxSize - data.size then [.reserved (maxRemainingBodyLength + data.size)] else [])
    | some buffer =>
      let size := UInt64.ofNat buffer.length
      if maxSize - size < data.size then ({ buffer := none, overflow := true }, [.subtracted maxSize size, .called none])
      else
        let buffer := buffer ++ data.bytes
        if maxRemainingBodyLength = 0 then
          ({ c with buffer := none }, [.subtracted maxSize size, .called (some buffer)])
        else ({ c with buffer := some buffer }, [.subtracted maxSize size])

/-- A call of the data handler of a context; `left` tells that the socket is closed or shut down behind the handler of
    the user. -/
structure DataCall where
  data : View
  remaining : UInt64
  left : Bool := false

/-- The data handler of a context, with the handler that is attached to the response. -/
def streamBody (maxSize : UInt64) (inStream : Option Collector) (call : DataCall) : Option Collector × List Collecting :=
  match inStream with
  | none => (none, [])
  | some c =>
    let (c, done) := collectBody maxSize c call.data call.remaining
    if call.left then (some c, done)
    else if call.remaining = 0 then (none, done)
    else (some c, done)

/-- What is done in each of some calls, and the handler that is attached behind them. -/
def streamCalls (maxSize : UInt64) : Option Collector → List DataCall → Option Collector × List (List Collecting)
  | inStream, [] => (inStream, [])
  | inStream, call :: calls =>
    let (inStream, done) := streamBody maxSize inStream call
    let (inStream, rest) := streamCalls maxSize inStream calls
    (inStream, done :: rest)

namespace Collecting

def report? : Collecting → Option (Option Bytes)
  | .called body => some body
  | _ => none

/-- No test wraps, and no more is reserved than is allowed. -/
def Bounded (maxSize : UInt64) : Collecting → Prop
  | .subtracted from_ taken => taken ≤ from_
  | .reserved size => size ≤ maxSize
  | .called _ => True

instance (maxSize : UInt64) : DecidablePred (Bounded maxSize)
  | .subtracted from_ taken => inferInstanceAs (Decidable (taken ≤ from_))
  | .reserved size => inferInstanceAs (Decidable (size ≤ maxSize))
  | .called _ => inferInstanceAs (Decidable True)

end Collecting

def reports (done : List Collecting) : List (Option Bytes) := done.filterMap Collecting.report?

def body (calls : List DataCall) : Bytes := calls.flatMap fun call => call.data.bytes

@[simp]
theorem body_nil : body [] = [] := rfl

@[simp]
theorem body_cons (call : DataCall) (calls : List DataCall) : body (call :: calls) = call.data.bytes ++ body calls := rfl

@[simp]
theorem body_append (calls more : List DataCall) : body (calls ++ more) = body calls ++ body more :=
  List.flatMap_append

/-- What a collector holds that was given `seen`: nothing before the first call, the bytes while they fit, and
    nothing any more when they do not. -/
inductive Collected (maxSize : UInt64) (seen : Bytes) : Collector → Prop where
  | fresh (nothing : seen = []) : Collected maxSize seen {}
  | holding (fits : seen.length ≤ maxSize.toNat) : Collected maxSize seen { buffer := some seen }
  | over_ (exceeds : maxSize.toNat < seen.length) : Collected maxSize seen { overflow := true }

def due (maxSize : UInt64) (seen : Bytes) (call : DataCall) : List (Option Bytes) :=
  if maxSize.toNat < seen.length then []
  else if maxSize.toNat < (seen ++ call.data.bytes).length then [none]
  else if call.remaining = 0 then [some (seen ++ call.data.bytes)]
  else []

def dues (maxSize : UInt64) : Bytes → List DataCall → List (List (Option Bytes))
  | _, [] => []
  | seen, call :: calls => due maxSize seen call :: dues maxSize (seen ++ call.data.bytes) calls

section Calls

variable {maxSize : UInt64} {seen : Bytes} {c : Collector}

theorem collectBody_collected (collected : Collected maxSize seen c) (call : DataCall) :
    reports (collectBody maxSize c call.data call.remaining).2 = due maxSize seen call ∧
      (∀ done ∈ (collectBody maxSize c call.data call.remaining).2, done.Bounded maxSize) ∧
      (call.remaining ≠ 0 →
        Collected maxSize (seen ++ call.data.bytes) (collectBody maxSize c call.data call.remaining).1) := by
  have length : (seen ++ call.data.bytes).length = seen.length + call.data.bytes.length := List.length_append
  have limit : maxSize.toNat < 2 ^ 64 := maxSize.toNat_lt
  unfold collectBody due
  cases collected with
  | over_ exceeds =>
    rw [if_pos rfl, if_pos exceeds]
    exact ⟨rfl, nofun, fun _ => .over_ (by omega)⟩
  | fresh nothing =>
    subst nothing
    have short : maxSize < call.data.size ↔ maxSize.toNat < ([] ++ call.data.bytes).length := by
      rw [UInt64.lt_iff_toNat_lt, View.toNat_size]
      rfl
    rw [if_neg Bool.false_ne_true, if_neg (show ¬ maxSize.toNat < ([] : Bytes).length from Nat.not_lt_zero _)]
    dsimp only
    by_cases exceeds : maxSize < call.data.size
    · rw [if_pos exceeds, if_pos (short.mp exceeds)]
      exact ⟨rfl, by simp [Collecting.Bounded], fun _ => .over_ (short.mp exceeds)⟩
    · rw [if_neg exceeds, if_neg (mt short.mpr exceeds)]
      by_cases end_ : call.remaining = 0
      · rw [if_pos end_, if_pos end_]
        exact ⟨rfl, by simp [Collecting.Bounded], fun more => absurd end_ more⟩
      · rw [if_neg end_, if_neg end_]
        have room : call.data.size ≤ maxSize := UInt64.not_lt.mp exceeds
        have left_ : (maxSize - call.data.size).toNat = maxSize.toNat - call.data.size.toNat :=
          UInt64.toNat_sub_of_le _ _ room
        have within := UInt64.le_iff_toNat_le.mp room
        refine ⟨?_, ?_, fun _ => .holding (by rw [short] at exceeds; omega)⟩
        · split <;> rfl
        · intro done member
          rcases List.mem_cons.mp member with rfl | member
          · exact room
          · split at member
            · rename_i hint
              rw [UInt64.le_iff_toNat_le, left_] at hint
              obtain rfl := List.mem_singleton.mp member
              show _ ≤ maxSize
              rw [UInt64.le_iff_toNat_le, UInt64.toNat_add, Nat.mod_eq_of_lt (by omega)]
              omega
            · cases member
  | holding fits =>
    have size : (UInt64.ofNat seen.length).toNat = seen.length := Nat.mod_eq_of_lt (by omega)
    have room : UInt64.ofNat seen.length ≤ maxSize := by
      rw [UInt64.le_iff_toNat_le, size]
      exact fits
    have short : maxSize - UInt64.ofNat seen.length < call.data.size ↔
        maxSize.toNat < (seen ++ call.data.bytes).length := by
      rw [UInt64.lt_iff_toNat_lt, UInt64.toNat_sub_of_le _ _ room, size, View.toNat_size]
      omega
    rw [if_neg Bool.false_ne_true, if_neg (Nat.not_lt.mpr fits)]
    dsimp only
    by_cases exceeds : maxSize - UInt64.ofNat seen.length < call.data.size
    · rw [if_pos exceeds, if_pos (short.mp exceeds)]
      exact ⟨rfl, by simp [Collecting.Bounded, room], fun _ => .over_ (short.mp exceeds)⟩
    · rw [if_neg exceeds, if_neg (mt short.mpr exceeds)]
      by_cases end_ : call.remaining = 0
      · rw [if_pos end_, if_pos end_]
        exact ⟨rfl, by simp [Collecting.Bounded, room], fun more => absurd end_ more⟩
      · rw [if_neg end_, if_neg end_]
        exact ⟨rfl, by simp [Collecting.Bounded, room], fun _ => .holding (by rw [short] at exceeds; omega)⟩

theorem streamCalls_front {front : List DataCall} (more : ∀ call ∈ front, call.remaining ≠ 0)
    (collected : Collected maxSize seen c) (rest : List DataCall) :
    ∃ c', Collected maxSize (seen ++ body front) c' ∧
      (streamCalls maxSize (some c) (front ++ rest)).1 = (streamCalls maxSize (some c') rest).1 ∧
      ∃ done : List (List Collecting), done.map reports = dues maxSize seen front ∧
        (∀ step ∈ done, ∀ act ∈ step, act.Bounded maxSize) ∧
        (streamCalls maxSize (some c) (front ++ rest)).2 = done ++ (streamCalls maxSize (some c') rest).2 := by
  induction front generalizing seen c with
  | nil => exact ⟨c, by rwa [body_nil, List.append_nil], rfl, [], rfl, nofun, rfl⟩
  | cons call front ih =>
    obtain ⟨told, bounded, keeps⟩ := collectBody_collected collected call
    have goes := more call List.mem_cons_self
    have step : streamBody maxSize (some c) call =
        (some (collectBody maxSize c call.data call.remaining).1, (collectBody maxSize c call.data call.remaining).2) := by
      unfold streamBody
      dsimp only
      rw [if_neg goes]
      split <;> rfl
    obtain ⟨c', after, handler, done, same, bounds, run⟩ :=
      ih (fun other member => more other (List.mem_cons_of_mem _ member)) (keeps goes)
    refine ⟨c', by rwa [body_cons, ← List.append_assoc], ?_,
      (collectBody maxSize c call.data call.remaining).2 :: done, ?_, ?_, ?_⟩
    · rw [List.cons_append, streamCalls, step]
      exact handler
    · rw [List.map_cons, same, told]
      rfl
    · intro other member
      rcases List.mem_cons.mp member with rfl | member
      · exact bounded
      · exact bounds other member
    · rw [List.cons_append, streamCalls, step]
      exact congrArg (List.cons _) run

theorem streamCalls_last (collected : Collected maxSize seen c) {last : DataCall} (end_ : last.remaining = 0) :
    (last.left = false → (streamCalls maxSize (some c) [last]).1 = none) ∧
      (streamCalls maxSize (some c) [last]).2.map reports = [due maxSize seen last] ∧
      ∀ step ∈ (streamCalls maxSize (some c) [last]).2, ∀ act ∈ step, act.Bounded maxSize := by
  obtain ⟨told, bounded, -⟩ := collectBody_collected collected last
  have acts : (streamCalls maxSize (some c) [last]).2 = [(collectBody maxSize c last.data last.remaining).2] := by
    unfold streamCalls streamBody
    dsimp only
    rw [if_pos end_]
    split <;> rfl
  refine ⟨fun stays => ?_, ?_, ?_⟩
  · unfold streamCalls streamBody
    dsimp only
    rw [stays, if_neg Bool.false_ne_true, if_pos end_]
    rfl
  · rw [acts, List.map_singleton, told]
  · rw [acts]
    intro step member
    obtain rfl := List.mem_singleton.mp member
    exact bounded

theorem dues_append (calls more : List DataCall) :
    dues maxSize seen (calls ++ more) = dues maxSize seen calls ++ dues maxSize (seen ++ body calls) more := by
  induction calls generalizing seen with
  | nil => rw [List.nil_append, body_nil, List.append_nil, dues, List.nil_append]
  | cons call calls ih =>
    rw [List.cons_append, dues, ih, dues, body_cons, List.cons_append, List.append_assoc]

theorem dues_over (exceeds : maxSize.toNat < seen.length) (calls : List DataCall) :
    dues maxSize seen calls = List.replicate calls.length [] := by
  induction calls generalizing seen with
  | nil => rfl
  | cons call calls ih =>
    rw [dues, due, if_pos exceeds, ih (by rw [List.length_append]; omega)]
    rfl

theorem dues_front {front : List DataCall} (more : ∀ call ∈ front, call.remaining ≠ 0)
    (fits : (seen ++ body front).length ≤ maxSize.toNat) : dues maxSize seen front = List.replicate front.length [] := by
  induction front generalizing seen with
  | nil => rfl
  | cons call front ih =>
    rw [body_cons, ← List.append_assoc] at fits
    have whole : (seen ++ call.data.bytes ++ body front).length = (seen ++ call.data.bytes).length + (body front).length :=
      List.length_append
    have part : (seen ++ call.data.bytes).length = seen.length + call.data.bytes.length := List.length_append
    rw [dues, ih (fun other member => more other (List.mem_cons_of_mem _ member)) fits, due, if_neg (by omega),
      if_neg (by omega), if_neg (more call List.mem_cons_self)]
    rfl

/-- The first call behind which the body is too long reports that, and is the only one to report. -/
theorem dues_exceeding {front : List DataCall} (more : ∀ call ∈ front, call.remaining ≠ 0) (last : DataCall)
    (fits : seen.length ≤ maxSize.toNat) (exceeds : maxSize.toNat < (seen ++ body (front ++ [last])).length) :
    ∃ before call after, front ++ [last] = before ++ call :: after ∧
      (seen ++ body before).length ≤ maxSize.toNat ∧ maxSize.toNat < (seen ++ body (before ++ [call])).length ∧
      dues maxSize seen (front ++ [last]) =
        List.replicate before.length [] ++ [none] :: List.replicate after.length [] := by
  induction front generalizing seen with
  | nil =>
    refine ⟨[], last, [], rfl, by simpa using fits, exceeds, ?_⟩
    rw [List.nil_append, body_cons, body_nil, List.append_nil] at exceeds
    rw [List.nil_append, dues, due, if_neg (by omega), if_pos exceeds]
    rfl
  | cons call front ih =>
    by_cases now : maxSize.toNat < (seen ++ call.data.bytes).length
    · refine ⟨[], call, front ++ [last], rfl, by simpa using fits, ?_, ?_⟩
      · rwa [List.nil_append, body_cons, body_nil, List.append_nil]
      · rw [List.cons_append, dues, due, if_neg (by omega), if_pos now, dues_over now]
        rfl
    · rw [List.cons_append, body_cons, ← List.append_assoc] at exceeds
      obtain ⟨before, crossing, after, same, short, long, told⟩ :=
        ih (fun other member => more other (List.mem_cons_of_mem _ member)) (Nat.not_lt.mp now) exceeds
      refine ⟨call :: before, crossing, after, by rw [List.cons_append, same]; rfl, ?_, ?_, ?_⟩
      · rwa [body_cons, ← List.append_assoc]
      · rwa [List.cons_append, body_cons, ← List.append_assoc]
      · rw [List.cons_append, dues, due, if_neg (by omega), if_neg now, if_neg (more call List.mem_cons_self), told]
        rfl

end Calls

/-- The callback is called in exactly one of the calls of a body. -/
theorem streamCalls_once (maxSize : UInt64) (front : List DataCall) (last : DataCall)
    (more : ∀ call ∈ front, call.remaining ≠ 0) (end_ : last.remaining = 0) :
    ((body (front ++ [last])).length ≤ maxSize.toNat →
      (streamCalls maxSize (some {}) (front ++ [last])).2.map reports =
        List.replicate front.length [] ++ [[some (body (front ++ [last]))]]) ∧
    (maxSize.toNat < (body (front ++ [last])).length →
      ∃ before call after, front ++ [last] = before ++ call :: after ∧
        (body before).length ≤ maxSize.toNat ∧ maxSize.toNat < (body (before ++ [call])).length ∧
        (streamCalls maxSize (some {}) (front ++ [last])).2.map reports =
          List.replicate before.length [] ++ [none] :: List.replicate after.length []) ∧
    (∀ step ∈ (streamCalls maxSize (some {}) (front ++ [last])).2, ∀ act ∈ step, act.Bounded maxSize) ∧
    (last.left = false → (streamCalls maxSize (some {}) (front ++ [last])).1 = none) := by
  obtain ⟨c, collected, handler, done, same, bounds, run⟩ :=
    @streamCalls_front maxSize _ _ _ more (.fresh rfl) [last]
  obtain ⟨detached, told, bounded⟩ := streamCalls_last collected end_
  have all : (streamCalls maxSize (some {}) (front ++ [last])).2.map reports = dues maxSize [] (front ++ [last]) := by
    rw [run, List.map_append, same, told, dues_append]
    rfl
  refine ⟨fun fits => ?_, fun exceeds => ?_, ?_, ?_⟩
  · have part : (body front).length ≤ maxSize.toNat := by
      rw [body_append, List.length_append] at fits
      omega
    rw [all, dues_append, dues_front more part]
    rw [body_append, body_cons, body_nil, List.append_nil] at fits ⊢
    simp only [dues, due, List.nil_append]
    rw [if_neg (by omega), if_neg (by omega), if_pos end_]
  · rw [all]
    exact @dues_exceeding maxSize [] front more last (Nat.zero_le _) exceeds
  · rw [run]
    intro step member
    rcases List.mem_append.mp member with member | member
    · exact bounds step member
    · exact bounded step member
  · rw [handler]
    exact detached

def chunkedCalls : List DataCall := [⟨⟨ascii "a", by decide⟩, 0xffffffffffffffff, false⟩, ⟨⟨[], by decide⟩, 1, false⟩]

def lastCall : DataCall := ⟨⟨ascii "bc", by decide⟩, 0, false⟩

theorem chunked_reported :
    ((body (chunkedCalls ++ [lastCall])).length ≤ (3 : UInt64).toNat →
      (streamCalls 3 (some {}) (chunkedCalls ++ [lastCall])).2.map reports =
        List.replicate chunkedCalls.length [] ++ [[some (body (chunkedCalls ++ [lastCall]))]]) ∧
    ((2 : UInt64).toNat < (body (chunkedCalls ++ [lastCall])).length →
      ∃ before call after, chunkedCalls ++ [lastCall] = before ++ call :: after ∧
        (body before).length ≤ (2 : UInt64).toNat ∧ (2 : UInt64).toNat < (body (before ++ [call])).length ∧
        (streamCalls 2 (some {}) (chunkedCalls ++ [lastCall])).2.map reports =
          List.replicate before.length [] ++ [none] :: List.replicate after.length []) :=
  ⟨(streamCalls_once 3 chunkedCalls lastCall (by decide) rfl).1,
    (streamCalls_once 2 chunkedCalls lastCall (by decide) rfl).2.1⟩

end Uws.Http
