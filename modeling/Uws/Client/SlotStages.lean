import Uws.Client.ClientSlots

/-! Where a connect can be, and how each step of it moves it on. -/

namespace Uws.Client

variable {s : Slot} {calls : List Call} {waits : List Bool} {side : Side} {request user : Bool}

def Outcome.result (outcome : Outcome) : Slot := if outcome.retires then { outcome.slot with done := true } else outcome.slot

namespace Slot

/-- The request, the open socket, the pointer to the request in the context that dials, and the mark of `retire`. -/
def place (s : Slot) : Request × Socket × Bool × Bool := (s.request, s.socket, s.dial.request, s.done)

/-- The user data that has been used, and the pointers to it in the contexts. -/
def data (s : Slot) : Nat × Bool × Bool := (s.users, s.dial.user, s.peer.user)

def dataAt (s : Slot) : Side → Nat × Bool × Bool
  | .dial => (0, s.userData, false)
  | .peer => (0, false, s.userData)

/-- No socket is open, and none is going to be opened. -/
def Settled (s : Slot) : Prop := s.socket = .none ∧ s.request ≠ .pending ∧ s.request ≠ .handshaking

end Slot

/-- Handlers behind which nothing is left to do. -/
def Light (calls : List Call) : Prop := ∀ call ∈ calls, call = .opening ∨ call = .ending

/-- Where a connect is, with the handlers that are running for it and the failures that wait in the loop's queue. -/
inductive Stage (s : Slot) (calls : List Call) (waits : List Bool) : Prop where
  | refused (running : calls = []) (waiting : waits = [s.userData]) (place : s.place = (.none, .none, false, false))
      (data : s.data = (0, false, false)) (failures : s.failures = 0) (opens : s.opens = 0)
  | refusing (running : calls = [.refused s.userData]) (waiting : waits = []) (place : s.place = (.none, .none, false, false))
      (data : s.data = (0, false, false)) (failures : s.failures ≤ 1) (opens : s.opens = 0)
  | pending (running : calls = []) (waiting : waits = []) (place : s.place = (.pending, .none, true, false))
      (data : s.data = s.dataAt .dial) (failures : s.failures = 0) (opens : s.opens = 0) (dial : s.dial.notified = false)
      (peer : s.peer.notified = false)
  | cancelled (running : calls = []) (waiting : waits = []) (place : s.place = (.none, .none, false, false))
      (data : s.users + s.dial.user.toNat = s.userData.toNat) (peer : s.peer.user = false) (failures : s.failures = 0)
      (opens : s.opens = 0)
  | reporting (running : calls = [.failed .dial .connectError]) (waiting : waits = [])
      (place : s.place = (.reporting, .none, false, false)) (data : s.data = s.dataAt .dial) (failures : s.failures ≤ 1)
      (opens : s.opens = 0)
  | handshaking (side : Side) (running : calls = []) (waiting : waits = [])
      (place : s.place = (.handshaking, .handshake side true s.userData, false, false)) (data : s.data = s.dataAt side)
      (failures : s.failures = 0) (opens : s.opens = 0) (dial : s.dial.notified = false) (peer : s.peer.notified = false)
      (opened : (s.context side).opened = true)
  | rejecting (side : Side) (running : calls = [.failed side .close]) (waiting : waits = [])
      (place : s.place = (.handshaking, .handshake side true s.userData, false, false)) (data : s.data = s.dataAt side)
      (failures : s.failures ≤ 1) (opens : s.opens = 0) (notified : (s.context side).notified = true)
      (opened : (s.context side).opened = true)
  | rejected (side : Side) (after : After) (running : calls = [.failed side after]) (waiting : waits = [])
      (closing : after = .close ∨ after = .closed) (place : s.place = (.none, .none, false, false))
      (data : s.data = s.dataAt side) (failures : s.failures ≤ 1) (opens : s.opens = 0)
  | opened (isShuttingDown : Bool) (running : Light calls) (waiting : waits = [])
      (place : s.place = (.none, .frame isShuttingDown, false, false)) (data : s.data = (s.userData.toNat, false, false))
      (failures : s.failures = 0) (opens : s.opens = 1)
  | closing (below : List Call) (running : calls = .closing :: below) (light : Light below) (waiting : waits = [])
      (place : s.place = (.none, .none, false, false)) (data : s.data = (s.userData.toNat, false, false))
      (failures : s.failures = 0) (opens : s.opens = 1)
  | ended (running : Light calls) (waiting : waits = []) (place : s.place = (.none, .none, false, true))
      (data : s.data = (s.userData.toNat, false, false)) (once : s.failures + s.opens ≤ 1)

/-- A step keeps the contexts, and leads to a stage. -/
structure Moves (s : Slot) (calls : List Call) (waits : List Bool) (outcome : Outcome) : Prop where
  stage : Stage outcome.result (outcome.calls ++ calls) waits
  fault : outcome.fault = false
  frees : outcome.slot.frees = 0
  done : outcome.slot.done = s.done
  settled : s.Settled → outcome.slot.Settled

theorem light_nil : Light [] := fun _ absent => absurd absent List.not_mem_nil

theorem Light.cons {call : Call} (light : Light calls) (plain : call = .opening ∨ call = .ending) : Light (call :: calls) := by
  intro other inside
  rcases List.mem_cons.mp inside with rfl | below
  · exact plain
  · exact light other below

theorem Light.tail {call : Call} (light : Light (call :: calls)) : Light calls :=
  fun other inside => light other (List.mem_cons_of_mem _ inside)

theorem Moves.same (stage : Stage s calls waits) (held : s.frees = 0) : Moves s calls waits { slot := s } :=
  ⟨stage, rfl, held, rfl, fun settled => settled⟩

theorem not_freed (held : s.frees = 0) : s.freed = false := by
  simp [Slot.freed, held]

theorem moves_closeSocket (stage : Stage s calls waits) (held : s.frees = 0) : Moves s calls waits s.closeSocket := by
  have still : s.socket = .none → Moves s calls waits s.closeSocket := by
    intro none_
    unfold Slot.closeSocket
    rw [none_]
    exact .same stage held
  cases stage with
  | refused _ _ place => exact still (congrArg (·.2.1) place)
  | refusing _ _ place => exact still (congrArg (·.2.1) place)
  | pending _ _ place => exact still (congrArg (·.2.1) place)
  | cancelled _ _ place => exact still (congrArg (·.2.1) place)
  | reporting _ _ place => exact still (congrArg (·.2.1) place)
  | rejected _ _ _ _ _ place => exact still (congrArg (·.2.1) place)
  | closing _ _ _ _ place => exact still (congrArg (·.2.1) place)
  | ended _ _ place => exact still (congrArg (·.2.1) place)
  | handshaking side running waiting place data failures opens dial peer opened =>
    have socket : s.socket = .handshake side true s.userData := congrArg (·.2.1) place
    subst running
    cases side with
    | dial =>
      simp only [Slot.place, Slot.data, Slot.dataAt, Slot.context, Prod.mk.injEq] at place data opened
      refine ⟨.rejected .dial .closed ?_ waiting (.inr rfl) ?_ ?_ ?_ ?_, ?_, ?_, ?_, ?_⟩ <;>
        simp [Slot.closeSocket, Slot.context, Slot.setContext, Slot.release, Slot.announce, Outcome.result, Slot.place, Slot.data,
          Slot.dataAt, Slot.Settled, Slot.freed, held, place, data, failures, opens, dial, opened, Bool.toNat_le]
    | peer =>
      simp only [Slot.place, Slot.data, Slot.dataAt, Slot.context, Prod.mk.injEq] at place data opened
      refine ⟨.rejected .peer .closed ?_ waiting (.inr rfl) ?_ ?_ ?_ ?_, ?_, ?_, ?_, ?_⟩ <;>
        simp [Slot.closeSocket, Slot.context, Slot.setContext, Slot.release, Slot.announce, Outcome.result, Slot.place, Slot.data,
          Slot.dataAt, Slot.Settled, Slot.freed, held, place, data, failures, opens, peer, opened, Bool.toNat_le]
  | rejecting side running waiting place data failures opens notified opened =>
    have socket : s.socket = .handshake side true s.userData := congrArg (·.2.1) place
    subst running
    cases side with
    | dial =>
      simp only [Slot.place, Slot.data, Slot.dataAt, Slot.context, Prod.mk.injEq] at place data opened notified
      refine ⟨.rejected .dial .close ?_ waiting (.inl rfl) ?_ ?_ ?_ ?_, ?_, ?_, ?_, ?_⟩ <;>
        simp [Slot.closeSocket, Slot.context, Slot.setContext, Slot.release, Outcome.result, Slot.place, Slot.data, Slot.dataAt,
          Slot.Settled, Slot.freed, held, place, data, failures, opens, notified, opened]
    | peer =>
      simp only [Slot.place, Slot.data, Slot.dataAt, Slot.context, Prod.mk.injEq] at place data opened notified
      refine ⟨.rejected .peer .close ?_ waiting (.inl rfl) ?_ ?_ ?_ ?_, ?_, ?_, ?_, ?_⟩ <;>
        simp [Slot.closeSocket, Slot.context, Slot.setContext, Slot.release, Outcome.result, Slot.place, Slot.data, Slot.dataAt,
          Slot.Settled, Slot.freed, held, place, data, failures, opens, notified, opened]
  | opened isShuttingDown light waiting place data failures opens =>
    simp only [Slot.place, Slot.data, Prod.mk.injEq] at place data
    cases isShuttingDown with
    | true =>
      refine ⟨.ended ?_ waiting ?_ ?_ ?_, ?_, ?_, ?_, ?_⟩ <;>
        simp [Slot.closeSocket, Outcome.result, Slot.place, Slot.data, Slot.Settled, Slot.freed, held, place, data, failures, opens,
          light]
    | false =>
      refine ⟨.closing calls ?_ light waiting ?_ ?_ ?_ ?_, ?_, ?_, ?_, ?_⟩ <;>
        simp [Slot.closeSocket, Outcome.result, Slot.place, Slot.data, Slot.Settled, Slot.freed, held, place, data, failures, opens]

theorem moves_cancel (stage : Stage s calls waits) (held : s.frees = 0) : Moves s calls waits s.cancel := by
  have still : s.dial.request = false → Moves s calls waits s.cancel := by
    intro null
    unfold Slot.cancel
    rw [if_neg (by rw [null]; exact Bool.false_ne_true), not_freed held]
    exact .same stage held
  cases stage with
  | refused _ _ place => exact still (congrArg (·.2.2.1) place)
  | refusing _ _ place => exact still (congrArg (·.2.2.1) place)
  | cancelled _ _ place => exact still (congrArg (·.2.2.1) place)
  | reporting _ _ place => exact still (congrArg (·.2.2.1) place)
  | handshaking _ _ _ place => exact still (congrArg (·.2.2.1) place)
  | rejecting _ _ _ place => exact still (congrArg (·.2.2.1) place)
  | rejected _ _ _ _ _ place => exact still (congrArg (·.2.2.1) place)
  | opened _ _ _ place => exact still (congrArg (·.2.2.1) place)
  | closing _ _ _ _ place => exact still (congrArg (·.2.2.1) place)
  | ended _ _ place => exact still (congrArg (·.2.2.1) place)
  | pending running waiting place data failures opens dial peer =>
    subst running
    simp only [Slot.place, Slot.data, Slot.dataAt, Prod.mk.injEq] at place data
    refine ⟨.cancelled ?_ waiting ?_ ?_ ?_ ?_ ?_, ?_, ?_, ?_, ?_⟩ <;>
      simp [Slot.cancel, Outcome.result, Slot.place, Slot.Settled, Slot.freed, held, place, data, failures, opens]

theorem moves_closeContexts (stage : Stage s calls waits) (held : s.frees = 0) : Moves s calls waits s.closeContexts := by
  have moves := moves_closeSocket stage held
  have same : s.closeContexts = s.closeSocket := by
    unfold Slot.closeContexts
    rw [not_freed held, Bool.false_or]
  rw [same]
  exact moves

theorem settled_closeSlot (stage : Stage s calls waits) : s.cancel.slot.closeContexts.slot.Settled := by
  have still : s.dial.request = false → s.cancel.slot = s := by
    intro null
    simp [Slot.cancel, null]
  cases stage with
  | pending running waiting place =>
    simp only [Slot.place, Prod.mk.injEq] at place
    simp [Slot.cancel, Slot.closeContexts, Slot.closeSocket, Slot.Settled, place]
  | handshaking side running waiting place data failures opens dial peer opened =>
    simp only [Slot.place, Prod.mk.injEq] at place
    rw [still place.2.2.1]
    cases side <;> simp only [Slot.context] at opened <;>
      simp [Slot.closeContexts, Slot.closeSocket, Slot.Settled, Slot.context, Slot.setContext, Slot.release, Slot.announce, place,
        opened, dial, peer]
  | rejecting side running waiting place data failures opens notified opened =>
    simp only [Slot.place, Prod.mk.injEq] at place
    rw [still place.2.2.1]
    cases side <;> simp only [Slot.context] at opened notified <;>
      simp [Slot.closeContexts, Slot.closeSocket, Slot.Settled, Slot.context, Slot.setContext, Slot.release, place, opened,
        notified]
  | opened isShuttingDown light waiting place =>
    simp only [Slot.place, Prod.mk.injEq] at place
    rw [still place.2.2.1]
    cases isShuttingDown <;> simp [Slot.closeContexts, Slot.closeSocket, Slot.Settled, place]
  | refused _ _ place | refusing _ _ place | cancelled _ _ place | reporting _ _ place | rejected _ _ _ _ _ place
  | closing _ _ _ _ place | ended _ _ place =>
    simp only [Slot.place, Prod.mk.injEq] at place
    rw [still place.2.2.1]
    simp [Slot.closeContexts, Slot.closeSocket, Slot.Settled, place]

structure Dialing (s : Slot) (waits : List Bool) : Prop where
  waiting : waits = []
  place : s.place = (.pending, .none, true, false)
  data : s.data = s.dataAt .dial
  failures : s.failures = 0
  opens : s.opens = 0
  dial : s.dial.notified = false
  peer : s.peer.notified = false

theorem dialing (stage : Stage s [] waits) (pending : s.request = .pending) : Dialing s waits := by
  cases stage with
  | pending _ waiting place data failures opens dial peer => exact ⟨waiting, place, data, failures, opens, dial, peer⟩
  | refused _ _ place => cases (congrArg (·.1) place).symm.trans pending
  | cancelled _ _ place => cases (congrArg (·.1) place).symm.trans pending
  | handshaking _ _ _ place => cases (congrArg (·.1) place).symm.trans pending
  | opened _ _ _ place => cases (congrArg (·.1) place).symm.trans pending
  | ended _ _ place => cases (congrArg (·.1) place).symm.trans pending
  | refusing running => cases running
  | reporting running => cases running
  | rejecting _ running => cases running
  | rejected _ _ running => cases running
  | closing _ running => cases running

theorem moves_connectError (stage : Stage s [] waits) (held : s.frees = 0) (pending : s.request = .pending) :
    Moves s [] waits s.connectError := by
  obtain ⟨waiting, place, data, failures, opens, dial, peer⟩ := dialing stage pending
  simp only [Slot.place, Slot.data, Slot.dataAt, Prod.mk.injEq] at place data
  refine ⟨.reporting ?_ waiting ?_ ?_ ?_ ?_, ?_, ?_, ?_, ?_⟩ <;>
    simp [Slot.connectError, Slot.announce, Slot.context, Slot.setContext, Outcome.result, Slot.place, Slot.data, Slot.dataAt,
      Slot.Settled, Slot.freed, held, place, data, failures, opens, dial, Bool.toNat_le]

theorem moves_onOpen (stage : Stage s [] waits) (held : s.frees = 0) (pending : s.request = .pending) :
    Moves s [] waits s.onOpen := by
  obtain ⟨waiting, place, data, failures, opens, dial, peer⟩ := dialing stage pending
  simp only [Slot.place, Slot.data, Slot.dataAt, Prod.mk.injEq] at place data
  refine ⟨.handshaking .dial ?_ waiting ?_ ?_ ?_ ?_ ?_ ?_ ?_, ?_, ?_, ?_, ?_⟩ <;>
    simp [Slot.onOpen, Slot.context, Outcome.result, Slot.place, Slot.data, Slot.dataAt, Slot.Settled, Slot.freed, held, place, data,
      failures, opens, dial, peer]

/-- A socket under its handshake, while no handler runs. -/
structure Shaking (s : Slot) (waits : List Bool) (side : Side) (request user : Bool) : Prop where
  waiting : waits = []
  pointers : request = true ∧ user = s.userData
  place : s.place = (.handshaking, .handshake side true s.userData, false, false)
  data : s.data = s.dataAt side
  failures : s.failures = 0
  opens : s.opens = 0
  dial : s.dial.notified = false
  peer : s.peer.notified = false
  opened : (s.context side).opened = true

theorem shaking (stage : Stage s [] waits) (socket : s.socket = .handshake side request user) :
    Shaking s waits side request user := by
  cases stage with
  | handshaking side' running waiting place data failures opens dial peer opened =>
    have both := (congrArg (·.2.1) place).symm.trans socket
    cases both
    exact ⟨waiting, ⟨rfl, rfl⟩, place, data, failures, opens, dial, peer, opened⟩
  | refused _ _ place => cases (congrArg (·.2.1) place).symm.trans socket
  | pending _ _ place => cases (congrArg (·.2.1) place).symm.trans socket
  | cancelled _ _ place => cases (congrArg (·.2.1) place).symm.trans socket
  | opened _ _ _ place => cases (congrArg (·.2.1) place).symm.trans socket
  | ended _ _ place => cases (congrArg (·.2.1) place).symm.trans socket
  | refusing running => cases running
  | reporting running => cases running
  | rejecting _ running => cases running
  | rejected _ _ running => cases running
  | closing _ running => cases running

theorem moves_reject (stage : Stage s [] waits) (held : s.frees = 0) (socket : s.socket = .handshake side request user) :
    Moves s [] waits (s.reject side) := by
  obtain ⟨waiting, -, place, data, failures, opens, dial, peer, opened⟩ := shaking stage socket
  cases side with
  | dial =>
    simp only [Slot.place, Slot.data, Slot.dataAt, Slot.context, Prod.mk.injEq] at place data opened
    refine ⟨.rejecting .dial ?_ waiting ?_ ?_ ?_ ?_ ?_ ?_, ?_, ?_, ?_, ?_⟩ <;>
      simp [Slot.reject, Slot.context, Slot.setContext, Slot.announce, Outcome.result, Slot.place, Slot.data, Slot.dataAt, Slot.Settled,
        Slot.freed, held, place, data, failures, opens, dial, opened, Bool.toNat_le]
  | peer =>
    simp only [Slot.place, Slot.data, Slot.dataAt, Slot.context, Prod.mk.injEq] at place data opened
    refine ⟨.rejecting .peer ?_ waiting ?_ ?_ ?_ ?_ ?_ ?_, ?_, ?_, ?_, ?_⟩ <;>
      simp [Slot.reject, Slot.context, Slot.setContext, Slot.announce, Outcome.result, Slot.place, Slot.data, Slot.dataAt, Slot.Settled,
        Slot.freed, held, place, data, failures, opens, peer, opened, Bool.toNat_le]

theorem moves_proxyStartTls (stage : Stage s [] waits) (held : s.frees = 0) (socket : s.socket = .handshake .dial request user) :
    Moves s [] waits (s.proxyStartTls request user) := by
  obtain ⟨waiting, ⟨rfl, rfl⟩, place, data, failures, opens, dial, peer, opened⟩ := shaking stage socket
  simp only [Slot.place, Slot.data, Slot.dataAt, Slot.context, Prod.mk.injEq] at place data opened
  refine ⟨.handshaking .peer ?_ waiting ?_ ?_ ?_ ?_ ?_ ?_ ?_, ?_, ?_, ?_, ?_⟩ <;>
    simp [Slot.proxyStartTls, Slot.context, Outcome.result, Slot.place, Slot.data, Slot.dataAt, Slot.Settled, Slot.freed, held, place,
      data, failures, opens, dial, peer]

theorem moves_adoptToFrame (stage : Stage s [] waits) (held : s.frees = 0) (socket : s.socket = .handshake side request user) :
    Moves s [] waits (s.adoptToFrame side request user) := by
  obtain ⟨waiting, ⟨rfl, rfl⟩, place, data, failures, opens, dial, peer, opened⟩ := shaking stage socket
  have light : Light [.opening] := light_nil.cons (.inl rfl)
  cases side with
  | dial =>
    simp only [Slot.place, Slot.data, Slot.dataAt, Prod.mk.injEq] at place data
    refine ⟨.opened false ?_ waiting ?_ ?_ ?_ ?_, ?_, ?_, ?_, ?_⟩ <;>
      simp [Slot.adoptToFrame, Slot.context, Slot.setContext, Slot.release, Outcome.result, Slot.place, Slot.data, Slot.Settled,
        Slot.freed, held, place, data, failures, opens, light]
  | peer =>
    simp only [Slot.place, Slot.data, Slot.dataAt, Prod.mk.injEq] at place data
    refine ⟨.opened false ?_ waiting ?_ ?_ ?_ ?_, ?_, ?_, ?_, ?_⟩ <;>
      simp [Slot.adoptToFrame, Slot.context, Slot.setContext, Slot.release, Outcome.result, Slot.place, Slot.data, Slot.Settled,
        Slot.freed, held, place, data, failures, opens, light]

theorem moves_end (stage : Stage s calls waits) (held : s.frees = 0) (socket : s.socket = .frame false) :
    Moves s calls waits { slot := { s with socket := .frame true }, calls := [.ending], fault := s.freed } := by
  cases stage with
  | opened isShuttingDown light waiting place data failures opens =>
    simp only [Slot.place, Slot.data, Prod.mk.injEq] at place data
    have light' : Light (.ending :: calls) := light.cons (.inr rfl)
    refine ⟨.opened true ?_ waiting ?_ ?_ ?_ ?_, ?_, ?_, ?_, ?_⟩ <;>
      simp [Outcome.result, Slot.place, Slot.data, Slot.Settled, Slot.freed, held, place, data, failures, opens, light']
  | refused _ _ place | refusing _ _ place | pending _ _ place | cancelled _ _ place | reporting _ _ place
  | rejected _ _ _ _ _ place | handshaking _ _ _ place | rejecting _ _ _ place | closing _ _ _ _ place | ended _ _ place =>
    cases (congrArg (·.2.1) place).symm.trans socket

theorem moves_returned {call : Call} (stage : Stage s (call :: calls) waits) (held : s.frees = 0) :
    Moves s calls waits (s.returned call) := by
  cases stage with
  | refused running => cases running
  | pending running => cases running
  | cancelled running => cases running
  | handshaking _ running => cases running
  | refusing running waiting place data failures opens =>
    cases running
    simp only [Slot.place, Slot.data, Prod.mk.injEq] at place data
    refine ⟨.ended light_nil waiting ?_ ?_ ?_, ?_, ?_, ?_, ?_⟩ <;>
      simp [Slot.returned, Outcome.result, Slot.place, Slot.data, Slot.Settled, Slot.freed, held, place, data, failures, opens]
  | reporting running waiting place data failures opens =>
    cases running
    simp only [Slot.place, Slot.data, Slot.dataAt, Prod.mk.injEq] at place data
    refine ⟨.ended light_nil waiting ?_ ?_ ?_, ?_, ?_, ?_, ?_⟩ <;>
      simp [Slot.returned, Slot.terminal, Slot.finish, Slot.context, Slot.setContext, Outcome.result, Slot.place, Slot.data, Slot.Settled,
        Slot.freed, held, place, data, failures, opens]
  | rejecting side running waiting place data failures opens notified opened =>
    cases running
    cases side <;> simp only [Slot.place, Slot.data, Slot.dataAt, Slot.context, Prod.mk.injEq] at place data opened notified <;>
      refine ⟨.ended ?_ waiting ?_ ?_ ?_, ?_, ?_, ?_, ?_⟩ <;>
      simp [Slot.returned, Slot.terminal, Slot.finish, Slot.closeSocket, Slot.release, Slot.context, Slot.setContext, Outcome.result,
        Slot.place, Slot.data, Slot.Settled, Slot.freed, held, light_nil, place, data, failures, opens, notified, opened]
  | rejected side after running waiting closing place data failures opens =>
    cases running
    rcases closing with rfl | rfl <;> cases side <;>
      simp only [Slot.place, Slot.data, Slot.dataAt, Prod.mk.injEq] at place data <;>
      refine ⟨.ended ?_ waiting ?_ ?_ ?_, ?_, ?_, ?_, ?_⟩ <;>
      simp [Slot.returned, Slot.terminal, Slot.finish, Slot.closeSocket, Slot.context, Slot.setContext, Outcome.result, Slot.place,
        Slot.data, Slot.Settled, Slot.freed, held, light_nil, place, data, failures, opens]
  | closing below running light waiting place data failures opens =>
    cases running
    simp only [Slot.place, Slot.data, Prod.mk.injEq] at place data
    refine ⟨.ended light waiting ?_ ?_ ?_, ?_, ?_, ?_, ?_⟩ <;>
      simp [Slot.returned, Outcome.result, Slot.place, Slot.data, Slot.Settled, Slot.freed, held, place, data, failures, opens]
  | opened isShuttingDown light waiting place data failures opens =>
    have same : s.returned call = { slot := s } := by
      rcases light call List.mem_cons_self with rfl | rfl <;> rfl
    rw [same]
    exact .same (.opened isShuttingDown light.tail waiting place data failures opens) held
  | ended light waiting place data once =>
    have same : s.returned call = { slot := s } := by
      rcases light call List.mem_cons_self with rfl | rfl <;> rfl
    rw [same]
    exact .same (.ended light.tail waiting place data once) held

/-- The connect goes on by itself: it has not just been cancelled. -/
def Lively (s : Slot) (calls : List Call) (waits : List Bool) : Prop :=
  s.request ≠ .none ∨ s.socket ≠ .none ∨ s.done = true ∨ calls ≠ [] ∨ waits ≠ []

theorem lively_closeSocket (stage : Stage s calls waits) (socket : s.socket ≠ .none) :
    Lively s.closeSocket.result (s.closeSocket.calls ++ calls) waits := by
  have still {request : Request} {pointer done : Bool} (place : s.place = (request, .none, pointer, done)) :
      Lively s.closeSocket.result (s.closeSocket.calls ++ calls) waits := absurd (congrArg (·.2.1) place) socket
  cases stage with
  | refused _ _ place | refusing _ _ place | pending _ _ place | cancelled _ _ place | reporting _ _ place
  | rejected _ _ _ _ _ place | closing _ _ _ _ place | ended _ _ place => exact still place
  | handshaking side running waiting place data failures opens dial peer opened =>
    simp only [Slot.place, Prod.mk.injEq] at place
    cases side <;> simp only [Slot.context] at opened <;>
      simp [Lively, Slot.closeSocket, Slot.context, Slot.release, Slot.announce, place, opened, dial, peer]
  | rejecting side running waiting place data failures opens notified opened =>
    simp [Lively, running]
  | opened isShuttingDown light waiting place =>
    simp only [Slot.place, Prod.mk.injEq] at place
    cases isShuttingDown <;> simp [Lively, Slot.closeSocket, Outcome.result, place]

/-- A handler behind which nothing is left to do leaves its connect with a socket, or retired. -/
theorem lively_light {call : Call} (stage : Stage s (call :: calls) waits) (light : call = .opening ∨ call = .ending) :
    Lively s calls waits := by
  cases stage with
  | opened isShuttingDown _ _ place =>
    refine .inr (.inl ?_)
    rw [show s.socket = .frame isShuttingDown from congrArg (·.2.1) place]
    exact Socket.noConfusion
  | ended _ _ place => exact .inr (.inr (.inl (congrArg (·.2.2.2) place)))
  | refused running | pending running | cancelled running | handshaking _ running => cases running
  | refusing running | reporting running | rejecting _ running | rejected _ _ running | closing _ running =>
    cases running
    rcases light with same | same <;> cases same

theorem lively_returned {call : Call} (stage : Stage s (call :: calls) waits) :
    Lively (s.returned call).result ((s.returned call).calls ++ calls) waits := by
  cases call with
  | failed side after => exact .inr (.inr (.inl rfl))
  | refused user => exact .inr (.inr (.inl rfl))
  | closing => exact .inr (.inr (.inl rfl))
  | opening => exact lively_light stage (.inl rfl)
  | ending => exact lively_light stage (.inr rfl)

theorem lively_connectError (stage : Stage s [] waits) (pending : s.request = .pending) :
    Lively s.connectError.result (s.connectError.calls ++ []) waits := by
  have dial := (dialing stage pending).dial
  simp [Lively, Slot.connectError, Slot.announce, dial]

theorem stage_freeContexts (stage : Stage s [] waits) (settled : s.Settled) (held : s.frees = 0) :
    Stage s.freeContexts.slot [] waits ∧ s.freeContexts.fault = false := by
  cases stage with
  | refused running waiting place data failures opens =>
    simp only [Slot.place, Slot.data, Prod.mk.injEq] at place data
    refine ⟨.refused rfl waiting ?_ ?_ failures opens, ?_⟩ <;>
      simp [Slot.freeContexts, Slot.place, Slot.data, Slot.freed, held, place, data]
  | cancelled running waiting place data peer failures opens =>
    simp only [Slot.place, Prod.mk.injEq] at place
    refine ⟨.cancelled rfl waiting ?_ ?_ rfl failures opens, ?_⟩ <;>
      simp [Slot.freeContexts, Slot.place, Slot.freed, held, place, peer, data]
  | ended light waiting place data once =>
    simp only [Slot.place, Slot.data, Prod.mk.injEq] at place data
    refine ⟨.ended light_nil waiting ?_ ?_ once, ?_⟩ <;>
      simp [Slot.freeContexts, Slot.place, Slot.data, Slot.freed, held, place, data]
  | pending _ _ place => exact absurd (congrArg (·.1) place) settled.2.1
  | handshaking _ _ _ place => exact absurd (congrArg (·.1) place) settled.2.2
  | opened _ _ _ place => cases (congrArg (·.2.1) place).symm.trans settled.1
  | refusing running => cases running
  | reporting running => cases running
  | rejecting _ running => cases running
  | rejected _ _ running => cases running
  | closing _ running => cases running

theorem stage_refusing (stage : Stage s calls (user :: waits)) :
    Stage { s with failures := s.failures + s.dial.failedHandler.toNat } (.refused user :: calls) waits := by
  cases stage with
  | refused running waiting place data failures opens =>
    cases waiting
    subst running
    refine .refusing rfl rfl place data ?_ opens
    show s.failures + s.dial.failedHandler.toNat ≤ 1
    rw [failures, Nat.zero_add]
    exact Bool.toNat_le _
  | refusing _ waiting => cases waiting
  | pending _ waiting => cases waiting
  | cancelled _ waiting => cases waiting
  | reporting _ waiting => cases waiting
  | handshaking _ _ waiting => cases waiting
  | rejecting _ _ waiting => cases waiting
  | rejected _ _ _ waiting => cases waiting
  | opened _ _ waiting => cases waiting
  | closing _ _ _ waiting => cases waiting
  | ended _ waiting => cases waiting

theorem stage_forgotten (stage : Stage s calls (user :: waits)) : Stage { s with users := s.users + user.toNat } calls waits := by
  cases stage with
  | refused running waiting place data failures opens =>
    cases waiting
    simp only [Slot.data, Prod.mk.injEq] at data
    refine .cancelled running rfl place ?_ data.2.2 failures opens
    simp [data]
  | refusing _ waiting => cases waiting
  | pending _ waiting => cases waiting
  | cancelled _ waiting => cases waiting
  | reporting _ waiting => cases waiting
  | handshaking _ _ waiting => cases waiting
  | rejecting _ _ waiting => cases waiting
  | rejected _ _ _ waiting => cases waiting
  | opened _ _ waiting => cases waiting
  | closing _ _ _ waiting => cases waiting
  | ended _ waiting => cases waiting

theorem Stage.result (stage : Stage s calls waits) : s.failures + s.opens ≤ 1 ∧ s.users ≤ s.userData.toNat := by
  cases stage with
  | refused _ _ _ data failures opens | pending _ _ _ data failures opens =>
    simp only [Slot.data, Slot.dataAt, Prod.mk.injEq] at data
    simp [failures, opens, data]
  | refusing _ _ _ data failures opens | reporting _ _ _ data failures opens =>
    simp only [Slot.data, Slot.dataAt, Prod.mk.injEq] at data
    simp [failures, opens, data]
  | cancelled _ _ _ data _ failures opens =>
    refine ⟨by simp [failures, opens], ?_⟩
    omega
  | handshaking side _ _ _ data failures opens =>
    have none_ : s.users = 0 := by cases side <;> exact congrArg (·.1) data
    simp [failures, opens, none_]
  | rejecting side _ _ _ data failures opens =>
    have none_ : s.users = 0 := by cases side <;> exact congrArg (·.1) data
    simp [failures, opens, none_]
  | rejected side _ _ _ _ _ data failures opens =>
    have none_ : s.users = 0 := by cases side <;> exact congrArg (·.1) data
    simp [failures, opens, none_]
  | opened _ _ _ _ data failures opens | closing _ _ _ _ _ data failures opens =>
    simp only [Slot.data, Prod.mk.injEq] at data
    simp [failures, opens, data]
  | ended _ _ _ data once =>
    simp only [Slot.data, Prod.mk.injEq] at data
    exact ⟨once, le_of_eq data.1⟩

end Uws.Client
