import Uws.Sweep.ListOperations

/-! What every operation does to the lists, and to the part of a list that an iterator has before it. -/

namespace Uws.Sweep

open Uws.LinkedList

/-- The sockets that an operation takes out of the list of their context. -/
def Operation.Unlinks (loop : Loop) (x : Address) : Operation → Prop
  | .close s => s = x
  | .closeConnecting s => s = x
  | .adopt _ s _ => s = x
  | .readable s lowPrio => s = x ∧ lowPrio = true ∧ loop.lowPrioState s ≠ 2 ∧ loop.lowPrioBudget = 0
  | _ => False

instance (loop : Loop) (x : Address) : (operation : Operation) → Decidable (operation.Unlinks loop x)
  | .createContext _ => inferInstanceAs (Decidable False)
  | .accept _ _ => inferInstanceAs (Decidable False)
  | .connect _ _ => inferInstanceAs (Decidable False)
  | .promote _ => inferInstanceAs (Decidable False)
  | .timeout _ _ => inferInstanceAs (Decidable False)
  | .longTimeout _ _ => inferInstanceAs (Decidable False)
  | .close s => inferInstanceAs (Decidable (s = x))
  | .closeConnecting s => inferInstanceAs (Decidable (s = x))
  | .adopt _ s _ => inferInstanceAs (Decidable (s = x))
  | .readable s lowPrio =>
    inferInstanceAs (Decidable (s = x ∧ lowPrio = true ∧ loop.lowPrioState s ≠ 2 ∧ loop.lowPrioBudget = 0))
  | .handleLowPrioritySockets => inferInstanceAs (Decidable False)
  | .freeClosedSockets => inferInstanceAs (Decidable False)

/-- The iterator of a context stands before `todo`, which is the end of its list. -/
structure Ahead (loop : Loop) (lists : Place → List Address) (context : Address) (todo : List Address) : Prop where
  iterator : loop.iterator context = todo.head?
  suffix : todo <:+ lists (.sockets context)

/-- What is before an iterator only gets less, and by no other sockets than those of `gone`. -/
def Follows (loop : Loop) (lists : Place → List Address) (loop' : Loop) (lists' : Place → List Address)
    (gone : Address → Prop) : Prop :=
  ∀ context ∈ loop.contexts, ∀ todo, Ahead loop lists context todo →
    ∃ left, Ahead loop' lists' context left ∧ left.Sublist todo ∧ ∀ x ∈ todo, ¬ gone x → x ∈ left

variable {loop between loop' : Loop} {lists among lists' : Place → List Address} {gone : Address → Prop}
  {s s' context : Address} {pre post : List Address}

namespace Follows

theorem of_same (iterators : ∀ c ∈ loop.contexts, loop'.iterator c = loop.iterator c)
    (sockets : ∀ c ∈ loop.contexts, lists (.sockets c) <:+ lists' (.sockets c)) : Follows loop lists loop' lists' gone := by
  intro context known todo ahead
  exact ⟨todo, ⟨(iterators context known).trans ahead.iterator, ahead.suffix.trans (sockets context known)⟩,
    List.Sublist.refl todo, fun _ member _ => member⟩

theorem trans {gone' : Address → Prop} (first : Follows loop lists between among gone)
    (contexts : ∀ c ∈ loop.contexts, c ∈ between.contexts) (second : Follows between among loop' lists' gone')
    (fewer : ∀ x, gone' x → gone x) : Follows loop lists loop' lists' gone := by
  intro context known todo ahead
  obtain ⟨left, ahead, sublist, kept⟩ := first context known todo ahead
  obtain ⟨rest, ahead, shorter, still⟩ := second context (contexts context known) left ahead
  refine ⟨rest, ahead, shorter.trans sublist, ?_⟩
  intro x member stays
  exact still x (kept x member stays) fun leaves => stays (fewer x leaves)

end Follows

namespace Threaded

theorem unlinkSocket_follows (threaded : Threaded loop lists none) (split : lists (.sockets context) = pre ++ s :: post) :
    Follows loop lists (loop.unlinkSocket context s) (Function.update lists (.sockets context) (pre ++ post))
      fun x => s = x := by
  rw [unlinkSocket_eq threaded.family split]
  intro c _ todo ahead
  by_cases same : c = context
  · subst same
    have nodup := (threaded.family.linked (.sockets c)).nodup
    obtain ⟨passed, whole⟩ := ahead.suffix
    have after := (threaded.family.linked (.sockets c)).next pre s post split
    rw [split] at nodup
    rcases List.append_eq_append_iff.mp (whole.trans split) with ⟨mid, rfl, cut⟩ | ⟨mid, rfl, cut⟩
    · -- the socket is before the iterator, or at it
      cases mid with
      | nil =>
        simp only [List.nil_append] at cut
        subst cut
        refine ⟨post, ⟨?_, ?_⟩, List.sublist_cons_self s post, ?_⟩
        · simp [ahead.iterator, after]
        · simp
        · intro x member stays
          rcases List.mem_cons.mp member with rfl | member
          · exact absurd rfl stays
          · exact member
      | cons b mid =>
        subst cut
        have ne : b ≠ s := by
          rintro rfl
          simp [List.nodup_append] at nodup
        refine ⟨b :: (mid ++ post), ⟨?_, ?_⟩, ?_, ?_⟩
        · simp [ahead.iterator, ne]
        · simp only [Function.update_self]
          exact ⟨passed, by simp⟩
        · simp only [List.cons_append]
          exact List.Sublist.cons_cons b ((List.Sublist.refl mid).append (List.sublist_cons_self s post))
        · intro x member stays
          simp only [List.cons_append, List.mem_cons, List.mem_append] at member ⊢
          rcases member with rfl | member | rfl | member
          · exact .inl rfl
          · exact .inr (.inl member)
          · exact absurd rfl stays
          · exact .inr (.inr member)
    · -- the socket is behind the iterator
      cases mid with
      | nil =>
        simp only [List.nil_append] at cut
        subst cut
        refine ⟨post, ⟨?_, ?_⟩, List.sublist_cons_self s post, ?_⟩
        · simp [ahead.iterator, after]
        · simp
        · intro x member stays
          rcases List.mem_cons.mp member with rfl | member
          · exact absurd rfl stays
          · exact member
      | cons b mid =>
        simp only [List.cons_append, List.cons.injEq] at cut
        obtain ⟨rfl, rfl⟩ := cut
        refine ⟨todo, ⟨?_, ?_⟩, List.Sublist.refl todo, fun _ member _ => member⟩
        · have ne : todo.head? ≠ some s := by
            intro first
            have member := List.mem_of_head? first
            simp [List.nodup_append, member] at nodup
          simp only [ahead.iterator, if_neg ne]
        · simp only [Function.update_self]
          exact ⟨pre ++ mid, by simp⟩
  · refine ⟨todo, ⟨?_, ?_⟩, List.Sublist.refl todo, fun _ member _ => member⟩
    · rw [← ahead.iterator]
      by_cases iterated : loop.iterator context = some s
      · simp [iterated, same]
      · simp [iterated]
    · simpa [same] using ahead.suffix

end Threaded

structure Outcome (loop : Loop) (lists : Place → List Address) (gone : Address → Prop) (loop' : Loop)
    (lists' : Place → List Address) (loose : Option Address) : Prop where
  threaded : Threaded loop' lists' loose
  follows : Follows loop lists loop' lists' gone
  contexts : ∀ c ∈ loop.contexts, c ∈ loop'.contexts

namespace Outcome

variable {loose loose' : Option Address} {place : Place} {l : List Address}

theorem refl (threaded : Threaded loop lists none) : Outcome loop lists gone loop lists none :=
  ⟨threaded, Follows.of_same (fun _ _ => rfl) (fun _ _ => List.suffix_refl _), fun _ known => known⟩

theorem trans (first : Outcome loop lists gone between among loose) (second : Outcome between among gone loop' lists' loose') :
    Outcome loop lists gone loop' lists' loose' :=
  ⟨second.threaded, first.follows.trans first.contexts second.follows fun _ => id,
    fun c known => second.contexts c (first.contexts c known)⟩

theorem aside (loop : Loop) (lists : Place → List Address) (threaded : Threaded loop' lists' loose)
    (iterator : loop'.iterator = loop.iterator) (contexts : loop'.contexts = loop.contexts)
    (same : ∀ c, lists' (.sockets c) = lists (.sockets c)) :
    Outcome loop lists gone loop' lists' loose := by
  refine ⟨threaded, Follows.of_same (fun _ _ => by rw [iterator]) ?_, fun _ known => by rwa [contexts]⟩
  intro c _
  rw [same c]

theorem unlinkSocket (threaded : Threaded loop lists none) (split : lists (.sockets context) = pre ++ s :: post) :
    Outcome loop lists (fun x => s = x) (loop.unlinkSocket context s)
      (Function.update lists (.sockets context) (pre ++ post)) (some s) := by
  refine ⟨threaded.unlinkSocket split, threaded.unlinkSocket_follows split, ?_⟩
  rw [unlinkSocket_eq threaded.family split]
  exact fun _ known => known

theorem linkSocket (threaded : Threaded loop lists (some s)) (known : context ∈ loop.contexts)
    (state : loop.lowPrioState s ≠ 1) :
    Outcome loop lists gone (loop.linkSocket context s)
      (Function.update lists (.sockets context) (s :: lists (.sockets context))) none := by
  refine ⟨threaded.linkSocket known state, Follows.of_same (fun _ _ => rfl) ?_, fun _ known => known⟩
  intro c _
  by_cases same : c = context
  · subst same
    simp
  · simp [same]

theorem linkClosed (threaded : Threaded loop lists (some s)) :
    Outcome loop lists gone (loop.linkClosed s) (Function.update lists .closed (s :: lists .closed)) none := by
  apply aside loop lists threaded.linkClosed rfl rfl
  simp

end Outcome

variable (threaded : Threaded loop lists none)
include threaded

theorem unlinked_state (split : lists (.sockets context) = pre ++ s :: post) :
    (loop.unlinkSocket context s).lowPrioState = loop.lowPrioState ∧
      (loop.unlinkSocket context s).established = loop.established ∧
      (loop.unlinkSocket context s).allocated = loop.allocated ∧
      (loop.unlinkSocket context s).contexts = loop.contexts := by
  rw [unlinkSocket_eq threaded.family split]
  exact ⟨rfl, rfl, rfl, rfl⟩

theorem close_outcome (member : s ∈ loop.allocated) :
    ∃ lists', Outcome loop lists (fun x => s = x) (loop.close s) lists' none := by
  unfold Loop.close
  split
  · exact ⟨lists, Outcome.refl threaded⟩
  · rename_i opened
    split
    · rename_i parked
      obtain ⟨pre, post, split⟩ := List.append_of_mem (threaded.in_queue member opened parked)
      have left := threaded.leaveLowPriority split
      refine ⟨_, (Outcome.aside loop lists left rfl rfl ?_).trans (Outcome.linkClosed left)⟩
      simp
    · rename_i free
      obtain ⟨pre, post, split⟩ := List.append_of_mem (threaded.in_sockets member opened free)
      have left := Outcome.unlinkSocket threaded split
      exact ⟨_, left.trans (Outcome.linkClosed left.threaded)⟩

theorem closeConnecting_outcome (member : s ∈ loop.allocated) (connecting : loop.established s = false) :
    ∃ lists', Outcome loop lists (fun x => s = x) (loop.closeConnecting s) lists' none := by
  unfold Loop.closeConnecting
  split
  · exact ⟨lists, Outcome.refl threaded⟩
  · rename_i opened
    have free : loop.lowPrioState s ≠ 1 := by
      intro parked
      have established := (threaded.queued s (threaded.in_queue member opened parked)).2
      rw [connecting] at established
      cases established
    obtain ⟨pre, post, split⟩ := List.append_of_mem (threaded.in_sockets member opened free)
    have left := Outcome.unlinkSocket threaded split
    exact ⟨_, left.trans (Outcome.linkClosed left.threaded)⟩

theorem adoptSocket_outcome (member : s ∈ loop.allocated) (known : context ∈ loop.contexts)
    (new : s' = s ∨ s'.IsSocket ∧ s' ∉ loop.allocated) :
    ∃ lists', Outcome loop lists (fun x => s = x) (loop.adoptSocket context s s') lists' none := by
  unfold Loop.adoptSocket
  split
  · exact ⟨lists, Outcome.refl threaded⟩
  · rename_i opened
    split
    · rename_i parked
      obtain ⟨pre, post, split⟩ := List.append_of_mem (threaded.in_queue member opened parked)
      refine ⟨_, Outcome.aside loop lists (threaded.resize_queued split new) rfl rfl ?_⟩
      simp
    · rename_i free
      obtain ⟨pre, post, split⟩ := List.append_of_mem (threaded.in_sockets member opened free)
      have left := Outcome.unlinkSocket threaded split
      obtain ⟨state, -, allocated, contexts⟩ := unlinked_state threaded split
      have moved := (left.threaded.resize (by rwa [allocated])).forgetTimeouts s'
      have kept := left.trans (Outcome.aside _ _ moved rfl rfl fun _ => rfl)
      refine ⟨_, kept.trans (Outcome.linkSocket moved (by rwa [← contexts] at known) ?_)⟩
      simpa [Loop.forgetTimeouts, Loop.resize, state] using free

theorem readable_outcome {lowPrio : Bool} (member : s ∈ loop.allocated) (opened : ¬ loop.isClosed s)
    (free : loop.lowPrioState s ≠ 1) (established : loop.established s = true) :
    ∃ lists', Outcome loop lists
      (fun x => s = x ∧ lowPrio = true ∧ loop.lowPrioState s ≠ 2 ∧ loop.lowPrioBudget = 0)
      (loop.readable s lowPrio) lists' none := by
  have listed := threaded.in_sockets member opened free
  unfold Loop.readable
  split
  · rename_i prioritized
    split
    · rename_i delayed
      refine ⟨lists, Outcome.aside loop lists ?_ rfl rfl fun _ => rfl⟩
      refine ⟨threaded.family, threaded.allocated, threaded.out, ?_, ?_, threaded.closed, threaded.kinds,
        threaded.contexts⟩
      · intro other x inside
        refine ⟨(threaded.sockets other x inside).1, ?_⟩
        by_cases same : x = s
        · simp [same]
        · simpa [same] using (threaded.sockets other x inside).2
      · intro x inside
        have away : x ≠ s := by
          rintro rfl
          cases threaded.place_unique inside listed
        simpa [away] using threaded.queued x inside
    · rename_i delayed
      split
      · exact ⟨lists, Outcome.aside loop lists ⟨threaded.family, threaded.allocated, threaded.out, threaded.sockets,
          threaded.queued, threaded.closed, threaded.kinds, threaded.contexts⟩ rfl rfl fun _ => rfl⟩
      · rename_i spent
        obtain ⟨pre, post, split⟩ := List.append_of_mem listed
        have left := Outcome.unlinkSocket threaded split
        obtain ⟨-, same, -, -⟩ := unlinked_state threaded split
        have parked := left.threaded.linkLowPriority (by rwa [same])
        have whole := left.trans (Outcome.aside _ _ parked rfl rfl (by simp))
        refine ⟨_, whole.threaded, ?_, whole.contexts⟩
        intro c inside todo ahead
        obtain ⟨rest, after, sublist, kept⟩ := whole.follows c inside todo ahead
        refine ⟨rest, after, sublist, ?_⟩
        intro x before stays
        apply kept x before
        rintro rfl
        exact stays ⟨rfl, prioritized, delayed, by omega⟩
  · exact ⟨lists, Outcome.refl threaded⟩

theorem unparks_outcome (budget : Nat) :
    ∃ lists', Outcome loop lists (fun _ => False) (Loop.unparks budget loop) lists' none := by
  induction budget generalizing loop lists with
  | zero => exact ⟨lists, Outcome.refl threaded⟩
  | succ budget ih =>
    unfold Loop.unparks
    split
    · rename_i s first
      have head := (threaded.family.linked .queue).head
      simp only [Loop.heads] at head
      rw [first] at head
      obtain ⟨post, split⟩ := List.head?_eq_some_iff.mp head.symm
      have unparked := threaded.unpark split
      have budgeted : Threaded { loop.unpark s with lowPrioBudget := budget } _ none :=
        ⟨unparked.family, unparked.allocated, unparked.out, unparked.sockets, unparked.queued, unparked.closed,
          unparked.kinds, unparked.contexts⟩
      obtain ⟨lists', rest⟩ := ih budgeted
      refine ⟨lists', Outcome.trans ⟨budgeted, Follows.of_same (fun _ _ => rfl) ?_, fun _ known => known⟩ rest⟩
      intro c _
      by_cases same : c = loop.context s
      · subst same
        simp
      · simp [same]
    · exact ⟨lists, Outcome.refl threaded⟩

theorem apply_outcome (operation : Operation) :
    ∃ lists', Outcome loop lists (fun x => operation.Unlinks loop x) (loop.apply operation) lists' none := by
  unfold Loop.apply
  split
  · rename_i possible
    cases operation with
    | createContext context =>
      obtain ⟨kind, new⟩ := possible
      refine ⟨lists, threaded.createContext kind new, Follows.of_same ?_ (fun _ _ => List.suffix_refl _),
        fun c known => List.mem_cons_of_mem _ known⟩
      intro c known
      have other : c ≠ context := by
        rintro rfl
        exact new known
      simp [Operation.run, Loop.createContext, other]
    | accept context s =>
      obtain ⟨known, socket, new⟩ := possible
      have allocated := threaded.allocate true known socket new
      exact ⟨_, (Outcome.aside loop lists allocated rfl rfl fun _ => rfl).trans
        (Outcome.linkSocket allocated known (by simp [Loop.allocate]))⟩
    | connect context s =>
      obtain ⟨known, socket, new⟩ := possible
      have allocated := threaded.allocate false known socket new
      exact ⟨_, (Outcome.aside loop lists allocated rfl rfl fun _ => rfl).trans
        (Outcome.linkSocket allocated known (by simp [Loop.allocate]))⟩
    | promote s =>
      refine ⟨lists, Outcome.aside loop lists ⟨threaded.family, threaded.allocated, threaded.out, threaded.sockets, ?_,
        threaded.closed, threaded.kinds, threaded.contexts⟩ rfl rfl fun _ => rfl⟩
      intro x inside
      refine ⟨(threaded.queued x inside).1, ?_⟩
      by_cases same : x = s
      · simp [Operation.run, same]
      · simpa [Operation.run, same] using (threaded.queued x inside).2
    | timeout s seconds =>
      exact ⟨lists, Outcome.aside loop lists ⟨threaded.family, threaded.allocated, threaded.out, threaded.sockets,
        threaded.queued, threaded.closed, threaded.kinds, threaded.contexts⟩ rfl rfl fun _ => rfl⟩
    | longTimeout s minutes =>
      exact ⟨lists, Outcome.aside loop lists ⟨threaded.family, threaded.allocated, threaded.out, threaded.sockets,
        threaded.queued, threaded.closed, threaded.kinds, threaded.contexts⟩ rfl rfl fun _ => rfl⟩
    | close s => exact close_outcome threaded possible
    | closeConnecting s => exact closeConnecting_outcome threaded possible.1 possible.2
    | adopt context s s' => exact adoptSocket_outcome threaded possible.1 possible.2.1 possible.2.2
    | readable s lowPrio => exact readable_outcome threaded possible.1 possible.2.1 possible.2.2.1 possible.2.2.2
    | handleLowPrioritySockets =>
      have budgeted : Threaded { loop with lowPrioBudget := Loop.maxLowPrioSocketsPerLoopIteration } lists none :=
        ⟨threaded.family, threaded.allocated, threaded.out, threaded.sockets, threaded.queued, threaded.closed,
          threaded.kinds, threaded.contexts⟩
      obtain ⟨lists', rest⟩ := unparks_outcome budgeted Loop.maxLowPrioSocketsPerLoopIteration
      exact ⟨lists', (Outcome.aside loop lists budgeted rfl rfl fun _ => rfl).trans rest⟩
    | freeClosedSockets =>
      refine ⟨_, Outcome.aside loop lists threaded.freeClosedSockets rfl rfl ?_⟩
      simp
  · exact ⟨lists, Outcome.refl threaded⟩

end Uws.Sweep
