import Uws.PubSub.KeptTopics

/-! That no operation reads or writes a deleted topic or subscriber. -/

namespace Uws.PubSub

variable {T B : Type} {tree : TopicTree T} {stack : List (Frame T B)} {s x : Subscriber} {t : Topic} {l : List Subscriber}

namespace TopicTree

variable (tree : TopicTree T)

/-- The cells that `unlinkDrainableSubscriber` writes are not deleted. -/
def UnlinkSafe (s : Subscriber) : Prop :=
  s ∈ tree.subscribers ∧ (∀ x ∈ tree.prev s, x ∈ tree.subscribers) ∧ ∀ x ∈ tree.next s, x ∈ tree.subscribers

/-- Each topic is in the map when its set is left. -/
def LeaveSafe (s : Subscriber) : List Topic → TopicTree T → Prop
  | [], _ => True
  | t :: left, tree => tree.Owns t ∧ LeaveSafe s left (leaveTopic s tree t)

def DestroySafe (s : Subscriber) (alreadyUnlinked : Bool) : Prop :=
  let left := (tree.topicsOf s).foldl (leaveTopic s) tree
  s ∈ tree.subscribers ∧ LeaveSafe s (tree.topicsOf s) tree ∧
    (alreadyUnlinked = false → left.needsDrainage s = true → left.UnlinkSafe s)

/-- Each subscriber that waits is still there when its turn comes. -/
def FreeSafe : List Subscriber → TopicTree T → Prop
  | [], _ => True
  | s :: freed, tree => tree.DestroySafe s true ∧ FreeSafe freed (tree.destroySubscriber s true)

def FreeSubscriberSafe (s : Subscriber) : Prop :=
  if 0 < tree.drainingDepth ∨ tree.applying = true then s ∈ tree.subscribers ∧ (tree.needsDrainage s = true → tree.UnlinkSafe s)
  else tree.DestroySafe s false

/-- A topic that is found, with the subscribers of its set. -/
def TopicSafe (t : Topic) : Prop := tree.Owns t ∧ ∀ s ∈ tree.members t, s ∈ tree.subscribers

def DrainSubscriberSafe (s : Subscriber) : Prop :=
  s ∈ tree.subscribers ∧ (tree.needsDrainage s = true → tree.UnlinkSafe s)

/-- The subscriber and, with its first message, the head of the list that it is put before. -/
def HandOutSafe (s : Subscriber) : Prop :=
  s ∈ tree.subscribers ∧ (tree.numMessageIndices s = 0 → ∀ x ∈ tree.drainableSubscribers, x ∈ tree.subscribers)

/-- What the loop of `publish` reads and writes of a subscriber that it comes to. -/
def PublishToSafe (s : Subscriber) : Prop := tree.DrainSubscriberSafe s ∧ tree.HandOutSafe s

def CallSafe : Call T B → Prop
  | .createSubscriber _ => True
  | .subscribe s topic _ => s ∈ tree.subscribers ∧ ∀ t ∈ tree.topics topic, tree.TopicSafe t
  | .unsubscribe s topic => s ∈ tree.subscribers ∧ ∀ t ∈ tree.topics topic, tree.TopicSafe t
  | .freeSubscriber s => tree.FreeSubscriberSafe s
  | .publish _ topic _ => ∀ t ∈ tree.topics topic, tree.TopicSafe t
  | .publishBig _ topic _ => ∀ t ∈ tree.topics topic, tree.TopicSafe t
  | .drainSubscriber s => tree.DrainSubscriberSafe s
  | .drain => ∀ s ∈ tree.drainableSubscribers, s ∈ tree.subscribers
  | .iterateTopics _ => True

def OpSafe : PendingOp T → Prop
  | .subscribe _ t => tree.Owns t
  | .unsubscribe _ t => tree.Owns t
  | .publish _ topic _ => ∀ t ∈ tree.topics topic, tree.TopicSafe t

end TopicTree

/-- Every topic that the next step reads or writes is in the map, and every subscriber is created and not destroyed. -/
def Machine.Safe (m : Machine T B) : Action T B → Prop
  | .call call => Outside m.stack → call.Possible m.tree → m.tree.CallSafe call
  | .return_ _ => True
  | .proceed pick =>
    match m.stack with
    | [] => True
    | .callback _ :: _ => True
    | .drainImpl s _ _ :: _ => s ∈ m.tree.subscribers
    | .drainSubscriber :: _ => True
    | .drain first :: _ => ∀ s ∈ first, s ∈ m.tree.subscribers
    | .publishFull _ t _ :: _ => m.tree.TopicSafe t
    | .publish _ t _ rest _ :: _ => m.tree.Owns t ∧ ∀ next ∈ pickOne pick rest, m.tree.PublishToSafe next.1
    | .publishDrained _ t _ s _ _ :: _ => m.tree.Owns t ∧ m.tree.HandOutSafe s
    | .publishBig _ t _ rest :: _ => m.tree.Owns t ∧ ∀ next ∈ pickOne pick rest, next.1 ∈ m.tree.subscribers
    | .applyPending :: _ =>
      match m.tree.pendingOps with
      | op :: _ => m.tree.OpSafe op
      | [] => TopicTree.FreeSafe m.tree.pendingFree { m.tree with pendingFree := [] }

section Safety

theorem Queue.unlinkSafe (queue : Queue tree l) (member : s ∈ tree.subscribers) (needs : tree.needsDrainage s = true) :
    tree.UnlinkSafe s := by
  obtain ⟨pre, post, rfl⟩ := List.append_of_mem (queue.needing s member needs)
  refine ⟨member, ?_, ?_⟩
  · rw [queue.linked.prev_at]
    exact fun x last => queue.inside x (List.mem_append_left _ (List.mem_of_getLast? last))
  · rw [queue.linked.next_at]
    exact fun x behind => queue.inside x (List.mem_append_right _ (List.mem_cons_of_mem s (List.mem_of_head? behind)))

theorem Queue.headSafe (queue : Queue tree l) : ∀ x ∈ tree.drainableSubscribers, x ∈ tree.subscribers := by
  rw [queue.linked.head]
  exact fun x first => queue.inside x (List.mem_of_head? first)

theorem Queue.drainSafe (queue : Queue tree l) (member : s ∈ tree.subscribers) : tree.DrainSubscriberSafe s :=
  ⟨member, queue.unlinkSafe member⟩

theorem Queue.handOutSafe (queue : Queue tree l) (member : s ∈ tree.subscribers) : tree.HandOutSafe s :=
  ⟨member, fun _ => queue.headSafe⟩

theorem Stored.topicSafe (stored : Stored tree) (topic : Bytes) : ∀ t ∈ tree.topics topic, tree.TopicSafe t := by
  intro t found
  have owns := stored.consistent.lookup found
  exact ⟨owns, (stored.consistent.members t owns).2⟩

theorem leaveSafe {left : List Topic} (leaving : Leaving s left tree) (nodup : left.Nodup) : TopicTree.LeaveSafe s left tree := by
  induction left generalizing tree with
  | nil => exact True.intro
  | cons t left ih =>
    exact ⟨(leaving.mine t List.mem_cons_self).1, ih (leaveTopic_leaving leaving nodup) (List.nodup_cons.mp nodup).2⟩

theorem destroySafe (stored : Stored tree) (undeferred : tree.pendingOps = []) (member : s ∈ tree.subscribers) :
    TopicTree.LeaveSafe s (tree.topicsOf s) tree :=
  leaveSafe (leaving_start stored.consistent stored.peopled undeferred member) (stored.consistent.distinct s member)

theorem freeSafe {freed : List Subscriber} (stored : Stored tree) (undeferred : tree.pendingOps = [])
    (none_ : tree.pendingFree = []) (nodup : freed.Nodup) (members : ∀ s ∈ freed, s ∈ tree.subscribers) :
    TopicTree.FreeSafe freed tree := by
  induction freed generalizing tree with
  | nil => exact True.intro
  | cons s freed ih =>
    obtain ⟨own, others⟩ := List.nodup_cons.mp nodup
    have member := members s List.mem_cons_self
    obtain ⟨next, still⟩ := stored.destroy undeferred member (by rw [none_]; exact List.not_mem_nil) true
    obtain ⟨subscribers, -, -, -, -, -, -, -, free, -⟩ := destroySubscriber_frame tree s true
    refine ⟨⟨member, destroySafe stored undeferred member, fun absent => absurd absent.symm Bool.false_ne_true⟩, ?_⟩
    apply ih next still (free.trans none_) others
    intro x inside
    rw [subscribers]
    refine List.mem_filter.mpr ⟨members x (List.mem_cons_of_mem _ inside), decide_eq_true ?_⟩
    rintro rfl
    exact own inside

theorem freeSubscriberSafe (stored : Stored tree) (balanced : Balanced tree stack) (queue : Queue tree l) (live : tree.Live s) :
    tree.FreeSubscriberSafe s := by
  unfold TopicTree.FreeSubscriberSafe
  split
  · exact ⟨live.1, queue.unlinkSafe live.1⟩
  · rename_i idle
    have undeferred : tree.pendingOps = [] := by
      by_contra some_
      exact idle (balanced.waits (stored.consistent.flagged some_))
    obtain ⟨rest, subscribers, -⟩ := leaveTopics_rest s (tree.topicsOf s) tree
    have left := (queue.congr (links_of_rest rest subscribers)).queue
    exact ⟨live.1, destroySafe stored undeferred live.1, fun _ => left.unlinkSafe (by rw [subscribers]; exact live.1)⟩

theorem callSafe (stored : Stored tree) (balanced : Balanced tree stack) (queue : Queue tree l) (call : Call T B)
    (possible : call.Possible tree) : tree.CallSafe call := by
  cases call with
  | createSubscriber s => exact True.intro
  | subscribe s topic fresh => exact ⟨possible.1.1, stored.topicSafe topic⟩
  | unsubscribe s topic => exact ⟨possible.1, stored.topicSafe topic⟩
  | freeSubscriber s => exact freeSubscriberSafe stored balanced queue possible
  | publish sender topic message => exact stored.topicSafe topic
  | publishBig sender topic bigMessage => exact stored.topicSafe topic
  | drainSubscriber s => exact queue.drainSafe possible.1
  | drain => exact queue.headSafe
  | iterateTopics s => exact True.intro

theorem safe_of_guarded {m : Machine T B} (sound : Sound m) (held : Held m) (action : Action T B) : m.Safe action := by
  obtain ⟨tree, stack, log⟩ := m
  obtain ⟨stored, balanced⟩ := sound
  obtain ⟨l, guarded⟩ := held
  dsimp only at stored balanced guarded
  cases action with
  | call call => exact fun _ possible => callSafe stored balanced guarded.queue call possible
  | return_ stop => exact True.intro
  | proceed pick =>
    unfold Machine.Safe
    dsimp only
    cases stack with
    | nil => exact True.intro
    | cons frame stack =>
      have owns := guarded.owned frame List.mem_cons_self
      have alive := guarded.alive frame List.mem_cons_self
      cases frame with
      | callback s => exact True.intro
      | drainImpl s i num => exact alive s List.mem_cons_self
      | drainSubscriber => exact True.intro
      | drain first =>
        rintro s same
        obtain rfl := Option.mem_def.mp same
        exact (guarded.draining _ List.mem_cons_self).member guarded.queue
      | publishFull sender t message => exact ⟨owns t rfl, (stored.consistent.members t (owns t rfl)).2⟩
      | publish sender t message rest referencedMessage =>
        refine ⟨owns t rfl, ?_⟩
        rintro ⟨s, left⟩ picked
        have member := alive s (pickOne_mem picked).1
        exact ⟨guarded.queue.drainSafe member, guarded.queue.handOutSafe member⟩
      | publishDrained sender t message s rest referencedMessage =>
        exact ⟨owns t rfl, guarded.queue.handOutSafe (alive s List.mem_cons_self)⟩
      | publishBig sender t bigMessage rest =>
        refine ⟨owns t rfl, ?_⟩
        rintro ⟨s, left⟩ picked
        exact alive s (pickOne_mem picked).1
      | applyPending =>
        dsimp only
        have members : ∀ s ∈ tree.pendingFree, s ∈ tree.subscribers := fun s waits => (stored.freed.2 s waits).1
        have frees : tree.pendingOps = [] → TopicTree.FreeSafe tree.pendingFree { tree with pendingFree := [] } :=
          fun undeferred => freeSafe stored.swap undeferred rfl stored.freed.1 members
        cases split : tree.pendingOps with
        | nil => simpa only [split] using frees split
        | cons op ops =>
          have fits := stored.consistent.fits op (by rw [split]; exact List.mem_cons_self)
          cases op with
          | subscribe s t => exact fits.1
          | unsubscribe s t => exact fits.1
          | publish sender topic message => exact stored.topicSafe topic

end Safety

/-- Nothing deferred is overtaken, and nobody leaves as the last one a topic that a publish waits for. -/
def Careful (m : Machine T B) (action : Action T B) : Prop := Clear m.tree action ∧ Spares m action

/-- A callback that freed the subscriber that it was called for returns true. -/
def obliging (m : Machine T B) (action : Action T B) : Bool :=
  match action, m.stack with
  | .return_ stop, .callback s :: _ => !m.tree.wasFreed s || stop
  | _, _ => true

theorem held_start : Held ({} : Machine T B) := by
  refine ⟨[], ⟨LinkedList.DoublyLinked.nil, ?_, ?_, ?_⟩, ?_, True.intro, ?_, ?_, ?_, ?_⟩
  · exact fun s absent => absurd absent List.not_mem_nil
  · exact fun s absent => absurd absent List.not_mem_nil
  · exact fun s absent => absurd absent List.not_mem_nil
  · exact fun _ s absent => absurd absent List.not_mem_nil
  · exact fun frame absent => absurd absent List.not_mem_nil
  · exact fun frame absent => absurd absent List.not_mem_nil
  · exact fun frame absent => absurd absent List.not_mem_nil
  · exact fun first absent => absurd absent List.not_mem_nil

theorem careful_step {m : Machine T B} {action : Action T B} (kept : Sound m ∧ Held m) (careful : Careful m action) :
    Sound (m.step action) ∧ Held (m.step action) :=
  ⟨sound_step kept.1 careful.1, guarded_step kept.1 kept.2 careful.2⟩

/-- In a run that is careful, whatever callbacks do, no step reads or writes a deleted topic or subscriber. -/
theorem dead_pointers_run (actions : List (Action T B)) (careful : Runs.Along Machine.step Careful ({} : Machine T B) actions) :
    Runs.Along Machine.step Machine.Safe ({} : Machine T B) actions := by
  apply Runs.along_of_invariant (fun m : Machine T B => Sound m ∧ Held m) _ _ ⟨sound_start, held_start⟩ careful
  · exact fun m action kept careful => careful_step kept careful
  · exact fun m action kept _ => safe_of_guarded kept.1 kept.2 action

theorem spares_unawaited {m : Machine T B} (none_ : awaited m.stack = []) (action : Action T B) : Spares m action := by
  have nobody : ∀ t, t ∉ awaited m.stack := by
    rw [none_]
    exact fun t => List.not_mem_nil
  unfold Spares
  split
  · exact fun t waits => absurd waits (nobody t)
  · rename_i stack s t ops top split
    rw [top] at nobody
    exact fun waits => absurd waits (nobody t)
  · rename_i stack top split
    rw [top] at nobody
    exact fun t waits => absurd waits (nobody t)
  · exact True.intro

def freedNextCalls : List (Action Unit Unit) :=
  [.call (.createSubscriber 1), .call (.createSubscriber 2), .call (.subscribe 1 [116] 100), .call (.subscribe 2 [116] 101),
    .call (.publish none [116] ()), .proceed 0, .proceed 0, .proceed 0, .call .drain, .proceed 0, .proceed 0,
    .call (.freeSubscriber 2), .return_ false, .proceed 0, .proceed 0, .proceed 0, .proceed 0]

theorem dead_pointers_run_freed : Runs.Along Machine.step Machine.Safe ({} : Machine Unit Unit) freedNextCalls := by
  apply dead_pointers_run
  refine ⟨⟨True.intro, spares_unawaited rfl _⟩, ⟨True.intro, spares_unawaited rfl _⟩, ⟨?_, spares_unawaited rfl _⟩,
    ⟨?_, spares_unawaited rfl _⟩, ⟨True.intro, spares_unawaited rfl _⟩, ⟨True.intro, spares_unawaited rfl _⟩,
    ⟨True.intro, spares_unawaited rfl _⟩, ⟨True.intro, spares_unawaited rfl _⟩, ⟨True.intro, spares_unawaited rfl _⟩,
    ⟨True.intro, spares_unawaited rfl _⟩, ⟨True.intro, spares_unawaited rfl _⟩, ⟨True.intro, spares_unawaited rfl _⟩,
    ⟨True.intro, spares_unawaited rfl _⟩, ⟨True.intro, spares_unawaited rfl _⟩, ⟨True.intro, spares_unawaited rfl _⟩,
    ⟨True.intro, spares_unawaited rfl _⟩, ⟨True.intro, spares_unawaited rfl _⟩, True.intro⟩
  · simp only [Clear]
    decide
  · simp only [Clear]
    decide

/-- The list of drainable subscribers is linked both ways without a repetition, it has no deleted subscriber, and it has all
    that messages are queued for. Where no loop of `drain()` is going on it has no others. -/
theorem drainable_list_run (actions : List (Action T B)) (careful : Runs.Along Machine.step Careful ({} : Machine T B) actions) :
    let m := Machine.run ({} : Machine T B) actions
    ∃ l, LinkedList.DoublyLinked m.tree.next m.tree.prev m.tree.drainableSubscribers l ∧ (∀ s ∈ l, s ∈ m.tree.subscribers) ∧
      (∀ s ∈ m.tree.subscribers, m.tree.needsDrainage s = true → s ∈ l) ∧
      ((∀ first, Frame.drain first ∉ m.stack) → ∀ s ∈ l, m.tree.needsDrainage s = true) := by
  have kept : Sound (Machine.run ({} : Machine T B) actions) ∧ Held (Machine.run ({} : Machine T B) actions) := by
    apply @Runs.foldl_induction _ _ _ _ (fun m : Machine T B => Sound m ∧ Held m) _ _ _ ⟨sound_start, held_start⟩ careful
    exact fun m action kept careful => careful_step kept careful
  obtain ⟨-, l, guarded⟩ := kept
  refine ⟨l, guarded.queue.linked, guarded.queue.inside, guarded.queue.needing, ?_⟩
  intro idle
  apply guarded.idle
  rw [List.any_eq_false]
  intro frame inside loops
  cases frame with
  | drain first => exact idle first inside
  | _ => cases loops

theorem drainable_list_run_freed :
    let m := Machine.run ({} : Machine Unit Unit) (freedNextCalls.take 8)
    ∃ l, LinkedList.DoublyLinked m.tree.next m.tree.prev m.tree.drainableSubscribers l ∧ (∀ s ∈ l, s ∈ m.tree.subscribers) ∧
      (∀ s ∈ m.tree.subscribers, m.tree.needsDrainage s = true → s ∈ l) ∧
      ((∀ first, Frame.drain first ∉ m.stack) → ∀ s ∈ l, m.tree.needsDrainage s = true) := by
  apply drainable_list_run
  refine ⟨⟨True.intro, spares_unawaited rfl _⟩, ⟨True.intro, spares_unawaited rfl _⟩, ⟨?_, spares_unawaited rfl _⟩,
    ⟨?_, spares_unawaited rfl _⟩, ⟨True.intro, spares_unawaited rfl _⟩, ⟨True.intro, spares_unawaited rfl _⟩,
    ⟨True.intro, spares_unawaited rfl _⟩, ⟨True.intro, spares_unawaited rfl _⟩, True.intro⟩
  · simp only [Clear]
    decide
  · simp only [Clear]
    decide

def nextUnsubscribe (m : Machine T B) : Option (Subscriber × Topic) :=
  match m.stack, m.tree.pendingOps with
  | .applyPending :: _, .unsubscribe s t :: _ => some (s, t)
  | _, _ => none

theorem safe_unsubscribe {m : Machine T B} {pick : Nat} (next : nextUnsubscribe m = some (s, t)) (safe : m.Safe (.proceed pick)) :
    m.tree.Owns t := by
  unfold nextUnsubscribe at next
  unfold Machine.Safe at safe
  split at next
  · rename_i top split
    obtain ⟨-, rfl⟩ := Prod.mk.inj (Option.some.inj next)
    rw [top] at safe
    dsimp only at safe
    rw [split] at safe
    exact safe
  · cases next

/-- A subscriber leaves a topic while that is iterated, behind a publish to another topic that is deferred as well. The publish
    calls back, and there the first one subscribes again and leaves at once. -/
def danglingCalls : List (Action Unit Unit) :=
  let queued : List (Action Unit Unit) := [.call (.publish none [117] ()), .proceed 0, .proceed 0]
  let leaving : List (Action Unit Unit) :=
    [.call (.publishBig none [116] ()), .proceed 0, .call (.publish none [117] ()), .call (.unsubscribe 1 [116]), .return_ false,
      .proceed 0, .proceed 0, .proceed 0, .proceed 0, .call (.subscribe 1 [116] 102), .call (.unsubscribe 1 [116]), .return_ true,
      .proceed 0, .proceed 0, .proceed 0]
  .call (.createSubscriber 1) :: .call (.createSubscriber 2) :: .call (.subscribe 1 [116] 100) :: .call (.subscribe 2 [117] 101) ::
    (List.replicate 32 queued).flatten ++ leaving

/-- The call that leaves at once deletes the topic, and the deferred one is applied to it. -/
theorem unsubscribe_dangles :
    ¬ ∀ actions : List (Action Unit Unit),
      Runs.Along Machine.step (fun m action => obliging m action = true) ({} : Machine Unit Unit) actions →
        Runs.Along Machine.step Machine.Safe ({} : Machine Unit Unit) actions := by
  intro claimed
  have obliged : Runs.Along Machine.step (fun m action => obliging m action = true) ({} : Machine Unit Unit)
      (danglingCalls ++ [.proceed 0]) := by
    decide +kernel
  have next : nextUnsubscribe (Machine.run ({} : Machine Unit Unit) danglingCalls) = some (1, 100) := by
    decide +kernel
  have deleted : ¬ (Machine.run ({} : Machine Unit Unit) danglingCalls).tree.Owns 100 := by
    decide +kernel
  have safe := claimed (danglingCalls ++ [.proceed 0]) obliged
  generalize danglingCalls = actions at next deleted safe
  exact deleted (safe_unsubscribe next safe.last)

end Uws.PubSub
