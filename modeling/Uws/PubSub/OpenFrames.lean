import Uws.PubSub.DrainList

/-! The pointers that the operations keep which have begun, across everything that callbacks do. -/

namespace Uws.PubSub

open Uws.LinkedList

variable {T B : Type} {tree tree' : TopicTree T} {stack : List (Frame T B)} {frame : Frame T B} {s : Subscriber} {t : Topic}
  {l l' : List Subscriber} {log : List (Event T B)}

namespace Frame

def topic : Frame T B → Option Topic
  | .publishFull _ t _ => some t
  | .publish _ t _ _ _ => some t
  | .publishDrained _ t _ _ _ _ => some t
  | .publishBig _ t _ _ => some t
  | .drainImpl _ _ _ => none
  | .drainSubscriber => none
  | .drain _ => none
  | .applyPending => none
  | .callback _ => none

/-- The subscribers that it keeps pointers to, the next one of `drain()` apart. -/
def subscribers : Frame T B → List Subscriber
  | .drainImpl s _ _ => [s]
  | .publish _ _ _ rest _ => rest
  | .publishDrained _ _ _ s rest _ => s :: rest
  | .publishBig _ _ _ rest => rest
  | .publishFull _ _ _ => []
  | .drainSubscriber => []
  | .drain _ => []
  | .applyPending => []
  | .callback _ => []

def loops : Frame T B → Bool
  | .drain _ => true
  | .publishFull _ _ _ => false
  | .publish _ _ _ _ _ => false
  | .publishDrained _ _ _ _ _ _ => false
  | .publishBig _ _ _ _ => false
  | .drainImpl _ _ _ => false
  | .drainSubscriber => false
  | .applyPending => false
  | .callback _ => false

/-- A publish and the deferred operations begin where nothing is draining; callbacks are called by what drains. -/
def Stands (below : List (Frame T B)) : Frame T B → Prop
  | .publishFull _ _ _ => below.countP Drains = 0
  | .publish _ _ _ _ _ => below.countP Drains = 0
  | .publishDrained _ _ _ _ _ _ => below.countP Drains = 0
  | .publishBig _ _ _ _ => below.countP Drains = 0
  | .applyPending => below.countP Drains = 0
  | .drainImpl _ _ _ => 0 < below.countP Drains
  | .callback _ => 0 < below.countP Drains
  | .drainSubscriber => True
  | .drain _ => True

end Frame

def Nested : List (Frame T B) → Prop
  | [] => True
  | frame :: below => frame.Stands below ∧ Nested below

/-- Whatever an operation that has begun keeps a pointer to is there. -/
structure Guarded (tree : TopicTree T) (stack : List (Frame T B)) (l : List Subscriber) : Prop where
  queue : Queue tree l
  idle : stack.any Frame.loops = false → AllNeed tree l
  nested : Nested stack
  owned : ∀ frame ∈ stack, ∀ t ∈ frame.topic, tree.Owns t
  iterating : ∀ frame ∈ stack, frame.Iterates = true → tree.iteratingTopic = frame.topic
  alive : ∀ frame ∈ stack, ∀ s ∈ frame.subscribers, s ∈ tree.subscribers
  draining : ∀ first, .drain first ∈ stack → Draining tree l first

theorem nested_quiet (nested : Nested stack) (quiet : stack.countP Frame.Drains = 0) :
    ∀ frame ∈ stack, frame.subscribers = [] ∧ frame.Iterates = false ∧ frame.loops = false := by
  induction stack with
  | nil => exact fun frame absent => absurd absent List.not_mem_nil
  | cons top stack ih =>
    rw [List.countP_cons, Nat.add_eq_zero_iff] at quiet
    intro frame inside
    rcases List.mem_cons.mp inside with rfl | inside
    · cases frame with
      | drainImpl s i num => exact absurd quiet.1 (Nat.ne_of_gt nested.1)
      | publishFull sender t message => exact ⟨rfl, rfl, rfl⟩
      | applyPending => exact ⟨rfl, rfl, rfl⟩
      | callback s => exact ⟨rfl, rfl, rfl⟩
      | drainSubscriber => cases quiet.2
      | drain first => cases quiet.2
      | publish sender t message rest referenced => cases quiet.2
      | publishDrained sender t message s rest referenced => cases quiet.2
      | publishBig sender t message rest => cases quiet.2
    · exact ih nested.2 quiet.1 frame inside

theorem outside_quiet (nested : Nested stack) (outside : Machine.Outside stack) (quiet : stack.countP Frame.Drains = 0) : stack = [] := by
  cases stack with
  | nil => rfl
  | cons frame stack =>
    rw [List.countP_cons, Nat.add_eq_zero_iff] at quiet
    cases frame with
    | callback s => exact absurd quiet.1 (Nat.ne_of_gt nested.1)
    | _ => cases outside

namespace Guarded

theorem pop (guarded : Guarded tree (frame :: stack) l) (other : frame.loops = false) : Guarded tree stack l := by
  refine ⟨guarded.queue, ?_, guarded.nested.2, ?_, ?_, ?_, ?_⟩
  · intro none_
    apply guarded.idle
    rw [List.any_cons, other, none_]
    rfl
  · exact fun below inside => guarded.owned below (List.mem_cons_of_mem frame inside)
  · exact fun below inside => guarded.iterating below (List.mem_cons_of_mem frame inside)
  · exact fun below inside => guarded.alive below (List.mem_cons_of_mem frame inside)
  · exact fun first inside => guarded.draining first (List.mem_cons_of_mem frame inside)

theorem push (guarded : Guarded tree stack l) (stands : frame.Stands stack) (owned : ∀ t ∈ frame.topic, tree.Owns t)
    (iterating : frame.Iterates = true → tree.iteratingTopic = frame.topic) (alive : ∀ s ∈ frame.subscribers, s ∈ tree.subscribers)
    (draining : ∀ first, frame = .drain first → Draining tree l first) : Guarded tree (frame :: stack) l := by
  refine ⟨guarded.queue, ?_, ⟨stands, guarded.nested⟩, ?_, ?_, ?_, ?_⟩
  · intro none_
    rw [List.any_cons, Bool.or_eq_false_iff] at none_
    exact guarded.idle none_.2
  · intro other inside
    rcases List.mem_cons.mp inside with rfl | inside
    · exact owned
    · exact guarded.owned other inside
  · intro other inside
    rcases List.mem_cons.mp inside with rfl | inside
    · exact iterating
    · exact guarded.iterating other inside
  · intro other inside
    rcases List.mem_cons.mp inside with rfl | inside
    · exact alive
    · exact guarded.alive other inside
  · intro first inside
    rcases List.mem_cons.mp inside with same | inside
    · exact draining first same.symm
    · exact guarded.draining first inside

theorem pushBare (guarded : Guarded tree stack l) (stands : frame.Stands stack) (topic : frame.topic = none)
    (subscribers : frame.subscribers = []) (iterates : frame.Iterates = false) (loops : frame.loops = false) :
    Guarded tree (frame :: stack) l := by
  apply guarded.push stands
  · rw [topic]
    intro t absent
    cases absent
  · rw [iterates]
    intro absent
    cases absent
  · rw [subscribers]
    exact fun s absent => absurd absent List.not_mem_nil
  · rintro first rfl
    cases loops

theorem relink (guarded : Guarded tree stack l) (relinks : Relinks tree l tree' l')
    (owns : ∀ frame ∈ stack, ∀ t ∈ frame.topic, tree'.Owns t) (iterating : tree'.iteratingTopic = tree.iteratingTopic)
    (subscribers : ∀ s ∈ tree.subscribers, s ∈ tree'.subscribers) : Guarded tree' stack l' := by
  refine ⟨relinks.queue, ?_, guarded.nested, owns, ?_, ?_, ?_⟩
  · exact fun none_ => relinks.needs (guarded.idle none_)
  · rw [iterating]
    exact guarded.iterating
  · exact fun frame inside s kept => subscribers s (guarded.alive frame inside s kept)
  · exact fun first inside => relinks.draining first (guarded.draining first inside)

theorem congr (guarded : Guarded tree stack l) (links : tree'.links = tree.links) (topics : tree'.topics = tree.topics)
    (name : tree'.name = tree.name) (iterating : tree'.iteratingTopic = tree.iteratingTopic) : Guarded tree' stack l := by
  apply guarded.relink (guarded.queue.congr links) _ iterating
  · simp only [TopicTree.links, Prod.mk.injEq] at links
    obtain ⟨-, -, -, -, -, -, subscribers⟩ := links
    rw [subscribers]
    exact fun _ inside => inside
  · unfold TopicTree.Owns
    rw [topics, name]
    exact guarded.owned

theorem iterate (guarded : Guarded tree stack l) (quiet : stack.countP Frame.Drains = 0) (topic : Option Topic) :
    Guarded { tree with iteratingTopic := topic } stack l := by
  have same : Relinks tree l { tree with iteratingTopic := topic } l := guarded.queue.congr rfl
  refine ⟨same.queue, guarded.idle, guarded.nested, guarded.owned, ?_, guarded.alive, guarded.draining⟩
  intro frame inside iterates
  rw [(nested_quiet guarded.nested quiet frame inside).2.1] at iterates
  cases iterates

theorem advance {first first' : Option Subscriber} (guarded : Guarded tree (.drain first :: stack) l)
    (loop : Draining tree l first') : Guarded tree (.drain first' :: stack) l := by
  refine ⟨guarded.queue, ?_, ⟨True.intro, guarded.nested.2⟩, ?_, ?_, ?_, ?_⟩
  · intro none_
    cases none_
  · intro frame inside
    rcases List.mem_cons.mp inside with rfl | inside
    · intro t absent
      cases absent
    · exact guarded.owned frame (List.mem_cons_of_mem _ inside)
  · intro frame inside
    rcases List.mem_cons.mp inside with rfl | inside
    · intro absent
      cases absent
    · exact guarded.iterating frame (List.mem_cons_of_mem _ inside)
  · intro frame inside
    rcases List.mem_cons.mp inside with rfl | inside
    · exact fun s absent => absurd absent List.not_mem_nil
    · exact guarded.alive frame (List.mem_cons_of_mem _ inside)
  · intro other inside
    rcases List.mem_cons.mp inside with same | inside
    · exact Frame.drain.inj same ▸ loop
    · exact guarded.draining other (List.mem_cons_of_mem _ inside)

theorem clear (guarded : Guarded tree stack l) (loops : stack.any Frame.loops = true) (s : Subscriber) :
    Guarded (tree.clearIndices s) stack l := by
  obtain ⟨queue, draining⟩ := guarded.queue.clear s
  refine ⟨queue, ?_, guarded.nested, guarded.owned, guarded.iterating, guarded.alive, ?_⟩
  · intro none_
    rw [loops] at none_
    cases none_
  · exact fun first inside => draining first (guarded.draining first inside)

section Operations

variable {sender : Option Subscriber} {message : T} {rest : List Subscriber} {referencedMessage : Bool}

theorem leave (guarded : Guarded tree stack l) (depth : tree.drainingDepth = stack.countP Frame.Drains + 1) (log : List (Event T B)) :
    Guarded (Machine.leaveDraining ⟨tree, stack, log⟩).tree (Machine.leaveDraining ⟨tree, stack, log⟩).stack l := by
  unfold Machine.leaveDraining
  dsimp only
  split
  · rename_i applies
    have left : Guarded { tree with drainingDepth := tree.drainingDepth - 1, applying := true } stack l :=
      guarded.congr rfl rfl rfl rfl
    apply left.pushBare _ rfl rfl rfl rfl
    show stack.countP Frame.Drains = 0
    omega
  · exact guarded.congr rfl rfl rfl rfl

theorem drainImpl (guarded : Guarded tree stack l) (member : s ∈ tree.subscribers) (draining : 0 < stack.countP Frame.Drains)
    (i num : Nat) : Guarded tree (.drainImpl s i num :: stack) l := by
  refine guarded.push draining ?_ ?_ ?_ ?_
  · intro t absent
    cases absent
  · intro absent
    cases absent
  · intro x own
    rw [List.mem_singleton.mp own]
    exact member
  · intro first absent
    cases absent

theorem drainSubscriber (guarded : Guarded tree stack l) (member : s ∈ tree.subscribers) (log : List (Event T B)) :
    ∃ l', Guarded (Machine.drainSubscriber ⟨tree, stack, log⟩ s).tree (Machine.drainSubscriber ⟨tree, stack, log⟩ s).stack l' := by
  unfold Machine.drainSubscriber
  split
  · rename_i needs
    have entered : Guarded { tree with drainingDepth := tree.drainingDepth + 1 } stack l := guarded.congr rfl rfl rfl rfl
    obtain ⟨l', taken⟩ := entered.queue.take member needs
    have relinked := entered.relink taken entered.owned rfl fun _ inside => inside
    have opened : Guarded _ (.drainSubscriber :: stack) l' := relinked.pushBare True.intro rfl rfl rfl rfl
    refine ⟨l', opened.drainImpl member ?_ 0 (tree.numMessageIndices s)⟩
    rw [List.countP_cons_of_pos rfl]
    exact Nat.succ_pos _
  · exact ⟨l, guarded⟩

theorem drain (guarded : Guarded tree stack l) (log : List (Event T B)) :
    Guarded (Machine.drain ⟨tree, stack, log⟩).tree (Machine.drain ⟨tree, stack, log⟩).stack l := by
  unfold Machine.drain
  dsimp only
  cases head : tree.drainableSubscribers with
  | none => exact guarded
  | some s =>
    have entered : Guarded { tree with drainingDepth := tree.drainingDepth + 1 } stack l := guarded.congr rfl rfl rfl rfl
    refine entered.push True.intro ?_ ?_ ?_ ?_
    · intro t absent
      cases absent
    · intro absent
      cases absent
    · exact fun s absent => absurd absent List.not_mem_nil
    · intro first same
      obtain rfl := Frame.drain.inj same
      refine ⟨[], l, ?_, fun s absent => absurd absent List.not_mem_nil, fun s listed _ => listed⟩
      rw [← head]
      exact .start guarded.queue.linked.toLinked

theorem beginPublish (guarded : Guarded tree stack l) (quiet : stack.countP Frame.Drains = 0) (owns : tree.Owns t)
    (members : ∀ s ∈ tree.members t, s ∈ tree.subscribers) (sender : Option Subscriber) (message : T) (log : List (Event T B)) :
    Guarded (Machine.beginPublish ⟨tree, stack, log⟩ sender t message).tree
      (Machine.beginPublish ⟨tree, stack, log⟩ sender t message).stack l := by
  have entered : Guarded { tree with drainingDepth := tree.drainingDepth + 1 } stack l := guarded.congr rfl rfl rfl rfl
  refine (entered.iterate quiet (some t)).push quiet ?_ ?_ ?_ ?_
  · intro t' same
    obtain rfl := Option.some.inj same
    exact owns
  · exact fun _ => rfl
  · exact members
  · intro first absent
    cases absent

theorem publish (guarded : Guarded tree stack l) (stored : Stored tree) (balanced : Balanced tree stack)
    (sender : Option Subscriber) (topic : Bytes) (message : T) (log : List (Event T B)) :
    Guarded (Machine.publish ⟨tree, stack, log⟩ sender topic message).tree
      (Machine.publish ⟨tree, stack, log⟩ sender topic message).stack l := by
  unfold Machine.publish
  dsimp only
  cases found : tree.topics topic with
  | none => exact guarded
  | some t =>
    have owns := stored.consistent.lookup found
    have members := (stored.consistent.members t owns).2
    dsimp only
    split
    · exact guarded.congr rfl rfl rfl rfl
    · rename_i idle
      have quiet : stack.countP Frame.Drains = 0 := by
        rw [← balanced.depth]
        exact Nat.eq_zero_of_not_pos idle
      split
      · apply drain
        refine guarded.push quiet ?_ ?_ ?_ ?_
        · intro t' same
          obtain rfl := Option.some.inj same
          exact owns
        · intro absent
          cases absent
        · exact fun s absent => absurd absent List.not_mem_nil
        · intro first absent
          cases absent
      · exact guarded.beginPublish quiet owns members sender message log

theorem publishBig (guarded : Guarded tree stack l) (stored : Stored tree) (balanced : Balanced tree stack)
    (sender : Option Subscriber) (topic : Bytes) (bigMessage : B) (log : List (Event T B)) :
    Guarded (Machine.publishBig ⟨tree, stack, log⟩ sender topic bigMessage).tree
      (Machine.publishBig ⟨tree, stack, log⟩ sender topic bigMessage).stack l := by
  unfold Machine.publishBig
  dsimp only
  cases found : tree.topics topic with
  | none => exact guarded
  | some t =>
    have owns := stored.consistent.lookup found
    dsimp only
    split
    · exact guarded
    · rename_i idle
      have quiet : stack.countP Frame.Drains = 0 := by
        rw [← balanced.depth]
        exact Nat.eq_zero_of_not_pos idle
      have entered : Guarded { tree with drainingDepth := tree.drainingDepth + 1 } stack l := guarded.congr rfl rfl rfl rfl
      refine (entered.iterate quiet (some t)).push quiet ?_ ?_ ?_ ?_
      · intro t' same
        obtain rfl := Option.some.inj same
        exact owns
      · exact fun _ => rfl
      · exact (stored.consistent.members t owns).2
      · intro first absent
        cases absent

theorem goOn (guarded : Guarded tree (frame :: stack) l) {frame' : Frame T B} (other : frame.loops = false)
    (stands : frame.Stands stack → frame'.Stands stack) (topic : frame'.topic = frame.topic)
    (iterates : frame'.Iterates = frame.Iterates) (fewer : ∀ s ∈ frame'.subscribers, s ∈ frame.subscribers)
    (loops : frame'.loops = false) : Guarded tree (frame' :: stack) l := by
  apply (guarded.pop other).push (stands guarded.nested.1)
  · rw [topic]
    exact guarded.owned frame List.mem_cons_self
  · rw [topic, iterates]
    exact guarded.iterating frame List.mem_cons_self
  · exact fun s kept => guarded.alive frame List.mem_cons_self s (fewer s kept)
  · rintro first rfl
    cases loops

/-- The index of a message is given to a subscriber where no loop of `drain()` is going on. -/
theorem handOut (guarded : Guarded tree stack l) (idle : stack.any Frame.loops = false) (member : s ∈ tree.subscribers)
    (kept : tree.pendingDestruction s = false) : ∃ l', Guarded (tree.handOut s) stack l' := by
  obtain ⟨l', queue, needs⟩ := guarded.queue.handOut (guarded.idle idle) member kept
  obtain ⟨topics, name, -, subscribers, -⟩ := core_iff.mp (kept_iff.mp (Machine.handOut_kept tree s)).1
  have iterating := congrArg (fun level => level.2.1) (Balanced.handOut_level tree s)
  refine ⟨l', queue, fun _ => needs, guarded.nested, ?_, ?_, ?_, ?_⟩
  · unfold TopicTree.Owns
    rw [topics, name]
    exact guarded.owned
  · rw [show (tree.handOut s).iteratingTopic = tree.iteratingTopic from iterating]
    exact guarded.iterating
  · rw [subscribers]
    exact guarded.alive
  · intro first inside
    rw [List.any_eq_false] at idle
    exact absurd rfl (idle (.drain first) inside)

end Operations

end Guarded

end Uws.PubSub
