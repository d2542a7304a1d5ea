import Uws.PubSub.TopicMachine
import Uws.PubSub.TopicMembers

/-! What one step can do to subscriptions, and what it keeps of the depth of draining. -/

namespace Uws.PubSub

variable {T B : Type}

/-- The fields that subscriptions and freed subscribers are kept in. -/
def TopicTree.kept (tree : TopicTree T) := (tree.core, tree.pendingFree, tree.pendingDestruction)

def Event.IsWish : Event T B → Bool
  | .created _ | .subscribed _ _ | .unsubscribed _ _ => true
  | _ => false

def Machine.wishes (m : Machine T B) : List (Event T B) := m.log.filter Event.IsWish

inductive Moves (tree : TopicTree T) : Action T B → TopicTree T → List (Event T B) → Prop
  | quiet {action : Action T B} {tree' : TopicTree T} (same : tree'.kept = tree.kept) : Moves tree action tree' []
  | create {s : Subscriber} (new : s ∉ tree.subscribers) :
    Moves tree (.call (.createSubscriber s)) (tree.createSubscriber s) [.created s]
  | subscribe {s : Subscriber} {topic : Bytes} {fresh : Topic} (live : tree.Live s) (new : ¬ tree.Owns fresh) :
    Moves tree (.call (.subscribe s topic fresh)) (tree.subscribe s topic fresh).1
      (if (tree.subscribe s topic fresh).2 = none then [] else [.subscribed s topic])
  | unsubscribe {s : Subscriber} {topic : Bytes} (live : tree.Live s) :
    Moves tree (.call (.unsubscribe s topic)) (tree.unsubscribe s topic).1
      (if (tree.unsubscribe s topic).2 = none then [] else [.unsubscribed s topic])
  | free {s : Subscriber} (live : tree.Live s) : Moves tree (.call (.freeSubscriber s)) (tree.freeSubscriber s) []
  | defer {action : Action T B} {sender : Option Subscriber} {topic : Bytes} {message : T} :
    Moves tree action (tree.deferOp (.publish sender topic message)) []
  | applySubscribe {pick : Nat} {s : Subscriber} {t : Topic} {ops : List (PendingOp T)}
    (split : tree.pendingOps = .subscribe s t :: ops) :
    Moves tree (.proceed pick) ({ tree with pendingOps := ops }.insertMember t s) []
  | applyUnsubscribe {pick : Nat} {s : Subscriber} {t : Topic} {ops : List (PendingOp T)}
    (split : tree.pendingOps = .unsubscribe s t :: ops) :
    Moves tree (.proceed pick) ({ tree with pendingOps := ops }.eraseFromTopic s t) []
  | applyPublish {pick : Nat} {sender : Option Subscriber} {topic : Bytes} {message : T} {ops : List (PendingOp T)}
    {tree' : TopicTree T} (split : tree.pendingOps = .publish sender topic message :: ops)
    (later : tree'.kept = { tree with pendingOps := ops }.kept ∨
      tree' = { tree with pendingOps := ops }.deferOp (.publish sender topic message)) :
    Moves tree (.proceed pick) tree' []
  | finish {pick : Nat} {tree' : TopicTree T} (none_ : tree.pendingOps = [])
    (same : tree'.kept = { tree.freePendingSubscribers with pending := false }.kept) : Moves tree (.proceed pick) tree' []

namespace Machine

variable (m : Machine T B)

/-- The step changes no subscription, and logs nothing of them. -/
def Quiet (m' : Machine T B) : Prop := m'.tree.kept = m.tree.kept ∧ m'.wishes = m.wishes

theorem wishes_note (event : Event T B) : (m.note event).wishes = m.wishes ++ [event].filter Event.IsWish :=
  List.filter_append ..

theorem Quiet.note {m m' : Machine T B} (quiet : m.Quiet m') (event : Event T B) (other : event.IsWish = false) :
    m.Quiet (m'.note event) := by
  refine ⟨quiet.1, ?_⟩
  rw [wishes_note, List.filter_cons_of_neg (by rw [other]; decide), quiet.2]
  exact List.append_nil _

theorem Quiet.trans {m m' m'' : Machine T B} (first : m.Quiet m') (second : m'.Quiet m'') : m.Quiet m'' :=
  ⟨second.1.trans first.1, second.2.trans first.2⟩

theorem leaveDraining_quiet : m.Quiet m.leaveDraining := by
  unfold leaveDraining
  dsimp only
  split
  · exact ⟨rfl, rfl⟩
  · exact ⟨rfl, rfl⟩

theorem drainSubscriber_quiet (s : Subscriber) : m.Quiet (m.drainSubscriber s) := by
  unfold drainSubscriber
  split
  · exact ⟨rfl, rfl⟩
  · exact ⟨rfl, rfl⟩

theorem drain_quiet : m.Quiet m.drain := by
  unfold drain
  split
  · exact ⟨rfl, rfl⟩
  · exact ⟨rfl, rfl⟩

theorem publish_moves (sender : Option Subscriber) (topic : Bytes) (message : T) :
    m.Quiet (m.publish sender topic message) ∨
      (m.publish sender topic message).tree = m.tree.deferOp (.publish sender topic message) ∧
        (m.publish sender topic message).wishes = m.wishes := by
  unfold publish
  cases m.tree.topics topic with
  | none => exact .inl (Quiet.note ⟨rfl, rfl⟩ _ rfl)
  | some topicPtr =>
    dsimp only
    split
    · refine .inr ⟨rfl, ?_⟩
      rw [wishes_note]
      exact List.append_nil _
    · left
      split
      · exact drain_quiet (m.push (.publishFull sender topicPtr message))
      · exact ⟨rfl, rfl⟩

theorem publishBig_quiet (sender : Option Subscriber) (topic : Bytes) (bigMessage : B) :
    m.Quiet (m.publishBig sender topic bigMessage) := by
  unfold publishBig
  cases m.tree.topics topic with
  | none => exact Quiet.note ⟨rfl, rfl⟩ _ rfl
  | some topicPtr =>
    dsimp only
    split
    · exact Quiet.note ⟨rfl, rfl⟩ _ rfl
    · exact ⟨rfl, rfl⟩

theorem handOut_kept (tree : TopicTree T) (s : Subscriber) : (tree.handOut s).kept = tree.kept := by
  unfold TopicTree.handOut
  dsimp only
  split
  · rfl
  · rfl

variable (sender : Option Subscriber) (topicPtr : Topic) (message : T) (s : Subscriber) (rest : List Subscriber)
  (referencedMessage : Bool) (stack : List (Frame T B))

theorem enqueue_quiet : m.Quiet (m.enqueue sender topicPtr message s rest stack) :=
  ⟨handOut_kept m.tree s, (wishes_note m (.visited s message (m.tree.isMember sender topicPtr s))).trans (List.append_nil _)⟩

theorem skip_quiet : m.Quiet (m.skip sender topicPtr message s rest referencedMessage stack) :=
  ⟨rfl, (wishes_note m (.visited s message (m.tree.isMember sender topicPtr s))).trans (List.append_nil _)⟩

theorem publishTo_quiet : m.Quiet (m.publishTo sender topicPtr message s rest referencedMessage stack) := by
  unfold publishTo
  split
  · exact skip_quiet m sender topicPtr message s rest referencedMessage stack
  · split
    · exact drainSubscriber_quiet { m with stack := .publishDrained sender topicPtr message s rest referencedMessage :: stack } s
    · exact enqueue_quiet m sender topicPtr message s rest stack

end Machine

variable (m : Machine T B)

theorem proceed_moves (pick : Nat) :
    ∃ notes, Moves m.tree (.proceed pick : Action T B) (m.proceed pick).tree notes ∧ (m.proceed pick).wishes = m.wishes ++ notes := by
  have quietly : m.Quiet (m.proceed pick) →
      ∃ notes, Moves m.tree (.proceed pick : Action T B) (m.proceed pick).tree notes ∧ (m.proceed pick).wishes = m.wishes ++ notes := by
    intro quiet
    exact ⟨[], .quiet quiet.1, quiet.2.trans (List.append_nil _).symm⟩
  obtain ⟨tree, stack, log⟩ := m
  cases stack with
  | nil => exact quietly ⟨rfl, rfl⟩
  | cons frame stack =>
    unfold Machine.proceed at quietly ⊢
    dsimp only at quietly ⊢
    cases frame with
    | callback s => exact quietly ⟨rfl, rfl⟩
    | drainImpl s i numMessageIndices =>
      apply quietly
      dsimp only
      split
      · exact ⟨rfl, (Machine.wishes_note ⟨tree, stack, log⟩ (.delivered s _ _ _)).trans (List.append_nil _)⟩
      · exact ⟨rfl, rfl⟩
    | drainSubscriber =>
      apply quietly
      dsimp only
      split
      · exact Machine.Quiet.trans ⟨rfl, rfl⟩ (Machine.leaveDraining_quiet _)
      · exact Machine.Quiet.trans ⟨rfl, rfl⟩ (Machine.leaveDraining_quiet _)
    | drain s =>
      apply quietly
      cases s with
      | none => exact Machine.Quiet.trans ⟨rfl, rfl⟩ (Machine.leaveDraining_quiet _)
      | some s =>
        dsimp only
        split
        · exact ⟨rfl, rfl⟩
        · exact ⟨rfl, rfl⟩
    | publishFull sender topicPtr message => exact quietly ⟨rfl, rfl⟩
    | publish sender topicPtr message rest referencedMessage =>
      apply quietly
      dsimp only
      cases pickOne pick rest with
      | none =>
        apply Machine.Quiet.note _ _ rfl
        exact Machine.Quiet.trans ⟨rfl, rfl⟩ (Machine.leaveDraining_quiet _)
      | some picked => exact Machine.publishTo_quiet _ sender topicPtr message picked.1 picked.2 referencedMessage stack
    | publishDrained sender topicPtr message s rest referencedMessage =>
      apply quietly
      dsimp only
      split
      · exact Machine.skip_quiet _ sender topicPtr message s rest referencedMessage stack
      · exact Machine.enqueue_quiet _ sender topicPtr message s rest stack
    | publishBig sender topicPtr bigMessage rest =>
      apply quietly
      dsimp only
      cases pickOne pick rest with
      | none =>
        apply Machine.Quiet.note _ _ rfl
        exact Machine.Quiet.trans ⟨rfl, rfl⟩ (Machine.leaveDraining_quiet _)
      | some picked =>
        dsimp only
        split
        · exact ⟨rfl, rfl⟩
        · exact Machine.Quiet.note ⟨rfl, rfl⟩ _ rfl
    | applyPending =>
      cases split : tree.pendingOps with
      | nil => exact ⟨[], .finish split rfl, (List.append_nil _).symm⟩
      | cons op ops =>
        cases op with
        | subscribe s t => exact ⟨[], .applySubscribe split, (List.append_nil _).symm⟩
        | unsubscribe s t => exact ⟨[], .applyUnsubscribe split, (List.append_nil _).symm⟩
        | publish sender topic message =>
          rcases Machine.publish_moves ⟨{ tree with pendingOps := ops }, .applyPending :: stack, log⟩ sender topic message with
            quiet | ⟨deferred, unlogged⟩
          · exact ⟨[], .applyPublish split (.inl quiet.1), quiet.2.trans (List.append_nil _).symm⟩
          · exact ⟨[], .applyPublish split (.inr deferred), unlogged.trans (List.append_nil _).symm⟩

theorem runCall_moves (call : Call T B) (possible : call.Possible m.tree) :
    ∃ notes, Moves m.tree (.call call) (m.runCall call).tree notes ∧ (m.runCall call).wishes = m.wishes ++ notes := by
  have quietly : m.Quiet (m.runCall call) →
      ∃ notes, Moves m.tree (.call call) (m.runCall call).tree notes ∧ (m.runCall call).wishes = m.wishes ++ notes := by
    intro quiet
    exact ⟨[], .quiet quiet.1, quiet.2.trans (List.append_nil _).symm⟩
  cases call with
  | createSubscriber s => exact ⟨_, .create possible, Machine.wishes_note _ _⟩
  | subscribe s topic fresh =>
    have moved : Moves m.tree _ _ _ := @Moves.subscribe _ B m.tree s topic fresh possible.1 possible.2
    unfold Machine.runCall
    dsimp only
    cases answer : (m.tree.subscribe s topic fresh).2 with
    | none =>
      rw [if_pos answer] at moved
      exact ⟨[], moved, (List.append_nil _).symm⟩
    | some t =>
      rw [if_neg (by rw [answer]; exact Option.some_ne_none t)] at moved
      exact ⟨_, moved, Machine.wishes_note _ _⟩
  | unsubscribe s topic =>
    have moved : Moves m.tree _ _ _ := @Moves.unsubscribe _ B m.tree s topic possible
    unfold Machine.runCall
    dsimp only
    cases answer : (m.tree.unsubscribe s topic).2 with
    | none =>
      rw [if_pos answer] at moved
      exact ⟨[], moved, (List.append_nil _).symm⟩
    | some count =>
      rw [if_neg (by rw [answer]; exact Option.some_ne_none count)] at moved
      exact ⟨_, moved, Machine.wishes_note _ _⟩
  | freeSubscriber s => exact ⟨[], .free possible, (List.append_nil _).symm⟩
  | publish sender topic message =>
    rcases Machine.publish_moves m sender topic message with quiet | ⟨deferred, log⟩
    · exact quietly quiet
    · refine ⟨[], ?_, log.trans (List.append_nil _).symm⟩
      show Moves m.tree _ (m.publish sender topic message).tree []
      rw [deferred]
      exact .defer
  | publishBig sender topic bigMessage => exact quietly (Machine.publishBig_quiet m sender topic bigMessage)
  | drainSubscriber s => exact quietly (Machine.drainSubscriber_quiet m s)
  | drain => exact quietly (Machine.drain_quiet m)
  | iterateTopics s => exact quietly ⟨rfl, rfl⟩

theorem step_moves (action : Action T B) :
    ∃ notes, Moves m.tree action (m.step action).tree notes ∧ (m.step action).wishes = m.wishes ++ notes := by
  cases action with
  | call call =>
    unfold Machine.step
    dsimp only
    split
    · rename_i taken
      exact runCall_moves m call taken.2
    · exact ⟨[], .quiet rfl, (List.append_nil _).symm⟩
  | return_ stop =>
    refine ⟨[], .quiet ?_, ?_⟩
    · unfold Machine.step Machine.returned
      dsimp only
      split <;> rfl
    · rw [List.append_nil]
      unfold Machine.step Machine.returned
      dsimp only
      split <;> rfl
  | proceed pick => exact proceed_moves m pick

/-- The frame has increased the depth of draining, and decreases it when it is done. -/
def Frame.Drains : Frame T B → Bool
  | .drainSubscriber | .drain _ | .publish _ _ _ _ _ | .publishDrained _ _ _ _ _ _ | .publishBig _ _ _ _ => true
  | .drainImpl _ _ _ | .publishFull _ _ _ | .applyPending | .callback _ => false

def Frame.Iterates : Frame T B → Bool
  | .publish _ _ _ _ _ | .publishDrained _ _ _ _ _ _ | .publishBig _ _ _ _ => true
  | .drainSubscriber | .drain _ | .drainImpl _ _ _ | .publishFull _ _ _ | .applyPending | .callback _ => false

/-- The depth is that of the stack, and what is deferred has somebody to apply it. -/
structure Balanced (tree : TopicTree T) (stack : List (Frame T B)) : Prop where
  depth : tree.drainingDepth = stack.countP Frame.Drains
  iterating : tree.iteratingTopic ≠ none → stack.any Frame.Iterates = true
  waits : tree.pending = true → 0 < tree.drainingDepth ∨ tree.applying = true

theorem drains_pos {stack : List (Frame T B)} (iterates : stack.any Frame.Iterates = true) : 0 < stack.countP Frame.Drains := by
  obtain ⟨frame, member, loops⟩ := List.any_eq_true.mp iterates
  apply List.countP_pos_iff.mpr
  refine ⟨frame, member, ?_⟩
  cases frame <;> first | rfl | cases loops

namespace Balanced

variable {tree tree' : TopicTree T} {stack : List (Frame T B)}

def level (tree : TopicTree T) := (tree.drainingDepth, tree.iteratingTopic, tree.pending, tree.applying)

theorem congr {stack' : List (Frame T B)} (balanced : Balanced tree stack) (same : level tree' = level tree)
    (drains : stack'.countP Frame.Drains = stack.countP Frame.Drains)
    (iterates : stack'.any Frame.Iterates = stack.any Frame.Iterates) : Balanced tree' stack' := by
  simp only [level, Prod.mk.injEq] at same
  obtain ⟨depth, iterating, pending, applying⟩ := same
  refine ⟨?_, ?_, ?_⟩
  · rw [depth, drains]
    exact balanced.depth
  · rw [iterating, iterates]
    exact balanced.iterating
  · rw [pending, depth, applying]
    exact balanced.waits

theorem leave {frame : Frame T B} (balanced : Balanced tree (frame :: stack)) (drains : frame.Drains = true)
    (depth : tree'.drainingDepth = tree.drainingDepth) (iterating : tree'.iteratingTopic ≠ none → stack.any Frame.Iterates = true)
    (log : List (Event T B)) :
    Balanced (Machine.leaveDraining ⟨tree', stack, log⟩).tree (Machine.leaveDraining ⟨tree', stack, log⟩).stack := by
  have left : tree'.drainingDepth - 1 = stack.countP Frame.Drains := by
    rw [depth, balanced.depth, List.countP_cons_of_pos drains]
    rfl
  unfold Machine.leaveDraining
  dsimp only
  split
  · exact ⟨left, iterating, fun _ => .inr rfl⟩
  · rename_i stays
    refine ⟨left, iterating, ?_⟩
    intro pending
    show 0 < tree'.drainingDepth - 1 ∨ tree'.applying = true
    by_contra idle
    apply stays
    rw [not_or, Bool.not_eq_true] at idle
    exact ⟨by omega, pending, idle.2⟩

theorem push (balanced : Balanced tree stack) {frame : Frame T B} (drains : frame.Drains = true)
    (depth : tree'.drainingDepth = tree.drainingDepth + 1)
    (iterating : tree'.iteratingTopic = tree.iteratingTopic ∨ frame.Iterates = true) : Balanced tree' (frame :: stack) := by
  refine ⟨?_, ?_, ?_⟩
  · rw [depth, balanced.depth, List.countP_cons_of_pos drains]
  · intro some_
    rw [List.any_cons, Bool.or_eq_true]
    rcases iterating with same | loops
    · rw [same] at some_
      exact .inr (balanced.iterating some_)
    · exact .inl loops
  · intro _
    left
    omega

theorem defer (balanced : Balanced tree stack) (depth : tree'.drainingDepth = tree.drainingDepth)
    (iterating : tree'.iteratingTopic = tree.iteratingTopic) (applying : tree'.applying = tree.applying)
    (pending : tree'.pending = true → tree.pending = true ∨ 0 < tree.drainingDepth ∨ tree.applying = true) :
    Balanced tree' stack := by
  refine ⟨?_, ?_, ?_⟩
  · rw [depth]
    exact balanced.depth
  · rw [iterating]
    exact balanced.iterating
  · intro waiting
    rw [depth, applying]
    rcases pending waiting with before | busy
    · exact balanced.waits before
    · exact busy

theorem iterated (balanced : Balanced tree stack) (some_ : tree.iteratingTopic ≠ none) : 0 < tree.drainingDepth := by
  rw [balanced.depth]
  exact drains_pos (balanced.iterating some_)

variable {log : List (Event T B)}

theorem drainSubscriber (balanced : Balanced tree stack) (s : Subscriber) :
    Balanced (Machine.drainSubscriber ⟨tree, stack, log⟩ s).tree (Machine.drainSubscriber ⟨tree, stack, log⟩ s).stack := by
  unfold Machine.drainSubscriber
  split
  · have entered : Balanced { tree with drainingDepth := tree.drainingDepth + 1 } (.drainSubscriber :: stack) :=
      balanced.push rfl rfl (.inl rfl)
    exact entered.congr rfl rfl rfl
  · exact balanced

theorem drain (balanced : Balanced tree stack) : Balanced (Machine.drain ⟨tree, stack, log⟩).tree (Machine.drain ⟨tree, stack, log⟩).stack := by
  unfold Machine.drain
  split
  · exact balanced.push rfl rfl (.inl rfl)
  · exact balanced

theorem beginPublish (balanced : Balanced tree stack) (sender : Option Subscriber) (topicPtr : Topic) (message : T) :
    Balanced (Machine.beginPublish ⟨tree, stack, log⟩ sender topicPtr message).tree
      (Machine.beginPublish ⟨tree, stack, log⟩ sender topicPtr message).stack :=
  balanced.push rfl rfl (.inr rfl)

theorem publish (balanced : Balanced tree stack) (sender : Option Subscriber) (topic : Bytes) (message : T) :
    Balanced (Machine.publish ⟨tree, stack, log⟩ sender topic message).tree
      (Machine.publish ⟨tree, stack, log⟩ sender topic message).stack := by
  unfold Machine.publish
  dsimp only
  cases tree.topics topic with
  | none => exact balanced
  | some topicPtr =>
    dsimp only
    split
    · rename_i draining
      exact balanced.defer rfl rfl rfl fun _ => .inr (.inl draining)
    · split
      · exact drain (balanced.congr rfl rfl rfl)
      · exact beginPublish balanced sender topicPtr message

theorem publishBig (balanced : Balanced tree stack) (sender : Option Subscriber) (topic : Bytes) (bigMessage : B) :
    Balanced (Machine.publishBig ⟨tree, stack, log⟩ sender topic bigMessage).tree
      (Machine.publishBig ⟨tree, stack, log⟩ sender topic bigMessage).stack := by
  unfold Machine.publishBig
  dsimp only
  cases tree.topics topic with
  | none => exact balanced
  | some topicPtr =>
    dsimp only
    split
    · exact balanced
    · exact balanced.push rfl rfl (.inr rfl)

theorem handOut_level (tree : TopicTree T) (s : Subscriber) : level (tree.handOut s) = level tree := by
  unfold TopicTree.handOut
  dsimp only
  split
  · rfl
  · rfl

theorem publishTo (sender : Option Subscriber) (topicPtr : Topic) (message : T) (s : Subscriber) (rest : List Subscriber)
    (referencedMessage : Bool)
    (balanced : Balanced tree (.publish sender topicPtr message rest referencedMessage :: stack)) (all : List (Frame T B)) :
    Balanced (Machine.publishTo ⟨tree, all, log⟩ sender topicPtr message s rest referencedMessage stack).tree
      (Machine.publishTo ⟨tree, all, log⟩ sender topicPtr message s rest referencedMessage stack).stack := by
  unfold Machine.publishTo
  split
  · exact balanced
  · split
    · apply drainSubscriber
      exact balanced.congr rfl rfl rfl
    · exact balanced.congr (handOut_level tree s) rfl rfl

end Balanced

theorem unsubscribed_level (tree : TopicTree T) (s : Subscriber) (t : Topic) :
    Balanced.level (tree.eraseFromTopic s t) = Balanced.level tree := by
  unfold TopicTree.eraseFromTopic
  dsimp only
  split
  · rfl
  · rfl

theorem destroyed_level (tree : TopicTree T) (s : Subscriber) (alreadyUnlinked : Bool) :
    Balanced.level (tree.destroySubscriber s alreadyUnlinked) = Balanced.level tree := by
  obtain ⟨-, -, -, pending, -, depth, iterating, applying, -⟩ := destroySubscriber_frame tree s alreadyUnlinked
  simp only [Balanced.level, pending, depth, iterating, applying]

theorem freed_level (freed : List Subscriber) (tree : TopicTree T) :
    Balanced.level (freed.foldl (fun tree s => tree.destroySubscriber s true) tree) = Balanced.level tree := by
  induction freed generalizing tree with
  | nil => rfl
  | cons s freed ih => exact (ih _).trans (destroyed_level tree s true)

variable {tree : TopicTree T} {stack : List (Frame T B)} {log : List (Event T B)}

theorem proceed_balanced (balanced : Balanced m.tree m.stack) (pick : Nat) : Balanced (m.proceed pick).tree (m.proceed pick).stack := by
  obtain ⟨tree, stack, log⟩ := m
  cases stack with
  | nil => exact balanced
  | cons frame stack =>
    dsimp only at balanced
    unfold Machine.proceed
    dsimp only
    cases frame with
    | callback s => exact balanced
    | drainImpl s i numMessageIndices =>
      dsimp only
      split
      · exact balanced.congr rfl rfl rfl
      · exact balanced.congr rfl rfl rfl
    | drainSubscriber =>
      dsimp only
      split
      · apply balanced.leave
        · rfl
        · rfl
        · exact balanced.iterating
      · apply balanced.leave
        · rfl
        · rfl
        · exact balanced.iterating
    | drain s =>
      cases s with
      | none =>
        apply balanced.leave
        · rfl
        · rfl
        · exact balanced.iterating
      | some s =>
        dsimp only
        split
        · exact balanced.congr rfl rfl rfl
        · exact balanced.congr rfl rfl rfl
    | publishFull sender topicPtr message =>
      apply Balanced.beginPublish
      exact balanced.congr rfl rfl rfl
    | publish sender topicPtr message rest referencedMessage =>
      dsimp only
      cases pickOne pick rest with
      | none =>
        apply balanced.leave
        · rfl
        · rfl
        · exact fun some_ => absurd rfl some_
      | some picked =>
        apply Balanced.publishTo
        exact balanced.congr rfl rfl rfl
    | publishDrained sender topicPtr message s rest referencedMessage =>
      dsimp only
      split
      · exact balanced.congr rfl rfl rfl
      · exact balanced.congr (Balanced.handOut_level tree s) rfl rfl
    | publishBig sender topicPtr bigMessage rest =>
      dsimp only
      cases pickOne pick rest with
      | none =>
        apply balanced.leave
        · rfl
        · rfl
        · exact fun some_ => absurd rfl some_
      | some picked =>
        dsimp only
        split
        · exact balanced.congr rfl rfl rfl
        · exact balanced.congr rfl rfl rfl
    | applyPending =>
      cases split : tree.pendingOps with
      | nil =>
        have level := freed_level tree.pendingFree { tree with pendingFree := [] }
        simp only [Balanced.level, Prod.mk.injEq] at level
        refine ⟨?_, ?_, fun pending => absurd pending Bool.false_ne_true⟩
        · exact level.1.trans balanced.depth
        · intro some_
          exact balanced.iterating fun none_ => some_ (level.2.1.trans none_)
      | cons op ops =>
        have taken : Balanced { tree with pendingOps := ops } (.applyPending :: stack) := balanced.congr rfl rfl rfl
        cases op with
        | subscribe s t => exact taken.congr rfl rfl rfl
        | unsubscribe s t => exact taken.congr (unsubscribed_level _ s t) rfl rfl
        | publish sender topic message => exact taken.publish sender topic message

theorem obtainTopic_pending (tree : TopicTree T) (topicName : Bytes) (fresh : Topic) :
    (tree.obtainTopic topicName fresh).1.pending = tree.pending := by
  unfold TopicTree.obtainTopic
  split <;> rfl

theorem subscribe_balanced (balanced : Balanced tree stack) (s : Subscriber) (topicName : Bytes) (fresh : Topic) :
    Balanced (tree.subscribe s topicName fresh).1 stack := by
  have rest := @subscribe_rest _ tree s topicName fresh
  have obtained := @obtainTopic_rest _ tree topicName fresh
  have same := obtainTopic_pending tree topicName fresh
  simp only [TopicTree.rest, Prod.mk.injEq] at rest obtained
  obtain ⟨-, -, -, -, -, -, depth, iterating, applying, -⟩ := rest
  apply balanced.defer depth iterating applying
  intro pending
  by_cases quiet : tree.iteratingTopic = none
  · left
    rw [← pending, ← same]
    unfold TopicTree.subscribe
    dsimp only
    split
    · exact same
    · split
      · rfl
      · rename_i off
        split
        · rename_i iterated
          have away := obtained.2.2.2.2.2.2.2.1.trans quiet
          cases away.symm.trans iterated
        · rfl
  · exact .inr (.inl (balanced.iterated quiet))

theorem unsubscribe_balanced (balanced : Balanced tree stack) (s : Subscriber) (topicName : Bytes) :
    Balanced (tree.unsubscribe s topicName).1 stack := by
  have rest := @unsubscribe_rest _ tree s topicName
  simp only [TopicTree.rest, Prod.mk.injEq] at rest
  obtain ⟨-, -, -, -, -, -, depth, iterating, applying, -⟩ := rest
  apply balanced.defer depth iterating applying
  intro pending
  by_cases quiet : tree.iteratingTopic = none
  · left
    rw [← pending]
    unfold TopicTree.unsubscribe
    split
    · rfl
    · cases tree.lookupTopic topicName with
      | none => rfl
      | some t =>
        dsimp only
        split
        · split
          · rename_i iterated
            cases quiet.symm.trans iterated
          · exact (congrArg (fun level => level.2.2.1) (unsubscribed_level (tree.forgetTopic s t) s t)).symm
        · rfl
  · exact .inr (.inl (balanced.iterated quiet))

theorem freeSubscriber_balanced (balanced : Balanced tree stack) (s : Subscriber) : Balanced (tree.freeSubscriber s) stack := by
  unfold TopicTree.freeSubscriber
  split
  · rename_i busy
    apply balanced.defer
    · dsimp only
      split <;> rfl
    · dsimp only
      split <;> rfl
    · dsimp only
      split <;> rfl
    · exact fun _ => .inr busy
  · exact balanced.congr (destroyed_level tree s false) rfl rfl

theorem runCall_balanced (balanced : Balanced m.tree m.stack) (call : Call T B) :
    Balanced (m.runCall call).tree (m.runCall call).stack := by
  cases call with
  | createSubscriber s => exact balanced.congr rfl rfl rfl
  | subscribe s topic fresh =>
    have moved := subscribe_balanced balanced s topic fresh
    unfold Machine.runCall
    dsimp only
    split
    · exact moved
    · exact moved
  | unsubscribe s topic =>
    have moved := unsubscribe_balanced balanced s topic
    unfold Machine.runCall
    dsimp only
    split
    · exact moved
    · exact moved
  | freeSubscriber s => exact freeSubscriber_balanced balanced s
  | publish sender topic message => exact balanced.publish sender topic message
  | publishBig sender topic bigMessage => exact balanced.publishBig sender topic bigMessage
  | drainSubscriber s => exact balanced.drainSubscriber s
  | drain => exact balanced.drain
  | iterateTopics s => exact balanced.congr rfl rfl rfl

theorem step_balanced (balanced : Balanced m.tree m.stack) (action : Action T B) :
    Balanced (m.step action).tree (m.step action).stack := by
  cases action with
  | call call =>
    unfold Machine.step
    dsimp only
    split
    · exact runCall_balanced m balanced call
    · exact balanced
  | return_ stop =>
    unfold Machine.step Machine.returned
    dsimp only
    split
    · rename_i top
      rw [top] at balanced
      cases stop
      · exact balanced.congr rfl rfl rfl
      · exact balanced.congr rfl rfl rfl
    · rename_i top
      rw [top] at balanced
      exact balanced.congr rfl rfl rfl
    · exact balanced
  | proceed pick => exact proceed_balanced m balanced pick

end Uws.PubSub
