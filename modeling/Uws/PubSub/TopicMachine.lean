import Uws.PubSub.TopicTree

/-! The operations that call back, by steps: a callback goes on with any operations before it returns. -/

namespace Uws.PubSub

variable {T B : Type}

/-- What an operation that has begun still has to do. Above its frame stand those of what it called. -/
inductive Frame (T B : Type) where
  /-- The loop of `drainImpl`, before its message `i`. -/
  | drainImpl (s : Subscriber) (i numMessageIndices : Nat)
  /-- `drain(s)`, behind `drainImpl`. -/
  | drainSubscriber
  /-- The loop of `drain()`, at a subscriber. -/
  | drain (s : Option Subscriber)
  /-- `publish`, behind the `drain()` of a full vector. -/
  | publishFull (sender : Option Subscriber) (topicPtr : Topic) (message : T)
  /-- The loop of `publish`, with the subscribers that it has not come to. -/
  | publish (sender : Option Subscriber) (topicPtr : Topic) (message : T) (rest : List Subscriber)
    (referencedMessage : Bool)
  /-- That loop, behind the `drain(s)` of a subscriber with 32 messages. -/
  | publishDrained (sender : Option Subscriber) (topicPtr : Topic) (message : T) (s : Subscriber) (rest : List Subscriber)
    (referencedMessage : Bool)
  | publishBig (sender : Option Subscriber) (topicPtr : Topic) (bigMessage : B) (rest : List Subscriber)
  | applyPending
  /-- The callback that was called for the subscriber. -/
  | callback (s : Subscriber)

/-- What the tree did. A publish takes effect for a subscriber when its loop comes to it. A message that is read from behind
    the end of the vector is a `none`. -/
inductive Event (T B : Type) where
  | created (s : Subscriber)
  | subscribed (s : Subscriber) (topic : Bytes)
  | unsubscribed (s : Subscriber) (topic : Bytes)
  | visited (s : Subscriber) (message : T) (isMember : Bool)
  | delivered (s : Subscriber) (message : Option T) (first last : Bool)
  | deliveredBig (s : Subscriber) (bigMessage : B)
  | published (wanted : Bool)

structure Machine (T B : Type) where
  tree : TopicTree T := {}
  stack : List (Frame T B) := []
  log : List (Event T B) := []

inductive Call (T B : Type) where
  | createSubscriber (s : Subscriber)
  | subscribe (s : Subscriber) (topic : Bytes) (fresh : Topic)
  | unsubscribe (s : Subscriber) (topic : Bytes)
  | freeSubscriber (s : Subscriber)
  | publish (sender : Option Subscriber) (topic : Bytes) (message : T)
  | publishBig (sender : Option Subscriber) (topic : Bytes) (bigMessage : B)
  | drainSubscriber (s : Subscriber)
  | drain
  | iterateTopics (s : Option Subscriber)

/-- The code that calls the tree, a return from a callback, or a step of the tree; `pick` is the place of the next
    subscriber in the order of a hash set. -/
inductive Action (T B : Type) where
  | call (call : Call T B)
  | return_ (stop : Bool)
  | proceed (pick : Nat)

/-- A subscriber is created and not freed. -/
def TopicTree.Live (tree : TopicTree T) (s : Subscriber) : Prop := s ∈ tree.subscribers ∧ tree.pendingDestruction s = false

instance (tree : TopicTree T) (s : Subscriber) : Decidable (tree.Live s) := inferInstanceAs (Decidable (_ ∧ _))

/-- What the callers see to: a subscriber that they name is live, and a new block is where no block is. -/
def Call.Possible (tree : TopicTree T) : Call T B → Prop
  | .createSubscriber s => s ∉ tree.subscribers
  | .subscribe s _ fresh => tree.Live s ∧ ¬ tree.Owns fresh
  | .unsubscribe s _ => tree.Live s
  | .freeSubscriber s => tree.Live s
  | .publish sender _ _ => ∀ s ∈ sender, tree.Live s
  | .publishBig sender _ _ => ∀ s ∈ sender, tree.Live s
  | .drainSubscriber s => tree.Live s
  | .drain => True
  | .iterateTopics _ => True

instance (tree : TopicTree T) : (call : Call T B) → Decidable (call.Possible tree)
  | .createSubscriber s => inferInstanceAs (Decidable (s ∉ tree.subscribers))
  | .subscribe s _ fresh => inferInstanceAs (Decidable (tree.Live s ∧ ¬ tree.Owns fresh))
  | .unsubscribe s _ => inferInstanceAs (Decidable (tree.Live s))
  | .freeSubscriber s => inferInstanceAs (Decidable (tree.Live s))
  | .publish sender _ _ => inferInstanceAs (Decidable (∀ s ∈ sender, tree.Live s))
  | .publishBig sender _ _ => inferInstanceAs (Decidable (∀ s ∈ sender, tree.Live s))
  | .drainSubscriber s => inferInstanceAs (Decidable (tree.Live s))
  | .drain => inferInstanceAs (Decidable True)
  | .iterateTopics _ => inferInstanceAs (Decidable True)

def TopicTree.isMember (tree : TopicTree T) (sender : Option Subscriber) (topicPtr : Topic) (s : Subscriber) : Bool :=
  decide (sender ≠ some s ∧ topicPtr ∈ tree.topicsOf s ∧ tree.pendingDestruction s = false)

/-- The next subscriber of a loop over a hash set, and those that are left. -/
def pickOne (pick : Nat) (rest : List Subscriber) : Option (Subscriber × List Subscriber) :=
  match rest[pick % rest.length]? with
  | some s => some (s, rest.erase s)
  | none => none

namespace Machine

variable (m : Machine T B)

def note (event : Event T B) : Machine T B := { m with log := m.log ++ [event] }

def push (frame : Frame T B) : Machine T B := { m with stack := frame :: m.stack }

/-- What stands between `drainingDepth++` and the callbacks of `drainImpl`. -/
def drainImpl (s : Subscriber) : Machine T B :=
  { m with
    tree := m.tree.clearIndices s
    stack := .drainImpl s 0 (m.tree.numMessageIndices s) :: m.stack }

def leaveDraining : Machine T B :=
  let depth := m.tree.drainingDepth - 1
  if depth = 0 ∧ m.tree.pending = true ∧ m.tree.applying = false then
    { m with
      tree := { m.tree with drainingDepth := depth, applying := true }
      stack := .applyPending :: m.stack }
  else { m with tree := { m.tree with drainingDepth := depth } }

def enter : Machine T B := { m with tree := { m.tree with drainingDepth := m.tree.drainingDepth + 1 } }

def drainSubscriber (s : Subscriber) : Machine T B :=
  if m.tree.needsDrainage s then
    let m := m.enter
    let m := { m with tree := m.tree.unlinkDrainableSubscriber s, stack := .drainSubscriber :: m.stack }
    m.drainImpl s
  else m

def drain : Machine T B :=
  match m.tree.drainableSubscribers with
  | some s => m.enter.push (.drain (some s))
  | none => m

def beginPublish (sender : Option Subscriber) (topicPtr : Topic) (message : T) : Machine T B :=
  let m := m.enter
  { m with
    tree := { m.tree with iteratingTopic := some topicPtr }
    stack := .publish sender topicPtr message (m.tree.members topicPtr) false :: m.stack }

/-- While draining, a publish is deferred, with the answer whether there is somebody to receive it. -/
def wanted (tree : TopicTree T) (sender : Option Subscriber) (topicPtr : Topic) : Bool :=
  (tree.members topicPtr).any fun s => some s != sender && !(tree.pending && tree.detached s topicPtr)

def publish (sender : Option Subscriber) (topic : Bytes) (message : T) : Machine T B :=
  match m.tree.topics topic with
  | none => m.note (.published false)
  | some topicPtr =>
    if 0 < m.tree.drainingDepth then
      let answer := wanted m.tree sender topicPtr
      { m with tree := m.tree.deferOp (.publish sender topic message) }.note (.published answer)
    else if 2 ^ 16 - 1 ≤ m.tree.outgoingMessages.length then (m.push (.publishFull sender topicPtr message)).drain
    else m.beginPublish sender topicPtr message

def publishBig (sender : Option Subscriber) (topic : Bytes) (bigMessage : B) : Machine T B :=
  match m.tree.topics topic with
  | none => m.note (.published false)
  | some topicPtr =>
    if 0 < m.tree.drainingDepth then m.note (.published false)
    else
      let m := m.enter
      { m with
        tree := { m.tree with iteratingTopic := some topicPtr }
        stack := .publishBig sender topicPtr bigMessage (m.tree.members topicPtr) :: m.stack }

def runCall : Call T B → Machine T B
  | .createSubscriber s => { m with tree := m.tree.createSubscriber s }.note (.created s)
  | .subscribe s topic fresh =>
    let (tree, topicOrNull) := m.tree.subscribe s topic fresh
    let m := { m with tree }
    match topicOrNull with
    | some _ => m.note (.subscribed s topic)
    | none => m
  | .unsubscribe s topic =>
    let (tree, answer) := m.tree.unsubscribe s topic
    let m := { m with tree }
    match answer with
    | some _ => m.note (.unsubscribed s topic)
    | none => m
  | .freeSubscriber s => { m with tree := m.tree.freeSubscriber s }
  | .publish sender topic message => m.publish sender topic message
  | .publishBig sender topic bigMessage => m.publishBig sender topic bigMessage
  | .drainSubscriber s => m.drainSubscriber s
  | .drain => m.drain
  | .iterateTopics s => { m with tree := { m.tree with iteratingSubscriber := s } }

def enqueue (sender : Option Subscriber) (topicPtr : Topic) (message : T) (s : Subscriber) (rest : List Subscriber)
    (stack : List (Frame T B)) : Machine T B :=
  { m with
    tree := m.tree.handOut s
    stack := .publish sender topicPtr message rest true :: stack
    log := m.log ++ [.visited s message (m.tree.isMember sender topicPtr s)] }

def skip (sender : Option Subscriber) (topicPtr : Topic) (message : T) (s : Subscriber) (rest : List Subscriber)
    (referencedMessage : Bool) (stack : List (Frame T B)) : Machine T B :=
  { m with
    stack := .publish sender topicPtr message rest referencedMessage :: stack
    log := m.log ++ [.visited s message (m.tree.isMember sender topicPtr s)] }

def applyOp : PendingOp T → Machine T B
  | .subscribe s topic => { m with tree := m.tree.insertMember topic s }
  | .unsubscribe s topic => { m with tree := m.tree.eraseFromTopic s topic }
  | .publish sender topicName message => m.publish sender topicName message

/-- The loop of `publish` comes to a subscriber: a sender and one that is detached are left out, and one with 32 messages
    is drained first. -/
def publishTo (sender : Option Subscriber) (topicPtr : Topic) (message : T) (s : Subscriber) (rest : List Subscriber)
    (referencedMessage : Bool) (stack : List (Frame T B)) : Machine T B :=
  if sender = some s ∨ (m.tree.pending && m.tree.detached s topicPtr) = true then
    m.skip sender topicPtr message s rest referencedMessage stack
  else if m.tree.numMessageIndices s = 32 then
    { m with stack := .publishDrained sender topicPtr message s rest referencedMessage :: stack }.drainSubscriber s
  else m.enqueue sender topicPtr message s rest stack

def proceed (pick : Nat) : Machine T B :=
  match m.stack with
  | [] => m
  | .callback _ :: _ => m
  | .drainImpl s i numMessageIndices :: stack =>
    if i < numMessageIndices then
      { m with
        stack := .callback s :: .drainImpl s (i + 1) numMessageIndices :: stack
        log := m.log ++
          [.delivered s m.tree.outgoingMessages[m.tree.messageIndices s i]? (i = 0) (i + 1 = numMessageIndices)] }
    else { m with stack }
  | .drainSubscriber :: stack =>
    let tree :=
      if m.tree.drainableSubscribers = none then { m.tree with outgoingMessages := [] } else m.tree
    { m with tree, stack }.leaveDraining
  | .drain (some s) :: stack =>
    let m := { m with stack := .drain (m.tree.next s) :: stack }
    if m.tree.wasFreed s then m else m.drainImpl s
  | .drain none :: stack =>
    { m with tree := { m.tree with drainableSubscribers := none, outgoingMessages := [] }, stack }.leaveDraining
  | .publishFull sender topicPtr message :: stack => { m with stack }.beginPublish sender topicPtr message
  | .publish sender topicPtr message rest referencedMessage :: stack =>
    match pickOne pick rest with
    | some (s, rest) => m.publishTo sender topicPtr message s rest referencedMessage stack
    | none =>
      let outgoingMessages :=
        if referencedMessage then m.tree.outgoingMessages ++ [message] else m.tree.outgoingMessages
      ({ m with tree := { m.tree with iteratingTopic := none, outgoingMessages }, stack }.leaveDraining).note
        (.published referencedMessage)
  | .publishDrained sender topicPtr message s rest referencedMessage :: stack =>
    if (m.tree.pending && m.tree.detached s topicPtr) = true then
      m.skip sender topicPtr message s rest referencedMessage stack
    else m.enqueue sender topicPtr message s rest stack
  | .publishBig sender topicPtr bigMessage rest :: stack =>
    match pickOne pick rest with
    | some (s, rest) =>
      let m := { m with stack := .publishBig sender topicPtr bigMessage rest :: stack }
      if sender = some s ∨ (m.tree.pending && m.tree.detached s topicPtr) = true then m
      else (m.push (.callback s)).note (.deliveredBig s bigMessage)
    | none =>
      ({ m with tree := { m.tree with iteratingTopic := none }, stack }.leaveDraining).note (.published true)
  | .applyPending :: stack =>
    match m.tree.pendingOps with
    | op :: pendingOps => { m with tree := { m.tree with pendingOps } }.applyOp op
    | [] =>
      let tree := m.tree.freePendingSubscribers
      { m with tree := { tree with pending := false, applying := false }, stack }

/-- Code outside of the tree runs: no operation has begun, or one is in a callback. -/
def Outside : List (Frame T B) → Prop
  | [] => True
  | .callback _ :: _ => True
  | _ => False

instance : (stack : List (Frame T B)) → Decidable (Outside stack)
  | [] => inferInstanceAs (Decidable True)
  | .callback _ :: _ => inferInstanceAs (Decidable True)
  | .drainImpl _ _ _ :: _ => inferInstanceAs (Decidable False)
  | .drainSubscriber :: _ => inferInstanceAs (Decidable False)
  | .drain _ :: _ => inferInstanceAs (Decidable False)
  | .publishFull _ _ _ :: _ => inferInstanceAs (Decidable False)
  | .publish _ _ _ _ _ :: _ => inferInstanceAs (Decidable False)
  | .publishDrained _ _ _ _ _ _ :: _ => inferInstanceAs (Decidable False)
  | .publishBig _ _ _ _ :: _ => inferInstanceAs (Decidable False)
  | .applyPending :: _ => inferInstanceAs (Decidable False)

/-- A callback returns; one of `drainImpl` can stop the drain short. -/
def returned (stop : Bool) : Machine T B :=
  match m.stack with
  | .callback _ :: .drainImpl s i numMessageIndices :: stack =>
    { m with stack := if stop then stack else .drainImpl s i numMessageIndices :: stack }
  | .callback _ :: stack => { m with stack }
  | _ => m

/-- A call that is not possible does not take place. -/
def step : Action T B → Machine T B
  | .call call => if Outside m.stack ∧ call.Possible m.tree then m.runCall call else m
  | .return_ stop => m.returned stop
  | .proceed pick => m.proceed pick

def run (m : Machine T B) (actions : List (Action T B)) : Machine T B := actions.foldl step m

end Machine

end Uws.PubSub
