import Uws.Library.LinkedList

/-! The tree of topics, and its operations as far as they go without calling back. -/

namespace Uws.PubSub

open Uws.LinkedList

abbrev Bytes := List UInt8

/-- A pointer is the address of what it points to. -/
abbrev Topic := Nat
abbrev Subscriber := Nat

/-- A deferred operation. Where one has been applied its topic is null, so only those that are left are kept. -/
inductive PendingOp (T : Type) where
  | subscribe (subscriber : Subscriber) (topic : Topic)
  | unsubscribe (subscriber : Subscriber) (topic : Topic)
  | publish (subscriber : Option Subscriber) (topicName : Bytes) (message : T)

/-- The fields of the tree, and those of every topic and subscriber by its address. `subscribers` are the ones that are
    not deleted; a topic is not deleted as long as `topics` holds it. -/
structure TopicTree (T : Type) where
  iteratingSubscriber : Option Subscriber := none
  topics : Bytes → Option Topic := fun _ => none
  name : Topic → Bytes := fun _ => []
  members : Topic → List Subscriber := fun _ => []
  subscribers : List Subscriber := []
  topicsOf : Subscriber → List Topic := fun _ => []
  prev : Subscriber → Option Subscriber := fun _ => none
  next : Subscriber → Option Subscriber := fun _ => none
  messageIndices : Subscriber → Nat → Nat := fun _ _ => 0
  numMessageIndices : Subscriber → Nat := fun _ => 0
  pendingDestruction : Subscriber → Bool := fun _ => false
  drainableSubscribers : Option Subscriber := none
  drainingDepth : Nat := 0
  iteratingTopic : Option Topic := none
  pending : Bool := false
  applying : Bool := false
  pendingFree : List Subscriber := []
  pendingOps : List (PendingOp T) := []
  outgoingMessages : List T := []

variable {T : Type}

namespace TopicTree

variable (tree : TopicTree T)

/-- The map holds the topic. -/
def Owns (topic : Topic) : Prop := tree.topics (tree.name topic) = some topic

instance (topic : Topic) : Decidable (tree.Owns topic) := inferInstanceAs (Decidable (_ = _))

def isIterating (s : Subscriber) : Bool := tree.iteratingSubscriber == some s

def needsDrainage (s : Subscriber) : Bool := tree.numMessageIndices s != 0

def unlinkDrainableSubscriber (s : Subscriber) : TopicTree T :=
  { tree with
    next := relink tree.next (tree.prev s) (tree.next s)
    prev := relink tree.prev (tree.next s) (tree.prev s)
    drainableSubscribers := if tree.drainableSubscribers = some s then tree.next s else tree.drainableSubscribers }

/-- The part of `publish` that puts a subscriber with its first message before the drainable ones. -/
def linkDrainableSubscriber (s : Subscriber) : TopicTree T :=
  { tree with
    next := Function.update tree.next s tree.drainableSubscribers
    prev := relink (Function.update tree.prev s none) tree.drainableSubscribers (some s)
    drainableSubscribers := some s }

def eraseTopic (topic : Topic) : TopicTree T :=
  { tree with topics := Function.update tree.topics (tree.name topic) none }

def eraseMember (topic : Topic) (s : Subscriber) : TopicTree T :=
  { tree with members := Function.update tree.members topic ((tree.members topic).erase s) }

def insertMember (topic : Topic) (s : Subscriber) : TopicTree T :=
  { tree with members := Function.update tree.members topic ((tree.members topic).insert s) }

/-- If we are the last subscriber, the whole topic is removed. -/
def leaveTopic (s : Subscriber) (tree : TopicTree T) (topicPtr : Topic) : TopicTree T :=
  if (tree.members topicPtr).length = 1 then tree.eraseTopic topicPtr else tree.eraseMember topicPtr s

def delete (s : Subscriber) : TopicTree T := { tree with subscribers := tree.subscribers.filter (· ≠ s) }

def destroySubscriber (s : Subscriber) (alreadyUnlinked : Bool) : TopicTree T :=
  let tree := (tree.topicsOf s).foldl (leaveTopic s) tree
  let tree := if ¬ alreadyUnlinked ∧ tree.needsDrainage s then tree.unlinkDrainableSubscriber s else tree
  tree.delete s

def freePendingSubscribers : TopicTree T :=
  tree.pendingFree.foldl (fun tree s => tree.destroySubscriber s true) { tree with pendingFree := [] }

def wasFreed (s : Subscriber) : Bool := tree.pendingDestruction s

def detached (s : Subscriber) (topic : Topic) : Bool := tree.wasFreed s || decide (topic ∉ tree.topicsOf s)

def deferOp (op : PendingOp T) : TopicTree T := { tree with pendingOps := tree.pendingOps ++ [op], pending := true }

end TopicTree

def PendingOp.subscribesTo (topic : Topic) : PendingOp T → Bool
  | .subscribe _ t => t == topic
  | _ => false

/-- What an operation that is still deferred adds to the number of subscribers. -/
def PendingOp.counts (topic : Topic) : PendingOp T → Int
  | .subscribe _ t => if t = topic then 1 else 0
  | .unsubscribe _ t => if t = topic then -1 else 0
  | .publish _ _ _ => 0

namespace TopicTree

variable (tree : TopicTree T)

def subscribePending (topic : Topic) : Bool := tree.pendingOps.any (PendingOp.subscribesTo topic)

def eraseFromTopic (s : Subscriber) (topic : Topic) : TopicTree T :=
  let tree := tree.eraseMember topic s
  if tree.members topic = [] ∧ ¬ (tree.pending = true ∧ tree.subscribePending topic = true) then tree.eraseTopic topic
  else tree

def lookupTopic (topic : Bytes) : Option Topic := tree.topics topic

def numSubscribers (topic : Topic) : Int :=
  (tree.members topic).length + if tree.pending then (tree.pendingOps.map (PendingOp.counts topic)).sum else 0

def obtainTopic (topic : Bytes) (fresh : Topic) : TopicTree T × Topic :=
  match tree.lookupTopic topic with
  | some topicPtr => (tree, topicPtr)
  | none =>
    ({ tree with
        topics := Function.update tree.topics topic (some fresh)
        name := Function.update tree.name fresh topic
        members := Function.update tree.members fresh [] }, fresh)

def noteTopic (s : Subscriber) (topic : Topic) : TopicTree T :=
  { tree with topicsOf := Function.update tree.topicsOf s (topic :: tree.topicsOf s) }

def forgetTopic (s : Subscriber) (topic : Topic) : TopicTree T :=
  { tree with topicsOf := Function.update tree.topicsOf s ((tree.topicsOf s).erase topic) }

def subscribe (s : Subscriber) (topic : Bytes) (fresh : Topic) : TopicTree T × Option Topic :=
  if tree.isIterating s then (tree, none)
  else
    let (tree, topicPtr) := tree.obtainTopic topic fresh
    if topicPtr ∈ tree.topicsOf s then (tree, none)
    else
      let tree := tree.noteTopic s topicPtr
      if tree.iteratingTopic = some topicPtr then (tree.deferOp (.subscribe s topicPtr), some topicPtr)
      else (tree.insertMember topicPtr s, some topicPtr)

/-- Whether it was the last topic of the subscriber, and how many subscribers are left; nothing where it was not
    subscribed. -/
def unsubscribe (s : Subscriber) (topic : Bytes) : TopicTree T × Option (Bool × Int) :=
  if tree.isIterating s then (tree, none)
  else
    match tree.lookupTopic topic with
    | none => (tree, none)
    | some topicPtr =>
      if topicPtr ∈ tree.topicsOf s then
        let tree := tree.forgetTopic s topicPtr
        if tree.iteratingTopic = some topicPtr then
          let tree := tree.deferOp (.unsubscribe s topicPtr)
          (tree, some ((tree.topicsOf s).isEmpty, tree.numSubscribers topicPtr))
        else
          let newCount : Int := (tree.members topicPtr).length - 1
          let tree := tree.eraseFromTopic s topicPtr
          (tree, some ((tree.topicsOf s).isEmpty, newCount))
      else (tree, none)

def createSubscriber (s : Subscriber) : TopicTree T :=
  { tree with
    subscribers := s :: tree.subscribers
    topicsOf := Function.update tree.topicsOf s []
    prev := Function.update tree.prev s none
    next := Function.update tree.next s none
    numMessageIndices := Function.update tree.numMessageIndices s 0
    pendingDestruction := Function.update tree.pendingDestruction s false }

def clearIndices (s : Subscriber) : TopicTree T :=
  { tree with numMessageIndices := Function.update tree.numMessageIndices s 0 }

def freeSubscriber (s : Subscriber) : TopicTree T :=
  if 0 < tree.drainingDepth ∨ tree.applying = true then
    let tree := if tree.needsDrainage s then (tree.unlinkDrainableSubscriber s).clearIndices s else tree
    { tree with
      pendingFree := tree.pendingFree ++ [s]
      pendingDestruction := Function.update tree.pendingDestruction s true
      pending := true }
  else tree.destroySubscriber s false

/-- The part of `publish` that gives a subscriber the index that the message is going to have. -/
def handOut (s : Subscriber) : TopicTree T :=
  let num := tree.numMessageIndices s
  let tree :=
    { tree with
      messageIndices :=
        Function.update tree.messageIndices s
          (Function.update (tree.messageIndices s) num (tree.outgoingMessages.length % 2 ^ 16))
      numMessageIndices := Function.update tree.numMessageIndices s (num + 1) }
  if num = 0 then tree.linkDrainableSubscriber s else tree

end TopicTree

end Uws.PubSub
