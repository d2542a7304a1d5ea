import Uws.PubSub.TopicTree

/-! What holds of topics and subscribers between two operations, with the changes that are still deferred. -/

namespace Uws.PubSub

variable {T : Type} {tree tree' : TopicTree T} {s x : Subscriber} {t topic : Topic} {ops front back : List (PendingOp T)}
  {op : PendingOp T}

/-- Whether the subscriber is in the set of the topic behind an operation. -/
def PendingOp.settle (s : Subscriber) (t : Topic) (now : Bool) : PendingOp T → Bool
  | .subscribe s' t' => if s' = s ∧ t' = t then true else now
  | .unsubscribe s' t' => if s' = s ∧ t' = t then false else now
  | .publish _ _ _ => now

def settled (s : Subscriber) (t : Topic) (ops : List (PendingOp T)) (now : Bool) : Bool :=
  ops.foldl (fun now op => op.settle s t now) now

/-- The operation changes whether the subscriber is in the set of the topic. -/
def PendingOp.On (s : Subscriber) (t : Topic) : PendingOp T → Prop
  | .subscribe s' t' => s' = s ∧ t' = t
  | .unsubscribe s' t' => s' = s ∧ t' = t
  | .publish _ _ _ => False

instance (s : Subscriber) (t : Topic) : (op : PendingOp T) → Decidable (op.On s t)
  | .subscribe s' t' => inferInstanceAs (Decidable (s' = s ∧ t' = t))
  | .unsubscribe s' t' => inferInstanceAs (Decidable (s' = s ∧ t' = t))
  | .publish _ _ _ => inferInstanceAs (Decidable False)

/-- The operation is on a topic of the map and a subscriber that is not deleted. -/
def PendingOp.Fits (tree : TopicTree T) : PendingOp T → Prop
  | .subscribe s t => tree.Owns t ∧ s ∈ tree.subscribers
  | .unsubscribe s t => tree.Owns t ∧ s ∈ tree.subscribers
  | .publish _ _ _ => True

/-- Both sides of every subscription agree, once the deferred operations are applied. -/
structure Consistent (tree : TopicTree T) : Prop where
  named : ∀ n t, tree.topics n = some t → tree.name t = n
  held : ∀ s ∈ tree.subscribers, ∀ t ∈ tree.topicsOf s, tree.Owns t
  fits : ∀ op ∈ tree.pendingOps, op.Fits tree
  taken : ∀ front s t back, tree.pendingOps = front ++ .unsubscribe s t :: back →
    settled s t front (decide (s ∈ tree.members t)) = true
  agree : ∀ s ∈ tree.subscribers, ∀ t, tree.Owns t →
    settled s t tree.pendingOps (decide (s ∈ tree.members t)) = decide (t ∈ tree.topicsOf s)
  members : ∀ t, tree.Owns t → (tree.members t).Nodup ∧ ∀ s ∈ tree.members t, s ∈ tree.subscribers
  distinct : ∀ s ∈ tree.subscribers, (tree.topicsOf s).Nodup
  flagged : tree.pendingOps ≠ [] → tree.pending = true

/-- A topic without a subscriber is kept for one that is deferred. -/
def Peopled (tree : TopicTree T) : Prop := ∀ t, tree.Owns t → tree.members t ≠ [] ∨ tree.subscribePending t = true

section Settled

theorem settled_cons (s : Subscriber) (t : Topic) (op : PendingOp T) (ops : List (PendingOp T)) (now : Bool) :
    settled s t (op :: ops) now = settled s t ops (op.settle s t now) := rfl

theorem settled_append (s : Subscriber) (t : Topic) (front back : List (PendingOp T)) (now : Bool) :
    settled s t (front ++ back) now = settled s t back (settled s t front now) :=
  List.foldl_append ..

theorem settle_other (away : ¬ op.On s t) (now : Bool) : op.settle s t now = now := by
  cases op with
  | subscribe s' t' => exact if_neg away
  | unsubscribe s' t' => exact if_neg away
  | publish sender name message => rfl

theorem settled_other (away : ∀ op ∈ ops, ¬ op.On s t) (now : Bool) : settled s t ops now = now := by
  induction ops generalizing now with
  | nil => rfl
  | cons op ops ih =>
    rw [settled_cons, settle_other (away op List.mem_cons_self)]
    exact ih (fun other member => away other (List.mem_cons_of_mem _ member)) now

theorem settled_false (none_ : ∀ op ∈ ops, op.subscribesTo t = false) : settled s t ops false = false := by
  induction ops with
  | nil => rfl
  | cons op ops ih =>
    have others := ih fun other member => none_ other (List.mem_cons_of_mem _ member)
    have own := none_ op List.mem_cons_self
    rw [settled_cons]
    cases op with
    | subscribe s' t' =>
      have other : ¬ t' = t := by simpa [PendingOp.subscribesTo] using own
      rw [show PendingOp.settle s t false (.subscribe s' t' : PendingOp T) = false by simp [PendingOp.settle, other]]
      exact others
    | unsubscribe s' t' =>
      rw [show PendingOp.settle s t false (.unsubscribe s' t' : PendingOp T) = false by simp [PendingOp.settle]]
      exact others
    | publish sender name message => exact others

end Settled

def TopicTree.core (tree : TopicTree T) :=
  (tree.topics, tree.name, tree.members, tree.subscribers, tree.topicsOf, tree.pendingOps, tree.pending)

theorem core_iff :
    tree'.core = tree.core ↔ tree'.topics = tree.topics ∧ tree'.name = tree.name ∧ tree'.members = tree.members ∧
      tree'.subscribers = tree.subscribers ∧ tree'.topicsOf = tree.topicsOf ∧ tree'.pendingOps = tree.pendingOps ∧
      tree'.pending = tree.pending := by
  simp [TopicTree.core]

theorem owns_iff (named : ∀ n t, tree.topics n = some t → tree.name t = n) : tree.Owns t ↔ ∃ n, tree.topics n = some t := by
  constructor
  · exact fun owns => ⟨_, owns⟩
  · rintro ⟨n, at_⟩
    unfold TopicTree.Owns
    rw [named n t at_, at_]

namespace Consistent

theorem congr (consistent : Consistent tree) (same : tree'.core = tree.core) : Consistent tree' := by
  obtain ⟨topics, name, members, subscribers, topicsOf, pendingOps, pending⟩ := core_iff.mp same
  have owns : ∀ t, tree'.Owns t ↔ tree.Owns t := by
    intro t
    unfold TopicTree.Owns
    rw [topics, name]
  refine ⟨?_, ?_, ?_, ?_, ?_, ?_, ?_, ?_⟩
  · rw [topics, name]
    exact consistent.named
  · simp only [subscribers, topicsOf, owns]
    exact consistent.held
  · rw [pendingOps]
    intro op member
    have fits := consistent.fits op member
    cases op with
    | subscribe s t => exact ⟨(owns t).mpr fits.1, subscribers ▸ fits.2⟩
    | unsubscribe s t => exact ⟨(owns t).mpr fits.1, subscribers ▸ fits.2⟩
    | publish sender name message => exact True.intro
  · rw [pendingOps, members]
    exact consistent.taken
  · simp only [subscribers, topicsOf, owns, pendingOps, members]
    exact consistent.agree
  · simp only [owns, members, subscribers]
    exact consistent.members
  · rw [subscribers, topicsOf]
    exact consistent.distinct
  · rw [pendingOps, pending]
    exact consistent.flagged

theorem lookup (consistent : Consistent tree) {n : Bytes} (found : tree.topics n = some t) : tree.Owns t :=
  (owns_iff consistent.named).mpr ⟨n, found⟩

theorem unheld (consistent : Consistent tree) (dead : ¬ tree.Owns t) (member : s ∈ tree.subscribers) :
    t ∉ tree.topicsOf s ∧ ∀ op ∈ tree.pendingOps, ¬ op.On s t := by
  refine ⟨fun inside => dead (consistent.held s member t inside), ?_⟩
  intro op pending on
  have fits := consistent.fits op pending
  cases op with
  | subscribe s' t' =>
    obtain ⟨-, rfl⟩ := on
    exact dead fits.1
  | unsubscribe s' t' =>
    obtain ⟨-, rfl⟩ := on
    exact dead fits.1
  | publish sender name message => exact on

theorem set (consistent : Consistent tree) {side : List Subscriber} {topics : List Topic} (owns : tree.Owns t)
    (member : s ∈ tree.subscribers) (none_ : ∀ op ∈ tree.pendingOps, ¬ op.On s t) (sideNodup : side.Nodup)
    (sideOthers : ∀ x, x ≠ s → (x ∈ side ↔ x ∈ tree.members t)) (topicsNodup : topics.Nodup)
    (topicsOthers : ∀ y, y ≠ t → (y ∈ topics ↔ y ∈ tree.topicsOf s)) (both : s ∈ side ↔ t ∈ topics) :
    Consistent { tree with
      members := Function.update tree.members t side, topicsOf := Function.update tree.topicsOf s topics } := by
  have same : ∀ s' t', (s' ≠ s ∨ t' ≠ t) → (s' ∈ Function.update tree.members t side t' ↔ s' ∈ tree.members t') := by
    intro s' t' other
    by_cases at_ : t' = t
    · subst at_
      have ne : s' ≠ s := by simpa using other
      simp only [Function.update_self]
      exact sideOthers s' ne
    · simp only [Function.update_of_ne at_]
  have listed : ∀ s' t', (s' ≠ s ∨ t' ≠ t) → (t' ∈ Function.update tree.topicsOf s topics s' ↔ t' ∈ tree.topicsOf s') := by
    intro s' t' other
    by_cases at_ : s' = s
    · subst at_
      have ne : t' ≠ t := by simpa using other
      simp only [Function.update_self]
      exact topicsOthers t' ne
    · simp only [Function.update_of_ne at_]
  have away : ∀ s' t' op, op ∈ tree.pendingOps → op.On s' t' → s' ≠ s ∨ t' ≠ t := by
    intro s' t' op pending on
    by_contra both_
    simp only [ne_eq, not_or, not_not] at both_
    obtain ⟨rfl, rfl⟩ := both_
    exact none_ op pending on
  refine ⟨consistent.named, ?_, ?_, ?_, ?_, ?_, ?_, consistent.flagged⟩
  · intro s' inside t' on
    by_cases at_ : t' = t
    · exact at_ ▸ owns
    · exact consistent.held s' inside t' ((listed s' t' (.inr at_)).mp on)
  · intro op pending
    have fits := consistent.fits op pending
    cases op <;> exact fits
  · intro front s' t' back split
    have other := away s' t' (.unsubscribe s' t') (by rw [split]; simp) ⟨rfl, rfl⟩
    rw [decide_eq_decide.mpr (same s' t' other)]
    exact consistent.taken front s' t' back split
  · intro s' inside t' owns'
    by_cases other : s' ≠ s ∨ t' ≠ t
    · have before := consistent.agree s' inside t' owns'
      rw [decide_eq_decide.mpr (same s' t' other), decide_eq_decide.mpr (listed s' t' other)]
      exact before
    · simp only [ne_eq, not_or, not_not] at other
      obtain ⟨rfl, rfl⟩ := other
      rw [settled_other none_]
      apply decide_eq_decide.mpr
      simpa using both
  · intro t' owns'
    have before := consistent.members t' owns'
    by_cases at_ : t' = t
    · subst at_
      simp only [Function.update_self]
      refine ⟨sideNodup, ?_⟩
      intro x inside
      by_cases ne : x = s
      · exact ne ▸ member
      · exact before.2 x ((sideOthers x ne).mp inside)
    · simp only [Function.update_of_ne at_]
      exact before
  · intro s' inside
    by_cases at_ : s' = s
    · subst at_
      simp only [Function.update_self]
      exact topicsNodup
    · simp only [Function.update_of_ne at_]
      exact consistent.distinct s' inside

theorem defer (consistent : Consistent tree) {topics : List Topic} {op : PendingOp T} (now : Bool) (owns : tree.Owns t)
    (member : s ∈ tree.subscribers) (nodup : topics.Nodup)
    (others : ∀ y, y ≠ t → (y ∈ topics ↔ y ∈ tree.topicsOf s)) (kind : ∀ before, op.settle s t before = now)
    (away : ∀ s' t', (s' ≠ s ∨ t' ≠ t) → ¬ op.On s' t') (own : now = decide (t ∈ topics))
    (fits : op.Fits tree) (taken : op = .unsubscribe s t → t ∈ tree.topicsOf s) :
    Consistent { tree with
      topicsOf := Function.update tree.topicsOf s topics, pendingOps := tree.pendingOps ++ [op], pending := true } := by
  have listed : ∀ s' t', (s' ≠ s ∨ t' ≠ t) → (t' ∈ Function.update tree.topicsOf s topics s' ↔ t' ∈ tree.topicsOf s') := by
    intro s' t' other
    by_cases at_ : s' = s
    · subst at_
      have ne : t' ≠ t := by simpa using other
      simp only [Function.update_self]
      exact others t' ne
    · simp only [Function.update_of_ne at_]
  refine ⟨consistent.named, ?_, ?_, ?_, ?_, consistent.members, ?_, fun _ => rfl⟩
  · intro s' inside t' on
    by_cases at_ : t' = t
    · exact at_ ▸ owns
    · exact consistent.held s' inside t' ((listed s' t' (.inr at_)).mp on)
  · intro op' pending
    rcases List.mem_append.mp pending with before | last
    · have fits' := consistent.fits op' before
      cases op' <;> exact fits'
    · rw [List.mem_singleton.mp last]
      cases op <;> exact fits
  · intro front s' t' back split
    rcases List.eq_nil_or_concat back with rfl | ⟨back, last, rfl⟩
    · obtain ⟨rfl, ends⟩ := List.append_inj' split rfl
      have here : op = .unsubscribe s' t' := (List.cons.inj ends).1
      have same : s' = s ∧ t' = t := by
        by_contra other
        have ne : s' ≠ s ∨ t' ≠ t := by
          rw [not_and_or] at other
          exact other
        apply away s' t' ne
        rw [here]
        exact ⟨rfl, rfl⟩
      obtain ⟨rfl, rfl⟩ := same
      have on := taken here
      exact (consistent.agree s' member t' owns).trans (decide_eq_true on)
    · rw [List.concat_eq_append, ← List.cons_append, ← List.append_assoc] at split
      have before := (List.append_inj' split rfl).1
      exact consistent.taken front s' t' back before
  · intro s' inside t' owns'
    rw [settled_append]
    by_cases other : s' ≠ s ∨ t' ≠ t
    · have last : settled s' t' [op] = id := by
        funext now'
        exact settle_other (away s' t' other) now'
      rw [last, decide_eq_decide.mpr (listed s' t' other)]
      exact consistent.agree s' inside t' owns'
    · simp only [ne_eq, not_or, not_not] at other
      obtain ⟨rfl, rfl⟩ := other
      rw [settled_cons, kind]
      have here : Function.update tree.topicsOf s' topics s' = topics := Function.update_self ..
      simp only [here]
      exact own
  · intro s' inside
    by_cases at_ : s' = s
    · subst at_
      simp only [Function.update_self]
      exact nodup
    · simp only [Function.update_of_ne at_]
      exact consistent.distinct s' inside

theorem deferPublish (consistent : Consistent tree) (sender : Option Subscriber) (name : Bytes) (message : T) :
    Consistent (tree.deferOp (.publish sender name message)) := by
  refine ⟨consistent.named, consistent.held, ?_, ?_, ?_, consistent.members, consistent.distinct, fun _ => rfl⟩
  · intro op pending
    rcases List.mem_append.mp pending with before | last
    · have fits := consistent.fits op before
      cases op <;> exact fits
    · rw [List.mem_singleton.mp last]
      exact True.intro
  · intro front s t back split
    rcases List.eq_nil_or_concat back with rfl | ⟨back, last, rfl⟩
    · have ends := (List.append_inj' split rfl).2
      cases ends
    · rw [List.concat_eq_append, ← List.cons_append, ← List.append_assoc] at split
      exact consistent.taken front s t back (List.append_inj' split rfl).1
  · intro s inside t owns
    have before := consistent.agree s inside t owns
    change settled s t (tree.pendingOps ++ [_]) _ = _
    rw [settled_append]
    exact before

theorem apply (consistent : Consistent tree) {members : Topic → List Subscriber}
    (split : tree.pendingOps = op :: ops) (pending : tree.pending = true)
    (moved : ∀ s t, tree.Owns t → decide (s ∈ members t) = op.settle s t (decide (s ∈ tree.members t)))
    (sides : ∀ t, tree.Owns t → (members t).Nodup ∧ ∀ s ∈ members t, s ∈ tree.subscribers) :
    Consistent { tree with members, pendingOps := ops } := by
  refine ⟨consistent.named, consistent.held, ?_, ?_, ?_, sides, consistent.distinct, fun _ => pending⟩
  · intro op' inside
    have fits := consistent.fits op' (by rw [split]; exact List.mem_cons_of_mem _ inside)
    cases op' <;> exact fits
  · intro front s t back here
    have fits := consistent.fits (.unsubscribe s t) (by rw [split]; simp only at here; rw [here]; simp)
    have before := consistent.taken (op :: front) s t back (by rw [split]; exact congrArg (op :: ·) here)
    rw [settled_cons, ← moved s t fits.1] at before
    exact before
  · intro s inside t owns
    have before := consistent.agree s inside t owns
    rw [split, settled_cons, ← moved s t owns] at before
    exact before

theorem drop (consistent : Consistent tree) (empty : tree.members t = []) (none_ : tree.subscribePending t = false)
    (owns : tree.Owns t) : Consistent (tree.eraseTopic t) := by
  have silent : ∀ op ∈ tree.pendingOps, op.subscribesTo t = false := by
    intro op pending
    have all := List.any_eq_false.mp none_ op pending
    simpa using all
  have out : ∀ s ∈ tree.subscribers, t ∉ tree.topicsOf s := by
    intro s inside
    have agree := consistent.agree s inside t owns
    rw [empty, show decide (s ∈ ([] : List Subscriber)) = false by simp, settled_false silent] at agree
    exact of_decide_eq_false agree.symm
  have untouched : ∀ op ∈ tree.pendingOps, ∀ s, op ≠ .unsubscribe s t := by
    intro op pending s same
    subst same
    obtain ⟨front, back, split⟩ := List.append_of_mem pending
    have taken := consistent.taken front s t back split
    have before : ∀ op ∈ front, op.subscribesTo t = false := fun op inside => silent op (by rw [split]; simp [inside])
    rw [empty, show decide (s ∈ ([] : List Subscriber)) = false by simp, settled_false before] at taken
    cases taken
  have owns_of : ∀ t', t' ≠ t → tree.Owns t' → (tree.eraseTopic t).Owns t' := by
    intro t' other own
    unfold TopicTree.Owns TopicTree.eraseTopic
    have ne : tree.name t' ≠ tree.name t := by
      intro same
      unfold TopicTree.Owns at own owns
      rw [same, owns] at own
      exact other (Option.some.inj own).symm
    simp only [Function.update_of_ne ne]
    exact own
  have owned : ∀ t', (tree.eraseTopic t).Owns t' → tree.Owns t' := by
    intro t' own
    unfold TopicTree.Owns TopicTree.eraseTopic at own
    by_cases ne : tree.name t' = tree.name t
    · simp [ne] at own
    · unfold TopicTree.Owns
      simpa [Function.update_of_ne ne] using own
  refine ⟨?_, ?_, ?_, consistent.taken, ?_, ?_, consistent.distinct, consistent.flagged⟩
  · intro n t' at_
    by_cases same : n = tree.name t
    · simp [TopicTree.eraseTopic, same] at at_
    · exact consistent.named n t' (by simpa [TopicTree.eraseTopic, same] using at_)
  · intro s inside t' on
    have other : t' ≠ t := by
      rintro rfl
      exact out s inside on
    exact owns_of t' other (consistent.held s inside t' on)
  · intro op pending
    have fits := consistent.fits op pending
    cases op with
    | subscribe s t' =>
      have other : t' ≠ t := by
        rintro rfl
        have quiet := silent _ pending
        simp [PendingOp.subscribesTo] at quiet
      exact ⟨owns_of t' other fits.1, fits.2⟩
    | unsubscribe s t' =>
      have other : t' ≠ t := by
        rintro rfl
        exact untouched _ pending s rfl
      exact ⟨owns_of t' other fits.1, fits.2⟩
    | publish sender name message => exact True.intro
  · exact fun s inside t' own => consistent.agree s inside t' (owned t' own)
  · exact fun t' own => consistent.members t' (owned t' own)

end Consistent

section Operations

theorem owns_eraseTopic : (tree.eraseTopic topic).Owns t → tree.Owns t := by
  intro own
  unfold TopicTree.Owns TopicTree.eraseTopic at own
  unfold TopicTree.Owns
  by_cases ne : tree.name t = tree.name topic
  · simp [ne] at own
  · simpa [Function.update_of_ne ne] using own

theorem not_owns_eraseTopic : ¬ (tree.eraseTopic t).Owns t := by
  unfold TopicTree.Owns TopicTree.eraseTopic
  simp

theorem eraseFromTopic_sound (erased : Consistent (tree.eraseMember t s)) (owns : tree.Owns t)
    (peopled : ∀ y, y ≠ t → tree.Owns y → tree.members y ≠ [] ∨ tree.subscribePending y = true) :
    Consistent (tree.eraseFromTopic s t) ∧ Peopled (tree.eraseFromTopic s t) := by
  have others : ∀ y, y ≠ t → (tree.eraseMember t s).members y = tree.members y := by
    intro y other
    simp [TopicTree.eraseMember, other]
  have flagged := erased.flagged
  unfold TopicTree.eraseFromTopic
  dsimp only
  split
  · rename_i left
    have none_ : tree.subscribePending t = false := by
      by_contra some_
      simp only [Bool.not_eq_false] at some_
      refine left.2 ⟨?_, some_⟩
      apply flagged
      intro empty
      have absent : tree.pendingOps = [] := empty
      simp [TopicTree.subscribePending, absent] at some_
    refine ⟨erased.drop left.1 none_ owns, ?_⟩
    intro y own
    have other : y ≠ t := by
      rintro rfl
      exact not_owns_eraseTopic own
    have before := peopled y other (owns_eraseTopic own)
    rw [← others y other] at before
    exact before
  · rename_i left
    refine ⟨erased, ?_⟩
    intro y own
    by_cases other : y = t
    · subst other
      by_cases empty : (tree.eraseMember y s).members y = []
      · simp only [empty, true_and, not_not] at left
        exact .inr left.2
      · exact .inl empty
    · have before := peopled y other own
      rw [← others y other] at before
      exact before

/-- Nothing is deferred on a subscription that is changed at once. -/
def Settled (tree : TopicTree T) (s : Subscriber) (topic : Bytes) : Prop :=
  ∀ t, tree.topics topic = some t → tree.iteratingTopic ≠ some t → ∀ op ∈ tree.pendingOps, ¬ op.On s t

theorem obtainTopic_sound (consistent : Consistent tree) (peopled : Peopled tree) {fresh : Topic} (new : ¬ tree.Owns fresh)
    (topic : Bytes) :
    let obtained := tree.obtainTopic topic fresh
    Consistent obtained.1 ∧ obtained.1.Owns obtained.2 ∧ obtained.1.topics topic = some obtained.2 ∧
      obtained.1.subscribers = tree.subscribers ∧ obtained.1.topicsOf = tree.topicsOf ∧
      obtained.1.pendingOps = tree.pendingOps ∧ obtained.1.iteratingTopic = tree.iteratingTopic ∧
      (∀ y, y ≠ obtained.2 → obtained.1.Owns y → obtained.1.members y ≠ [] ∨ obtained.1.subscribePending y = true) ∧
      (tree.topics topic = some obtained.2 ∨ ∀ op ∈ tree.pendingOps, ∀ s ∈ tree.subscribers, ¬ op.On s obtained.2) ∧
      (∀ y, tree.Owns y → obtained.1.Owns y ∧ obtained.1.name y = tree.name y) := by
  intro obtained
  unfold obtained TopicTree.obtainTopic TopicTree.lookupTopic
  cases found : tree.topics topic with
  | some t => exact ⟨consistent, consistent.lookup found, found, rfl, rfl, rfl, rfl, fun y _ own => peopled y own,
      .inl rfl, fun y own => ⟨own, rfl⟩⟩
  | none =>
    have apart : ∀ y, tree.Owns y → y ≠ fresh ∧ tree.name y ≠ topic := by
      intro y own
      refine ⟨fun same => new (same ▸ own), ?_⟩
      intro same
      unfold TopicTree.Owns at own
      rw [same, found] at own
      cases own
    have kept : ∀ y, tree.Owns y →
        Function.update tree.topics topic (some fresh) (Function.update tree.name fresh topic y) = some y := by
      intro y own
      rw [Function.update_of_ne (apart y own).1, Function.update_of_ne (apart y own).2]
      exact own
    have back : ∀ y, y ≠ fresh →
        Function.update tree.topics topic (some fresh) (Function.update tree.name fresh topic y) = some y → tree.Owns y := by
      intro y other own
      rw [Function.update_of_ne other] at own
      by_cases same : tree.name y = topic
      · rw [same, Function.update_self] at own
        exact absurd (Option.some.inj own).symm other
      · rwa [Function.update_of_ne same] at own
    have silent : ∀ op ∈ tree.pendingOps, ∀ s ∈ tree.subscribers, ¬ op.On s fresh :=
      fun op pending s inside => (consistent.unheld new inside).2 op pending
    have untaken : ∀ op ∈ tree.pendingOps, ∀ s, op ≠ .unsubscribe s fresh := by
      intro op pending s same
      have fits := consistent.fits op pending
      rw [same] at fits
      exact new fits.1
    refine ⟨⟨?_, ?_, ?_, ?_, ?_, ?_, consistent.distinct, consistent.flagged⟩, ?_, ?_, rfl, rfl, rfl, rfl, ?_,
      .inr silent, ?_⟩
    · intro n t at_
      by_cases same : n = topic
      · subst same
        have here : fresh = t := by simpa using at_
        simp [here]
      · have before : tree.topics n = some t := by simpa [Function.update_of_ne same] using at_
        have own := consistent.lookup before
        simp only [Function.update_of_ne (apart t own).1]
        exact consistent.named n t before
    · exact fun s inside t on => kept t (consistent.held s inside t on)
    · intro op pending
      have fits := consistent.fits op pending
      cases op with
      | subscribe s t => exact ⟨kept t fits.1, fits.2⟩
      | unsubscribe s t => exact ⟨kept t fits.1, fits.2⟩
      | publish sender name message => exact True.intro
    · intro front s t back' split
      have other : t ≠ fresh := by
        rintro rfl
        exact untaken (.unsubscribe s t) (by simp only at split; rw [split]; simp) s rfl
      simp only [Function.update_of_ne other]
      exact consistent.taken front s t back' split
    · intro s inside t own
      by_cases same : t = fresh
      · subst same
        have none_ := consistent.unheld new inside
        rw [settled_other none_.2]
        simp [none_.1]
      · simp only [Function.update_of_ne same]
        exact consistent.agree s inside t (back t same own)
    · intro t own
      by_cases same : t = fresh
      · subst same
        simp
      · simp only [Function.update_of_ne same]
        exact consistent.members t (back t same own)
    · unfold TopicTree.Owns
      simp
    · simp
    · intro y other own
      simp only [Function.update_of_ne other]
      exact peopled y (back y other own)
    · intro y own
      exact ⟨kept y own, Function.update_of_ne (apart y own).1 ..⟩

def TopicTree.rest (tree : TopicTree T) :=
  (tree.prev, tree.next, tree.messageIndices, tree.numMessageIndices, tree.pendingDestruction, tree.drainableSubscribers,
    tree.drainingDepth, tree.iteratingTopic, tree.applying, tree.pendingFree, tree.outgoingMessages)

theorem obtainTopic_rest (topicName : Bytes) (fresh : Topic) : (tree.obtainTopic topicName fresh).1.rest = tree.rest := by
  unfold TopicTree.obtainTopic
  split <;> rfl

theorem subscribe_rest (s : Subscriber) (topicName : Bytes) (fresh : Topic) :
    (tree.subscribe s topicName fresh).1.rest = tree.rest := by
  have obtained := @obtainTopic_rest _ tree topicName fresh
  unfold TopicTree.subscribe
  split
  · rfl
  · dsimp only
    split
    · exact obtained
    · split <;> exact obtained

theorem eraseFromTopic_rest (s : Subscriber) (t : Topic) : (tree.eraseFromTopic s t).rest = tree.rest := by
  unfold TopicTree.eraseFromTopic
  dsimp only
  split <;> rfl

theorem eraseFromTopic_frame (tree : TopicTree T) (s : Subscriber) (t : Topic) :
    let tree' := tree.eraseFromTopic s t
    tree'.subscribers = tree.subscribers ∧ tree'.topicsOf = tree.topicsOf ∧ tree'.name = tree.name ∧
      tree'.pendingOps = tree.pendingOps ∧ tree'.pending = tree.pending := by
  unfold TopicTree.eraseFromTopic
  dsimp only
  split <;> exact ⟨rfl, rfl, rfl, rfl, rfl⟩

theorem unsubscribe_rest (s : Subscriber) (topicName : Bytes) : (tree.unsubscribe s topicName).1.rest = tree.rest := by
  unfold TopicTree.unsubscribe
  split
  · rfl
  · split
    · rfl
    · rename_i topicPtr found
      dsimp only
      split
      · split
        · rfl
        · exact @eraseFromTopic_rest _ (tree.forgetTopic s topicPtr) s topicPtr
      · rfl

/-- The subscriber has a topic of the name among its own. -/
def Names (tree : TopicTree T) (s : Subscriber) (n : Bytes) : Prop := ∃ t ∈ tree.topicsOf s, tree.name t = n

/-- What a call keeps: both sides agree, nobody is deleted, and operations are deferred inside of a loop over a topic only. -/
structure Keeps (tree tree' : TopicTree T) : Prop where
  consistent : Consistent tree'
  peopled : Peopled tree'
  subscribers : tree'.subscribers = tree.subscribers
  rest : tree'.rest = tree.rest
  undeferred : tree.iteratingTopic = none → tree'.pendingOps = tree.pendingOps ∧ tree'.pending = tree.pending
  pending : tree.pending = true → tree'.pending = true

theorem subscribe_keeps (consistent : Consistent tree) (peopled : Peopled tree) (member : s ∈ tree.subscribers) {fresh : Topic}
    (new : ¬ tree.Owns fresh) {topicName : Bytes} (clear : Settled tree s topicName) :
    Keeps tree (tree.subscribe s topicName fresh).1 ∧
      ∀ x ∈ tree.subscribers, ∀ n, Names (tree.subscribe s topicName fresh).1 x n ↔
        ((tree.subscribe s topicName fresh).2 ≠ none ∧ x = s ∧ n = topicName) ∨ Names tree x n := by
  have rest := @subscribe_rest _ tree s topicName fresh
  obtain ⟨obtained, owns, at_, subscribers, topicsOf, pendingOps, iterating, others, silent, kept⟩ :=
    obtainTopic_sound consistent peopled new topicName
  have samePending : (tree.obtainTopic topicName fresh).1.pending = tree.pending := by
    unfold TopicTree.obtainTopic
    split <;> rfl
  have existing : ∀ t, tree.topics topicName = some t → tree.obtainTopic topicName fresh = (tree, t) := by
    intro t found
    unfold TopicTree.obtainTopic TopicTree.lookupTopic
    rw [found]
  unfold TopicTree.subscribe at rest ⊢
  split at rest
  · rename_i iterates
    rw [if_pos iterates]
    exact ⟨⟨consistent, peopled, rfl, rfl, fun _ => ⟨rfl, rfl⟩, id⟩, fun x _ n => by simp⟩
  · rename_i iterates
    rw [if_neg iterates]
    dsimp only at rest ⊢
    generalize made : tree.obtainTopic topicName fresh = made_ at *
    obtain ⟨between, t⟩ := made_
    simp only at *
    have inside : s ∈ between.subscribers := subscribers ▸ member
    have sameNames : ∀ x ∈ tree.subscribers, ∀ n, Names between x n ↔ Names tree x n := by
      intro x within n
      unfold Names
      rw [topicsOf]
      constructor
      · rintro ⟨y, on, named⟩
        exact ⟨y, on, (kept y (consistent.held x within y on)).2 ▸ named⟩
      · rintro ⟨y, on, named⟩
        exact ⟨y, on, (kept y (consistent.held x within y on)).2.trans named⟩
    split at rest
    · rename_i already
      rw [if_pos already]
      have found : tree.topics topicName = some t := by
        rcases silent with found | silent
        · exact found
        · have held := consistent.held s member t (topicsOf ▸ already)
          have named := (kept t held).2
          have here := obtained.named topicName t at_
          unfold TopicTree.Owns at held
          rwa [← named, here] at held
      have same := existing t found
      simp only [Prod.mk.injEq, and_true] at same
      subst same
      exact ⟨⟨consistent, peopled, rfl, rfl, fun _ => ⟨rfl, rfl⟩, id⟩, fun x _ n => by simp⟩
    · rename_i fresh_
      rw [if_neg fresh_]
      have named : between.name t = topicName := obtained.named topicName t at_
      have added : ∀ x, ∀ n, (∃ y ∈ Function.update between.topicsOf s (t :: between.topicsOf s) x, between.name y = n) ↔
          (x = s ∧ n = topicName) ∨ Names between x n := by
        intro x n
        by_cases same : x = s
        · subst same
          simp only [Function.update_self, List.mem_cons, exists_eq_or_imp, named, true_and, Names]
          exact or_congr_left eq_comm
        · simp [same, Names]
      have nodup : (t :: between.topicsOf s).Nodup := List.nodup_cons.mpr ⟨fresh_, obtained.distinct s inside⟩
      have topicsOthers : ∀ y, y ≠ t → (y ∈ t :: between.topicsOf s ↔ y ∈ between.topicsOf s) := by
        intro y other
        simp [other]
      split at rest
      · rename_i iteratedHere
        have iterated : between.iteratingTopic = some t := iteratedHere
        rw [if_pos iteratedHere]
        refine ⟨⟨?_, ?_, subscribers, rest, ?_, fun _ => rfl⟩, ?_⟩
        · apply obtained.defer true owns inside nodup topicsOthers
          · intro before
            simp [PendingOp.settle]
          · rintro s' t' other ⟨rfl, rfl⟩
            simp at other
          · simp
          · exact ⟨owns, inside⟩
          · simp
        · intro y own
          by_cases other : y = t
          · subst other
            apply Or.inr
            simp [TopicTree.subscribePending, TopicTree.deferOp, PendingOp.subscribesTo]
          · rcases others y other own with some_ | waits
            · exact .inl some_
            · apply Or.inr
              unfold TopicTree.subscribePending TopicTree.deferOp TopicTree.noteTopic at *
              simp [waits]
        · intro none_
          rw [iterating, none_] at iterated
          cases iterated
        · intro x within n
          rw [← sameNames x within n]
          exact (added x n).trans (by simp)
      · rename_i notIterated
        have away : between.iteratingTopic ≠ some t := notIterated
        rw [if_neg notIterated]
        have none_ : ∀ op ∈ between.pendingOps, ¬ op.On s t := by
          rw [pendingOps]
          rcases silent with found | silent
          · exact clear t found (by rw [← iterating]; exact away)
          · exact fun op pending => silent op pending s member
        refine ⟨⟨?_, ?_, subscribers, rest, fun _ => ⟨pendingOps, samePending⟩, fun on => samePending.trans on⟩, ?_⟩
        · apply obtained.set owns inside none_ (List.Nodup.insert (obtained.members t owns).1) _ nodup topicsOthers
          · simp
          · intro x other
            simp [other]
        · intro y own
          by_cases other : y = t
          · subst other
            apply Or.inl
            simp only [TopicTree.insertMember, TopicTree.noteTopic, Function.update_self]
            exact List.ne_nil_of_mem (List.mem_insert_self ..)
          · have before := others y other own
            simp only [TopicTree.insertMember, TopicTree.noteTopic, Function.update_of_ne other]
            exact before
        · intro x within n
          rw [← sameNames x within n]
          exact (added x n).trans (by simp)

theorem unsubscribe_keeps (consistent : Consistent tree) (peopled : Peopled tree) (member : s ∈ tree.subscribers)
    {topicName : Bytes} (clear : Settled tree s topicName) :
    Keeps tree (tree.unsubscribe s topicName).1 ∧
      ∀ x ∈ tree.subscribers, ∀ n, Names (tree.unsubscribe s topicName).1 x n ↔
        ¬ ((tree.unsubscribe s topicName).2 ≠ none ∧ x = s ∧ n = topicName) ∧ Names tree x n := by
  have rest := @unsubscribe_rest _ tree s topicName
  have unchanged : Keeps tree tree ∧ ∀ x ∈ tree.subscribers, ∀ n, Names tree x n ↔
      ¬ ((none : Option (Bool × Int)) ≠ none ∧ x = s ∧ n = topicName) ∧ Names tree x n :=
    ⟨⟨consistent, peopled, rfl, rfl, fun _ => ⟨rfl, rfl⟩, id⟩, fun x _ n => by simp⟩
  unfold TopicTree.unsubscribe at rest ⊢
  split at rest
  · rename_i iterates
    rw [if_pos iterates]
    exact unchanged
  · rename_i iterates
    rw [if_neg iterates]
    unfold TopicTree.lookupTopic at rest ⊢
    cases found : tree.topics topicName with
    | none => exact unchanged
    | some t =>
      have owns := consistent.lookup found
      have named := consistent.named topicName t found
      rw [found] at rest
      dsimp only at rest ⊢
      split at rest
      · rename_i on
        rw [if_pos on]
        have nodup : ((tree.topicsOf s).erase t).Nodup := (consistent.distinct s member).erase t
        have gone : t ∉ (tree.topicsOf s).erase t := (consistent.distinct s member).not_mem_erase
        have topicsOthers : ∀ y, y ≠ t → (y ∈ (tree.topicsOf s).erase t ↔ y ∈ tree.topicsOf s) :=
          fun y other => List.mem_erase_of_ne other
        have removed : ∀ x ∈ tree.subscribers, ∀ n,
            (∃ y ∈ Function.update tree.topicsOf s ((tree.topicsOf s).erase t) x, tree.name y = n) ↔
              ¬ (x = s ∧ n = topicName) ∧ Names tree x n := by
          intro x within n
          by_cases same : x = s
          · subst same
            simp only [Function.update_self, true_and]
            constructor
            · rintro ⟨y, listed, here⟩
              have inside := List.mem_of_mem_erase listed
              refine ⟨?_, y, inside, here⟩
              intro equal
              have held := consistent.held x within y inside
              unfold TopicTree.Owns at held
              rw [here, equal, found] at held
              obtain rfl := Option.some.inj held
              exact gone listed
            · rintro ⟨other, y, inside, here⟩
              refine ⟨y, (topicsOthers y ?_).mpr inside, here⟩
              rintro rfl
              exact other (here.symm.trans named)
          · simp [same, Names]
        split at rest
        · rename_i iteratedHere
          have iterated : tree.iteratingTopic = some t := iteratedHere
          rw [if_pos iteratedHere]
          refine ⟨⟨?_, ?_, rfl, rest, ?_, fun _ => rfl⟩, ?_⟩
          · apply consistent.defer false owns member nodup topicsOthers
            · intro before
              simp [PendingOp.settle]
            · rintro s' t' other ⟨rfl, rfl⟩
              simp at other
            · simpa using gone
            · exact ⟨owns, member⟩
            · exact fun _ => on
          · intro y own
            rcases peopled y own with some_ | waits
            · exact .inl some_
            · apply Or.inr
              unfold TopicTree.subscribePending TopicTree.deferOp TopicTree.forgetTopic at *
              simp [waits]
          · intro none_
            rw [none_] at iterated
            cases iterated
          · intro x within n
            exact (removed x within n).trans (by simp)
        · rename_i notIterated
          have away : tree.iteratingTopic ≠ some t := notIterated
          rw [if_neg notIterated]
          have none_ := clear t found away
          have sides := consistent.members t owns
          have erased : Consistent ((tree.forgetTopic s t).eraseMember t s) := by
            apply consistent.set owns member none_ (sides.1.erase s) _ nodup topicsOthers
            · exact iff_of_false sides.1.not_mem_erase gone
            · exact fun x other => List.mem_erase_of_ne other
          obtain ⟨sound, some_⟩ := eraseFromTopic_sound erased owns fun y _ own => peopled y own
          obtain ⟨subscribers, topicsOf, name, pendingOps, pending⟩ := eraseFromTopic_frame (tree.forgetTopic s t) s t
          refine ⟨⟨sound, some_, subscribers, rest, fun _ => ⟨pendingOps, pending⟩, fun on => pending.trans on⟩, ?_⟩
          intro x within n
          simp only [Names, topicsOf, name]
          exact (removed x within n).trans (by simp [Names])
      · rename_i off
        rw [if_neg off]
        exact unchanged

theorem createSubscriber_sound (consistent : Consistent tree) (peopled : Peopled tree) (new : s ∉ tree.subscribers) :
    Consistent (tree.createSubscriber s) ∧ Peopled (tree.createSubscriber s) := by
  have other : ∀ x ∈ tree.subscribers, x ≠ s := by
    rintro x inside rfl
    exact new inside
  have silent : ∀ t, ∀ op ∈ tree.pendingOps, ¬ op.On s t := by
    intro t op pending on
    have fits := consistent.fits op pending
    cases op with
    | subscribe s' t' => exact new (on.1 ▸ fits.2)
    | unsubscribe s' t' => exact new (on.1 ▸ fits.2)
    | publish sender name message => exact on
  refine ⟨⟨consistent.named, ?_, ?_, consistent.taken, ?_, ?_, ?_, consistent.flagged⟩, peopled⟩
  · intro x inside t on
    rcases List.mem_cons.mp inside with same | inside
    · simp [TopicTree.createSubscriber, same] at on
    · simp only [TopicTree.createSubscriber, Function.update_of_ne (other x inside)] at on
      exact consistent.held x inside t on
  · intro op pending
    have fits := consistent.fits op pending
    cases op with
    | subscribe s' t' => exact ⟨fits.1, List.mem_cons_of_mem _ fits.2⟩
    | unsubscribe s' t' => exact ⟨fits.1, List.mem_cons_of_mem _ fits.2⟩
    | publish sender name message => exact True.intro
  · intro x inside t own
    rcases List.mem_cons.mp inside with same | inside
    · subst same
      have out : x ∉ tree.members t := fun on => new ((consistent.members t own).2 x on)
      have settled_ : settled x t (tree.createSubscriber x).pendingOps (decide (x ∈ (tree.createSubscriber x).members t)) =
          decide (x ∈ tree.members t) := settled_other (silent t) _
      rw [settled_]
      simp [TopicTree.createSubscriber, out]
    · have agree := consistent.agree x inside t own
      simp only [TopicTree.createSubscriber, Function.update_of_ne (other x inside)]
      exact agree
  · intro t own
    have sides := consistent.members t own
    exact ⟨sides.1, fun x on => List.mem_cons_of_mem _ (sides.2 x on)⟩
  · intro x inside
    rcases List.mem_cons.mp inside with same | inside
    · simp [TopicTree.createSubscriber, same]
    · simp only [TopicTree.createSubscriber, Function.update_of_ne (other x inside)]
      exact consistent.distinct x inside

theorem applySubscribe_sound (consistent : Consistent tree) (peopled : Peopled tree)
    (split : tree.pendingOps = .subscribe s t :: ops) (pending : tree.pending = true) :
    Consistent ({ tree with pendingOps := ops }.insertMember t s) ∧
      Peopled ({ tree with pendingOps := ops }.insertMember t s) := by
  have fits := consistent.fits (.subscribe s t) (by rw [split]; exact List.mem_cons_self)
  refine ⟨?_, ?_⟩
  · apply consistent.apply split pending
    · intro s' t' own
      by_cases same : t' = t
      · subst same
        by_cases here : s' = s
        · simp [PendingOp.settle, here]
        · simp [PendingOp.settle, here, Ne.symm here]
      · simp [PendingOp.settle, same, Ne.symm same]
    · intro t' own
      have sides := consistent.members t' own
      by_cases same : t' = t
      · subst same
        simp only [Function.update_self]
        refine ⟨sides.1.insert, ?_⟩
        intro x inside
        rcases List.mem_insert_iff.mp inside with here | before
        · exact here ▸ fits.2
        · exact sides.2 x before
      · simp only [Function.update_of_ne same]
        exact sides
  · intro y own
    by_cases same : y = t
    · subst same
      apply Or.inl
      simp only [TopicTree.insertMember, Function.update_self]
      exact List.ne_nil_of_mem (List.mem_insert_self ..)
    · have before := peopled y own
      simp only [TopicTree.insertMember, Function.update_of_ne same]
      unfold TopicTree.subscribePending at before ⊢
      rw [split] at before
      simpa [PendingOp.subscribesTo, Ne.symm same] using before

theorem applyUnsubscribe_sound (consistent : Consistent tree) (peopled : Peopled tree)
    (split : tree.pendingOps = .unsubscribe s t :: ops) (pending : tree.pending = true) :
    Consistent ({ tree with pendingOps := ops }.eraseFromTopic s t) ∧
      Peopled ({ tree with pendingOps := ops }.eraseFromTopic s t) := by
  have fits := consistent.fits (.unsubscribe s t) (by rw [split]; exact List.mem_cons_self)
  apply eraseFromTopic_sound
  · apply consistent.apply split pending
    · intro s' t' own
      have nodup := (consistent.members t' own).1
      by_cases same : t' = t
      · subst same
        by_cases here : s' = s
        · subst here
          simp [PendingOp.settle, nodup.not_mem_erase]
        · simp [PendingOp.settle, Ne.symm here, List.mem_erase_of_ne here]
      · simp [PendingOp.settle, same, Ne.symm same]
    · intro t' own
      have sides := consistent.members t' own
      by_cases same : t' = t
      · subst same
        simp only [Function.update_self]
        exact ⟨sides.1.erase s, fun x inside => sides.2 x (List.mem_of_mem_erase inside)⟩
      · simp only [Function.update_of_ne same]
        exact sides
  · exact fits.1
  · intro y other own
    have before := peopled y own
    unfold TopicTree.subscribePending at before ⊢
    rw [split] at before
    simpa [PendingOp.subscribesTo] using before

end Operations

section Destruction

/-- A subscriber on its way out: it is still in the sets of `left`, and nothing is deferred. -/
structure Leaving (s : Subscriber) (left : List Topic) (tree : TopicTree T) : Prop where
  named : ∀ n t, tree.topics n = some t → tree.name t = n
  undeferred : tree.pendingOps = []
  mine : ∀ t ∈ left, tree.Owns t ∧ s ∈ tree.members t
  only : ∀ t, tree.Owns t → s ∈ tree.members t → t ∈ left
  held : ∀ x ∈ tree.subscribers, x ≠ s → ∀ t ∈ tree.topicsOf x, tree.Owns t
  agree : ∀ x ∈ tree.subscribers, x ≠ s → ∀ t, tree.Owns t → (x ∈ tree.members t ↔ t ∈ tree.topicsOf x)
  members : ∀ t, tree.Owns t → (tree.members t).Nodup ∧ ∀ x ∈ tree.members t, x ∈ tree.subscribers
  distinct : ∀ x ∈ tree.subscribers, (tree.topicsOf x).Nodup
  peopled : ∀ t, tree.Owns t → tree.members t ≠ []

theorem leaving_start (consistent : Consistent tree) (peopled : Peopled tree) (undeferred : tree.pendingOps = [])
    (member : s ∈ tree.subscribers) : Leaving s (tree.topicsOf s) tree := by
  have agree : ∀ x ∈ tree.subscribers, ∀ t, tree.Owns t → (x ∈ tree.members t ↔ t ∈ tree.topicsOf x) := by
    intro x inside t own
    have both := consistent.agree x inside t own
    rw [undeferred] at both
    exact decide_eq_decide.mp both
  refine ⟨consistent.named, undeferred, ?_, ?_, ?_, ?_, consistent.members, consistent.distinct, ?_⟩
  · intro t on
    have own := consistent.held s member t on
    exact ⟨own, (agree s member t own).mpr on⟩
  · exact fun t own on => (agree s member t own).mp on
  · exact fun x inside _ t on => consistent.held x inside t on
  · exact fun x inside _ t own => agree x inside t own
  · intro t own
    rcases peopled t own with some_ | waits
    · exact some_
    · simp [TopicTree.subscribePending, undeferred] at waits

theorem leaveTopic_leaving {left : List Topic} (leaving : Leaving s (t :: left) tree) (nodup : (t :: left).Nodup) :
    Leaving s left (TopicTree.leaveTopic s tree t) := by
  obtain ⟨owns, on⟩ := leaving.mine t List.mem_cons_self
  have sides := leaving.members t owns
  have out := (List.nodup_cons.mp nodup).1
  unfold TopicTree.leaveTopic
  split
  · rename_i single
    have alone : tree.members t = [s] := by
      obtain ⟨x, only⟩ := List.length_eq_one_iff.mp single
      rw [only] at on ⊢
      rw [List.mem_singleton.mp on]
    have owns_of : ∀ t', t' ≠ t → tree.Owns t' → (tree.eraseTopic t).Owns t' := by
      intro t' other own
      unfold TopicTree.Owns TopicTree.eraseTopic
      have ne : tree.name t' ≠ tree.name t := by
        intro same
        unfold TopicTree.Owns at own owns
        rw [same, owns] at own
        exact other (Option.some.inj own).symm
      simp only [Function.update_of_ne ne]
      exact own
    have apart : ∀ t', (tree.eraseTopic t).Owns t' → t' ≠ t ∧ tree.Owns t' := by
      intro t' own
      have other : t' ≠ t := by
        rintro rfl
        exact not_owns_eraseTopic own
      exact ⟨other, owns_eraseTopic own⟩
    refine ⟨?_, leaving.undeferred, ?_, ?_, ?_, ?_, ?_, leaving.distinct, ?_⟩
    · intro n t' at_
      by_cases same : n = tree.name t
      · simp [TopicTree.eraseTopic, same] at at_
      · exact leaving.named n t' (by simpa [TopicTree.eraseTopic, same] using at_)
    · intro t' listed
      have before := leaving.mine t' (List.mem_cons_of_mem _ listed)
      have other : t' ≠ t := by
        rintro rfl
        exact out listed
      exact ⟨owns_of t' other before.1, before.2⟩
    · intro t' own inside
      have before := leaving.only t' (apart t' own).2 inside
      rcases List.mem_cons.mp before with same | listed
      · exact absurd same (apart t' own).1
      · exact listed
    · intro x inside ne t' on'
      have own := leaving.held x inside ne t' on'
      have other : t' ≠ t := by
        rintro rfl
        have among := (leaving.agree x inside ne t' owns).mpr on'
        rw [alone] at among
        exact ne (List.mem_singleton.mp among)
      exact owns_of t' other own
    · exact fun x inside ne t' own => leaving.agree x inside ne t' (apart t' own).2
    · exact fun t' own => leaving.members t' (apart t' own).2
    · exact fun t' own => leaving.peopled t' (apart t' own).2
  · rename_i several
    have others : ∀ t', t' ≠ t → (tree.eraseMember t s).members t' = tree.members t' := by
      intro t' other
      simp [TopicTree.eraseMember, other]
    have here : (tree.eraseMember t s).members t = (tree.members t).erase s := by
      simp [TopicTree.eraseMember]
    refine ⟨leaving.named, leaving.undeferred, ?_, ?_, leaving.held, ?_, ?_, leaving.distinct, ?_⟩
    · intro t' listed
      have before := leaving.mine t' (List.mem_cons_of_mem _ listed)
      have other : t' ≠ t := by
        rintro rfl
        exact out listed
      rw [others t' other]
      exact before
    · intro t' own inside
      by_cases same : t' = t
      · subst same
        rw [here] at inside
        exact absurd inside sides.1.not_mem_erase
      · rw [others t' same] at inside
        rcases List.mem_cons.mp (leaving.only t' own inside) with equal | listed
        · exact absurd equal same
        · exact listed
    · intro x inside ne t' own
      by_cases same : t' = t
      · subst same
        rw [here, List.mem_erase_of_ne ne]
        exact leaving.agree x inside ne t' own
      · rw [others t' same]
        exact leaving.agree x inside ne t' own
    · intro t' own
      by_cases same : t' = t
      · subst same
        rw [here]
        exact ⟨sides.1.erase s, fun x inside => sides.2 x (List.mem_of_mem_erase inside)⟩
      · rw [others t' same]
        exact leaving.members t' own
    · intro t' own
      by_cases same : t' = t
      · subst same
        rw [here]
        intro empty
        have length := List.length_erase_of_mem on
        rw [empty] at length
        have some_ := List.length_pos_of_mem on
        simp only [List.length_nil] at length
        omega
      · rw [others t' same]
        exact leaving.peopled t' own

theorem leaveTopic_rest (s : Subscriber) (tree : TopicTree T) (t : Topic) :
    (TopicTree.leaveTopic s tree t).rest = tree.rest ∧ (TopicTree.leaveTopic s tree t).subscribers = tree.subscribers ∧
      (TopicTree.leaveTopic s tree t).topicsOf = tree.topicsOf ∧ (TopicTree.leaveTopic s tree t).name = tree.name ∧
      (TopicTree.leaveTopic s tree t).pending = tree.pending := by
  unfold TopicTree.leaveTopic
  split <;> exact ⟨rfl, rfl, rfl, rfl, rfl⟩

theorem leaveTopics_rest (s : Subscriber) (left : List Topic) (tree : TopicTree T) :
    let tree' := left.foldl (TopicTree.leaveTopic s) tree
    tree'.rest = tree.rest ∧ tree'.subscribers = tree.subscribers ∧ tree'.topicsOf = tree.topicsOf ∧
      tree'.name = tree.name ∧ tree'.pending = tree.pending := by
  induction left generalizing tree with
  | nil => exact ⟨rfl, rfl, rfl, rfl, rfl⟩
  | cons t left ih =>
    obtain ⟨rest, subscribers, topicsOf, name, pending⟩ := leaveTopic_rest s tree t
    have later := ih (TopicTree.leaveTopic s tree t)
    rw [rest, subscribers, topicsOf, name, pending] at later
    exact later

theorem leaveTopics_leaving {left : List Topic} (leaving : Leaving s left tree) (nodup : left.Nodup) :
    Leaving s [] (left.foldl (TopicTree.leaveTopic s) tree) := by
  induction left generalizing tree with
  | nil => exact leaving
  | cons t left ih => exact ih (leaveTopic_leaving leaving nodup) (List.nodup_cons.mp nodup).2

theorem Leaving.delete (leaving : Leaving s [] tree) : Consistent (tree.delete s) ∧ Peopled (tree.delete s) := by
  have inside_of : ∀ x, x ∈ (tree.delete s).subscribers → x ∈ tree.subscribers ∧ x ≠ s := by
    intro x inside
    simpa [TopicTree.delete] using inside
  refine ⟨⟨leaving.named, ?_, ?_, ?_, ?_, ?_, ?_, ?_⟩, fun t own => .inl (leaving.peopled t own)⟩
  · exact fun x inside => leaving.held x (inside_of x inside).1 (inside_of x inside).2
  · intro op pending
    have none_ : (tree.delete s).pendingOps = [] := leaving.undeferred
    rw [none_] at pending
    cases pending
  · intro front x t back split
    have none_ : (tree.delete s).pendingOps = [] := leaving.undeferred
    rw [none_] at split
    simp at split
  · intro x inside t own
    have both := leaving.agree x (inside_of x inside).1 (inside_of x inside).2 t own
    have none_ : (tree.delete s).pendingOps = [] := leaving.undeferred
    rw [none_]
    exact decide_eq_decide.mpr both
  · intro t own
    have sides := leaving.members t own
    refine ⟨sides.1, ?_⟩
    intro x on
    have other : x ≠ s := by
      rintro rfl
      have listed := leaving.only t own on
      cases listed
    simpa [TopicTree.delete, other] using sides.2 x on
  · exact fun x inside => leaving.distinct x (inside_of x inside).1
  · intro some_
    exact absurd leaving.undeferred some_

theorem Leaving.congr {left : List Topic} (leaving : Leaving s left tree) (same : tree'.core = tree.core) :
    Leaving s left tree' := by
  obtain ⟨topics, name, members, subscribers, topicsOf, pendingOps, pending⟩ := core_iff.mp same
  have owns : ∀ t, tree'.Owns t ↔ tree.Owns t := by
    intro t
    unfold TopicTree.Owns
    rw [topics, name]
  refine ⟨?_, pendingOps.trans leaving.undeferred, ?_, ?_, ?_, ?_, ?_, ?_, ?_⟩
  · rw [topics, name]
    exact leaving.named
  · simp only [owns, members]
    exact leaving.mine
  · simp only [owns, members]
    exact leaving.only
  · simp only [owns, subscribers, topicsOf]
    exact leaving.held
  · simp only [owns, subscribers, topicsOf, members]
    exact leaving.agree
  · simp only [owns, subscribers, members]
    exact leaving.members
  · rw [subscribers, topicsOf]
    exact leaving.distinct
  · simp only [owns, members]
    exact leaving.peopled

theorem destroySubscriber_sound (consistent : Consistent tree) (peopled : Peopled tree) (undeferred : tree.pendingOps = [])
    (member : s ∈ tree.subscribers) (alreadyUnlinked : Bool) :
    Consistent (tree.destroySubscriber s alreadyUnlinked) ∧ Peopled (tree.destroySubscriber s alreadyUnlinked) ∧
      (tree.destroySubscriber s alreadyUnlinked).pendingOps = [] := by
  have left := leaveTopics_leaving (leaving_start consistent peopled undeferred member) (consistent.distinct s member)
  have unlinked : Leaving s []
      (if ¬ alreadyUnlinked ∧ ((tree.topicsOf s).foldl (TopicTree.leaveTopic s) tree).needsDrainage s then
        ((tree.topicsOf s).foldl (TopicTree.leaveTopic s) tree).unlinkDrainableSubscriber s
      else (tree.topicsOf s).foldl (TopicTree.leaveTopic s) tree) := by
    split
    · exact left.congr rfl
    · exact left
  obtain ⟨sound, some_⟩ := unlinked.delete
  exact ⟨sound, some_, unlinked.undeferred⟩

theorem destroySubscriber_frame (tree : TopicTree T) (s : Subscriber) (alreadyUnlinked : Bool) :
    let tree' := tree.destroySubscriber s alreadyUnlinked
    tree'.subscribers = tree.subscribers.filter (· ≠ s) ∧ tree'.topicsOf = tree.topicsOf ∧ tree'.name = tree.name ∧
      tree'.pending = tree.pending ∧ tree'.pendingDestruction = tree.pendingDestruction ∧
      tree'.drainingDepth = tree.drainingDepth ∧ tree'.iteratingTopic = tree.iteratingTopic ∧
      tree'.applying = tree.applying ∧ tree'.pendingFree = tree.pendingFree ∧
      tree'.outgoingMessages = tree.outgoingMessages ∧ tree'.numMessageIndices = tree.numMessageIndices ∧
      tree'.messageIndices = tree.messageIndices := by
  obtain ⟨rest, subscribers, topicsOf, name, pending⟩ := leaveTopics_rest s (tree.topicsOf s) tree
  simp only [TopicTree.rest, Prod.mk.injEq] at rest
  obtain ⟨-, -, indices, num, destruction, -, depth, iterating, applying, free, outgoing⟩ := rest
  have delete : ∀ x : TopicTree T, (x.delete s).subscribers = x.subscribers.filter (· ≠ s) := fun _ => rfl
  intro tree'
  simp only [tree', TopicTree.destroySubscriber]
  split <;>
    exact ⟨by rw [← subscribers]; rfl, topicsOf, name, pending, destruction, depth, iterating, applying, free, outgoing,
      num, indices⟩

end Destruction

end Uws.PubSub
