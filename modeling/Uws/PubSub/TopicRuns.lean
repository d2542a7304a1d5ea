import Uws.PubSub.TopicMoves
import Uws.Library.Runs

/-! What holds of subscriptions in every run, however callbacks and deferred operations nest. -/

namespace Uws.PubSub

variable {T B : Type} {tree tree' : TopicTree T} {s : Subscriber} {t : Topic} {op : PendingOp T} {ops : List (PendingOp T)}

/-- A deferred subscription is of somebody who is not in the set when its turn comes. -/
def Entering (tree : TopicTree T) : Prop :=
  ∀ front s t back, tree.pendingOps = front ++ .subscribe s t :: back → settled s t front (decide (s ∈ tree.members t)) = false

namespace Entering

theorem move (entering : Entering tree) (pendingOps : tree'.pendingOps = tree.pendingOps)
    (same : ∀ op ∈ tree.pendingOps, ∀ s t, op.On s t → (s ∈ tree'.members t ↔ s ∈ tree.members t)) : Entering tree' := by
  intro front s t back split
  rw [pendingOps] at split
  rw [decide_eq_decide.mpr (same (.subscribe s t) (by rw [split]; simp) s t ⟨rfl, rfl⟩)]
  exact entering front s t back split

theorem defer (entering : Entering tree) (members : tree'.members = tree.members)
    (pendingOps : tree'.pendingOps = tree.pendingOps ++ [op])
    (last : ∀ s t, op = .subscribe s t → settled s t tree.pendingOps (decide (s ∈ tree.members t)) = false) : Entering tree' := by
  intro front s t back split
  rw [members]
  rw [pendingOps] at split
  rcases List.eq_nil_or_concat back with rfl | ⟨back, other, rfl⟩
  · obtain ⟨rfl, ends⟩ := List.append_inj' split rfl
    exact last s t (List.cons.inj ends).1
  · rw [List.concat_eq_append, ← List.cons_append, ← List.append_assoc] at split
    exact entering front s t back (List.append_inj' split rfl).1

theorem apply (entering : Entering tree) (split : tree.pendingOps = op :: ops) (pendingOps : tree'.pendingOps = ops)
    (moved : ∀ s t, .subscribe s t ∈ ops → decide (s ∈ tree'.members t) = op.settle s t (decide (s ∈ tree.members t))) :
    Entering tree' := by
  intro front s t back here
  rw [pendingOps] at here
  rw [moved s t (by rw [here]; simp), ← settled_cons]
  exact entering (op :: front) s t back (by rw [split, here]; rfl)

theorem none_ (empty : tree.pendingOps = []) : Entering tree := by
  intro front s t back split
  rw [empty] at split
  simp at split

end Entering

/-- Both sides of every subscription agree, once the deferred operations are applied; and those that wait to be destroyed
    are there. -/
structure Stored (tree : TopicTree T) : Prop where
  consistent : Consistent tree
  peopled : Peopled tree
  entering : Entering tree
  distinct : tree.subscribers.Nodup
  freed : tree.pendingFree.Nodup ∧ ∀ s ∈ tree.pendingFree, s ∈ tree.subscribers ∧ tree.pendingDestruction s = true
  waiting : tree.pendingFree ≠ [] → tree.pending = true

theorem kept_iff :
    tree'.kept = tree.kept ↔ tree'.core = tree.core ∧ tree'.pendingFree = tree.pendingFree ∧
      tree'.pendingDestruction = tree.pendingDestruction := by
  simp [TopicTree.kept]

theorem Peopled.congr (peopled : Peopled tree) (same : tree'.core = tree.core) : Peopled tree' := by
  obtain ⟨topics, name, members, -, -, pendingOps, -⟩ := core_iff.mp same
  intro t own
  unfold TopicTree.Owns at own
  rw [topics, name] at own
  unfold TopicTree.subscribePending
  rw [members, pendingOps]
  exact peopled t own

theorem Stored.congr (stored : Stored tree) (same : tree'.kept = tree.kept) : Stored tree' := by
  obtain ⟨core, free, destruction⟩ := kept_iff.mp same
  obtain ⟨-, -, members, subscribers, -, pendingOps, pending⟩ := core_iff.mp core
  refine ⟨stored.consistent.congr core, stored.peopled.congr core, ?_, ?_, ?_, ?_⟩
  · apply stored.entering.move pendingOps
    intro op _ s t _
    rw [members]
  · rw [subscribers]
    exact stored.distinct
  · rw [free, subscribers, destruction]
    exact stored.freed
  · rw [free, pending]
    exact stored.waiting

/-- A subscription that is changed at once has nothing deferred on it. -/
def Clear (tree : TopicTree T) : Action T B → Prop
  | .call (.subscribe s topic _) =>
    ∀ t ∈ tree.topics topic, tree.isIterating s = false → tree.iteratingTopic ≠ some t → t ∉ tree.topicsOf s →
      ∀ op ∈ tree.pendingOps, ¬ op.On s t
  | .call (.unsubscribe s topic) =>
    ∀ t ∈ tree.topics topic, tree.isIterating s = false → tree.iteratingTopic ≠ some t → t ∈ tree.topicsOf s →
      ∀ op ∈ tree.pendingOps, ¬ op.On s t
  | _ => True

section Subscriptions

theorem subscribe_clear {topicName : Bytes} {fresh : Topic}
    (clear : Clear tree (.call (.subscribe s topicName fresh) : Action T B)) :
    tree.subscribe s topicName fresh = (tree, none) ∨ tree.isIterating s = false ∧ Settled tree s topicName ∧
      ∀ t ∈ tree.topics topicName, t ∉ tree.topicsOf s := by
  cases iterates : tree.isIterating s with
  | true =>
    left
    unfold TopicTree.subscribe
    rw [if_pos iterates]
  | false =>
    by_cases on : ∃ t ∈ tree.topics topicName, t ∈ tree.topicsOf s
    · obtain ⟨t, found, on⟩ := on
      have obtained : tree.obtainTopic topicName fresh = (tree, t) := by
        unfold TopicTree.obtainTopic TopicTree.lookupTopic
        rw [found]
      left
      unfold TopicTree.subscribe
      rw [iterates, if_neg Bool.false_ne_true, obtained]
      exact if_pos on
    · have off : ∀ t ∈ tree.topics topicName, t ∉ tree.topicsOf s := fun t found inside => on ⟨t, found, inside⟩
      refine .inr ⟨rfl, ?_, off⟩
      intro t found away
      exact clear t found iterates away (off t found)

theorem unsubscribe_clear {topicName : Bytes} (clear : Clear tree (.call (.unsubscribe s topicName) : Action T B)) :
    tree.unsubscribe s topicName = (tree, none) ∨ tree.isIterating s = false ∧ Settled tree s topicName ∧
      ∃ t ∈ tree.topics topicName, t ∈ tree.topicsOf s := by
  cases iterates : tree.isIterating s with
  | true =>
    left
    unfold TopicTree.unsubscribe
    rw [if_pos iterates]
  | false =>
    unfold TopicTree.unsubscribe TopicTree.lookupTopic
    rw [iterates, if_neg Bool.false_ne_true]
    cases found : tree.topics topicName with
    | none => exact .inl rfl
    | some t =>
      dsimp only
      by_cases on : t ∈ tree.topicsOf s
      · refine .inr ⟨rfl, ?_, t, rfl, on⟩
        intro t' found' away
        obtain rfl := Option.some.inj (found.symm.trans found')
        exact clear t found iterates away on
      · exact .inl (if_neg on)

theorem obtainTopic_entering (consistent : Consistent tree) (entering : Entering tree) {fresh : Topic} (new : ¬ tree.Owns fresh)
    (topicName : Bytes) : Entering (tree.obtainTopic topicName fresh).1 := by
  unfold TopicTree.obtainTopic
  cases tree.lookupTopic topicName with
  | some t => exact entering
  | none =>
    dsimp only
    apply entering.move
    · rfl
    intro op pending s t on
    have fits := consistent.fits op pending
    have other : t ≠ fresh := by
      rintro rfl
      cases op with
      | subscribe s' t' =>
        obtain ⟨-, rfl⟩ := on
        exact new fits.1
      | unsubscribe s' t' =>
        obtain ⟨-, rfl⟩ := on
        exact new fits.1
      | publish sender name message => exact on
    simp only [Function.update_of_ne other]

theorem subscribe_entering (consistent : Consistent tree) (peopled : Peopled tree) (entering : Entering tree)
    (member : s ∈ tree.subscribers) {fresh : Topic} (new : ¬ tree.Owns fresh) {topicName : Bytes}
    (clear : Settled tree s topicName) : Entering (tree.subscribe s topicName fresh).1 := by
  have between := obtainTopic_entering consistent entering new topicName
  obtain ⟨obtained, owns, -, subscribers, topicsOf, pendingOps, iterating, -, silent, -⟩ :=
    obtainTopic_sound consistent peopled new topicName
  unfold TopicTree.subscribe
  split
  · exact entering
  · dsimp only
    split
    · exact between
    · rename_i off
      split
      · apply between.defer
        · rfl
        · rfl
        · intro s' t' same
          obtain ⟨rfl, rfl⟩ := PendingOp.subscribe.inj same
          have agree := obtained.agree s (subscribers ▸ member) _ owns
          exact agree.trans (decide_eq_false off)
      · rename_i away
        have none_ : ∀ op ∈ (tree.obtainTopic topicName fresh).1.pendingOps, ¬ op.On s (tree.obtainTopic topicName fresh).2 := by
          rw [pendingOps]
          rcases silent with found | silent
          · apply clear _ found
            rw [← iterating]
            exact away
          · exact fun op pending => silent op pending s member
        apply between.move
        · rfl
        · intro op pending s' t' on
          have other : t' ≠ (tree.obtainTopic topicName fresh).2 ∨ s' ≠ s := by
            by_contra both
            rw [not_or, not_not, not_not] at both
            obtain ⟨rfl, rfl⟩ := both
            exact none_ op pending on
          unfold TopicTree.insertMember TopicTree.noteTopic
          dsimp only
          rcases other with apart | apart
          · rw [Function.update_of_ne apart]
          · by_cases here : t' = (tree.obtainTopic topicName fresh).2
            · rw [here, Function.update_self, List.mem_insert_iff]
              exact or_iff_right apart
            · rw [Function.update_of_ne here]

theorem eraseFromTopic_members (tree : TopicTree T) (s : Subscriber) (t : Topic) :
    (tree.eraseFromTopic s t).members = Function.update tree.members t ((tree.members t).erase s) := by
  unfold TopicTree.eraseFromTopic
  dsimp only
  split
  · rfl
  · rfl

theorem unsubscribe_entering (entering : Entering tree) {topicName : Bytes} (clear : Settled tree s topicName) :
    Entering (tree.unsubscribe s topicName).1 := by
  unfold TopicTree.unsubscribe
  split
  · exact entering
  · cases found : tree.lookupTopic topicName with
    | none => exact entering
    | some t =>
      dsimp only
      split
      · split
        · apply entering.defer
          · rfl
          · rfl
          · intro s' t' same
            cases same
        · rename_i away
          have members := eraseFromTopic_members (tree.forgetTopic s t) s t
          apply entering.move (eraseFromTopic_frame (tree.forgetTopic s t) s t).2.2.2.1
          intro op pending s' t' on
          rw [members]
          by_cases here : t' = t
          · subst here
            rw [Function.update_self]
            apply List.mem_erase_of_ne
            rintro rfl
            exact clear t' found away op pending on
          · rw [Function.update_of_ne here]
            rfl
      · exact entering

end Subscriptions

section Steps

variable {stack : List (Frame T B)} {action : Action T B} {notes : List (Event T B)}

theorem Consistent.flag (consistent : Consistent tree) : Consistent { tree with pending := true } := by
  refine ⟨consistent.named, consistent.held, ?_, consistent.taken, consistent.agree, consistent.members, consistent.distinct,
    fun _ => rfl⟩
  intro op pending
  have fits := consistent.fits op pending
  cases op <;> exact fits

theorem Stored.dropPublish (stored : Stored tree) {sender : Option Subscriber} {topic : Bytes} {message : T}
    (split : tree.pendingOps = .publish sender topic message :: ops) : Stored { tree with pendingOps := ops } := by
  have pending := stored.consistent.flagged (by rw [split]; exact List.cons_ne_nil _ _)
  refine ⟨?_, ?_, ?_, stored.distinct, stored.freed, stored.waiting⟩
  · exact stored.consistent.apply split pending (fun _ _ _ => rfl) stored.consistent.members
  · intro t own
    have before := stored.peopled t own
    unfold TopicTree.subscribePending at before ⊢
    rw [split, List.any_cons] at before
    exact before
  · exact stored.entering.apply split rfl fun _ _ _ => rfl

theorem Stored.deferPublish (stored : Stored tree) (sender : Option Subscriber) (topic : Bytes) (message : T) :
    Stored (tree.deferOp (.publish sender topic message)) := by
  refine ⟨stored.consistent.deferPublish sender topic message, ?_, ?_, stored.distinct, stored.freed, fun _ => rfl⟩
  · intro t own
    rcases stored.peopled t own with some_ | waits
    · exact .inl some_
    · right
      unfold TopicTree.subscribePending TopicTree.deferOp at *
      rw [List.any_append, waits]
      rfl
  · apply stored.entering.defer
    · rfl
    · rfl
    · intro s t same
      cases same

theorem Stored.applySubscribe (stored : Stored tree) (split : tree.pendingOps = .subscribe s t :: ops) :
    Stored ({ tree with pendingOps := ops }.insertMember t s) := by
  have pending := stored.consistent.flagged (by rw [split]; exact List.cons_ne_nil _ _)
  obtain ⟨consistent, peopled⟩ := applySubscribe_sound stored.consistent stored.peopled split pending
  refine ⟨consistent, peopled, ?_, stored.distinct, stored.freed, stored.waiting⟩
  apply stored.entering.apply split rfl
  intro s' t' _
  show decide (s' ∈ Function.update tree.members t ((tree.members t).insert s) t') = _
  by_cases same : t' = t
  · subst same
    by_cases here : s' = s
    · simp [PendingOp.settle, here]
    · simp [PendingOp.settle, here, Ne.symm here]
  · simp [PendingOp.settle, same, Ne.symm same]

theorem Stored.applyUnsubscribe (stored : Stored tree) (split : tree.pendingOps = .unsubscribe s t :: ops) :
    Stored ({ tree with pendingOps := ops }.eraseFromTopic s t) := by
  have pending := stored.consistent.flagged (by rw [split]; exact List.cons_ne_nil _ _)
  have fits := stored.consistent.fits (.unsubscribe s t) (by rw [split]; exact List.mem_cons_self)
  have nodup := (stored.consistent.members t fits.1).1
  obtain ⟨consistent, peopled⟩ := applyUnsubscribe_sound stored.consistent stored.peopled split pending
  have members := eraseFromTopic_members { tree with pendingOps := ops } s t
  have rest := @eraseFromTopic_rest _ { tree with pendingOps := ops } s t
  obtain ⟨subscribers, -, -, pendingOps, still⟩ := eraseFromTopic_frame { tree with pendingOps := ops } s t
  simp only [TopicTree.rest, Prod.mk.injEq] at rest
  obtain ⟨-, -, -, -, destruction, -, -, -, -, free, -⟩ := rest
  refine ⟨consistent, peopled, ?_, ?_, ?_, ?_⟩
  · apply stored.entering.apply split pendingOps
    intro s' t' _
    rw [members]
    by_cases here : t' = t
    · subst here
      by_cases own : s' = s
      · subst own
        simp [PendingOp.settle, nodup.not_mem_erase]
      · simp [PendingOp.settle, Ne.symm own, List.mem_erase_of_ne own]
    · simp [PendingOp.settle, here, Ne.symm here]
  · rw [subscribers]
    exact stored.distinct
  · rw [free, destruction, subscribers]
    exact stored.freed
  · rw [free, still]
    exact stored.waiting

theorem Stored.create (stored : Stored tree) (new : s ∉ tree.subscribers) : Stored (tree.createSubscriber s) := by
  obtain ⟨consistent, peopled⟩ := createSubscriber_sound stored.consistent stored.peopled new
  refine ⟨consistent, peopled, ?_, List.nodup_cons.mpr ⟨new, stored.distinct⟩, ⟨stored.freed.1, ?_⟩, stored.waiting⟩
  · exact stored.entering.move rfl fun _ _ _ _ _ => Iff.rfl
  · intro x free
    obtain ⟨member, doomed⟩ := stored.freed.2 x free
    have other : x ≠ s := by
      rintro rfl
      exact new member
    refine ⟨List.mem_cons_of_mem _ member, ?_⟩
    show Function.update tree.pendingDestruction s false x = true
    rw [Function.update_of_ne other]
    exact doomed

theorem Stored.of_keeps (stored : Stored tree) (keeps : Keeps tree tree') (entering : Entering tree') : Stored tree' := by
  have rest := keeps.rest
  simp only [TopicTree.rest, Prod.mk.injEq] at rest
  obtain ⟨-, -, -, -, destruction, -, -, -, -, free, -⟩ := rest
  refine ⟨keeps.consistent, keeps.peopled, entering, ?_, ?_, ?_⟩
  · rw [keeps.subscribers]
    exact stored.distinct
  · rw [free, destruction, keeps.subscribers]
    exact stored.freed
  · rw [free]
    exact fun some_ => keeps.pending (stored.waiting some_)

theorem Stored.subscribe (stored : Stored tree) (live : tree.Live s) {fresh : Topic} (new : ¬ tree.Owns fresh) {topicName : Bytes}
    (clear : Clear tree (.call (.subscribe s topicName fresh) : Action T B)) : Stored (tree.subscribe s topicName fresh).1 := by
  rcases subscribe_clear clear with same | ⟨-, settled_, -⟩
  · rw [same]
    exact stored
  · apply stored.of_keeps
    · exact (subscribe_keeps stored.consistent stored.peopled live.1 new settled_).1
    · exact subscribe_entering stored.consistent stored.peopled stored.entering live.1 new settled_

theorem Stored.unsubscribe (stored : Stored tree) (live : tree.Live s) {topicName : Bytes}
    (clear : Clear tree (.call (.unsubscribe s topicName) : Action T B)) : Stored (tree.unsubscribe s topicName).1 := by
  rcases unsubscribe_clear clear with same | ⟨-, settled_, -⟩
  · rw [same]
    exact stored
  · apply stored.of_keeps
    · exact (unsubscribe_keeps stored.consistent stored.peopled live.1 settled_).1
    · exact unsubscribe_entering stored.entering settled_

theorem Stored.destroy (stored : Stored tree) (undeferred : tree.pendingOps = []) (member : s ∈ tree.subscribers)
    (out : s ∉ tree.pendingFree) (alreadyUnlinked : Bool) :
    Stored (tree.destroySubscriber s alreadyUnlinked) ∧ (tree.destroySubscriber s alreadyUnlinked).pendingOps = [] := by
  obtain ⟨consistent, peopled, none_⟩ := destroySubscriber_sound stored.consistent stored.peopled undeferred member alreadyUnlinked
  obtain ⟨subscribers, -, -, pending, destruction, -, -, -, free, -⟩ := destroySubscriber_frame tree s alreadyUnlinked
  refine ⟨⟨consistent, peopled, Entering.none_ none_, ?_, ?_, ?_⟩, none_⟩
  · rw [subscribers]
    exact stored.distinct.filter _
  · rw [free, subscribers, destruction]
    refine ⟨stored.freed.1, ?_⟩
    intro x waits
    obtain ⟨inside, doomed⟩ := stored.freed.2 x waits
    refine ⟨List.mem_filter.mpr ⟨inside, ?_⟩, doomed⟩
    apply decide_eq_true
    rintro rfl
    exact out waits
  · rw [free, pending]
    exact stored.waiting

theorem freed_frame (freed : List Subscriber) (tree : TopicTree T) :
    let tree' := freed.foldl (fun tree s => tree.destroySubscriber s true) tree
    (∀ s ∈ tree'.subscribers, s ∈ tree.subscribers) ∧ tree'.topicsOf = tree.topicsOf ∧ tree'.name = tree.name ∧
      tree'.pendingDestruction = tree.pendingDestruction := by
  induction freed generalizing tree with
  | nil => exact ⟨fun _ inside => inside, rfl, rfl, rfl⟩
  | cons s freed ih =>
    obtain ⟨subscribers, topicsOf, name, -, destruction, -⟩ := destroySubscriber_frame tree s true
    obtain ⟨fewer, same, names, still⟩ := ih (tree.destroySubscriber s true)
    refine ⟨?_, same.trans topicsOf, names.trans name, still.trans destruction⟩
    intro x inside
    have before := fewer x inside
    rw [subscribers] at before
    exact List.mem_of_mem_filter before

theorem destroyed_stored {freed : List Subscriber} (stored : Stored tree) (undeferred : tree.pendingOps = [])
    (none_ : tree.pendingFree = []) (nodup : freed.Nodup) (members : ∀ s ∈ freed, s ∈ tree.subscribers) :
    Stored (freed.foldl (fun tree s => tree.destroySubscriber s true) tree) ∧
      (freed.foldl (fun tree s => tree.destroySubscriber s true) tree).pendingOps = [] ∧
      (freed.foldl (fun tree s => tree.destroySubscriber s true) tree).pendingFree = [] := by
  induction freed generalizing tree with
  | nil => exact ⟨stored, undeferred, none_⟩
  | cons s freed ih =>
    obtain ⟨own, others⟩ := List.nodup_cons.mp nodup
    obtain ⟨next, still⟩ := stored.destroy undeferred (members s List.mem_cons_self) (by rw [none_]; exact List.not_mem_nil) true
    obtain ⟨subscribers, -, -, -, -, -, -, -, free, -⟩ := destroySubscriber_frame tree s true
    apply ih next still (free.trans none_) others
    intro x inside
    rw [subscribers]
    refine List.mem_filter.mpr ⟨members x (List.mem_cons_of_mem _ inside), decide_eq_true ?_⟩
    rintro rfl
    exact own inside

theorem Stored.swap (stored : Stored tree) : Stored { tree with pendingFree := [] } := by
  refine ⟨?_, ?_, ?_, stored.distinct, ⟨List.nodup_nil, fun _ absent => absurd absent List.not_mem_nil⟩, fun some_ => absurd rfl some_⟩
  · exact stored.consistent.congr rfl
  · exact stored.peopled.congr rfl
  · exact stored.entering.move rfl fun _ _ _ _ _ => Iff.rfl

theorem Stored.finish (stored : Stored tree) (undeferred : tree.pendingOps = []) :
    Stored { tree.freePendingSubscribers with pending := false } := by
  obtain ⟨done, none_, free⟩ := destroyed_stored stored.swap undeferred rfl stored.freed.1 fun s waits => (stored.freed.2 s waits).1
  change tree.freePendingSubscribers.pendingOps = [] at none_
  change tree.freePendingSubscribers.pendingFree = [] at free
  change Stored tree.freePendingSubscribers at done
  refine ⟨?_, done.peopled, Entering.none_ none_, done.distinct, done.freed, ?_⟩
  · refine ⟨done.consistent.named, done.consistent.held, ?_, done.consistent.taken, done.consistent.agree, done.consistent.members,
      done.consistent.distinct, fun some_ => absurd none_ some_⟩
    intro op pending
    rw [show _ = [] from none_] at pending
    cases pending
  · exact fun some_ => absurd free some_

theorem Stored.free (stored : Stored tree) (balanced : Balanced tree stack) (live : tree.Live s) : Stored (tree.freeSubscriber s) := by
  have out : s ∉ tree.pendingFree := by
    intro waits
    have doomed := (stored.freed.2 s waits).2
    rw [live.2] at doomed
    cases doomed
  unfold TopicTree.freeSubscriber
  split
  · have flagged : Stored { tree with
        pendingFree := tree.pendingFree ++ [s], pendingDestruction := Function.update tree.pendingDestruction s true, pending := true } := by
      refine ⟨?_, stored.peopled, stored.entering, stored.distinct, ⟨?_, ?_⟩, fun _ => rfl⟩
      · exact stored.consistent.flag.congr rfl
      · exact List.nodup_append.mpr ⟨stored.freed.1, List.nodup_singleton s, by
          intro x waits y last same
          rw [List.mem_singleton.mp last] at same
          exact out (same ▸ waits)⟩
      · intro x waits
        rcases List.mem_append.mp waits with before | last
        · refine ⟨(stored.freed.2 x before).1, ?_⟩
          show Function.update tree.pendingDestruction s true x = true
          by_cases same : x = s
          · rw [same, Function.update_self]
          · rw [Function.update_of_ne same]
            exact (stored.freed.2 x before).2
        · rw [List.mem_singleton.mp last]
          exact ⟨live.1, Function.update_self ..⟩
    dsimp only
    split
    · exact flagged.congr rfl
    · exact flagged
  · rename_i idle
    have undeferred : tree.pendingOps = [] := by
      by_contra some_
      exact idle (balanced.waits (stored.consistent.flagged some_))
    exact (stored.destroy undeferred live.1 out false).1

theorem stored_moves (stored : Stored tree) (balanced : Balanced tree stack) (clear : Clear tree action)
    (moved : Moves tree action tree' notes) : Stored tree' := by
  cases moved with
  | quiet same => exact stored.congr same
  | create new => exact stored.create new
  | subscribe live new => exact stored.subscribe live new clear
  | unsubscribe live => exact stored.unsubscribe live clear
  | free live => exact stored.free balanced live
  | defer => exact stored.deferPublish _ _ _
  | applySubscribe split => exact stored.applySubscribe split
  | applyUnsubscribe split => exact stored.applyUnsubscribe split
  | applyPublish split later =>
    rcases later with same | rfl
    · exact (stored.dropPublish split).congr same
    · exact (stored.dropPublish split).deferPublish _ _ _
  | finish none_ same => exact (stored.finish none_).congr same

end Steps

/-- What holds of the tree and of the operations that have begun. -/
structure Sound (m : Machine T B) : Prop where
  stored : Stored m.tree
  balanced : Balanced m.tree m.stack

theorem sound_start : Sound ({} : Machine T B) := by
  refine ⟨⟨⟨?_, ?_, ?_, ?_, ?_, ?_, ?_, ?_⟩, ?_, ?_, ?_, ?_, ?_⟩, ⟨rfl, ?_, ?_⟩⟩
  all_goals simp [Peopled, Entering, TopicTree.Owns]

theorem sound_step {m : Machine T B} {action : Action T B} (sound : Sound m) (clear : Clear m.tree action) : Sound (m.step action) := by
  obtain ⟨notes, moved, -⟩ := step_moves m action
  exact ⟨stored_moves sound.stored sound.balanced clear moved, step_balanced m sound.balanced action⟩

end Uws.PubSub
