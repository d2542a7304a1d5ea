import Uws.PubSub.OpenFrames

/-! When a topic stays in the map, and that every step keeps what the open operations point to. -/

namespace Uws.PubSub

variable {T B : Type} {tree : TopicTree T} {stack : List (Frame T B)} {s x : Subscriber} {t t' : Topic}
  {l : List Subscriber}

def Frame.awaits : Frame T B → Option Topic
  | .publishFull _ t _ => some t
  | .publish _ _ _ _ _ => none
  | .publishDrained _ _ _ _ _ _ => none
  | .publishBig _ _ _ _ => none
  | .drainImpl _ _ _ => none
  | .drainSubscriber => none
  | .drain _ => none
  | .applyPending => none
  | .callback _ => none

def awaited (stack : List (Frame T B)) : List Topic := stack.filterMap Frame.awaits

/-- Nobody leaves as the last one a topic that a publish waits for. -/
def Spares (m : Machine T B) (action : Action T B) : Prop :=
  match action, m.stack, m.tree.pendingOps with
  | .call (.unsubscribe s topic), stack, _ =>
    ∀ t ∈ awaited stack, m.tree.topics topic = some t → m.tree.isIterating s = false → m.tree.iteratingTopic ≠ some t →
      t ∈ m.tree.topicsOf s → m.tree.subscribePending t = false → ∃ x ∈ m.tree.members t, x ≠ s
  | .proceed _, .applyPending :: stack, .unsubscribe s t :: ops =>
    t ∈ awaited stack → ops.any (PendingOp.subscribesTo t) = false → ∃ x ∈ m.tree.members t, x ≠ s
  | .proceed _, .applyPending :: stack, [] => ∀ t ∈ awaited stack, ∃ x ∈ m.tree.members t, x ∉ m.tree.pendingFree
  | _, _, _ => True

theorem topic_cases {frame : Frame T B} (points : t ∈ frame.topic) : frame.Iterates = true ∨ t ∈ frame.awaits := by
  cases frame with
  | publishFull sender t' message => exact .inr points
  | publish sender t' message rest referenced => exact .inl rfl
  | publishDrained sender t' message s rest referenced => exact .inl rfl
  | publishBig sender t' message rest => exact .inl rfl
  | _ => cases points

section Owning

theorem eraseTopic_owns (owns : tree.Owns t) (erased : tree.Owns t') (other : t ≠ t') : (tree.eraseTopic t').Owns t := by
  unfold TopicTree.Owns TopicTree.eraseTopic
  have apart : tree.name t ≠ tree.name t' := by
    intro same
    unfold TopicTree.Owns at owns erased
    rw [same, erased] at owns
    exact other (Option.some.inj owns).symm
  dsimp only
  rw [Function.update_of_ne apart]
  exact owns

theorem eraseFromTopic_owns (owns : tree.Owns t) (left : tree.Owns t')
    (spared : t = t' → tree.pending = true ∧ tree.subscribePending t = true ∨ ∃ x ∈ tree.members t, x ≠ s) :
    (tree.eraseFromTopic s t').Owns t := by
  unfold TopicTree.eraseFromTopic
  dsimp only
  split
  · rename_i last
    by_cases same : t = t'
    · subst same
      have empty : (tree.members t).erase s = [] := by simpa [TopicTree.eraseMember] using last.1
      rcases spared rfl with waits | ⟨x, inside, other⟩
      · exact absurd waits last.2
      · have stays := (List.mem_erase_of_ne other).mpr inside
        rw [empty] at stays
        cases stays
    · exact @eraseTopic_owns _ (tree.eraseMember t' s) t t' owns left same
  · exact owns

theorem subscribe_owns (stored : Stored tree) (owns : tree.Owns t) {fresh : Topic} (new : ¬ tree.Owns fresh) (topicName : Bytes) :
    (tree.subscribe s topicName fresh).1.Owns t := by
  obtain ⟨-, -, -, -, -, -, -, -, -, kept⟩ := obtainTopic_sound stored.consistent stored.peopled new topicName
  have still := (kept t owns).1
  unfold TopicTree.subscribe
  split
  · exact owns
  · dsimp only
    split
    · exact still
    · split
      · exact still
      · exact still

theorem unsubscribe_owns (stored : Stored tree) (owns : tree.Owns t) {topicName : Bytes}
    (spared : tree.topics topicName = some t → tree.isIterating s = false → tree.iteratingTopic ≠ some t →
      t ∈ tree.topicsOf s → tree.subscribePending t = false → ∃ x ∈ tree.members t, x ≠ s) :
    (tree.unsubscribe s topicName).1.Owns t := by
  unfold TopicTree.unsubscribe TopicTree.lookupTopic
  split
  · exact owns
  · rename_i free
    cases found : tree.topics topicName with
    | none => exact owns
    | some t' =>
      dsimp only
      split
      · rename_i on
        split
        · exact owns
        · rename_i away
          apply @eraseFromTopic_owns _ (tree.forgetTopic s t') s t t' owns (stored.consistent.lookup found)
          rintro rfl
          cases waits : tree.subscribePending t with
          | false => exact .inr (spared found (Bool.not_eq_true _ ▸ free) away on waits)
          | true =>
            refine .inl ⟨stored.consistent.flagged ?_, waits⟩
            intro none_
            unfold TopicTree.subscribePending at waits
            rw [none_] at waits
            cases waits
      · exact owns

theorem leaveTopic_owns {left : List Topic} (leaving : Leaving s (t' :: left) tree) (owns : tree.Owns t)
    (stays : x ∈ tree.members t) (other : x ≠ s) :
    (TopicTree.leaveTopic s tree t').Owns t ∧ x ∈ (TopicTree.leaveTopic s tree t').members t := by
  obtain ⟨left_, on⟩ := leaving.mine t' List.mem_cons_self
  unfold TopicTree.leaveTopic
  split
  · rename_i single
    refine ⟨eraseTopic_owns owns left_ ?_, stays⟩
    rintro rfl
    obtain ⟨y, only⟩ := List.length_eq_one_iff.mp single
    rw [only, List.mem_singleton] at on stays
    exact other (stays.trans on.symm)
  · refine ⟨owns, ?_⟩
    by_cases same : t = t'
    · subst same
      simpa [TopicTree.eraseMember] using (List.mem_erase_of_ne other).mpr stays
    · simpa [TopicTree.eraseMember, same] using stays

theorem leaveTopics_owns {left : List Topic} (leaving : Leaving s left tree) (nodup : left.Nodup) (owns : tree.Owns t)
    (stays : x ∈ tree.members t) (other : x ≠ s) :
    (left.foldl (TopicTree.leaveTopic s) tree).Owns t ∧ x ∈ (left.foldl (TopicTree.leaveTopic s) tree).members t := by
  induction left generalizing tree with
  | nil => exact ⟨owns, stays⟩
  | cons t' left ih =>
    obtain ⟨still, inside⟩ := leaveTopic_owns leaving owns stays other
    exact ih (leaveTopic_leaving leaving nodup) (List.nodup_cons.mp nodup).2 still inside

theorem freed_owns {freed : List Subscriber} (stored : Stored tree) (undeferred : tree.pendingOps = []) (none_ : tree.pendingFree = [])
    (nodup : freed.Nodup) (members : ∀ s ∈ freed, s ∈ tree.subscribers) (owns : tree.Owns t) (stays : x ∈ tree.members t)
    (other : x ∉ freed) : (freed.foldl (fun tree s => tree.destroySubscriber s true) tree).Owns t := by
  induction freed generalizing tree with
  | nil => exact owns
  | cons s freed ih =>
    obtain ⟨own, others⟩ := List.nodup_cons.mp nodup
    rw [List.mem_cons, not_or] at other
    obtain ⟨apart, outside⟩ := other
    have member := members s List.mem_cons_self
    obtain ⟨next, still⟩ := stored.destroy undeferred member (by rw [none_]; exact List.not_mem_nil) true
    obtain ⟨subscribers, -, -, -, -, -, -, -, free, -⟩ := destroySubscriber_frame tree s true
    have leaving := leaving_start stored.consistent stored.peopled undeferred member
    obtain ⟨kept, inside⟩ := leaveTopics_owns leaving (stored.consistent.distinct s member) owns stays apart
    apply ih next still (free.trans none_) others _ kept inside outside
    intro y waits
    rw [subscribers]
    refine List.mem_filter.mpr ⟨members y (List.mem_cons_of_mem _ waits), decide_eq_true ?_⟩
    rintro rfl
    exact own waits

end Owning

section Steps

variable {m : Machine T B}

/-- What a step leaves of the stack and of the list, whatever it did. -/
def Held (m : Machine T B) : Prop := ∃ l, Guarded m.tree m.stack l

theorem pickOne_mem {pick : Nat} {rest left : List Subscriber} (picked : pickOne pick rest = some (s, left)) :
    s ∈ rest ∧ ∀ x ∈ left, x ∈ rest := by
  unfold pickOne at picked
  split at picked
  · rename_i found
    obtain ⟨rfl, rfl⟩ := Prod.mk.inj (Option.some.inj picked)
    exact ⟨List.mem_of_getElem? found, fun x inside => List.mem_of_mem_erase inside⟩
  · cases picked

theorem undetached (stored : Stored tree) (queue : Queue tree l) (member : s ∈ tree.subscribers)
    (attached : ¬ (tree.pending && tree.detached s t) = true) : tree.pendingDestruction s = false := by
  rw [← Bool.not_eq_true]
  intro doomed
  apply attached
  have free := (queue.freed s member doomed).1
  have pending := stored.waiting (List.ne_nil_of_mem free)
  unfold TopicTree.detached TopicTree.wasFreed
  rw [pending, doomed]
  rfl

theorem quiet_loops (nested : Nested stack) (quiet : stack.countP Frame.Drains = 0) : stack.any Frame.loops = false := by
  rw [List.any_eq_false]
  intro frame inside
  rw [(nested_quiet nested quiet frame inside).2.2]
  exact Bool.false_ne_true

theorem guarded_publishTo {sender : Option Subscriber} {message : T} {rest : List Subscriber} {referencedMessage : Bool}
    {log : List (Event T B)} (all : List (Frame T B)) (stored : Stored tree)
    (guarded : Guarded tree (.publish sender t message rest referencedMessage :: stack) l) (inside : s ∈ rest)
    {left : List Subscriber} (fewer : ∀ x ∈ left, x ∈ rest) :
    Held (Machine.publishTo ⟨tree, all, log⟩ sender t message s left referencedMessage stack) := by
  have member := guarded.alive _ List.mem_cons_self s inside
  unfold Machine.publishTo
  split
  · exact ⟨l, guarded.goOn rfl (fun stands => stands) rfl rfl fewer rfl⟩
  · rename_i attached
    rw [not_or] at attached
    split
    · have opened : Guarded tree (.publishDrained sender t message s left referencedMessage :: stack) l := by
        refine guarded.goOn rfl (fun stands => stands) rfl rfl ?_ rfl
        intro x kept
        rcases List.mem_cons.mp kept with rfl | kept
        · exact inside
        · exact fewer x kept
      exact opened.drainSubscriber member log
    · have opened : Guarded tree (.publish sender t message left true :: stack) l :=
        guarded.goOn rfl (fun stands => stands) rfl rfl fewer rfl
      refine opened.handOut ?_ member (undetached stored guarded.queue member attached.2)
      show stack.any Frame.loops = false
      exact quiet_loops guarded.nested.2 guarded.nested.1

theorem guarded_unsubscribe {ops : List (PendingOp T)} (stored : Stored tree)
    (guarded : Guarded tree (.applyPending :: stack) l) (split : tree.pendingOps = .unsubscribe s t :: ops)
    (spares : t ∈ awaited stack → ops.any (PendingOp.subscribesTo t) = false → ∃ x ∈ tree.members t, x ≠ s) :
    Guarded ({ tree with pendingOps := ops }.eraseFromTopic s t) (.applyPending :: stack) l := by
  have rest := @eraseFromTopic_rest _ { tree with pendingOps := ops } s t
  obtain ⟨subscribers, -⟩ := eraseFromTopic_frame { tree with pendingOps := ops } s t
  have iterating := congrArg (fun level => level.2.1) (unsubscribed_level { tree with pendingOps := ops } s t)
  refine guarded.relink (guarded.queue.congr (links_of_rest rest subscribers)) ?_ iterating (by rw [subscribers]; exact fun _ inside => inside)
  intro frame inside t' points
  have owns := guarded.owned frame inside t' points
  have left := (stored.consistent.fits (.unsubscribe s t) (by rw [split]; exact List.mem_cons_self)).1
  apply @eraseFromTopic_owns _ { tree with pendingOps := ops } s t' t owns left
  rintro rfl
  rcases List.mem_cons.mp inside with rfl | inside
  · cases points
  · have quiet := nested_quiet guarded.nested.2 guarded.nested.1 frame inside
    rcases topic_cases points with iterates | waits
    · rw [quiet.2.1] at iterates
      cases iterates
    · cases deferred : ops.any (PendingOp.subscribesTo t') with
      | false => exact .inr (spares (List.mem_filterMap.mpr ⟨frame, inside, waits⟩) deferred)
      | true =>
        refine .inl ⟨stored.consistent.flagged ?_, deferred⟩
        rw [split]
        exact List.cons_ne_nil _ _

theorem guarded_finish (stored : Stored tree) (guarded : Guarded tree (.applyPending :: stack) l) (undeferred : tree.pendingOps = [])
    (spares : ∀ t ∈ awaited stack, ∃ x ∈ tree.members t, x ∉ tree.pendingFree) (log : List (Event T B)) :
    Held ⟨{ tree.freePendingSubscribers with pending := false, applying := false }, stack, log⟩ := by
  have below := guarded.pop rfl
  have quiet := nested_quiet below.nested guarded.nested.1
  obtain ⟨queue, needs⟩ := below.queue.finish (below.idle (quiet_loops below.nested guarded.nested.1)) stored.freed.2
  have done : Relinks _ l { tree.freePendingSubscribers with pending := false, applying := false } l := queue.congr rfl
  refine ⟨l, done.queue, fun _ => needs, below.nested, ?_, ?_, ?_, ?_⟩
  · intro frame inside t points
    have owns := below.owned frame inside t points
    rcases topic_cases points with iterates | waits
    · rw [(quiet frame inside).2.1] at iterates
      cases iterates
    · obtain ⟨x, stays, kept⟩ := spares t (List.mem_filterMap.mpr ⟨frame, inside, waits⟩)
      have members : ∀ s ∈ tree.pendingFree, s ∈ tree.subscribers := fun s waits => (stored.freed.2 s waits).1
      exact freed_owns stored.swap undeferred rfl stored.freed.1 members owns stays kept
  · intro frame inside iterates
    rw [(quiet frame inside).2.1] at iterates
    cases iterates
  · intro frame inside
    rw [(quiet frame inside).1]
    exact fun s absent => absurd absent List.not_mem_nil
  · intro first inside
    have loops := (quiet (.drain first) inside).2.2
    cases loops

theorem guarded_proceed (sound : Sound m) (held : Held m) (pick : Nat) (spares : Spares m (.proceed pick)) :
    Held (m.proceed pick) := by
  obtain ⟨tree, stack, log⟩ := m
  obtain ⟨stored, balanced⟩ := sound
  obtain ⟨l, guarded⟩ := held
  dsimp only at stored balanced guarded
  cases stack with
  | nil => exact ⟨l, guarded⟩
  | cons frame stack =>
    unfold Machine.proceed
    dsimp only
    -- the depth in front of a frame that is done
    have depth : frame.Drains = true → tree.drainingDepth = stack.countP Frame.Drains + 1 := by
      intro drains
      rw [balanced.depth, List.countP_cons_of_pos drains]
    cases frame with
    | callback s => exact ⟨l, guarded⟩
    | drainImpl s i num =>
      have draining := guarded.nested.1
      dsimp only
      split
      · refine ⟨l, ?_⟩
        have again : Guarded tree (.drainImpl s (i + 1) num :: stack) l :=
          guarded.goOn rfl (fun stands => stands) rfl rfl (fun _ kept => kept) rfl
        exact again.pushBare draining rfl rfl rfl rfl
      · exact ⟨l, guarded.pop rfl⟩
    | drainSubscriber =>
      refine ⟨l, ?_⟩
      dsimp only
      split
      · have cleared : Guarded { tree with outgoingMessages := [] } stack l := (guarded.pop rfl).congr rfl rfl rfl rfl
        exact cleared.leave (depth rfl) log
      · exact (guarded.pop rfl).leave (depth rfl) log
    | drain first =>
      have loop := guarded.draining first List.mem_cons_self
      cases first with
      | none =>
        obtain ⟨queue, draining, needs⟩ := guarded.queue.empty loop
        refine ⟨[], Guarded.leave ⟨queue, ?_, guarded.nested.2, ?_, ?_, ?_, ?_⟩ (depth rfl) log⟩
        · exact fun _ s absent => absurd absent List.not_mem_nil
        · exact fun frame inside => guarded.owned frame (List.mem_cons_of_mem _ inside)
        · exact fun frame inside => guarded.iterating frame (List.mem_cons_of_mem _ inside)
        · exact fun frame inside => guarded.alive frame (List.mem_cons_of_mem _ inside)
        · exact fun other inside => draining other (guarded.draining other (List.mem_cons_of_mem _ inside))
      | some s =>
        dsimp only
        split
        · rename_i doomed
          have member := loop.member guarded.queue
          exact ⟨l, guarded.advance (loop.advance guarded.queue (guarded.queue.freed s member doomed).2)⟩
        · have member := loop.member guarded.queue
          have cleared := guarded.clear rfl s
          have none_ : (tree.clearIndices s).needsDrainage s = false := by
            rw [← Bool.not_eq_true, Queue.clear_needs]
            exact fun needing => needing.1 rfl
          have further := cleared.advance ((cleared.draining _ List.mem_cons_self).advance cleared.queue none_)
          refine ⟨l, further.drainImpl member ?_ 0 (tree.numMessageIndices s)⟩
          rw [List.countP_cons_of_pos rfl]
          exact Nat.succ_pos _
    | publishFull sender t message =>
      have owns := guarded.owned _ List.mem_cons_self t rfl
      exact ⟨l, (guarded.pop rfl).beginPublish guarded.nested.1 owns (stored.consistent.members t owns).2 sender message log⟩
    | publish sender t message rest referencedMessage =>
      dsimp only
      cases picked : pickOne pick rest with
      | some next =>
        obtain ⟨s, left⟩ := next
        obtain ⟨inside, fewer⟩ := pickOne_mem picked
        exact guarded_publishTo _ stored guarded inside fewer
      | none =>
        have ended := (guarded.pop rfl).iterate guarded.nested.1 none
        have appended : Guarded { tree with
            iteratingTopic := none
            outgoingMessages := if referencedMessage then tree.outgoingMessages ++ [message] else tree.outgoingMessages } stack l :=
          ended.congr rfl rfl rfl rfl
        exact ⟨l, appended.leave (depth rfl) log⟩
    | publishDrained sender t message s rest referencedMessage =>
      have member := guarded.alive _ List.mem_cons_self s List.mem_cons_self
      have opened : ∀ referenced, Guarded tree (.publish sender t message rest referenced :: stack) l := fun referenced =>
        guarded.goOn rfl (fun stands => stands) rfl rfl (fun x kept => List.mem_cons_of_mem s kept) rfl
      dsimp only
      split
      · exact ⟨l, opened referencedMessage⟩
      · rename_i attached
        refine (opened true).handOut ?_ member (undetached stored guarded.queue member attached)
        show stack.any Frame.loops = false
        exact quiet_loops guarded.nested.2 guarded.nested.1
    | publishBig sender t bigMessage rest =>
      dsimp only
      cases picked : pickOne pick rest with
      | some next =>
        obtain ⟨s, left⟩ := next
        obtain ⟨inside, fewer⟩ := pickOne_mem picked
        have opened : Guarded tree (.publishBig sender t bigMessage left :: stack) l :=
          guarded.goOn rfl (fun stands => stands) rfl rfl fewer rfl
        refine ⟨l, ?_⟩
        dsimp only
        split
        · exact opened
        · refine opened.pushBare ?_ rfl rfl rfl rfl
          show 0 < List.countP Frame.Drains (_ :: stack)
          rw [List.countP_cons_of_pos rfl]
          exact Nat.succ_pos _
      | none =>
        have ended := (guarded.pop rfl).iterate guarded.nested.1 none
        exact ⟨l, ended.leave (depth rfl) log⟩
    | applyPending =>
      have taken : ∀ ops, Guarded { tree with pendingOps := ops } (.applyPending :: stack) l :=
        fun ops => guarded.congr rfl rfl rfl rfl
      cases split : tree.pendingOps with
      | nil => exact guarded_finish stored guarded split (by simpa only [Spares, split] using spares) log
      | cons op ops =>
        cases op with
        | subscribe s t => exact ⟨l, (taken ops).congr rfl rfl rfl rfl⟩
        | unsubscribe s t =>
          refine ⟨l, guarded_unsubscribe stored guarded split ?_⟩
          simpa only [Spares, split] using spares
        | publish sender topic message =>
          refine ⟨l, (taken ops).publish (stored.dropPublish split) ?_ sender topic message log⟩
          exact balanced.congr rfl rfl rfl

theorem subscribe_subscribers (topicName : Bytes) (fresh : Topic) :
    (tree.subscribe s topicName fresh).1.subscribers = tree.subscribers := by
  have obtained : (tree.obtainTopic topicName fresh).1.subscribers = tree.subscribers := by
    unfold TopicTree.obtainTopic
    split <;> rfl
  unfold TopicTree.subscribe
  split
  · rfl
  · dsimp only
    split
    · exact obtained
    · split <;> exact obtained

theorem unsubscribe_subscribers (topicName : Bytes) : (tree.unsubscribe s topicName).1.subscribers = tree.subscribers := by
  unfold TopicTree.unsubscribe
  split
  · rfl
  · split
    · rfl
    · rename_i t found
      dsimp only
      split
      · split
        · rfl
        · exact (eraseFromTopic_frame (tree.forgetTopic s t) s t).1
      · rfl

theorem guarded_subscribed (stored : Stored tree) (guarded : Guarded tree stack l) {fresh : Topic} (new : ¬ tree.Owns fresh)
    (s : Subscriber) (topicName : Bytes) : Guarded (tree.subscribe s topicName fresh).1 stack l := by
  have rest := @subscribe_rest _ tree s topicName fresh
  have subscribers := @subscribe_subscribers _ tree s topicName fresh
  have relinks := guarded.queue.congr (links_of_rest rest subscribers)
  simp only [TopicTree.rest, Prod.mk.injEq] at rest
  obtain ⟨-, -, -, -, -, -, -, iterating, -⟩ := rest
  apply guarded.relink relinks _ iterating
  · rw [subscribers]
    exact fun _ inside => inside
  · exact fun frame inside t points => subscribe_owns stored (guarded.owned frame inside t points) new topicName

theorem guarded_unsubscribed {topicName : Bytes} {log : List (Event T B)} (stored : Stored tree) (guarded : Guarded tree stack l)
    (spares : Spares ⟨tree, stack, log⟩ (.call (.unsubscribe s topicName))) :
    Guarded (tree.unsubscribe s topicName).1 stack l := by
  have rest := @unsubscribe_rest _ tree s topicName
  have subscribers := @unsubscribe_subscribers _ tree s topicName
  have relinks := guarded.queue.congr (links_of_rest rest subscribers)
  simp only [TopicTree.rest, Prod.mk.injEq] at rest
  obtain ⟨-, -, -, -, -, -, -, iterating, -⟩ := rest
  apply guarded.relink relinks _ iterating
  · rw [subscribers]
    exact fun _ inside => inside
  · intro frame inside t points
    apply unsubscribe_owns stored (guarded.owned frame inside t points)
    intro found free away
    rcases topic_cases points with iterates | waits
    · exact absurd ((guarded.iterating frame inside iterates).trans points) away
    · exact spares t (List.mem_filterMap.mpr ⟨frame, inside, waits⟩) found free away

theorem guarded_free (balanced : Balanced tree stack) (guarded : Guarded tree stack l) (outside : Machine.Outside stack)
    (live : tree.Live s) (log : List (Event T B)) : Held ⟨tree.freeSubscriber s, stack, log⟩ := by
  unfold TopicTree.freeSubscriber
  split
  · dsimp only
    split
    · rename_i needs
      obtain ⟨l', taken⟩ := guarded.queue.take live.1 needs
      have none_ : ((tree.unlinkDrainableSubscriber s).clearIndices s).needsDrainage s = false := by
        rw [← Bool.not_eq_true, Queue.clear_needs]
        exact fun needing => needing.1 rfl
      exact ⟨l', guarded.relink (taken.trans (taken.queue.doom none_)) guarded.owned rfl fun _ inside => inside⟩
    · rename_i none_
      exact ⟨l, guarded.relink (guarded.queue.doom (Bool.not_eq_true _ ▸ none_)) guarded.owned rfl fun _ inside => inside⟩
  · rename_i idle
    rw [not_or] at idle
    have quiet : stack.countP Frame.Drains = 0 := by
      rw [← balanced.depth]
      exact Nat.eq_zero_of_not_pos idle.1
    obtain rfl := outside_quiet guarded.nested outside quiet
    obtain ⟨l', queue, needs⟩ := guarded.queue.destroy (guarded.idle rfl) live.1
    refine ⟨l', queue, fun _ => needs, True.intro, ?_, ?_, ?_, ?_⟩
    · exact fun frame absent => absurd absent List.not_mem_nil
    · exact fun frame absent => absurd absent List.not_mem_nil
    · exact fun frame absent => absurd absent List.not_mem_nil
    · exact fun first absent => absurd absent List.not_mem_nil

theorem guarded_call (sound : Sound m) (held : Held m) (call : Call T B) (outside : Machine.Outside m.stack)
    (possible : call.Possible m.tree) (spares : Spares m (.call call)) : Held (m.runCall call) := by
  obtain ⟨tree, stack, log⟩ := m
  obtain ⟨stored, balanced⟩ := sound
  obtain ⟨l, guarded⟩ := held
  dsimp only at stored balanced guarded
  cases call with
  | createSubscriber s =>
    refine ⟨l, guarded.relink (guarded.queue.create possible) guarded.owned rfl ?_⟩
    exact fun x inside => List.mem_cons_of_mem s inside
  | subscribe s topic fresh =>
    have opened := guarded_subscribed stored guarded possible.2 s topic
    unfold Machine.runCall
    dsimp only
    split
    · exact ⟨l, opened⟩
    · exact ⟨l, opened⟩
  | unsubscribe s topic =>
    have opened := guarded_unsubscribed stored guarded spares
    unfold Machine.runCall
    dsimp only
    split
    · exact ⟨l, opened⟩
    · exact ⟨l, opened⟩
  | freeSubscriber s => exact guarded_free balanced guarded outside possible log
  | publish sender topic message => exact ⟨l, guarded.publish stored balanced sender topic message log⟩
  | publishBig sender topic bigMessage => exact ⟨l, guarded.publishBig stored balanced sender topic bigMessage log⟩
  | drainSubscriber s => exact guarded.drainSubscriber possible.1 log
  | drain => exact ⟨l, guarded.drain log⟩
  | iterateTopics s => exact ⟨l, guarded.congr rfl rfl rfl rfl⟩

theorem guarded_returned (held : Held m) (stop : Bool) : Held (m.returned stop) := by
  obtain ⟨tree, stack, log⟩ := m
  obtain ⟨l, guarded⟩ := held
  dsimp only at guarded
  cases stack with
  | nil => exact ⟨l, guarded⟩
  | cons frame stack =>
    cases frame with
    | callback s =>
      have returned := guarded.pop rfl
      refine ⟨l, ?_⟩
      unfold Machine.returned
      dsimp only
      split
      · rename_i top
        obtain ⟨-, rfl⟩ := List.cons.inj top
        split
        · exact returned.pop rfl
        · exact returned
      · rename_i top
        obtain ⟨-, rfl⟩ := List.cons.inj top
        exact returned
      · exact guarded
    | _ => exact ⟨l, guarded⟩

/-- Every step keeps what the open operations point to, as long as it spares the topics that a publish waits for. -/
theorem guarded_step {action : Action T B} (sound : Sound m) (held : Held m) (spares : Spares m action) : Held (m.step action) := by
  cases action with
  | call call =>
    unfold Machine.step
    dsimp only
    split
    · rename_i taken
      exact guarded_call sound held call taken.1 taken.2 spares
    · exact held
  | return_ stop => exact guarded_returned held stop
  | proceed pick => exact guarded_proceed sound held pick spares

end Steps

end Uws.PubSub
