import Uws.PubSub.TopicRuns

/-! The number of subscribers that is reported, and those that are subscribed. -/

namespace Uws.PubSub

variable {T B : Type} {tree tree' : TopicTree T} {s : Subscriber} {t : Topic} {ops : List (PendingOp T)}

def TopicTree.liveSubscribers (tree : TopicTree T) (t : Topic) : Nat :=
  tree.subscribers.countP fun s => decide (tree.Live s ∧ t ∈ tree.topicsOf s)

/-- Nobody is freed while it is subscribed, but where it is destroyed at once; what is changed at once has nothing deferred
    on it, and a number that is reported has deferred changes that cancel out. Behind a drain of the full vector, the topic
    that is published to is still there. -/
def Orderly (m : Machine T B) : Action T B → Prop
  | .call (.subscribe s topic fresh) => Clear m.tree (.call (.subscribe s topic fresh) : Action T B)
  | .call (.unsubscribe s topic) =>
    Clear m.tree (.call (.unsubscribe s topic) : Action T B) ∧
      ∀ t ∈ m.tree.topics topic, m.tree.isIterating s = false → m.tree.iteratingTopic ≠ some t → t ∈ m.tree.topicsOf s →
        (m.tree.pendingOps.map (PendingOp.counts t)).sum = 0
  | .call (.freeSubscriber s) => 0 < m.tree.drainingDepth ∨ m.tree.applying = true → m.tree.topicsOf s = []
  | .proceed _ =>
    match m.stack with
    | .publishFull _ topicPtr _ :: _ => m.tree.Owns topicPtr
    | _ => True
  | _ => True

theorem Orderly.clear {m : Machine T B} {action : Action T B} (orderly : Orderly m action) : Clear m.tree action := by
  cases action with
  | call call =>
    cases call with
    | subscribe s topic fresh => exact orderly
    | unsubscribe s topic => exact orderly.1
    | _ => exact True.intro
  | return_ stop => exact True.intro
  | proceed pick => exact True.intro

section Counting

theorem countP_raise {subs : List Subscriber} (nodup : subs.Nodup) (member : s ∈ subs) {now : Subscriber → Bool} (off : now s = false) :
    subs.countP (Function.update now s true) = subs.countP now + 1 := by
  induction subs with
  | nil => cases member
  | cons x subs ih =>
    obtain ⟨own, others⟩ := List.nodup_cons.mp nodup
    by_cases here : x = s
    · subst here
      have rest : subs.countP (Function.update now x true) = subs.countP now := by
        apply List.countP_congr
        intro y inside
        have other : y ≠ x := by
          rintro rfl
          exact own inside
        rw [Function.update_of_ne other]
      rw [List.countP_cons_of_pos (Function.update_self ..), List.countP_cons_of_neg (by rw [off]; decide), rest]
    · have inside := (List.mem_cons.mp member).resolve_left (Ne.symm here)
      rw [List.countP_cons, List.countP_cons, ih others inside, Function.update_of_ne here]
      omega

theorem countP_settle {subs : List Subscriber} (nodup : subs.Nodup) {now : Subscriber → Bool} (op : PendingOp T)
    (entering : ∀ s, op = .subscribe s t → s ∈ subs ∧ now s = false)
    (leaving : ∀ s, op = .unsubscribe s t → s ∈ subs ∧ now s = true) :
    ((subs.countP fun s => op.settle s t (now s) : Nat) : Int) = subs.countP now + op.counts t := by
  cases op with
  | publish sender name message => exact (Int.add_zero _).symm
  | subscribe s t' =>
    by_cases same : t' = t
    · subst same
      obtain ⟨member, off⟩ := entering s rfl
      have raised : (fun x => PendingOp.settle x t' (now x) (.subscribe s t' : PendingOp T)) = Function.update now s true := by
        funext x
        by_cases here : x = s
        · simp [PendingOp.settle, here]
        · simp [PendingOp.settle, here, Ne.symm here]
      rw [raised, countP_raise nodup member off]
      simp [PendingOp.counts]
    · simp [PendingOp.settle, PendingOp.counts, same]
  | unsubscribe s t' =>
    by_cases same : t' = t
    · subst same
      obtain ⟨member, on⟩ := leaving s rfl
      have lowered : (fun x => PendingOp.settle x t' (now x) (.unsubscribe s t' : PendingOp T)) = Function.update now s false := by
        funext x
        by_cases here : x = s
        · simp [PendingOp.settle, here]
        · simp [PendingOp.settle, here, Ne.symm here]
      have back : Function.update (Function.update now s false) s true = now := by
        rw [Function.update_idem, ← on, Function.update_eq_self]
      have before := countP_raise nodup member (Function.update_self s false now)
      rw [back] at before
      rw [lowered, before]
      simp [PendingOp.counts]
    · simp [PendingOp.settle, PendingOp.counts, same]

theorem countP_settled {subs : List Subscriber} (nodup : subs.Nodup) {now : Subscriber → Bool}
    (entering : ∀ front s back, ops = front ++ .subscribe s t :: back → s ∈ subs ∧ settled s t front (now s) = false)
    (leaving : ∀ front s back, ops = front ++ .unsubscribe s t :: back → s ∈ subs ∧ settled s t front (now s) = true) :
    ((subs.countP fun s => settled s t ops (now s) : Nat) : Int) = subs.countP now + (ops.map (PendingOp.counts t)).sum := by
  induction ops generalizing now with
  | nil => exact (Int.add_zero _).symm
  | cons op ops ih =>
    have first := @countP_settle _ t subs nodup now op (fun s same => entering [] s ops (by rw [same]; rfl))
      (fun s same => leaving [] s ops (by rw [same]; rfl))
    have later := @ih fun s => op.settle s t (now s)
    simp only [settled_cons]
    rw [later, first, List.map_cons, List.sum_cons, Int.add_assoc]
    · intro front s back split
      exact entering (op :: front) s back (by rw [split]; rfl)
    · intro front s back split
      exact leaving (op :: front) s back (by rw [split]; rfl)

theorem numSubscribers_listed (stored : Stored tree) (owns : tree.Owns t) :
    tree.numSubscribers t = tree.subscribers.countP fun s => decide (t ∈ tree.topicsOf s) := by
  have consistent := stored.consistent
  obtain ⟨nodup, within⟩ := consistent.members t owns
  have sizes : (tree.members t).length = tree.subscribers.countP fun s => decide (s ∈ tree.members t) := by
    rw [List.countP_eq_length_filter]
    apply List.Perm.length_eq
    rw [List.perm_ext_iff_of_nodup nodup (stored.distinct.filter _)]
    intro s
    rw [List.mem_filter, decide_eq_true_iff]
    exact ⟨fun on => ⟨within s on, on⟩, And.right⟩
  have deferred : (if tree.pending then (tree.pendingOps.map (PendingOp.counts t)).sum else 0) =
      (tree.pendingOps.map (PendingOp.counts t)).sum := by
    split
    · rfl
    · rename_i off
      have none_ : tree.pendingOps = [] := by
        by_contra some_
        exact off (consistent.flagged some_)
      rw [none_]
      rfl
  have settled_ := @countP_settled _ t tree.pendingOps _ stored.distinct (fun s => decide (s ∈ tree.members t))
    (fun front s back split => ⟨(consistent.fits (.subscribe s t) (by rw [split]; simp)).2, stored.entering front s t back split⟩)
    (fun front s back split => ⟨(consistent.fits (.unsubscribe s t) (by rw [split]; simp)).2, consistent.taken front s t back split⟩)
  rw [TopicTree.numSubscribers, deferred, sizes, ← settled_]
  apply congrArg Nat.cast
  apply List.countP_congr
  intro s inside
  rw [consistent.agree s inside t owns]

end Counting

/-- Whoever is freed and waits to be destroyed has no topics. -/
def Unlisted (tree : TopicTree T) : Prop := ∀ s ∈ tree.subscribers, tree.pendingDestruction s = true → tree.topicsOf s = []

section Leaving

theorem Unlisted.congr (unlisted : Unlisted tree) (subscribers : ∀ s ∈ tree'.subscribers, s ∈ tree.subscribers)
    (topicsOf : tree'.topicsOf = tree.topicsOf) (destruction : tree'.pendingDestruction = tree.pendingDestruction) :
    Unlisted tree' := by
  intro s inside doomed
  rw [topicsOf]
  rw [destruction] at doomed
  exact unlisted s (subscribers s inside) doomed

theorem Unlisted.live (unlisted : Unlisted tree) (live : tree.Live s) (subscribers : tree'.subscribers = tree.subscribers)
    (topicsOf : ∀ x, x ≠ s → tree'.topicsOf x = tree.topicsOf x) (destruction : tree'.pendingDestruction = tree.pendingDestruction) :
    Unlisted tree' := by
  intro x inside doomed
  rw [subscribers] at inside
  rw [destruction] at doomed
  have other : x ≠ s := by
    rintro rfl
    rw [live.2] at doomed
    cases doomed
  rw [topicsOf x other]
  exact unlisted x inside doomed

theorem subscribe_topicsOf (tree : TopicTree T) (s : Subscriber) (topicName : Bytes) (fresh : Topic) :
    (tree.subscribe s topicName fresh).1.subscribers = tree.subscribers ∧
      ∀ x, x ≠ s → (tree.subscribe s topicName fresh).1.topicsOf x = tree.topicsOf x := by
  have obtained : (tree.obtainTopic topicName fresh).1.subscribers = tree.subscribers ∧
      (tree.obtainTopic topicName fresh).1.topicsOf = tree.topicsOf := by
    unfold TopicTree.obtainTopic
    split <;> exact ⟨rfl, rfl⟩
  have noted : ∀ t x, x ≠ s → ((tree.obtainTopic topicName fresh).1.noteTopic s t).topicsOf x = tree.topicsOf x := by
    intro t x other
    rw [← obtained.2]
    exact Function.update_of_ne other ..
  unfold TopicTree.subscribe
  split
  · exact ⟨rfl, fun _ _ => rfl⟩
  · dsimp only
    split
    · exact ⟨obtained.1, fun x _ => congrFun obtained.2 x⟩
    · split
      · exact ⟨obtained.1, noted _⟩
      · exact ⟨obtained.1, noted _⟩

theorem unsubscribe_topicsOf (tree : TopicTree T) (s : Subscriber) (topicName : Bytes) :
    (tree.unsubscribe s topicName).1.subscribers = tree.subscribers ∧
      ∀ x, x ≠ s → (tree.unsubscribe s topicName).1.topicsOf x = tree.topicsOf x := by
  have noted : ∀ t x, x ≠ s → (tree.forgetTopic s t).topicsOf x = tree.topicsOf x := fun t x other => Function.update_of_ne other ..
  unfold TopicTree.unsubscribe
  split
  · exact ⟨rfl, fun _ _ => rfl⟩
  · cases tree.lookupTopic topicName with
    | none => exact ⟨rfl, fun _ _ => rfl⟩
    | some t =>
      dsimp only
      split
      · split
        · exact ⟨rfl, noted t⟩
        · obtain ⟨subscribers, topicsOf, -⟩ := eraseFromTopic_frame (tree.forgetTopic s t) s t
          exact ⟨subscribers, fun x other => (congrFun topicsOf x).trans (noted t x other)⟩
      · exact ⟨rfl, fun _ _ => rfl⟩

theorem Unlisted.kept (unlisted : Unlisted tree) (same : tree'.kept = tree.kept) : Unlisted tree' := by
  obtain ⟨core, -, destruction⟩ := kept_iff.mp same
  obtain ⟨-, -, -, subscribers, topicsOf, -, -⟩ := core_iff.mp core
  exact unlisted.congr (fun s inside => subscribers ▸ inside) topicsOf destruction

theorem Unlisted.create (unlisted : Unlisted tree) : Unlisted (tree.createSubscriber s) := by
  intro x inside doomed
  change Function.update tree.pendingDestruction s false x = true at doomed
  show Function.update tree.topicsOf s [] x = []
  by_cases same : x = s
  · rw [same, Function.update_self]
  · rw [Function.update_of_ne same] at doomed ⊢
    exact unlisted x ((List.mem_cons.mp inside).resolve_left same) doomed

theorem Unlisted.free (unlisted : Unlisted tree) (empty : 0 < tree.drainingDepth ∨ tree.applying = true → tree.topicsOf s = []) :
    Unlisted (tree.freeSubscriber s) := by
  unfold TopicTree.freeSubscriber
  split
  · rename_i busy
    have marked : Unlisted { tree with pendingDestruction := Function.update tree.pendingDestruction s true } := by
      intro x inside doomed
      by_cases same : x = s
      · rw [same]
        exact empty busy
      · apply unlisted x inside
        change Function.update tree.pendingDestruction s true x = true at doomed
        rw [Function.update_of_ne same] at doomed
        exact doomed
    dsimp only
    split
    · exact marked.congr (fun _ inside => inside) rfl rfl
    · exact marked.congr (fun _ inside => inside) rfl rfl
  · obtain ⟨subscribers, topicsOf, -, -, destruction, -⟩ := destroySubscriber_frame tree s false
    apply unlisted.congr _ topicsOf destruction
    intro x inside
    rw [subscribers] at inside
    exact List.mem_of_mem_filter inside

theorem unlisted_step {m : Machine T B} {action : Action T B} {notes : List (Event T B)} (orderly : Orderly m action)
    (moved : Moves m.tree action tree' notes) (unlisted : Unlisted m.tree) : Unlisted tree' := by
  cases moved with
  | quiet same => exact unlisted.kept same
  | create new => exact unlisted.create
  | @subscribe s topic fresh live new =>
    obtain ⟨subscribers, topicsOf⟩ := subscribe_topicsOf m.tree s topic fresh
    have rest := @subscribe_rest _ m.tree s topic fresh
    simp only [TopicTree.rest, Prod.mk.injEq] at rest
    exact unlisted.live live subscribers topicsOf rest.2.2.2.2.1
  | @unsubscribe s topic live =>
    obtain ⟨subscribers, topicsOf⟩ := unsubscribe_topicsOf m.tree s topic
    have rest := @unsubscribe_rest _ m.tree s topic
    simp only [TopicTree.rest, Prod.mk.injEq] at rest
    exact unlisted.live live subscribers topicsOf rest.2.2.2.2.1
  | free live => exact unlisted.free orderly
  | defer => exact unlisted.congr (fun _ inside => inside) rfl rfl
  | applySubscribe split => exact unlisted.congr (fun _ inside => inside) rfl rfl
  | @applyUnsubscribe pick s t ops split =>
    obtain ⟨subscribers, topicsOf, -⟩ := eraseFromTopic_frame { m.tree with pendingOps := ops } s t
    have rest := @eraseFromTopic_rest _ { m.tree with pendingOps := ops } s t
    simp only [TopicTree.rest, Prod.mk.injEq] at rest
    exact unlisted.congr (fun x inside => subscribers ▸ inside) topicsOf rest.2.2.2.2.1
  | @applyPublish pick sender topic message ops tree' split later =>
    have taken : Unlisted { m.tree with pendingOps := ops } := unlisted.congr (fun _ inside => inside) rfl rfl
    rcases later with same | rfl
    · exact taken.kept same
    · exact taken.congr (fun _ inside => inside) rfl rfl
  | finish none_ same =>
    obtain ⟨fewer, topicsOf, -, destruction⟩ := freed_frame m.tree.pendingFree { m.tree with pendingFree := [] }
    have done : Unlisted { m.tree.freePendingSubscribers with pending := false } := unlisted.congr fewer topicsOf destruction
    exact done.kept same

end Leaving

theorem numSubscribers_live (stored : Stored tree) (unlisted : Unlisted tree) (owns : tree.Owns t) :
    tree.numSubscribers t = tree.liveSubscribers t := by
  rw [numSubscribers_listed stored owns]
  apply congrArg Nat.cast
  apply List.countP_congr
  intro s inside
  rw [decide_eq_true_iff, decide_eq_true_iff]
  refine ⟨fun on => ⟨⟨inside, ?_⟩, on⟩, And.right⟩
  apply eq_false_of_ne_true
  intro doomed
  rw [unlisted s inside doomed] at on
  cases on

theorem unsubscribe_newCount {m : Machine T B} (stored : Stored m.tree) {topic : Bytes} (live : m.tree.Live s)
    (orderly : Orderly m (.call (.unsubscribe s topic))) (found : m.tree.lookupTopic topic = some t) {last : Bool} {newCount : Int}
    (answer : (m.tree.unsubscribe s topic).2 = some (last, newCount)) :
    newCount = (m.tree.unsubscribe s topic).1.numSubscribers t := by
  obtain ⟨clear, cancelled⟩ := orderly
  have owns := stored.consistent.lookup found
  unfold TopicTree.unsubscribe at answer ⊢
  split at answer
  · cases answer
  · rename_i iterates
    rw [if_neg iterates]
    rw [found] at answer ⊢
    dsimp only at answer ⊢
    split at answer
    · rename_i on
      rw [if_pos on]
      split at answer
      · rename_i iterated
        rw [if_pos iterated]
        cases answer
        rfl
      · rename_i away
        rw [if_neg away]
        cases answer
        have none_ := clear t found (eq_false_of_ne_true iterates) away on
        have sum := cancelled t found (eq_false_of_ne_true iterates) away on
        have agree := stored.consistent.agree s live.1 t owns
        rw [settled_other none_, decide_eq_true on, decide_eq_true_iff] at agree
        have members := eraseFromTopic_members (m.tree.forgetTopic s t) s t
        obtain ⟨-, -, -, pendingOps, -⟩ := eraseFromTopic_frame (m.tree.forgetTopic s t) s t
        have size := List.length_erase_of_mem agree
        have some_ := List.length_pos_of_mem agree
        unfold TopicTree.numSubscribers
        rw [members, pendingOps, Function.update_self]
        show ((m.tree.members t).length : Int) - 1 =
          (((m.tree.members t).erase s).length : Int) +
            if _ then (m.tree.pendingOps.map (PendingOp.counts t)).sum else 0
        rw [sum, size]
        split <;> omega
    · cases answer

/-- In an orderly run, every number that is reported is that of the live subscribers, in callbacks as well as outside. -/
theorem counts_exact_run (actions : List (Action T B)) (orderly : Runs.Along Machine.step Orderly ({} : Machine T B) actions) :
    let m := Machine.run ({} : Machine T B) actions
    (∀ t, m.tree.Owns t → m.tree.numSubscribers t = m.tree.liveSubscribers t) ∧
      ∀ s topic, m.tree.Live s → Orderly m (.call (.unsubscribe s topic)) → ∀ t ∈ m.tree.lookupTopic topic, ∀ last newCount,
        (m.tree.unsubscribe s topic).2 = some (last, newCount) → newCount = (m.tree.unsubscribe s topic).1.numSubscribers t := by
  have kept : Sound (Machine.run ({} : Machine T B) actions) ∧ Unlisted (Machine.run ({} : Machine T B) actions).tree := by
    apply @Runs.foldl_induction _ _ _ _ (fun m : Machine T B => Sound m ∧ Unlisted m.tree) _ _ _ _ orderly
    · intro m action ⟨sound, unlisted⟩ orderly
      obtain ⟨notes, moved, -⟩ := step_moves m action
      exact ⟨sound_step sound orderly.clear, unlisted_step orderly moved unlisted⟩
    · refine ⟨sound_start, ?_⟩
      intro s absent
      cases absent
  obtain ⟨sound, unlisted⟩ := kept
  refine ⟨fun t owns => numSubscribers_live sound.stored unlisted owns, ?_⟩
  intro s topic live orderly t found last newCount answer
  exact unsubscribe_newCount sound.stored live orderly found answer

/-- One of two subscribers is called back for a big message, and leaves the topic. -/
theorem counts_exact_run_left :
    Runs.Along Machine.step Orderly ({} : Machine Unit Unit)
        [.call (.createSubscriber 1), .call (.createSubscriber 2), .call (.subscribe 1 [116] 100), .call (.subscribe 2 [116] 101),
          .call (.publishBig none [116] ()), .proceed 0, .call (.unsubscribe 2 [116])] ∧
      (Machine.run ({} : Machine Unit Unit)
        [.call (.createSubscriber 1), .call (.createSubscriber 2), .call (.subscribe 1 [116] 100), .call (.subscribe 2 [116] 101),
          .call (.publishBig none [116] ()), .proceed 0, .call (.unsubscribe 2 [116])]).tree.numSubscribers 100 = 1 := by
  have orderly : Runs.Along Machine.step Orderly ({} : Machine Unit Unit)
      [.call (.createSubscriber 1), .call (.createSubscriber 2), .call (.subscribe 1 [116] 100), .call (.subscribe 2 [116] 101),
        .call (.publishBig none [116] ()), .proceed 0, .call (.unsubscribe 2 [116])] := by
    refine ⟨True.intro, True.intro, ?_, ?_, True.intro, True.intro, ?_, True.intro⟩
    · simp only [Orderly, Clear]
      decide
    · simp only [Orderly, Clear]
      decide
    · simp only [Orderly, Clear]
      decide
  exact ⟨orderly, ((counts_exact_run _ orderly).1 100 (by decide)).trans (by decide)⟩

/-- Somebody who is freed in a callback is still counted. -/
theorem counts_freed :
    ¬ ∀ actions : List (Action Unit Unit),
      let m := Machine.run ({} : Machine Unit Unit) actions
      Machine.Outside m.stack →
        (∀ t, m.tree.Owns t → m.tree.numSubscribers t = m.tree.liveSubscribers t) ∧
          ∀ s topic, m.tree.Live s → ∀ t ∈ m.tree.lookupTopic topic, ∀ last newCount,
            (m.tree.unsubscribe s topic).2 = some (last, newCount) → newCount = (m.tree.unsubscribe s topic).1.numSubscribers t := by
  intro exact_
  have counted := (exact_ [.call (.createSubscriber 1), .call (.createSubscriber 2), .call (.subscribe 1 [116] 100),
    .call (.subscribe 2 [116] 101), .call (.publishBig none [116] ()), .proceed 0, .call (.freeSubscriber 1)] (by decide)).1 100 (by decide)
  exact absurd counted (by decide)

end Uws.PubSub
