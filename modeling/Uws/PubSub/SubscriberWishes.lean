import Uws.PubSub.TopicRuns

/-! What subscribers asked for, and what they are subscribed to. -/

namespace Uws.PubSub

variable {T B : Type} {tree tree' : TopicTree T} {log : List (Event T B)} {s : Subscriber} {n : Bytes}

/-- The last call about the name that took place was a subscription, and the subscriber is still the one of that time. -/
def LastSubscribed (log : List (Event T B)) (s : Subscriber) (n : Bytes) : Prop :=
  ∃ front back, log = front ++ .subscribed s n :: back ∧ .unsubscribed s n ∉ back ∧ .created s ∉ back

/-- Both sides of every subscription are there, and it is what was asked for. -/
structure Membership (m : Machine T B) : Prop where
  agree : ∀ s ∈ m.tree.subscribers, ∀ t, m.tree.Owns t → (s ∈ m.tree.members t ↔ t ∈ m.tree.topicsOf s)
  peopled : ∀ t, m.tree.Owns t → m.tree.members t ≠ [] ∧ ∀ s ∈ m.tree.members t, s ∈ m.tree.subscribers
  held : ∀ s ∈ m.tree.subscribers, ∀ t ∈ m.tree.topicsOf s, m.tree.Owns t
  wished : ∀ s ∈ m.tree.subscribers, ∀ n, Names m.tree s n ↔ LastSubscribed m.log s n

/-- What is changed at once has nothing deferred on it. Behind a drain of the full vector, the topic that is published to
    is still there. -/
def Steady (m : Machine T B) (action : Action T B) : Prop :=
  Clear m.tree action ∧
    match action, m.stack with
    | .proceed _, .publishFull _ topicPtr _ :: _ => m.tree.Owns topicPtr
    | _, _ => True

section Logs

theorem lastSubscribed_append (e : Event T B) :
    LastSubscribed (log ++ [e]) s n ↔
      e = .subscribed s n ∨ e ≠ .unsubscribed s n ∧ e ≠ .created s ∧ LastSubscribed log s n := by
  constructor
  · rintro ⟨front, back, split, unsubscribed, created⟩
    rcases List.eq_nil_or_concat back with rfl | ⟨back, last, rfl⟩
    · exact .inl (List.cons.inj (List.append_inj' split rfl).2).1
    · rw [List.concat_eq_append] at split unsubscribed created
      rw [← List.cons_append, ← List.append_assoc] at split
      obtain ⟨before, ends⟩ := List.append_inj' split rfl
      obtain rfl := (List.cons.inj ends).1
      rw [List.mem_append, List.mem_singleton, not_or] at unsubscribed created
      exact .inr ⟨Ne.symm unsubscribed.2, Ne.symm created.2, front, back, before, unsubscribed.1, created.1⟩
  · intro counts
    rcases counts with rfl | ⟨unsubscribed, created, front, back, rfl, own, old⟩
    · exact ⟨log, [], rfl, List.not_mem_nil, List.not_mem_nil⟩
    · refine ⟨front, back ++ [e], by rw [List.append_assoc, List.cons_append], ?_, ?_⟩
      · rw [List.mem_append, List.mem_singleton, not_or]
        exact ⟨own, Ne.symm unsubscribed⟩
      · rw [List.mem_append, List.mem_singleton, not_or]
        exact ⟨old, Ne.symm created⟩

theorem lastSubscribed_wishes : LastSubscribed (log.filter Event.IsWish) s n ↔ LastSubscribed log s n := by
  induction log using List.reverseRecOn with
  | nil => rfl
  | append_singleton log e ih =>
    rw [List.filter_append, lastSubscribed_append, ← ih]
    cases wish : e.IsWish with
    | true =>
      rw [List.filter_cons_of_pos wish, List.filter_nil]
      exact lastSubscribed_append e
    | false =>
      rw [List.filter_cons_of_neg (by rw [wish]; exact Bool.false_ne_true), List.filter_nil, List.append_nil]
      have other : ∀ e' : Event T B, e'.IsWish = true → e ≠ e' := by
        intro e' own same
        rw [same, own] at wish
        cases wish
      constructor
      · exact fun last => .inr ⟨other _ rfl, other _ rfl, last⟩
      · exact fun last => (last.resolve_left (other _ rfl)).2.2

end Logs

/-- Every subscriber is subscribed to what it asked for. -/
def Wished (tree : TopicTree T) (log : List (Event T B)) : Prop :=
  ∀ s ∈ tree.subscribers, ∀ n, Names tree s n ↔ LastSubscribed log s n

section Steps

theorem Wished.congr (wished : Wished tree log) (subscribers : ∀ s ∈ tree'.subscribers, s ∈ tree.subscribers)
    (topicsOf : tree'.topicsOf = tree.topicsOf) (name : tree'.name = tree.name) : Wished tree' log := by
  intro s inside n
  unfold Names
  rw [topicsOf, name]
  exact wished s (subscribers s inside) n

theorem Wished.kept (wished : Wished tree log) (same : tree'.kept = tree.kept) : Wished tree' log := by
  obtain ⟨-, name, -, subscribers, topicsOf, -, -⟩ := core_iff.mp (kept_iff.mp same).1
  exact wished.congr (fun s inside => subscribers ▸ inside) topicsOf name

theorem Wished.create (wished : Wished tree log) : Wished (tree.createSubscriber s) (log ++ [.created s]) := by
  intro x inside n
  rw [lastSubscribed_append]
  unfold Names TopicTree.createSubscriber
  dsimp only
  by_cases same : x = s
  · rw [same, Function.update_self]
    apply iff_of_false
    · rintro ⟨t, on, -⟩
      cases on
    · intro last
      rcases last with other | ⟨-, created, -⟩
      · cases other
      · exact created rfl
  · rw [Function.update_of_ne same]
    apply (wished x ((List.mem_cons.mp inside).resolve_left same) n).trans
    constructor
    · intro last
      right
      refine ⟨?_, ?_, last⟩
      · intro other
        cases other
      · intro equal
        exact same (Event.created.inj equal).symm
    · intro last
      rcases last with other | ⟨-, -, last⟩
      · cases other
      · exact last

theorem Wished.subscribe (wished : Wished tree log) (stored : Stored tree) (live : tree.Live s) {fresh : Topic}
    (new : ¬ tree.Owns fresh) {topicName : Bytes} (clear : Clear tree (.call (.subscribe s topicName fresh) : Action T B)) :
    Wished (tree.subscribe s topicName fresh).1
      (log ++ if (tree.subscribe s topicName fresh).2 = none then [] else [.subscribed s topicName]) := by
  rcases subscribe_clear clear with same | ⟨-, settled_, -⟩
  · rw [same, if_pos rfl, List.append_nil]
    exact wished
  · obtain ⟨keeps, names⟩ := subscribe_keeps stored.consistent stored.peopled live.1 new settled_
    intro x inside n
    rw [keeps.subscribers] at inside
    rw [names x inside n, wished x inside n]
    by_cases none_ : (tree.subscribe s topicName fresh).2 = none
    · rw [if_pos none_, List.append_nil]
      exact or_iff_right fun own => own.1 none_
    · rw [if_neg none_, lastSubscribed_append]
      constructor
      · intro own
        rcases own with ⟨-, rfl, rfl⟩ | last
        · exact .inl rfl
        · right
          refine ⟨?_, ?_, last⟩
          · intro other
            cases other
          · intro other
            cases other
      · intro own
        rcases own with same | ⟨-, -, last⟩
        · obtain ⟨rfl, rfl⟩ := Event.subscribed.inj same
          exact .inl ⟨none_, rfl, rfl⟩
        · exact .inr last

theorem Wished.unsubscribe (wished : Wished tree log) (stored : Stored tree) (live : tree.Live s) {topicName : Bytes}
    (clear : Clear tree (.call (.unsubscribe s topicName) : Action T B)) :
    Wished (tree.unsubscribe s topicName).1
      (log ++ if (tree.unsubscribe s topicName).2 = none then [] else [.unsubscribed s topicName]) := by
  rcases unsubscribe_clear clear with same | ⟨-, settled_, -⟩
  · rw [same, if_pos rfl, List.append_nil]
    exact wished
  · obtain ⟨keeps, names⟩ := unsubscribe_keeps stored.consistent stored.peopled live.1 settled_
    intro x inside n
    rw [keeps.subscribers] at inside
    rw [names x inside n, wished x inside n]
    by_cases none_ : (tree.unsubscribe s topicName).2 = none
    · rw [if_pos none_, List.append_nil]
      exact and_iff_right fun own => own.1 none_
    · rw [if_neg none_, lastSubscribed_append]
      constructor
      · rintro ⟨other, last⟩
        right
        refine ⟨?_, ?_, last⟩
        · intro same
          obtain ⟨rfl, rfl⟩ := Event.unsubscribed.inj same
          exact other ⟨none_, rfl, rfl⟩
        · intro same
          cases same
      · intro own
        rcases own with same | ⟨other, -, last⟩
        · cases same
        · refine ⟨?_, last⟩
          rintro ⟨-, rfl, rfl⟩
          exact other rfl

theorem Wished.free (wished : Wished tree log) : Wished (tree.freeSubscriber s) log := by
  unfold TopicTree.freeSubscriber
  split
  · dsimp only
    split
    · exact wished.congr (fun _ inside => inside) rfl rfl
    · exact wished.congr (fun _ inside => inside) rfl rfl
  · obtain ⟨subscribers, topicsOf, name, -⟩ := destroySubscriber_frame tree s false
    apply wished.congr _ topicsOf name
    intro x inside
    rw [subscribers] at inside
    exact List.mem_of_mem_filter inside

theorem wished_moves {action : Action T B} {notes : List (Event T B)} (stored : Stored tree) (clear : Clear tree action)
    (moved : Moves tree action tree' notes) (wished : Wished tree log) : Wished tree' (log ++ notes) := by
  cases moved with
  | create new => exact wished.create
  | subscribe live new => exact wished.subscribe stored live new clear
  | unsubscribe live => exact wished.unsubscribe stored live clear
  | quiet same =>
    rw [List.append_nil]
    exact wished.kept same
  | free live =>
    rw [List.append_nil]
    exact wished.free
  | defer =>
    rw [List.append_nil]
    exact wished.congr (fun _ inside => inside) rfl rfl
  | applySubscribe split =>
    rw [List.append_nil]
    exact wished.congr (fun _ inside => inside) rfl rfl
  | @applyUnsubscribe pick s t ops split =>
    rw [List.append_nil]
    obtain ⟨subscribers, topicsOf, name, -⟩ := eraseFromTopic_frame { tree with pendingOps := ops } s t
    exact wished.congr (fun x inside => subscribers ▸ inside) topicsOf name
  | @applyPublish pick sender topic message ops tree' split later =>
    rw [List.append_nil]
    have taken : Wished { tree with pendingOps := ops } log := wished.congr (fun _ inside => inside) rfl rfl
    rcases later with same | rfl
    · exact taken.kept same
    · exact taken.congr (fun _ inside => inside) rfl rfl
  | finish none_ same =>
    rw [List.append_nil]
    obtain ⟨fewer, topicsOf, name, -⟩ := freed_frame tree.pendingFree { tree with pendingFree := [] }
    have done : Wished { tree.freePendingSubscribers with pending := false } log := wished.congr fewer topicsOf name
    exact done.kept same

end Steps

/-- In a run in which nothing is changed at once over something deferred, both sides of every subscription are what was
    asked for whenever no operation is going on. -/
theorem membership_consistent_run (actions : List (Action T B))
    (steady : Runs.Along Machine.step Steady ({} : Machine T B) actions) :
    let m := Machine.run ({} : Machine T B) actions
    m.tree.drainingDepth = 0 → m.tree.applying = false → Membership m := by
  have kept : Sound (Machine.run ({} : Machine T B) actions) ∧
      Wished (Machine.run ({} : Machine T B) actions).tree (Machine.run ({} : Machine T B) actions).wishes := by
    apply @Runs.foldl_induction _ _ _ _ (fun m : Machine T B => Sound m ∧ Wished m.tree m.wishes) _ _ _ _ steady
    · intro m action kept steady
      obtain ⟨sound, wished⟩ := kept
      obtain ⟨notes, moved, log⟩ := step_moves m action
      rw [log]
      exact ⟨sound_step sound steady.1, wished_moves sound.stored steady.1 moved wished⟩
    · refine ⟨sound_start, ?_⟩
      intro s absent
      cases absent
  obtain ⟨⟨stored, balanced⟩, wished⟩ := kept
  intro m depth applying
  have undeferred : m.tree.pendingOps = [] := by
    by_contra some_
    rcases balanced.waits (stored.consistent.flagged some_) with draining | applies
    · exact absurd depth (Nat.ne_of_gt draining)
    · exact Bool.false_ne_true (applying.symm.trans applies)
  constructor
  · intro s inside t owns
    have agree := stored.consistent.agree s inside t owns
    rw [undeferred] at agree
    exact decide_eq_decide.mp agree
  · intro t owns
    refine ⟨?_, (stored.consistent.members t owns).2⟩
    apply (stored.peopled t owns).resolve_right
    unfold TopicTree.subscribePending
    rw [undeferred]
    exact Bool.false_ne_true
  · exact stored.consistent.held
  · intro s inside n
    exact (wished s inside n).trans lastSubscribed_wishes

def leavingCalls : List (Action Unit Unit) :=
  [.call (.createSubscriber 1), .call (.createSubscriber 2), .call (.subscribe 1 [116] 100), .call (.subscribe 2 [116] 101),
    .call (.publishBig none [116] ()), .proceed 0, .call (.unsubscribe 1 [116]), .return_ false, .proceed 0, .return_ false,
    .proceed 0, .proceed 0, .proceed 0]

theorem membership_consistent_run_leaving :
    Runs.Along Machine.step Steady ({} : Machine Unit Unit) leavingCalls ∧ Membership (Machine.run ({} : Machine Unit Unit) leavingCalls) := by
  have steady : Runs.Along Machine.step Steady ({} : Machine Unit Unit) leavingCalls := by
    refine ⟨⟨True.intro, True.intro⟩, ⟨True.intro, True.intro⟩, ⟨?_, True.intro⟩, ⟨?_, True.intro⟩, ⟨True.intro, True.intro⟩,
      ⟨True.intro, True.intro⟩, ⟨?_, True.intro⟩, ⟨True.intro, True.intro⟩, ⟨True.intro, True.intro⟩, ⟨True.intro, True.intro⟩,
      ⟨True.intro, True.intro⟩, ⟨True.intro, True.intro⟩, ⟨True.intro, True.intro⟩, True.intro⟩
    · simp only [Clear]
      decide
    · simp only [Clear]
      decide
    · simp only [Clear]
      decide
  exact ⟨steady, membership_consistent_run leavingCalls steady (by decide) (by decide)⟩

/-- A subscriber leaves a topic while that is iterated, behind a publish to another topic that is deferred as well. The
    other topic has a subscriber with 32 messages, so that its publish calls back, and the first one subscribes again. -/
def overtakenCalls : List (Action Unit Unit) :=
  let queued : List (Action Unit Unit) := [.call (.publish none [117] ()), .proceed 0, .proceed 0]
  let overtaking : List (Action Unit Unit) :=
    [.call (.publishBig none [116] ()), .proceed 0, .call (.publish none [117] ()), .call (.unsubscribe 1 [116]), .return_ false,
      .proceed 0, .proceed 0, .proceed 0, .proceed 0, .call (.subscribe 1 [116] 102), .return_ true, .proceed 0, .proceed 0,
      .proceed 0, .proceed 0, .proceed 0]
  .call (.createSubscriber 1) :: .call (.createSubscriber 2) :: .call (.subscribe 1 [116] 100) :: .call (.subscribe 2 [117] 101) ::
    (List.replicate 32 queued).flatten ++ overtaking

/-- The deferred call undoes the later one: the topic is gone, and still on the list of its subscriber. -/
theorem unsubscribe_overtakes :
    ¬ ∀ actions : List (Action Unit Unit),
      let m := Machine.run ({} : Machine Unit Unit) actions
      m.stack = [] → m.tree.drainingDepth = 0 → m.tree.applying = false → m.tree.pendingOps = [] → Membership m := by
  intro claimed
  have last : (Machine.run ({} : Machine Unit Unit) overtakenCalls).stack.length = 0 ∧
      (Machine.run ({} : Machine Unit Unit) overtakenCalls).tree.drainingDepth = 0 ∧
      (Machine.run ({} : Machine Unit Unit) overtakenCalls).tree.applying = false ∧
      (Machine.run ({} : Machine Unit Unit) overtakenCalls).tree.pendingOps.length = 0 ∧
      1 ∈ (Machine.run ({} : Machine Unit Unit) overtakenCalls).tree.subscribers ∧
      100 ∈ (Machine.run ({} : Machine Unit Unit) overtakenCalls).tree.topicsOf 1 ∧
      ¬ (Machine.run ({} : Machine Unit Unit) overtakenCalls).tree.Owns 100 := by
    decide +kernel
  obtain ⟨stack, depth, applying, ops, inside, on, erased⟩ := last
  have kept := claimed overtakenCalls
  generalize Machine.run ({} : Machine Unit Unit) overtakenCalls = m at stack depth applying ops inside on erased kept
  have membership := kept (List.eq_nil_of_length_eq_zero stack) depth applying (List.eq_nil_of_length_eq_zero ops)
  exact erased (membership.held 1 inside 100 on)

end Uws.PubSub
