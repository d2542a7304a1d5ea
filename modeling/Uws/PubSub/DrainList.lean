import Uws.PubSub.TopicRuns
import Uws.Library.ListWalks

/-! The list of the drainable subscribers, and the loops of `drain()` that go over it while it changes. -/

namespace Uws.PubSub

open Uws.LinkedList

variable {T : Type} {tree tree' tree'' : TopicTree T} {s : Subscriber} {l l' l'' pre post : List Subscriber}
  {first : Option Subscriber}

/-- The drainable subscribers are linked as in `l`. One that waits to be destroyed has nothing to drain. -/
structure Queue (tree : TopicTree T) (l : List Subscriber) : Prop where
  linked : DoublyLinked tree.next tree.prev tree.drainableSubscribers l
  inside : ∀ s ∈ l, s ∈ tree.subscribers
  needing : ∀ s ∈ tree.subscribers, tree.needsDrainage s = true → s ∈ l
  freed : ∀ s ∈ tree.subscribers, tree.pendingDestruction s = true → s ∈ tree.pendingFree ∧ tree.needsDrainage s = false

/-- A loop of `drain()` that has saved `first` comes to subscribers that are not deleted, and to all that have something to
    drain. -/
def Draining (tree : TopicTree T) (l : List Subscriber) (first : Option Subscriber) : Prop :=
  ∃ out rest, Walk tree.next l first out rest ∧ (∀ s ∈ out, s ∈ tree.subscribers) ∧
    ∀ s ∈ l, tree.needsDrainage s = true → s ∈ rest

def AllNeed (tree : TopicTree T) (l : List Subscriber) : Prop := ∀ s ∈ l, tree.needsDrainage s = true

/-- The fields that the list of drainable subscribers is kept in. -/
def TopicTree.links (tree : TopicTree T) :=
  (tree.next, tree.prev, tree.drainableSubscribers, tree.numMessageIndices, tree.pendingDestruction, tree.pendingFree,
    tree.subscribers)

structure Relinks (tree : TopicTree T) (l : List Subscriber) (tree' : TopicTree T) (l' : List Subscriber) : Prop where
  queue : Queue tree' l'
  draining : ∀ first, Draining tree l first → Draining tree' l' first
  needs : AllNeed tree l → AllNeed tree' l'

theorem Relinks.trans (step : Relinks tree l tree' l') (later : Relinks tree' l' tree'' l'') : Relinks tree l tree'' l'' :=
  ⟨later.queue, fun first loop => later.draining first (step.draining first loop), fun all => later.needs (step.needs all)⟩

theorem freed_rest (freed : List Subscriber) (tree : TopicTree T) :
    let tree' := freed.foldl (fun tree s => tree.destroySubscriber s true) tree
    tree'.rest = tree.rest ∧ ∀ x, x ∈ tree'.subscribers ↔ x ∈ tree.subscribers ∧ x ∉ freed := by
  induction freed generalizing tree with
  | nil => exact ⟨rfl, fun x => by simp⟩
  | cons s freed ih =>
    obtain ⟨rest, left⟩ := ih (tree.destroySubscriber s true)
    have own : (tree.destroySubscriber s true).rest = tree.rest := by
      unfold TopicTree.destroySubscriber
      simp only [not_true_eq_false, false_and, if_false]
      exact (leaveTopics_rest s (tree.topicsOf s) tree).1
    refine ⟨rest.trans own, ?_⟩
    intro x
    rw [List.foldl_cons, left, (destroySubscriber_frame tree s true).1, List.mem_filter, decide_eq_true_iff, List.mem_cons,
      not_or, and_assoc]

theorem links_of_rest (rest : tree'.rest = tree.rest) (subscribers : tree'.subscribers = tree.subscribers) : tree'.links = tree.links := by
  simp only [TopicTree.rest, Prod.mk.injEq] at rest
  obtain ⟨prev, next, -, num, destruction, head, -, -, -, free, -⟩ := rest
  simp only [TopicTree.links, prev, next, num, destruction, head, free, subscribers]

theorem unlink_head (linked : DoublyLinked tree.next tree.prev tree.drainableSubscribers (pre ++ s :: post)) :
    tree.drainableSubscribers = some s ↔ tree.prev s = none := by
  obtain ⟨notPre, -⟩ := linked.split_nodup
  rw [linked.head, linked.prev_at]
  cases pre with
  | nil => simp
  | cons b pre =>
    apply iff_of_false
    · intro same
      exact notPre (Option.some.inj same ▸ List.mem_cons_self)
    · simp

namespace Queue

theorem congr (queue : Queue tree l) (same : tree'.links = tree.links) : Relinks tree l tree' l := by
  simp only [TopicTree.links, Prod.mk.injEq] at same
  obtain ⟨next, prev, head, num, destruction, free, subscribers⟩ := same
  have needs : tree'.needsDrainage = tree.needsDrainage := by
    funext s
    unfold TopicTree.needsDrainage
    rw [num]
  refine ⟨⟨?_, ?_, ?_, ?_⟩, ?_, ?_⟩
  · rw [next, prev, head]
    exact queue.linked
  · rw [subscribers]
    exact queue.inside
  · rw [subscribers, needs]
    exact queue.needing
  · rw [subscribers, destruction, free, needs]
    exact queue.freed
  · unfold Draining
    rw [next, subscribers, needs]
    exact fun _ loop => loop
  · unfold AllNeed
    rw [needs]
    exact fun all => all

theorem create (queue : Queue tree l) (new : s ∉ tree.subscribers) : Relinks tree l (tree.createSubscriber s) l := by
  have other : ∀ x ∈ tree.subscribers, x ≠ s := by
    rintro x inside rfl
    exact new inside
  have needs : ∀ x ∈ tree.subscribers, (tree.createSubscriber s).needsDrainage x = tree.needsDrainage x := by
    intro x inside
    unfold TopicTree.needsDrainage TopicTree.createSubscriber
    dsimp only
    rw [Function.update_of_ne (other x inside)]
  have own : (tree.createSubscriber s).needsDrainage s = false := by
    unfold TopicTree.needsDrainage TopicTree.createSubscriber
    dsimp only
    rw [Function.update_self]
    rfl
  have nexts : ∀ x ∈ tree.subscribers, (tree.createSubscriber s).next x = tree.next x :=
    fun x inside => Function.update_of_ne (other x inside) ..
  refine ⟨⟨?_, ?_, ?_, ?_⟩, ?_, ?_⟩
  · apply queue.linked.congr
    · exact fun x listed => nexts x (queue.inside x listed)
    · exact fun x listed => Function.update_of_ne (other x (queue.inside x listed)) ..
  · exact fun x listed => List.mem_cons_of_mem s (queue.inside x listed)
  · intro x inside needing
    rcases List.mem_cons.mp inside with rfl | inside
    · rw [own] at needing
      cases needing
    · rw [needs x inside] at needing
      exact queue.needing x inside needing
  · intro x inside doomed
    rcases List.mem_cons.mp inside with rfl | inside
    · unfold TopicTree.createSubscriber at doomed
      dsimp only at doomed
      rw [Function.update_self] at doomed
      cases doomed
    · unfold TopicTree.createSubscriber at doomed
      dsimp only at doomed
      rw [Function.update_of_ne (other x inside)] at doomed
      rw [needs x inside]
      exact queue.freed x inside doomed
  · rintro first ⟨out, rest, walk, alive, all⟩
    refine ⟨out, rest, walk.congr ?_, fun x unlinked => List.mem_cons_of_mem s (alive x unlinked), ?_⟩
    · rintro x (unlinked | listed)
      · exact nexts x (alive x unlinked)
      · exact nexts x (queue.inside x listed)
    · intro x listed needing
      rw [needs x (queue.inside x listed)] at needing
      exact all x listed needing
  · intro all x listed
    rw [needs x (queue.inside x listed)]
    exact all x listed

theorem clear_needs (tree : TopicTree T) (s x : Subscriber) :
    (tree.clearIndices s).needsDrainage x = true ↔ x ≠ s ∧ tree.needsDrainage x = true := by
  unfold TopicTree.needsDrainage TopicTree.clearIndices
  dsimp only
  by_cases same : x = s
  · simp [same]
  · simp [same]

theorem clear (queue : Queue tree l) (s : Subscriber) :
    Queue (tree.clearIndices s) l ∧ ∀ first, Draining tree l first → Draining (tree.clearIndices s) l first := by
  refine ⟨⟨queue.linked, queue.inside, ?_, ?_⟩, ?_⟩
  · exact fun x inside needing => queue.needing x inside ((clear_needs tree s x).mp needing).2
  · intro x inside doomed
    obtain ⟨free, nothing⟩ := queue.freed x inside doomed
    refine ⟨free, ?_⟩
    rw [← Bool.not_eq_true, clear_needs, nothing]
    exact fun needing => Bool.false_ne_true needing.2
  · rintro first ⟨out, rest, walk, alive, all⟩
    exact ⟨out, rest, walk, alive, fun x listed needing => all x listed ((clear_needs tree s x).mp needing).2⟩

theorem take (queue : Queue tree l) (member : s ∈ tree.subscribers) (needs : tree.needsDrainage s = true) :
    ∃ l', Relinks tree l ((tree.unlinkDrainableSubscriber s).clearIndices s) l' := by
  obtain ⟨pre, post, rfl⟩ := List.append_of_mem (queue.needing s member needs)
  obtain ⟨notPre, notPost, -⟩ := queue.linked.split_nodup
  have other : ∀ x ∈ pre ++ post, x ≠ s := by
    rintro x listed rfl
    exact (List.mem_append.mp listed).elim notPre notPost
  have before : ∀ x ∈ pre ++ post, x ∈ pre ++ s :: post := by
    intro x listed
    rw [List.mem_append] at listed ⊢
    exact listed.imp_right (List.mem_cons_of_mem s)
  have still : ∀ x, ((tree.unlinkDrainableSubscriber s).clearIndices s).needsDrainage x = true ↔
      x ≠ s ∧ tree.needsDrainage x = true := clear_needs (tree.unlinkDrainableSubscriber s) s
  have linked := queue.linked.unlink
  simp only [← unlink_head queue.linked] at linked
  refine ⟨pre ++ post, ⟨linked, fun x listed => queue.inside x (before x listed), ?_, ?_⟩, ?_, ?_⟩
  · intro x inside needing
    obtain ⟨apart, needing⟩ := (still x).mp needing
    simpa [apart] using queue.needing x inside needing
  · intro x inside doomed
    obtain ⟨free, nothing⟩ := queue.freed x inside doomed
    refine ⟨free, ?_⟩
    rw [← Bool.not_eq_true, still, nothing]
    exact fun needing => Bool.false_ne_true needing.2
  · rintro first ⟨out, rest, walk, alive, all⟩
    obtain ⟨out', rest', walk', unlinked, behind⟩ := walk.unlink queue.linked
    refine ⟨out', rest', walk', ?_, ?_⟩
    · intro x gone
      rcases unlinked x gone with gone | rfl
      · exact alive x gone
      · exact member
    · intro x listed needing
      obtain ⟨apart, needing⟩ := (still x).mp needing
      exact behind x (all x (before x listed) needing) apart
  · intro all x listed
    rw [still]
    exact ⟨other x listed, all x (before x listed)⟩

theorem doom (queue : Queue tree l) (none_ : tree.needsDrainage s = false) :
    Relinks tree l { tree with
      pendingFree := tree.pendingFree ++ [s], pendingDestruction := Function.update tree.pendingDestruction s true, pending := true } l := by
  refine ⟨⟨queue.linked, queue.inside, queue.needing, ?_⟩, fun first loop => loop, fun all => all⟩
  intro x inside doomed
  by_cases same : x = s
  · subst same
    exact ⟨List.mem_append_right _ (List.mem_singleton_self x), none_⟩
  · dsimp only at doomed
    rw [Function.update_of_ne same] at doomed
    obtain ⟨free, nothing⟩ := queue.freed x inside doomed
    exact ⟨List.mem_append_left _ free, nothing⟩

/-- The index of a message is given to a subscriber, which is put before the head with its first one. -/
theorem handOut (queue : Queue tree l) (all : AllNeed tree l) (member : s ∈ tree.subscribers)
    (kept : tree.pendingDestruction s = false) : ∃ l', Queue (tree.handOut s) l' ∧ AllNeed (tree.handOut s) l' := by
  have num : (tree.handOut s).numMessageIndices = Function.update tree.numMessageIndices s (tree.numMessageIndices s + 1) := by
    unfold TopicTree.handOut
    dsimp only
    split <;> rfl
  have own : (tree.handOut s).needsDrainage s = true := by
    unfold TopicTree.needsDrainage
    rw [num, Function.update_self]
    simp
  have others : ∀ x, x ≠ s → (tree.handOut s).needsDrainage x = tree.needsDrainage x := by
    intro x other
    unfold TopicTree.needsDrainage
    rw [num, Function.update_of_ne other]
  have subscribers : (tree.handOut s).subscribers = tree.subscribers := by
    unfold TopicTree.handOut
    dsimp only
    split <;> rfl
  have same := (kept_iff.mp (Machine.handOut_kept tree s)).2
  have freed : ∀ x ∈ (tree.handOut s).subscribers, (tree.handOut s).pendingDestruction x = true →
      x ∈ (tree.handOut s).pendingFree ∧ (tree.handOut s).needsDrainage x = false := by
    intro x inside doomed
    rw [subscribers] at inside
    rw [same.2] at doomed
    have other : x ≠ s := by
      rintro rfl
      rw [kept] at doomed
      cases doomed
    rw [same.1, others x other]
    exact queue.freed x inside doomed
  by_cases fresh : tree.numMessageIndices s = 0
  · have out : s ∉ l := by
      intro listed
      have needs := all s listed
      simp [TopicTree.needsDrainage, fresh] at needs
    have linked := queue.linked.push out
    refine ⟨s :: l, ⟨?_, ?_, ?_, freed⟩, ?_⟩
    · unfold TopicTree.handOut
      dsimp only
      rw [if_pos fresh]
      exact linked
    · rw [subscribers]
      intro x listed
      rcases List.mem_cons.mp listed with rfl | listed
      · exact member
      · exact queue.inside x listed
    · rw [subscribers]
      intro x inside needing
      by_cases other : x = s
      · exact other ▸ List.mem_cons_self
      · rw [others x other] at needing
        exact List.mem_cons_of_mem s (queue.needing x inside needing)
    · intro x listed
      by_cases other : x = s
      · exact other ▸ own
      · rw [others x other]
        exact all x ((List.mem_cons.mp listed).resolve_left other)
  · have listed : s ∈ l := by
      apply queue.needing s member
      unfold TopicTree.needsDrainage
      exact bne_iff_ne.mpr fresh
    refine ⟨l, ⟨?_, ?_, ?_, freed⟩, ?_⟩
    · unfold TopicTree.handOut
      dsimp only
      rw [if_neg fresh]
      exact queue.linked
    · rw [subscribers]
      exact queue.inside
    · rw [subscribers]
      intro x inside needing
      by_cases other : x = s
      · exact other ▸ listed
      · rw [others x other] at needing
        exact queue.needing x inside needing
    · intro x inside
      by_cases other : x = s
      · exact other ▸ own
      · rw [others x other]
        exact all x inside

theorem empty (queue : Queue tree l) (loop : Draining tree l none) :
    Relinks tree l { tree with drainableSubscribers := none, outgoingMessages := [] } [] := by
  obtain ⟨out, rest, walk, -, all⟩ := loop
  have ended : out ++ rest = [] := by
    have leads := walk.leads
    cases whole : out ++ rest with
    | nil => rfl
    | cons a later =>
      rw [whole] at leads
      cases leads.1
  obtain ⟨-, rfl⟩ := List.append_eq_nil_iff.mp ended
  have nothing : ∀ x ∈ tree.subscribers, tree.needsDrainage x = false := by
    intro x inside
    rw [← Bool.not_eq_true]
    intro needing
    have left := all x (queue.needing x inside needing) needing
    cases left
  refine ⟨⟨DoublyLinked.nil, fun x absent => absurd absent List.not_mem_nil, ?_, queue.freed⟩, ?_, ?_⟩
  · intro x inside needing
    exact absurd ((nothing x inside).symm.trans needing) Bool.false_ne_true
  · rintro first ⟨out, rest, walk, alive, -⟩
    refine ⟨out ++ rest, [], walk.drop, ?_, fun x absent => absurd absent List.not_mem_nil⟩
    intro x left
    rcases List.mem_append.mp left with unlinked | left
    · exact alive x unlinked
    · exact queue.inside x (walk.behind.subset left)
  · exact fun _ x absent => absurd absent List.not_mem_nil

theorem delete (queue : Queue (tree.clearIndices s) l) (all : AllNeed (tree.clearIndices s) l) :
    Queue (tree.delete s) l ∧ AllNeed (tree.delete s) l := by
  have left : ∀ x, x ∈ (tree.delete s).subscribers ↔ x ∈ tree.subscribers ∧ x ≠ s := by
    intro x
    simp [TopicTree.delete]
  have needs : ∀ x ∈ l, x ≠ s ∧ tree.needsDrainage x = true := fun x listed => (clear_needs tree s x).mp (all x listed)
  refine ⟨⟨queue.linked, ?_, ?_, ?_⟩, fun x listed => (needs x listed).2⟩
  · exact fun x listed => (left x).mpr ⟨queue.inside x listed, (needs x listed).1⟩
  · intro x inside needing
    obtain ⟨inside, other⟩ := (left x).mp inside
    exact queue.needing x inside ((clear_needs tree s x).mpr ⟨other, needing⟩)
  · intro x inside doomed
    obtain ⟨inside, other⟩ := (left x).mp inside
    obtain ⟨free, nothing⟩ := queue.freed x inside doomed
    refine ⟨free, ?_⟩
    rw [← Bool.not_eq_true, clear_needs] at nothing
    rw [← Bool.not_eq_true]
    exact fun needing => nothing ⟨other, needing⟩

theorem destroy (queue : Queue tree l) (all : AllNeed tree l) (member : s ∈ tree.subscribers) :
    ∃ l', Queue (tree.destroySubscriber s false) l' ∧ AllNeed (tree.destroySubscriber s false) l' := by
  obtain ⟨rest, subscribers, -⟩ := leaveTopics_rest s (tree.topicsOf s) tree
  obtain ⟨queue, -, stays⟩ := queue.congr (links_of_rest rest subscribers)
  have all := stays all
  unfold TopicTree.destroySubscriber
  dsimp only
  split
  · rename_i needing
    obtain ⟨l', taken⟩ := queue.take (subscribers ▸ member) needing.2
    exact ⟨l', delete taken.queue (taken.needs all)⟩
  · rename_i nothing
    refine ⟨l, delete (queue.clear s).1 ?_⟩
    intro x listed
    rw [clear_needs]
    refine ⟨?_, all x listed⟩
    rintro rfl
    exact nothing ⟨Bool.false_ne_true, all x listed⟩

theorem finish (queue : Queue tree l) (all : AllNeed tree l)
    (doomed : ∀ s ∈ tree.pendingFree, s ∈ tree.subscribers ∧ tree.pendingDestruction s = true) :
    Queue tree.freePendingSubscribers l ∧ AllNeed tree.freePendingSubscribers l := by
  obtain ⟨rest, left⟩ := freed_rest tree.pendingFree { tree with pendingFree := [] }
  change tree.freePendingSubscribers.rest = _ at rest
  change ∀ x, x ∈ tree.freePendingSubscribers.subscribers ↔ x ∈ tree.subscribers ∧ x ∉ tree.pendingFree at left
  simp only [TopicTree.rest, Prod.mk.injEq] at rest
  obtain ⟨prev, next, -, num, destruction, head, -⟩ := rest
  have needs : tree.freePendingSubscribers.needsDrainage = tree.needsDrainage := by
    funext s
    unfold TopicTree.needsDrainage
    rw [num]
  unfold AllNeed
  rw [needs]
  refine ⟨⟨?_, ?_, ?_, ?_⟩, all⟩
  · rw [next, prev, head]
    exact queue.linked
  · intro x listed
    rw [left]
    refine ⟨queue.inside x listed, ?_⟩
    intro waits
    obtain ⟨inside, doomed⟩ := doomed x waits
    exact Bool.false_ne_true ((queue.freed x inside doomed).2.symm.trans (all x listed))
  · rw [needs]
    exact fun x inside => queue.needing x ((left x).mp inside).1
  · rw [destruction]
    intro x inside doomed
    obtain ⟨inside, kept⟩ := (left x).mp inside
    exact absurd (queue.freed x inside doomed).1 kept

end Queue

namespace Draining

theorem member (loop : Draining tree l (some s)) (queue : Queue tree l) : s ∈ tree.subscribers := by
  obtain ⟨out, rest, walk, alive, -⟩ := loop
  obtain ⟨out', rest', -, same, -⟩ := walk.advance
  have inside : s ∈ out ++ rest := by
    rw [← same]
    exact List.mem_cons_self
  rcases List.mem_append.mp inside with unlinked | left
  · exact alive s unlinked
  · exact queue.inside s (walk.behind.subset left)

theorem advance (loop : Draining tree l (some s)) (queue : Queue tree l) (done : tree.needsDrainage s = false) :
    Draining tree l (tree.next s) := by
  obtain ⟨out, rest, walk, alive, all⟩ := loop
  obtain ⟨out', rest', walk', same, behind⟩ := walk.advance
  refine ⟨out', rest', walk', ?_, ?_⟩
  · intro x unlinked
    have inside : x ∈ out ++ rest := by
      rw [← same]
      exact List.mem_cons_of_mem s (List.mem_append_left rest' unlinked)
    rcases List.mem_append.mp inside with unlinked | left
    · exact alive x unlinked
    · exact queue.inside x (walk.behind.subset left)
  · intro x listed needing
    apply behind x (all x listed needing)
    rintro rfl
    rw [done] at needing
    cases needing

end Draining

end Uws.PubSub
