import Mathlib

/-! Lists threaded through cells by `next` and `prev` fields, with a null at either end. -/

namespace Uws.LinkedList

variable {α : Type} {next prev next' prev' : α → Option α} {head : Option α} {pre post l : List α} {a s : α}

/-- The cells of `l` are linked in order by `next` from `head` on, and no cell stands there twice. -/
structure Linked (next : α → Option α) (head : Option α) (l : List α) : Prop where
  head : head = l.head?
  next : ∀ pre a post, l = pre ++ a :: post → next a = post.head?
  nodup : l.Nodup

/-- The cells of `l` are linked in order both ways. -/
structure DoublyLinked (next prev : α → Option α) (head : Option α) (l : List α) : Prop extends
    Linked next head l where
  prev : ∀ pre a post, l = pre ++ a :: post → prev a = pre.getLast?

theorem not_last_of_nodup {c : α} {mid : List α} (nodup : (pre ++ a :: c :: mid).Nodup) :
    (pre ++ a :: c :: mid).getLast? ≠ some a := by
  intro last
  have whole : pre ++ a :: c :: mid = (pre ++ [a]) ++ (c :: mid) := by simp
  have member : a ∈ c :: mid := by
    rw [whole, List.getLast?_append] at last
    cases ending : (c :: mid).getLast? with
    | none => simp at ending
    | some d =>
      rw [ending] at last
      exact List.mem_of_getLast? (ending.trans last)
  simp only [List.nodup_append, List.nodup_cons] at nodup
  exact nodup.2.1.1 member

namespace Linked

theorem nil : Linked next none [] := by
  refine ⟨rfl, ?_, List.nodup_nil⟩
  intro pre a post split
  simp at split

theorem congr (linked : Linked next head l) (same : ∀ a ∈ l, next' a = next a) : Linked next' head l := by
  refine ⟨linked.head, ?_, linked.nodup⟩
  intro pre a post split
  rw [same a (by simp [split])]
  exact linked.next pre a post split

theorem tail (linked : Linked next (some a) l) : ∃ rest, l = a :: rest ∧ Linked next (next a) rest := by
  cases l with
  | nil =>
    have first := linked.head
    simp at first
  | cons b rest =>
    have first := linked.head
    simp only [List.head?_cons, Option.some.injEq] at first
    subst first
    refine ⟨rest, rfl, linked.next [] a rest rfl, ?_, (List.nodup_cons.mp linked.nodup).2⟩
    intro pre c post split
    exact linked.next (a :: pre) c post (by simp [split])

theorem suffix (linked : Linked next head l) (behind : post <:+ l) : Linked next post.head? post := by
  obtain ⟨passed, whole⟩ := behind
  refine ⟨rfl, ?_, ?_⟩
  · intro pre a rest split
    exact linked.next (passed ++ pre) a rest (by rw [← whole, split, List.append_assoc])
  · have nodup := linked.nodup
    rw [← whole] at nodup
    exact (List.nodup_append.mp nodup).2.1

theorem eq_nil (linked : Linked next none l) : l = [] := by
  have first := linked.head
  exact List.head?_eq_none_iff.mp first.symm

theorem unique {l' : List α} (linked : Linked next head l) (other : Linked next head l') : l = l' := by
  induction l generalizing head l' with
  | nil =>
    have first := linked.head
    subst first
    exact (eq_nil other).symm
  | cons a rest ih =>
    have first := linked.head
    simp only [List.head?_cons] at first
    subst first
    obtain ⟨left, same, leftLinked⟩ := tail linked
    obtain ⟨right, rfl, rightLinked⟩ := tail other
    cases same
    rw [ih leftLinked rightLinked]

end Linked

namespace DoublyLinked

theorem nil : DoublyLinked next prev none [] := by
  refine ⟨Linked.nil, ?_⟩
  intro pre a post split
  simp at split

theorem congr (linked : DoublyLinked next prev head l) (nexts : ∀ a ∈ l, next' a = next a)
    (prevs : ∀ a ∈ l, prev' a = prev a) : DoublyLinked next' prev' head l := by
  refine ⟨linked.toLinked.congr nexts, ?_⟩
  intro pre a post split
  rw [prevs a (by simp [split])]
  exact linked.prev pre a post split

theorem split_nodup (linked : DoublyLinked next prev head (pre ++ s :: post)) :
    s ∉ pre ∧ s ∉ post ∧ pre.Disjoint post ∧ pre.Nodup ∧ post.Nodup := by
  have nodup := linked.nodup
  simp only [List.nodup_append, List.nodup_cons, List.mem_cons] at nodup
  obtain ⟨preNodup, ⟨notPost, postNodup⟩, apart⟩ := nodup
  refine ⟨?_, notPost, ?_, preNodup, postNodup⟩
  · intro member
    exact apart s member s (.inl rfl) rfl
  · intro a left right
    exact apart a left a (.inr right) rfl

theorem next_at (linked : DoublyLinked next prev head (pre ++ s :: post)) : next s = post.head? :=
  linked.next pre s post rfl

theorem prev_at (linked : DoublyLinked next prev head (pre ++ s :: post)) : prev s = pre.getLast? :=
  linked.prev pre s post rfl

theorem alone_iff (linked : DoublyLinked next prev head (pre ++ s :: post)) :
    prev s = next s ↔ pre = [] ∧ post = [] := by
  obtain ⟨-, -, apart, -, -⟩ := linked.split_nodup
  rw [linked.next_at, linked.prev_at]
  constructor
  · intro same
    cases last : pre.getLast? with
    | none =>
      rw [last] at same
      exact ⟨List.getLast?_eq_none_iff.mp last, List.head?_eq_none_iff.mp same.symm⟩
    | some b =>
      rw [last] at same
      exact absurd (List.mem_of_head? same.symm) (apart (List.mem_of_getLast? last))
  · rintro ⟨rfl, rfl⟩
    rfl

end DoublyLinked

variable {ι : Type} {back : ι → Prop} {heads : ι → Option α} {lists : ι → List α} {i : ι}

/-- Lists that share their cells, with one head each; those of `back` are linked both ways. -/
structure Family (next prev : α → Option α) (back : ι → Prop) (heads : ι → Option α) (lists : ι → List α) :
    Prop where
  linked : ∀ i, Linked next (heads i) (lists i)
  doubly : ∀ i, back i → DoublyLinked next prev (heads i) (lists i)
  apart : ∀ i j a, a ∈ lists i → a ∈ lists j → i = j

namespace Family

theorem prev_mem (family : Family next prev back heads lists) (both : back i) (split : lists i = pre ++ s :: post)
    (before : prev s = some a) : a ∈ lists i := by
  have doubly := family.doubly i both
  rw [doubly.prev pre s post split] at before
  rw [split]
  exact List.mem_append_left _ (List.mem_of_getLast? before)

theorem next_mem (family : Family next prev back heads lists) (split : lists i = pre ++ s :: post)
    (after : next s = some a) : a ∈ lists i := by
  rw [(family.linked i).next pre s post split] at after
  rw [split]
  exact List.mem_append_right _ (List.mem_cons_of_mem _ (List.mem_of_head? after))

end Family

variable [DecidableEq α]

def relink (f : α → Option α) (at_ value : Option α) : α → Option α :=
  match at_ with
  | some cell => Function.update f cell value
  | none => f

@[simp] theorem relink_none (f : α → Option α) (value : Option α) : relink f none value = f := rfl

@[simp] theorem relink_some (f : α → Option α) (cell : α) (value : Option α) :
    relink f (some cell) value = Function.update f cell value := rfl

theorem relink_same (f : α → Option α) (cell : α) (value : Option α) : relink f (some cell) value cell = value :=
  Function.update_self ..

theorem relink_ne (f : α → Option α) {at_ : Option α} (value : Option α) (ne : at_ ≠ some a) :
    relink f at_ value a = f a := by
  cases at_ with
  | none => rfl
  | some cell => exact Function.update_of_ne (fun same => ne (congrArg some same.symm)) ..

theorem Linked.push (linked : Linked next head l) (new : s ∉ l) : Linked (Function.update next s head) (some s) (s :: l) := by
  refine ⟨rfl, ?_, List.nodup_cons.mpr ⟨new, linked.nodup⟩⟩
  intro pre a post split
  cases pre with
  | nil =>
    simp only [List.nil_append, List.cons.injEq] at split
    obtain ⟨rfl, rfl⟩ := split
    rw [Function.update_self]
    exact linked.head
  | cons b pre =>
    simp only [List.cons_append, List.cons.injEq] at split
    obtain ⟨rfl, split⟩ := split
    have ne : a ≠ s := by
      rintro rfl
      exact new (by simp [split])
    rw [Function.update_of_ne ne]
    exact linked.next pre a post split

namespace DoublyLinked

theorem unlink (linked : DoublyLinked next prev head (pre ++ s :: post)) :
    DoublyLinked (relink next (prev s) (next s)) (relink prev (next s) (prev s))
      (if prev s = none then next s else head) (pre ++ post) := by
  obtain ⟨notPre, notPost, apart, preNodup, postNodup⟩ := linked.split_nodup
  rw [linked.next_at, linked.prev_at]
  refine ⟨⟨?_, ?_, List.Nodup.append preNodup postNodup apart⟩, ?_⟩
  · rw [linked.head]
    cases pre with
    | nil => simp
    | cons b pre => simp
  · intro pre' a post' split
    rcases List.append_eq_append_iff.mp split with ⟨mid, rfl, rfl⟩ | ⟨mid, rfl, cut⟩
    · have old := linked.next (pre ++ s :: mid) a post' (by simp)
      have away : pre.getLast? ≠ some a := by
        intro last
        exact apart (List.mem_of_getLast? last) (by simp)
      rw [relink_ne _ _ away]
      exact old
    · cases mid with
      | nil =>
        simp only [List.nil_append] at cut
        subst cut
        have old := linked.next (pre' ++ s :: []) a post' (by simp)
        have away : pre'.getLast? ≠ some a := by
          intro last
          exact apart (by simpa using List.mem_of_getLast? last) (by simp)
        simp only [List.append_nil]
        rw [relink_ne _ _ away]
        exact old
      | cons b mid =>
        simp only [List.cons_append, List.cons.injEq] at cut
        obtain ⟨rfl, rfl⟩ := cut
        cases mid with
        | nil =>
          simp only [List.getLast?_append, List.getLast?_singleton, Option.some_or]
          rw [relink_same]
          simp
        | cons c mid =>
          have old := linked.next pre' a ((c :: mid) ++ s :: post) (by simp)
          have away : (pre' ++ a :: c :: mid).getLast? ≠ some a := not_last_of_nodup preNodup
          rw [relink_ne _ _ away, old]
          simp
  · intro pre' a post' split
    rcases List.append_eq_append_iff.mp split with ⟨mid, rfl, rfl⟩ | ⟨mid, rfl, cut⟩
    · cases mid with
      | nil =>
        simp only [List.nil_append, List.head?_cons, List.append_nil]
        rw [relink_same]
      | cons b mid =>
        have old := linked.prev (pre ++ s :: b :: mid) a post' (by simp)
        have away : (b :: mid ++ a :: post').head? ≠ some a := by
          intro first
          simp only [List.cons_append, List.head?_cons, Option.some.injEq] at first
          subst first
          simp [List.nodup_append] at postNodup
        rw [relink_ne _ _ away, old]
        simp [List.getLast?_append]
    · cases mid with
      | nil =>
        simp only [List.nil_append] at cut
        subst cut
        simp only [List.append_nil, List.head?_cons]
        rw [relink_same]
      | cons b mid =>
        simp only [List.cons_append, List.cons.injEq] at cut
        obtain ⟨rfl, rfl⟩ := cut
        have old := linked.prev pre' a (mid ++ s :: post) (by simp)
        have away : post.head? ≠ some a := by
          intro first
          exact apart (by simp) (List.mem_of_head? first)
        rw [relink_ne _ _ away]
        exact old

theorem push (linked : DoublyLinked next prev head l) (new : s ∉ l) :
    DoublyLinked (Function.update next s head) (relink (Function.update prev s none) head (some s)) (some s)
      (s :: l) := by
  refine ⟨linked.toLinked.push new, ?_⟩
  have notHead : head ≠ some s := by
    intro first
    rw [linked.head] at first
    exact new (List.mem_of_head? first)
  intro pre a post split
  cases pre with
  | nil =>
    simp only [List.nil_append, List.cons.injEq] at split
    obtain ⟨rfl, rfl⟩ := split
    rw [relink_ne _ _ notHead, Function.update_self]
    rfl
  | cons b pre =>
    simp only [List.cons_append, List.cons.injEq] at split
    obtain ⟨rfl, rfl⟩ := split
    have ne : a ≠ s := by
      rintro rfl
      exact new (by simp)
    cases pre with
    | nil =>
      have first := linked.head
      simp only [List.nil_append, List.head?_cons] at first
      subst first
      rw [relink_same]
      rfl
    | cons c pre =>
      have away : head ≠ some a := by
        rw [linked.head]
        intro first
        simp only [List.cons_append, List.head?_cons, Option.some.injEq] at first
        have nodup := linked.nodup
        subst first
        simp at nodup
      rw [relink_ne _ _ away, Function.update_of_ne ne, linked.prev (c :: pre) a post rfl]
      simp

/-- A cell that was copied to another place takes the place of the one it was copied from. -/
theorem replace {s' : α} (linked : DoublyLinked next prev head (pre ++ s :: post)) (new : s' ∉ pre ++ post) :
    DoublyLinked (relink (Function.update next s' (next s)) (prev s) (some s'))
      (relink (Function.update prev s' (prev s)) (next s) (some s'))
      (if prev s = none then some s' else head) (pre ++ s' :: post) := by
  obtain ⟨-, -, apart, preNodup, postNodup⟩ := linked.split_nodup
  obtain ⟨newPre, newPost⟩ : s' ∉ pre ∧ s' ∉ post := by simpa using new
  rw [linked.next_at, linked.prev_at]
  refine ⟨⟨?_, ?_, ?_⟩, ?_⟩
  · rw [linked.head]
    cases pre with
    | nil => simp
    | cons b pre => simp
  · intro pre' a post' split
    rcases List.append_eq_append_iff.mp split with ⟨mid, rfl, cut⟩ | ⟨mid, rfl, cut⟩
    · cases mid with
      | nil =>
        simp only [List.nil_append, List.cons.injEq] at cut
        obtain ⟨rfl, rfl⟩ := cut
        have away : pre.getLast? ≠ some s' := fun last => newPre (List.mem_of_getLast? last)
        rw [relink_ne _ _ away, Function.update_self]
      | cons b mid =>
        simp only [List.cons_append, List.cons.injEq] at cut
        obtain ⟨rfl, rfl⟩ := cut
        have old := linked.next (pre ++ s :: mid) a post' (by simp)
        have away : pre.getLast? ≠ some a := fun last => apart (List.mem_of_getLast? last) (by simp)
        have ne : a ≠ s' := by
          rintro rfl
          exact newPost (by simp)
        rw [relink_ne _ _ away, Function.update_of_ne ne]
        exact old
    · cases mid with
      | nil =>
        simp only [List.nil_append, List.cons.injEq] at cut
        obtain ⟨rfl, rfl⟩ := cut
        have away : (pre' ++ []).getLast? ≠ some a := fun last => newPre (List.mem_of_getLast? last)
        rw [relink_ne _ _ away, Function.update_self]
      | cons b mid =>
        simp only [List.cons_append, List.cons.injEq] at cut
        obtain ⟨rfl, rfl⟩ := cut
        have ne : a ≠ s' := by
          rintro rfl
          exact newPre (by simp)
        cases mid with
        | nil =>
          rw [List.getLast?_append, List.getLast?_singleton, Option.some_or, relink_same]
          simp
        | cons c mid =>
          have old := linked.next pre' a ((c :: mid) ++ s :: post) (by simp)
          have away : (pre' ++ a :: c :: mid).getLast? ≠ some a := not_last_of_nodup preNodup
          rw [relink_ne _ _ away, Function.update_of_ne ne, old]
          simp
  · refine List.nodup_append.mpr ⟨preNodup, List.nodup_cons.mpr ⟨newPost, postNodup⟩, ?_⟩
    intro a left b right same
    subst same
    rcases List.mem_cons.mp right with rfl | right
    · exact newPre left
    · exact apart left right
  · intro pre' a post' split
    rcases List.append_eq_append_iff.mp split with ⟨mid, rfl, cut⟩ | ⟨mid, rfl, cut⟩
    · cases mid with
      | nil =>
        simp only [List.nil_append, List.cons.injEq] at cut
        obtain ⟨rfl, rfl⟩ := cut
        have away : post.head? ≠ some s' := fun first => newPost (List.mem_of_head? first)
        rw [relink_ne _ _ away, Function.update_self]
        simp
      | cons b mid =>
        simp only [List.cons_append, List.cons.injEq] at cut
        obtain ⟨rfl, rfl⟩ := cut
        have ne : a ≠ s' := by
          rintro rfl
          exact newPost (by simp)
        cases mid with
        | nil =>
          rw [List.nil_append, List.head?_cons, relink_same]
          simp
        | cons c mid =>
          have old := linked.prev (pre ++ s :: c :: mid) a post' (by simp)
          have away : (c :: mid ++ a :: post').head? ≠ some a := by
            intro first
            simp only [List.cons_append, List.head?_cons, Option.some.injEq] at first
            subst first
            simp [List.nodup_append] at postNodup
          rw [relink_ne _ _ away, Function.update_of_ne ne, old]
          simp [List.getLast?_append]
    · cases mid with
      | nil =>
        simp only [List.nil_append, List.cons.injEq] at cut
        obtain ⟨rfl, rfl⟩ := cut
        have away : post'.head? ≠ some a := fun first => newPost (List.mem_of_head? first)
        rw [relink_ne _ _ away, Function.update_self]
        simp
      | cons b mid =>
        simp only [List.cons_append, List.cons.injEq] at cut
        obtain ⟨rfl, rfl⟩ := cut
        have ne : a ≠ s' := by
          rintro rfl
          exact newPre (by simp)
        have old := linked.prev pre' a (mid ++ s :: post) (by simp)
        have away : post.head? ≠ some a := fun first => apart (by simp) (List.mem_of_head? first)
        rw [relink_ne _ _ away, Function.update_of_ne ne]
        exact old

end DoublyLinked

namespace Family

variable [DecidableEq ι]

omit [DecidableEq α] in
theorem change {first : Option α} {changed : List α} (family : Family next prev back heads lists)
    (nexts : ∀ j, j ≠ i → ∀ a ∈ lists j, next' a = next a) (prevs : ∀ j, j ≠ i → ∀ a ∈ lists j, prev' a = prev a)
    (linked : Linked next' first changed) (doubly : back i → DoublyLinked next' prev' first changed)
    (own : ∀ j, j ≠ i → ∀ a ∈ changed, a ∉ lists j) :
    Family next' prev' back (Function.update heads i first) (Function.update lists i changed) := by
  refine ⟨?_, ?_, ?_⟩
  · intro j
    by_cases same : j = i
    · subst same
      simpa using linked
    · simpa [same] using (family.linked j).congr (nexts j same)
  · intro j
    by_cases same : j = i
    · subst same
      simpa using doubly
    · intro both
      simpa [same] using (family.doubly j both).congr (nexts j same) (prevs j same)
  · intro j k a
    by_cases left : j = i <;> by_cases right : k = i
    · exact fun _ _ => left.trans right.symm
    · subst left
      simp only [Function.update_self, Function.update_of_ne right]
      exact fun member other => absurd other (own k right a member)
    · subst right
      simp only [Function.update_self, Function.update_of_ne left]
      exact fun other member => absurd other (own j left a member)
    · simp only [Function.update_of_ne left, Function.update_of_ne right]
      exact family.apart j k a

omit [DecidableEq α] in
theorem clear (family : Family next prev back heads lists) (i : ι) :
    Family next prev back (Function.update heads i none) (Function.update lists i []) := by
  apply family.change (fun _ _ _ _ => rfl) (fun _ _ _ _ => rfl) Linked.nil (fun _ => DoublyLinked.nil)
  intro j _ a member
  simp at member

omit [DecidableEq α] in
theorem mem_push {place : ι} : a ∈ Function.update lists i (s :: lists i) place ↔ a ∈ lists place ∨ place = i ∧ a = s := by
  by_cases same : place = i
  · subst same
    simp [or_comm]
  · simp [same]

omit [DecidableEq α] in
theorem mem_unlink (family : Family next prev back heads lists) (split : lists i = pre ++ s :: post) {place : ι} :
    a ∈ Function.update lists i (pre ++ post) place ↔ a ∈ lists place ∧ a ≠ s := by
  have nodup := (family.linked i).nodup
  rw [split] at nodup
  have apart : s ∉ pre ∧ s ∉ post := by
    simp only [List.nodup_append, List.nodup_cons, List.mem_cons] at nodup
    exact ⟨fun member => nodup.2.2 s member s (.inl rfl) rfl, nodup.2.1.1⟩
  by_cases same : place = i
  · subst same
    rw [Function.update_self, split]
    constructor
    · intro member
      refine ⟨by rcases List.mem_append.mp member with member | member <;> simp [member], ?_⟩
      rintro rfl
      rcases List.mem_append.mp member with member | member
      · exact apart.1 member
      · exact apart.2 member
    · rintro ⟨member, ne⟩
      simpa [ne] using member
  · rw [Function.update_of_ne same]
    constructor
    · intro member
      refine ⟨member, ?_⟩
      rintro rfl
      exact same (family.apart place i a member (by simp [split]))
    · exact And.left

omit [DecidableEq α] in
theorem mem_replace {s' : α} (split : lists i = pre ++ s :: post) {place : ι} :
    a ∈ Function.update lists i (pre ++ s' :: post) place ↔
      a ∈ Function.update lists i (pre ++ post) place ∨ place = i ∧ a = s' := by
  by_cases same : place = i
  · subst same
    simp only [Function.update_self, List.mem_append, List.mem_cons, true_and]
    tauto
  · simp [same]

omit [DecidableEq ι] in
theorem scribble (family : Family next prev back heads lists) (out : ∀ j, s ∉ lists j) (after before : Option α) :
    Family (Function.update next s after) (Function.update prev s before) back heads lists := by
  have ne : ∀ j, ∀ a ∈ lists j, a ≠ s := by
    rintro j a member rfl
    exact out j member
  refine ⟨?_, ?_, family.apart⟩
  · intro j
    exact (family.linked j).congr fun a member => Function.update_of_ne (ne j a member) ..
  · intro j both
    exact (family.doubly j both).congr (fun a member => Function.update_of_ne (ne j a member) ..)
      (fun a member => Function.update_of_ne (ne j a member) ..)

theorem push (family : Family next prev back heads lists) (i : ι) (both : back i) (out : ∀ j, s ∉ lists j) :
    Family (Function.update next s (heads i)) (relink (Function.update prev s none) (heads i) (some s)) back
      (Function.update heads i (some s)) (Function.update lists i (s :: lists i)) := by
  have pushed := (family.doubly i both).push (out i)
  have ne : ∀ j, ∀ a ∈ lists j, a ≠ s := by
    rintro j a member rfl
    exact out j member
  apply family.change _ _ pushed.toLinked (fun _ => pushed)
  · intro j other a member
    rcases List.mem_cons.mp member with rfl | member
    · exact out j
    · exact fun elsewhere => other (family.apart j i a elsewhere member)
  · intro j other a member
    exact Function.update_of_ne (ne j a member) ..
  · intro j other a member
    have away : heads i ≠ some a := by
      intro first
      rw [(family.linked i).head] at first
      exact other (family.apart j i a member (List.mem_of_head? first))
    rw [relink_ne _ _ away, Function.update_of_ne (ne j a member)]

theorem stack (family : Family next prev back heads lists) (i : ι) (forward : ¬ back i)
    (out : ∀ j, s ∉ lists j) (before : Option α) :
    Family (Function.update next s (heads i)) (Function.update prev s before) back
      (Function.update heads i (some s)) (Function.update lists i (s :: lists i)) := by
  have ne : ∀ j, ∀ a ∈ lists j, a ≠ s := by
    rintro j a member rfl
    exact out j member
  apply family.change _ _ ((family.linked i).push (out i)) (fun both => absurd both forward)
  · intro j other a member
    rcases List.mem_cons.mp member with rfl | member
    · exact out j
    · exact fun elsewhere => other (family.apart j i a elsewhere member)
  · intro j other a member
    exact Function.update_of_ne (ne j a member) ..
  · intro j other a member
    exact Function.update_of_ne (ne j a member) ..

variable (family : Family next prev back heads lists) (both : back i) (split : lists i = pre ++ s :: post)
include family both split

omit [DecidableEq ι] in
theorem relink_prev_out (value : Option α) {a : α} (out : a ∉ lists i) : relink next (prev s) value a = next a :=
  relink_ne _ _ fun before => out (family.prev_mem both split before)

omit [DecidableEq ι] both in
theorem relink_next_out (value : Option α) {a : α} (out : a ∉ lists i) : relink prev (next s) value a = prev a :=
  relink_ne _ _ fun after => out (family.next_mem split after)

theorem unlink :
    Family (relink next (prev s) (next s)) (relink prev (next s) (prev s)) back
      (Function.update heads i (if prev s = none then next s else heads i))
      (Function.update lists i (pre ++ post)) := by
  have doubly := family.doubly i both
  rw [split] at doubly
  have unlinked := doubly.unlink
  have out : ∀ j, j ≠ i → ∀ a ∈ lists j, a ∉ lists i := fun j other a member own =>
    other (family.apart j i a member own)
  apply family.change _ _ unlinked.toLinked (fun _ => unlinked)
  · intro j other a member elsewhere
    apply other
    apply family.apart j i a elsewhere
    rw [split]
    rcases List.mem_append.mp member with member | member
    · exact List.mem_append_left _ member
    · exact List.mem_append_right _ (List.mem_cons_of_mem _ member)
  · intro j other a member
    exact family.relink_prev_out both split _ (out j other a member)
  · intro j other a member
    exact family.relink_next_out split _ (out j other a member)

theorem replace {s' : α} (new : s' = s ∨ ∀ j, s' ∉ lists j) :
    Family (relink (Function.update next s' (next s)) (prev s) (some s'))
      (relink (Function.update prev s' (prev s)) (next s) (some s')) back
      (Function.update heads i (if prev s = none then some s' else heads i))
      (Function.update lists i (pre ++ s' :: post)) := by
  have doubly := family.doubly i both
  rw [split] at doubly
  obtain ⟨notPre, notPost, -⟩ := doubly.split_nodup
  have out : ∀ j, j ≠ i → s' ∉ lists j := by
    intro j other member
    rcases new with rfl | fresh
    · exact other (family.apart j i s' member (by simp [split]))
    · exact fresh j member
  have newHere : s' ∉ pre ++ post := by
    rcases new with rfl | fresh
    · simpa using ⟨notPre, notPost⟩
    · intro member
      apply fresh i
      rw [split]
      rcases List.mem_append.mp member with member | member
      · exact List.mem_append_left _ member
      · exact List.mem_append_right _ (List.mem_cons_of_mem _ member)
  have replaced := doubly.replace newHere
  have ne : ∀ j, j ≠ i → ∀ a ∈ lists j, a ≠ s' := by
    rintro j other a member rfl
    exact out j other member
  have outside : ∀ j, j ≠ i → ∀ a ∈ lists j, a ∉ lists i := fun j other a member own =>
    other (family.apart j i a member own)
  apply family.change _ _ replaced.toLinked (fun _ => replaced)
  · intro j other a member elsewhere
    rcases List.mem_append.mp member with inside | inside
    · exact outside j other a elsewhere (by simp [split, inside])
    · rcases List.mem_cons.mp inside with rfl | inside
      · exact out j other elsewhere
      · exact outside j other a elsewhere (by simp [split, inside])
  · intro j other a member
    have away : prev s ≠ some a := fun before => outside j other a member (family.prev_mem both split before)
    rw [relink_ne _ _ away, Function.update_of_ne (ne j other a member)]
  · intro j other a member
    have away : next s ≠ some a := fun after => outside j other a member (family.next_mem split after)
    rw [relink_ne _ _ away, Function.update_of_ne (ne j other a member)]

end Family

end Uws.LinkedList
