import Uws.Library.LinkedList

/-! Loops that save the next cell of a linked list, while cells are unlinked under them. -/

namespace Uws.LinkedList

variable {α : Type} {next prev next' : α → Option α} {head first : Option α} {pre post l out rest : List α} {a s : α}

/-- A loop that goes from `first` on by the `next` fields comes to the cells of `l`, in order. -/
def Leads (next : α → Option α) : Option α → List α → Prop
  | first, [] => first = none
  | first, a :: l => first = some a ∧ Leads next (next a) l

theorem Linked.leads (linked : Linked next head l) : Leads next head l := by
  induction l generalizing head with
  | nil => exact linked.head
  | cons a l ih =>
    have first := linked.head
    simp only [List.head?_cons] at first
    subst first
    obtain ⟨rest, same, behind⟩ := linked.tail
    obtain rfl := (List.cons.inj same).2
    exact ⟨rfl, ih behind⟩

namespace Leads

theorem congr (leads : Leads next first l) (same : ∀ a ∈ l, next' a = next a) : Leads next' first l := by
  induction l generalizing first with
  | nil => exact leads
  | cons a l ih =>
    refine ⟨leads.1, ?_⟩
    rw [same a List.mem_cons_self]
    exact ih leads.2 fun b inside => same b (List.mem_cons_of_mem a inside)

theorem remove (leads : Leads next first (pre ++ a :: s :: post)) (past : next' a = next s)
    (same : ∀ b ∈ pre ++ post, next' b = next b) : Leads next' first (pre ++ a :: post) := by
  induction pre generalizing first with
  | nil =>
    refine ⟨leads.1, ?_⟩
    rw [past]
    exact leads.2.2.congr same
  | cons b pre ih =>
    refine ⟨leads.1, ?_⟩
    rw [same b List.mem_cons_self]
    exact ih leads.2 fun c inside => same c (List.mem_cons_of_mem b inside)

end Leads

/-- What a loop over the list `l` still comes to: cells `out` that were unlinked since it saved them, and an end of the list. -/
structure Walk (next : α → Option α) (l : List α) (first : Option α) (out rest : List α) : Prop where
  leads : Leads next first (out ++ rest)
  behind : rest <:+ l
  gone : ∀ a ∈ out, a ∉ l

namespace Walk

theorem start (linked : Linked next head l) : Walk next l head [] l := by
  refine ⟨linked.leads, List.suffix_rfl, ?_⟩
  intro a absent
  cases absent

theorem congr (walk : Walk next l first out rest) (same : ∀ a, a ∈ out ∨ a ∈ l → next' a = next a) :
    Walk next' l first out rest := by
  refine ⟨walk.leads.congr ?_, walk.behind, walk.gone⟩
  intro a inside
  apply same
  rcases List.mem_append.mp inside with unlinked | inside
  · exact .inl unlinked
  · exact .inr (walk.behind.subset inside)

/-- The loop comes to its next cell, which is one of the unlinked ones as long as there are some. -/
theorem advance (walk : Walk next l (some a) out rest) :
    ∃ out' rest', Walk next l (next a) out' rest' ∧ a :: (out' ++ rest') = out ++ rest ∧ ∀ s ∈ rest, s ≠ a → s ∈ rest' := by
  cases out with
  | nil =>
    cases rest with
    | nil => cases walk.leads
    | cons b rest =>
      obtain rfl := Option.some.inj walk.leads.1
      refine ⟨[], rest, ⟨walk.leads.2, (List.suffix_cons a rest).trans walk.behind, walk.gone⟩, rfl, ?_⟩
      intro s inside other
      exact (List.mem_cons.mp inside).resolve_left other
  | cons b out =>
    obtain rfl := Option.some.inj walk.leads.1
    refine ⟨out, rest, ⟨walk.leads.2, walk.behind, ?_⟩, rfl, fun s inside _ => inside⟩
    exact fun c inside => walk.gone c (List.mem_cons_of_mem a inside)

theorem drop (walk : Walk next l first out rest) : Walk next [] first (out ++ rest) [] := by
  refine ⟨?_, List.suffix_rfl, fun _ _ => List.not_mem_nil⟩
  rw [List.append_nil]
  exact walk.leads

/-- A cell is unlinked. The loop comes to it all the same where it has saved it, or where a cell that was unlinked before
    leads to it. -/
theorem unlink [DecidableEq α] (linked : DoublyLinked next prev head (pre ++ s :: post))
    (walk : Walk next (pre ++ s :: post) first out rest) :
    ∃ out' rest', Walk (relink next (prev s) (next s)) (pre ++ post) first out' rest' ∧ (∀ a ∈ out', a ∈ out ∨ a = s) ∧
      ∀ a ∈ rest, a ≠ s → a ∈ rest' := by
  obtain ⟨notPre, notPost, apart, preNodup, postNodup⟩ := linked.split_nodup
  rw [linked.prev_at]
  have gone : ∀ a ∈ out, a ∉ pre ++ post := by
    intro a unlinked inside
    apply walk.gone a unlinked
    rw [List.mem_append] at inside ⊢
    exact inside.imp_right (List.mem_cons_of_mem s)
  -- where the cell that is written comes before the rest of the loop, the loop does not read it
  have unread : ∀ later, later <:+ s :: post → ∀ a ∈ out ++ later, relink next pre.getLast? (next s) a = next a := by
    intro later among a inside
    apply relink_ne
    intro last
    have before := List.mem_of_getLast? last
    rcases List.mem_append.mp inside with unlinked | inside
    · exact walk.gone a unlinked (List.mem_append_left _ before)
    · rcases List.mem_cons.mp (among.subset inside) with rfl | after
      · exact notPre before
      · exact apart before after
  obtain ⟨passed, whole⟩ := walk.behind
  have saved : rest = s :: post → ∃ out' rest', Walk (relink next pre.getLast? (next s)) (pre ++ post) first out' rest' ∧
      (∀ a ∈ out', a ∈ out ∨ a = s) ∧ ∀ a ∈ rest, a ≠ s → a ∈ rest' := by
    rintro rfl
    refine ⟨out ++ [s], post, ⟨?_, List.suffix_append pre post, ?_⟩, ?_, ?_⟩
    · rw [List.append_assoc]
      exact walk.leads.congr (unread _ List.suffix_rfl)
    · intro a inside
      rcases List.mem_append.mp inside with unlinked | own
      · exact gone a unlinked
      · rw [List.mem_singleton.mp own, List.mem_append, not_or]
        exact ⟨notPre, notPost⟩
    · intro a inside
      exact (List.mem_append.mp inside).imp_right List.mem_singleton.mp
    · exact fun a inside other => (List.mem_cons.mp inside).resolve_left other
  rcases List.append_eq_append_iff.mp whole with ⟨mid, rfl, cut⟩ | ⟨mid, rfl, cut⟩
  · rcases List.eq_nil_or_concat mid with rfl | ⟨mid, p, rfl⟩
    · exact saved cut
    · subst cut
      have last : (passed ++ mid.concat p).getLast? = some p := by simp
      have member : p ∈ passed ++ mid.concat p := List.mem_of_getLast? last
      have once : p ∉ mid := by
        have nodup := (List.nodup_append.mp preNodup).2.1
        rw [List.concat_eq_append] at nodup
        exact fun inside => (List.nodup_append.mp nodup).2.2 p inside p (List.mem_singleton_self p) rfl
      have leads : Leads next first ((out ++ mid) ++ p :: s :: post) := by simpa using walk.leads
      rw [last]
      refine ⟨out, mid ++ p :: post, ⟨?_, ?_, gone⟩, fun a inside => .inl inside, ?_⟩
      · rw [← List.append_assoc]
        apply leads.remove (relink_same ..)
        intro a inside
        apply relink_ne
        intro same
        obtain rfl := Option.some.inj same
        rw [List.append_assoc, List.mem_append, List.mem_append] at inside
        rcases inside with unlinked | inside | after
        · exact walk.gone p unlinked (List.mem_append_left _ member)
        · exact once inside
        · exact apart member after
      · exact ⟨passed, by simp⟩
      · intro a inside other
        simpa [other] using inside
  · cases mid with
    | nil => exact saved (by simpa using cut.symm)
    | cons b mid =>
      simp only [List.cons_append, List.cons.injEq] at cut
      obtain ⟨rfl, rfl⟩ := cut
      refine ⟨out, rest, ⟨walk.leads.congr (unread rest ?_), ?_, gone⟩, fun a inside => .inl inside, fun a inside _ => inside⟩
      · exact List.suffix_cons_iff.mpr (.inr (List.suffix_append mid rest))
      · rw [← List.append_assoc]
        exact List.suffix_append _ rest

end Walk

end Uws.LinkedList
