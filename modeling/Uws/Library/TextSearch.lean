import Mathlib

/-! The first place of a text in another one. -/

namespace Uws.TextSearch

variable {α : Type*} [DecidableEq α]

/-- What stands in front of the first `needle` and what stands behind it. -/
def splitAtFirst (needle : List α) : List α → Option (List α × List α)
  | [] => if needle = [] then some ([], []) else none
  | c :: text =>
    if needle <+: c :: text then some ([], (c :: text).drop needle.length)
    else (splitAtFirst needle text).map fun (before, after) => (c :: before, after)

variable {needle text before after : List α}

theorem splitAtFirst_here (found : needle <+: text) : splitAtFirst needle text = some ([], text.drop needle.length) := by
  cases text with
  | nil =>
    rw [List.prefix_nil.mp found]
    rfl
  | cons c text => rw [splitAtFirst, if_pos found]

theorem splitAtFirst_skip {c : α} (other : ¬ needle <+: c :: text) :
    splitAtFirst needle (c :: text) = (splitAtFirst needle text).map fun (before, after) => (c :: before, after) := by
  rw [splitAtFirst, if_neg other]

theorem splitAtFirst_eq (split : splitAtFirst needle text = some (before, after)) : text = before ++ needle ++ after := by
  induction text generalizing before with
  | nil =>
    rw [splitAtFirst] at split
    split at split
    · rename_i empty
      cases split
      rw [empty]
      rfl
    · cases split
  | cons c text ih =>
    rw [splitAtFirst] at split
    split at split
    · rename_i found
      cases split
      rw [List.nil_append]
      exact (List.prefix_iff_eq_append.mp found).symm
    · obtain ⟨⟨front, back⟩, found, own⟩ := Option.map_eq_some_iff.mp split
      cases own
      rw [ih found]
      rfl

theorem splitAtFirst_before (some_ : needle ≠ []) (split : splitAtFirst needle text = some (before, after)) :
    ¬ needle <:+: before := by
  induction text generalizing before with
  | nil =>
    rw [splitAtFirst, if_neg some_] at split
    cases split
  | cons c text ih =>
    rw [splitAtFirst] at split
    split at split
    · cases split
      exact fun inside => some_ (List.infix_nil.mp inside)
    · rename_i other
      obtain ⟨⟨front, back⟩, found, own⟩ := Option.map_eq_some_iff.mp split
      cases own
      intro inside
      rcases List.infix_cons_iff.mp inside with here | later
      · apply other
        rw [splitAtFirst_eq found, List.append_assoc, ← List.cons_append]
        exact here.trans (List.prefix_append _ _)
      · exact ih found later

theorem splitAtFirst_first (front back : List α) (none_ : ∀ i < front.length, ¬ needle <+: (front ++ needle ++ back).drop i) :
    splitAtFirst needle (front ++ needle ++ back) = some (front, back) := by
  induction front with
  | nil =>
    rw [List.nil_append, splitAtFirst_here (List.prefix_append needle back), List.drop_left]
  | cons c front ih =>
    have other := none_ 0 (Nat.zero_lt_succ _)
    rw [List.drop_zero] at other
    have later := ih fun i below => none_ (i + 1) (Nat.succ_lt_succ below)
    rw [List.cons_append, List.cons_append] at other ⊢
    rw [splitAtFirst_skip other, later]
    rfl

theorem splitAtFirst_inside {region : List α} (inside : needle <:+: region) (rest : List α) :
    ∃ before after, splitAtFirst needle (region ++ rest) = some (before, after) ∧
      before.length + needle.length ≤ region.length := by
  induction region with
  | nil =>
    have empty := List.infix_nil.mp inside
    subst empty
    exact ⟨[], rest, splitAtFirst_here List.nil_prefix, Nat.le_refl _⟩
  | cons c region ih =>
    by_cases here : needle <+: c :: region ++ rest
    · exact ⟨[], _, splitAtFirst_here here, by rw [List.length_nil, Nat.zero_add]; exact inside.length_le⟩
    · have later : needle <:+: region := by
        rcases List.infix_cons_iff.mp inside with front | later
        · exact absurd (front.trans (List.prefix_append _ _)) here
        · exact later
      obtain ⟨before, after, split, within⟩ := ih later
      refine ⟨c :: before, after, ?_, ?_⟩
      · rw [List.cons_append] at here ⊢
        rw [splitAtFirst_skip here, split]
        rfl
      · rw [List.length_cons, List.length_cons]
        omega

omit [DecidableEq α] in
theorem no_crossing {region rest : List α} {last : α} (apart : last ∉ needle) (none_ : ¬ needle <:+: region ++ [last])
    {i : Nat} (inside : i < (region ++ [last]).length) : ¬ needle <+: (region ++ [last] ++ rest).drop i := by
  intro found
  rw [List.drop_append_of_le_length (Nat.le_of_lt inside)] at found
  by_cases short : needle.length ≤ ((region ++ [last]).drop i).length
  · have within := List.prefix_of_prefix_length_le found (List.prefix_append _ _) short
    exact none_ (within.isInfix.trans (List.drop_suffix i _).isInfix)
  · have all := List.prefix_of_prefix_length_le (List.prefix_append ((region ++ [last]).drop i) rest) found (by omega)
    apply apart
    apply all.subset
    rw [List.length_append, List.length_singleton] at inside
    rw [List.drop_append_of_le_length (by omega)]
    exact List.mem_append_right _ (List.mem_singleton_self last)

end Uws.TextSearch
