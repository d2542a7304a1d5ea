import Uws.Crypto.SniTree

/-! The tree holds what is registered under each list of labels, and a look-up finds the most exact match. -/

namespace Uws.Crypto

open Uws.Http (Bytes ascii)

variable {υ : Type}

namespace SniNode

def nodeAt : List Bytes → SniNode υ → Option (SniNode υ)
  | [], root => some root
  | label :: labels, root => (root.child label).bind (nodeAt labels)

def held (root : SniNode υ) (labels : List Bytes) : Option υ := (nodeAt labels root).bind user

theorem held_nil (root : SniNode υ) : root.held [] = root.user := rfl

theorem held_cons (root : SniNode υ) (label : Bytes) (labels : List Bytes) :
    root.held (label :: labels) = (root.child label).bind fun node => node.held labels := by
  unfold held
  rw [nodeAt, Option.bind_assoc]

theorem held_put (root : SniNode υ) (label : Bytes) (node : SniNode υ) {old : SniNode υ} (there : root.child label = some old)
    (other : Bytes) (labels : List Bytes) :
    (root.put label node).held (other :: labels) =
      if other = label then node.held labels else root.held (other :: labels) := by
  rw [held_cons, held_cons, child_put]
  by_cases same : other = label
  · rw [if_pos same, if_pos same, same, there]
    rfl
  · rw [if_neg same, if_neg same]

theorem held_vacant {node : SniNode υ} (vacant : node.vacant = true) (labels : List Bytes) : node.held labels = none := by
  obtain ⟨user, children⟩ := node
  unfold SniNode.vacant at vacant
  rw [Bool.and_eq_true, Option.isNone_iff_eq_none, List.isEmpty_iff] at vacant
  obtain ⟨empty, none_⟩ := vacant
  cases labels with
  | nil => exact none_
  | cons label labels =>
    rw [held_cons]
    unfold child
    rw [empty]
    rfl

theorem removeUser_held (labels : List Bytes) (root : SniNode υ) :
    (root.removeUser labels).2 = root.held labels ∧
      (root.removeUser labels).1.held = Function.update root.held labels none := by
  induction labels generalizing root with
  | nil =>
    refine ⟨rfl, funext fun path => ?_⟩
    cases path with
    | nil => rw [Function.update_self]; rfl
    | cons label path => rw [Function.update_of_ne (List.cons_ne_nil _ _)]; rfl
  | cons label labels ih =>
    unfold removeUser
    rw [held_cons]
    cases there : root.child label with
    | none =>
      refine ⟨rfl, funext fun path => ?_⟩
      by_cases same : path = label :: labels
      · rw [same, Function.update_self, held_cons, there]
        rfl
      · rw [Function.update_of_ne same]
    | some node =>
      obtain ⟨removed, rest⟩ := ih node
      refine ⟨removed, funext fun path => ?_⟩
      simp only
      cases path with
      | nil =>
        rw [Function.update_of_ne (List.cons_ne_nil _ _).symm]
        split <;> rfl
      | cons other path =>
        have below : (if (node.removeUser labels).1.vacant then root.erase label else
            root.put label (node.removeUser labels).1).held (other :: path) =
              if other = label then (node.removeUser labels).1.held path else root.held (other :: path) := by
          split
          · rename_i vacant
            rw [held_cons, held_cons, child_erase, held_vacant vacant]
            by_cases same : other = label
            · rw [if_pos same, if_pos same]
              rfl
            · rw [if_neg same, if_neg same]
          · exact held_put root label _ there other path
        rw [below, rest]
        by_cases same : other = label
        · subst same
          rw [if_pos rfl]
          by_cases whole : path = labels
          · rw [whole, Function.update_self, Function.update_self]
          · rw [Function.update_of_ne whole, Function.update_of_ne (by simpa using whole), held_cons, there]
            rfl
        · rw [if_neg same, Function.update_of_ne (by simp [same])]

theorem addUser_held (labels : List Bytes) (user : υ) (root : SniNode υ) :
    (root.addUser labels user).2 = (if (root.held labels).isSome then 1 else 0) ∧
      (root.addUser labels user).1.held =
        if (root.held labels).isSome then root.held else Function.update root.held labels (some user) := by
  induction labels generalizing root with
  | nil =>
    unfold addUser
    rw [held_nil]
    split
    · exact ⟨rfl, rfl⟩
    · refine ⟨rfl, funext fun path => ?_⟩
      cases path with
      | nil => rw [Function.update_self]; rfl
      | cons label path => rw [Function.update_of_ne (List.cons_ne_nil _ _)]; rfl
  | cons label labels ih =>
    unfold addUser
    rw [held_cons]
    cases there : root.child label with
    | none =>
      obtain ⟨code, rest⟩ := ih (mk none [])
      have fresh : (mk none [] : SniNode υ).held = fun _ => none := funext fun path => held_vacant rfl path
      rw [fresh] at code rest
      simp only [Option.bind_none, Option.isSome_none, Bool.false_eq_true, if_false] at code rest ⊢
      refine ⟨code, funext fun path => ?_⟩
      cases path with
      | nil =>
        rw [Function.update_of_ne (List.cons_ne_nil _ _).symm]
        rfl
      | cons other path =>
        rw [held_cons, child_emplace there]
        by_cases same : other = label
        · subst same
          rw [if_pos rfl, Option.bind_some, rest]
          by_cases whole : path = labels
          · rw [whole, Function.update_self, Function.update_self]
          · rw [Function.update_of_ne whole, Function.update_of_ne (by simpa using whole), held_cons, there]
            rfl
        · rw [if_neg same, Function.update_of_ne (by simp [same]), held_cons]
    | some node =>
      obtain ⟨code, rest⟩ := ih node
      simp only [Option.bind_some]
      refine ⟨code, funext fun path => ?_⟩
      cases path with
      | nil =>
        split
        · rfl
        · rw [Function.update_of_ne (List.cons_ne_nil _ _).symm]
          rfl
      | cons other path =>
        rw [held_put root label _ there, rest]
        by_cases same : other = label
        · subst same
          rw [if_pos rfl]
          split
          · rw [held_cons, there]
            rfl
          · by_cases whole : path = labels
            · rw [whole, Function.update_self, Function.update_self]
            · rw [Function.update_of_ne whole, Function.update_of_ne (by simpa using whole), held_cons, there]
              rfl
        · rw [if_neg same]
          split
          · rfl
          · rw [Function.update_of_ne (by simp [same])]

/-- A tree whose labels are apart and whose children all hold something. -/
inductive Kept : SniNode υ → Prop where
  | mk {user : Option υ} {children : List (Bytes × SniNode υ)} (apart : (children.map Prod.fst).Nodup)
      (kept : ∀ c ∈ children, Kept c.2) (busy : ∀ c ∈ children, c.2.vacant = false) : Kept (mk user children)

namespace Kept

theorem empty : Kept (SniNode.mk none [] : SniNode υ) := ⟨List.Pairwise.nil, nofun, nofun⟩

theorem of_child {root node : SniNode υ} {label : Bytes} (kept : Kept root) (there : root.child label = some node) :
    Kept node ∧ node.vacant = false ∧ (label, node) ∈ root.children := by
  obtain ⟨apart, below, busy⟩ := kept
  obtain ⟨c, found, rfl⟩ := Option.map_eq_some_iff.mp there
  have member := List.mem_of_find?_eq_some found
  have own : c.1 = label := by simpa using List.find?_some found
  exact ⟨below c member, busy c member, own ▸ member⟩

theorem put {root node : SniNode υ} (kept : Kept root) (label : Bytes) (below : Kept node) (busy : node.vacant = false) :
    Kept (root.put label node) := by
  obtain ⟨apart, others, full⟩ := kept
  refine ⟨?_, ?_, ?_⟩
  · rw [List.map_map]
    have same : (Prod.fst ∘ fun c : Bytes × SniNode υ => if c.1 = label then (c.1, node) else c) = Prod.fst := by
      funext c
      simp only [Function.comp]
      split <;> rfl
    rw [same]
    exact apart
  · intro c member
    obtain ⟨d, old, rfl⟩ := List.mem_map.mp member
    split
    · exact below
    · exact others d old
  · intro c member
    obtain ⟨d, old, rfl⟩ := List.mem_map.mp member
    split
    · exact busy
    · exact full d old

theorem erase {root : SniNode υ} (kept : Kept root) (label : Bytes) : Kept (root.erase label) := by
  obtain ⟨apart, others, full⟩ := kept
  refine ⟨apart.sublist (List.filter_sublist.map _), ?_, ?_⟩
  · exact fun c member => others c (List.mem_filter.mp member).1
  · exact fun c member => full c (List.mem_filter.mp member).1

theorem emplace {root node : SniNode υ} (kept : Kept root) {label : Bytes} (absent : root.child label = none)
    (below : Kept node) (busy : node.vacant = false) : Kept (root.emplace label node) := by
  obtain ⟨apart, others, full⟩ := kept
  unfold child at absent
  rw [Option.map_eq_none_iff, List.find?_eq_none] at absent
  refine ⟨?_, ?_, ?_⟩
  · rw [List.map_append, List.nodup_append]
    refine ⟨apart, List.pairwise_singleton _ _, ?_⟩
    rintro key old new single rfl
    obtain ⟨c, member, rfl⟩ := List.mem_map.mp old
    rw [List.map_singleton, List.mem_singleton] at single
    exact absent c member (by simpa using single)
  · intro c member
    rcases List.mem_append.mp member with old | new
    · exact others c old
    · rw [List.mem_singleton.mp new]
      exact below
  · intro c member
    rcases List.mem_append.mp member with old | new
    · exact full c old
    · rw [List.mem_singleton.mp new]
      exact busy

theorem user_only {root : SniNode υ} (kept : Kept root) (user : Option υ) : Kept (SniNode.mk user root.children) := by
  obtain ⟨apart, others, full⟩ := kept
  exact ⟨apart, others, full⟩

theorem removeUser {root : SniNode υ} (kept : Kept root) (labels : List Bytes) : Kept (root.removeUser labels).1 := by
  induction labels generalizing root with
  | nil => exact kept.user_only none
  | cons label labels ih =>
    unfold SniNode.removeUser
    cases there : root.child label with
    | none => exact kept
    | some node =>
      obtain ⟨below, -⟩ := kept.of_child there
      simp only
      split
      · exact kept.erase label
      · rename_i busy
        exact kept.put label (ih below) (Bool.eq_false_of_not_eq_true busy)

theorem addUser {root : SniNode υ} (kept : Kept root) (labels : List Bytes) (user : υ) :
    Kept (root.addUser labels user).1 ∧ (root.addUser labels user).1.vacant = false := by
  induction labels generalizing root with
  | nil =>
    unfold SniNode.addUser vacant
    split
    · rename_i given
      refine ⟨kept, ?_⟩
      rw [Bool.and_eq_false_imp]
      intro _
      rw [Option.isNone_eq_false_iff]
      exact given
    · exact ⟨kept.user_only _, by simp [SniNode.user]⟩
  | cons label labels ih =>
    unfold SniNode.addUser
    cases there : root.child label with
    | none =>
      obtain ⟨below, busy⟩ := ih empty
      refine ⟨kept.emplace there below busy, ?_⟩
      simp [vacant, SniNode.emplace, SniNode.children]
    | some node =>
      obtain ⟨below, busy, member⟩ := kept.of_child there
      obtain ⟨grown, full⟩ := ih below
      refine ⟨kept.put label grown full, ?_⟩
      have some_ := List.ne_nil_of_mem member
      simp [vacant, SniNode.put, SniNode.children] at some_ ⊢
      exact fun none_ => absurd none_ some_

theorem put_same {root node : SniNode υ} (kept : Kept root) {label : Bytes} (there : root.child label = some node) :
    root.put label node = root := by
  have member := (kept.of_child there).2.2
  cases kept with
  | @mk value children apart =>
    unfold SniNode.put
    simp only [SniNode.children, SniNode.user]
    congr 1
    rw [List.map_congr_left (g := id), List.map_id]
    intro c old
    split
    · rename_i own
      have equal := List.inj_on_of_nodup_map apart old member own
      rw [equal]
      rfl
    · rfl

theorem addUser_again {root : SniNode υ} (kept : Kept root) (labels : List Bytes) (user : υ)
    (again : (root.held labels).isSome = true) : (root.addUser labels user).1 = root := by
  induction labels generalizing root with
  | nil =>
    unfold SniNode.addUser
    rw [if_pos (by rwa [held_nil] at again)]
  | cons label labels ih =>
    rw [held_cons] at again
    unfold SniNode.addUser
    cases there : root.child label with
    | none =>
      rw [there] at again
      cases again
    | some node =>
      rw [there, Option.bind_some] at again
      have same := ih (kept.of_child there).1 again
      simp only [same]
      exact kept.put_same there

theorem removeUser_absent {root : SniNode υ} (kept : Kept root) (labels : List Bytes) (absent : root.held labels = none) :
    root.removeUser labels = (root, none) := by
  induction labels generalizing root with
  | nil =>
    obtain ⟨user, children⟩ := root
    obtain rfl : user = none := absent
    rfl
  | cons label labels ih =>
    rw [held_cons] at absent
    unfold SniNode.removeUser
    cases there : root.child label with
    | none => rfl
    | some node =>
      rw [there, Option.bind_some] at absent
      obtain ⟨below, busy, -⟩ := kept.of_child there
      simp only [ih below absent, busy, Bool.false_eq_true, if_false, kept.put_same there]

theorem busy_held {node : SniNode υ} (kept : Kept node) (busy : node.vacant = false) : ∃ path, node.held path ≠ none := by
  induction kept with
  | @mk user children apart kept full ih =>
    cases user with
    | some value => exact ⟨[], by rw [held_nil]; exact Option.some_ne_none _⟩
    | none =>
      cases children with
      | nil => cases busy
      | cons c children =>
        obtain ⟨path, there⟩ := ih c List.mem_cons_self (full c List.mem_cons_self)
        refine ⟨c.1 :: path, ?_⟩
        rw [held_cons]
        have first : (SniNode.mk none (c :: children) : SniNode υ).child c.1 = some c.2 := by
          simp [child, SniNode.children]
        rw [first]
        exact there

theorem on_path {root node : SniNode υ} (kept : Kept root) {path : List Bytes} (below : path ≠ [])
    (there : nodeAt path root = some node) : ∃ rest, root.held (path ++ rest) ≠ none := by
  induction path generalizing root with
  | nil => exact absurd rfl below
  | cons label path ih =>
    rw [nodeAt] at there
    obtain ⟨next, first, after⟩ := Option.bind_eq_some_iff.mp there
    obtain ⟨kept_next, busy, -⟩ := kept.of_child first
    cases path with
    | nil =>
      obtain ⟨rest, holds⟩ := kept_next.busy_held busy
      refine ⟨rest, ?_⟩
      rw [List.cons_append, held_cons, first]
      exact holds
    | cons other path =>
      obtain ⟨rest, holds⟩ := ih kept_next (List.cons_ne_nil _ _) after
      refine ⟨rest, ?_⟩
      rw [List.cons_append, held_cons, first]
      exact holds

end Kept

end SniNode

end Uws.Crypto
