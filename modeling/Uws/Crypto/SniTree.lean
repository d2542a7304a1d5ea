import Uws.Http.Headers

/-! The tree of host names, a label a level, by which a TLS context is selected. -/

namespace Uws.Crypto

open Uws.Http (Bytes ascii)

def dot : UInt8 := 46
def asteriskLabel : Bytes := [42]

/-- Only a maximum of 10 labels per hostname is handled. -/
def maxLabels : Nat := 10

/-- A node: what a name ends at, if any does, and a child for each label. -/
inductive SniNode (υ : Type) where
  | mk (user : Option υ) (children : List (Bytes × SniNode υ))

namespace SniNode

variable {υ : Type}

def user : SniNode υ → Option υ | mk user _ => user
def children : SniNode υ → List (Bytes × SniNode υ) | mk _ children => children

def vacant (node : SniNode υ) : Bool := node.children.isEmpty && node.user.isNone

def child (root : SniNode υ) (label : Bytes) : Option (SniNode υ) :=
  (root.children.find? fun c => c.1 == label).map Prod.snd

def put (root : SniNode υ) (label : Bytes) (node : SniNode υ) : SniNode υ :=
  mk root.user (root.children.map fun c => if c.1 = label then (c.1, node) else c)

def emplace (root : SniNode υ) (label : Bytes) (node : SniNode υ) : SniNode υ :=
  mk root.user (root.children ++ [(label, node)])

def erase (root : SniNode υ) (label : Bytes) : SniNode υ :=
  mk root.user (root.children.filter fun c => c.1 != label)

/-- On the way back up empty nodes with no children are culled. -/
def removeUser : List Bytes → SniNode υ → SniNode υ × Option υ
  | [], root => (mk none root.children, root.user)
  | label :: labels, root =>
    match root.child label with
    | none => (root, none)
    | some node =>
      let (node, removedUser) := removeUser labels node
      (if node.vacant then root.erase label else root.put label node, removedUser)

def getUser : List Bytes → SniNode υ → Option υ
  | [], root => root.user
  | label :: labels, root =>
    match (root.child label).bind (getUser labels) with
    | some user => some user
    | none => (root.child asteriskLabel).bind (getUser labels)

/-- The insertion of `sni_add`: the nodes on the way, and 1 where there already is a user at the end. -/
def addUser : List Bytes → υ → SniNode υ → SniNode υ × Nat
  | [], user, root => if root.user.isSome then (root, 1) else (mk (some user) root.children, 0)
  | label :: labels, user, root =>
    match root.child label with
    | none =>
      let (node, code) := addUser labels user (mk none [])
      (root.emplace label node, code)
    | some node =>
      let (node, code) := addUser labels user node
      (root.put label node, code)

end SniNode

/-- The loop over the labels of a name; nothing for more than there may be. Every round takes a byte, so `fuel` need
    not exceed the length. -/
def splitLabels : Nat → Bytes → List Bytes → Option (List Bytes)
  | 0, _, labels => some labels
  | fuel + 1, view, labels =>
    if view.isEmpty then some labels
    else
      let label := view.takeWhile (· ≠ dot)
      if labels.length = maxLabels then none
      else splitLabels fuel (view.drop (min view.length (label.length + 1))) (labels ++ [label])

def labelsOf (hostname : Bytes) : Option (List Bytes) := splitLabels hostname.length hostname []

section Operations

variable {υ : Type}

/-- Returns 1 if this name already exists or has too many labels, otherwise 0. -/
def sniAdd (root : SniNode υ) (hostname : Bytes) (user : υ) : SniNode υ × Nat :=
  match labelsOf hostname with
  | none => (root, 1)
  | some labels => root.addUser labels user

/-- Removes the exact match. Wildcards are treated as the verbatim asterisk char. -/
def sniRemove (root : SniNode υ) (hostname : Bytes) : SniNode υ × Option υ :=
  match labelsOf hostname with
  | none => (root, none)
  | some labels => root.removeUser labels

def sniFind (root : SniNode υ) (hostname : Bytes) : Option υ :=
  match labelsOf hostname with
  | none => none
  | some labels => root.getUser labels

end Operations

/-- The labels of a name, whatever their number; a dot at the end is not followed by one. -/
def hostLabels : Bytes → List Bytes
  | [] => []
  | c :: rest =>
    if c = dot then [] :: hostLabels rest
    else
      match hostLabels rest with
      | [] => [[c]]
      | label :: labels => (c :: label) :: labels

theorem hostLabels_cons {view : Bytes} (more : view ≠ []) :
    hostLabels view = view.takeWhile (· ≠ dot) ::
      hostLabels (view.drop (min view.length ((view.takeWhile (· ≠ dot)).length + 1))) := by
  induction view with
  | nil => exact absurd rfl more
  | cons c rest ih =>
    rw [hostLabels]
    by_cases ends : c = dot
    · rw [if_pos ends, List.takeWhile_cons_of_neg (by simp [ends])]
      simp
    · rw [if_neg ends, List.takeWhile_cons_of_pos (by simp [ends])]
      cases rest with
      | nil => rfl
      | cons d rest =>
        rw [ih (List.cons_ne_nil _ _)]
        generalize (d :: rest).takeWhile (· ≠ dot) = label
        have cut : min (c :: d :: rest).length ((c :: label).length + 1) = min (d :: rest).length (label.length + 1) + 1 := by
          simp only [List.length_cons]
          omega
        rw [cut, List.drop_succ_cons]

theorem splitLabels_eq (fuel : Nat) (view : Bytes) (labels : List Bytes) (enough : view.length ≤ fuel)
    (few : labels.length ≤ maxLabels) :
    splitLabels fuel view labels =
      if labels.length + (hostLabels view).length ≤ maxLabels then some (labels ++ hostLabels view) else none := by
  induction fuel generalizing view labels with
  | zero =>
    obtain rfl := List.length_eq_zero_iff.mp (Nat.le_zero.mp enough)
    simp [splitLabels, hostLabels, few]
  | succ fuel ih =>
    rw [splitLabels]
    split
    · rename_i empty
      rw [List.isEmpty_iff.mp empty]
      simp [hostLabels, few]
    · rename_i more
      have nonempty : view ≠ [] := fun empty => more (List.isEmpty_iff.mpr empty)
      have pos := List.length_pos_iff.mpr nonempty
      rw [hostLabels_cons nonempty]
      simp only [List.length_cons]
      split
      · rename_i full
        rw [if_neg (by omega)]
      · rename_i room
        rw [ih _ _ (by rw [List.length_drop]; omega) (by rw [List.length_append, List.length_singleton]; omega)]
        rw [List.length_append, List.length_singleton, List.append_assoc, Nat.add_assoc, Nat.add_comm 1]
        rfl

theorem labelsOf_eq (hostname : Bytes) :
    labelsOf hostname = if (hostLabels hostname).length ≤ maxLabels then some (hostLabels hostname) else none := by
  rw [labelsOf, splitLabels_eq _ _ _ (Nat.le_refl _) (Nat.zero_le _)]
  simp

namespace SniNode

variable {υ : Type}

theorem child_put (root : SniNode υ) (label other : Bytes) (node : SniNode υ) :
    (root.put label node).child other =
      if other = label then (root.child other).map fun _ => node else root.child other := by
  obtain ⟨user, children⟩ := root
  unfold child put
  simp only [SniNode.children]
  induction children with
  | nil => simp
  | cons c children ih =>
    rw [List.map_cons, List.find?_cons, List.find?_cons]
    by_cases own : c.1 = other
    · by_cases same : other = label
      · simp [own, same]
      · simp [own, same]
    · have first : ((if c.1 = label then (c.1, node) else c).1 == other) = false := by
        split
        · simpa using own
        · simpa using own
      have second : (c.1 == other) = false := by simpa using own
      rw [first, second]
      exact ih

theorem child_emplace {root : SniNode υ} {label : Bytes} (absent : root.child label = none) (other : Bytes)
    (node : SniNode υ) :
    (root.emplace label node).child other = if other = label then some node else root.child other := by
  obtain ⟨user, children⟩ := root
  unfold child at absent ⊢
  unfold emplace
  simp only [SniNode.children] at absent ⊢
  rw [List.find?_append]
  by_cases same : other = label
  · rw [same, Option.map_eq_none_iff.mp absent]
    simp
  · have apart : (label == other) = false := by simpa using fun equal => same equal.symm
    rw [if_neg same, List.find?_singleton, apart]
    simp

theorem child_erase (root : SniNode υ) (label other : Bytes) :
    (root.erase label).child other = if other = label then none else root.child other := by
  obtain ⟨user, children⟩ := root
  unfold child erase
  simp only [SniNode.children]
  rw [List.find?_filter]
  by_cases same : other = label
  · rw [if_pos same, same, Option.map_eq_none_iff, List.find?_eq_none]
    intro c member
    simp
  · rw [if_neg same]
    congr 2
    funext c
    by_cases own : c.1 = other
    · simp [own, same]
    · simp [own]

@[simp] theorem user_put (root : SniNode υ) (label : Bytes) (node : SniNode υ) : (root.put label node).user = root.user := rfl

@[simp] theorem user_emplace (root : SniNode υ) (label : Bytes) (node : SniNode υ) :
    (root.emplace label node).user = root.user := rfl

@[simp] theorem user_erase (root : SniNode υ) (label : Bytes) : (root.erase label).user = root.user := rfl

end SniNode

end Uws.Crypto
