import Uws.Http.HttpRouter

namespace Uws.Http

namespace Node

def label (p : Node) : Bytes × Bool := (p.name, p.isHighPriority)

/-- A handler below a node, under the labels on the way to it. -/
abbrev Entry := List (Bytes × Bool) × HandlerId

def Entry.below (label : Bytes × Bool) (e : Entry) : Entry := (label :: e.1, e.2)

mutual

def entries : Node → List Entry
  | .mk _ children handlers _ => handlers.map (fun id => ([], id)) ++ childEntries children

def childEntries : List Node → List Entry
  | [] => []
  | p :: rest => (entries p).map (Entry.below p.label) ++ childEntries rest

end

theorem childEntries_eq (children : List Node) :
    childEntries children = children.flatMap fun p => p.entries.map (Entry.below p.label) := by
  induction children with
  | nil => rfl
  | cons p rest ih => rw [childEntries, ih, List.flatMap_cons]

theorem mem_childEntries {children : List Node} {e : Entry} :
    e ∈ childEntries children ↔ ∃ p ∈ children, ∃ below ∈ p.entries, e = below.below p.label := by
  rw [childEntries_eq, List.mem_flatMap]
  simp only [List.mem_map, eq_comm]

theorem childEntries_perm {left right : List Node} (perm : left.Perm right) :
    (childEntries left).Perm (childEntries right) := by
  rw [childEntries_eq, childEntries_eq]
  exact perm.flatMap_right _

/-- Siblings: of different labels, those of high priority first, and then in their lexical order. -/
def Follows (a b : Bytes × Bool) : Prop :=
  a ≠ b ∧ (b.2 = true → a.2 = true) ∧ (a.2 = b.2 → lexicalOrder b.1 ≤ lexicalOrder a.1)

mutual

/-- Nodes whose children and handlers are sorted. -/
def Proper : Node → Prop
  | .mk _ children handlers _ =>
    handlers.Pairwise (fun a b => b.before a = false) ∧ (children.map label).Pairwise Follows ∧
      (∀ a ∈ children.map label, strippedSegment a.1 = a.1) ∧ AllProper children

def AllProper : List Node → Prop
  | [] => True
  | p :: rest => Proper p ∧ AllProper rest

end

theorem allProper_iff {children : List Node} : AllProper children ↔ ∀ p ∈ children, p.Proper := by
  induction children with
  | nil => simp [AllProper]
  | cons p rest ih => simp [AllProper, ih]

end Node

open Node

def shiftId (handler id : HandlerId) : Option HandlerId :=
  if handler.index < id.index then some { id with index := id.index - 1 } else if id = handler then none else some id

def shiftEntry (handler : HandlerId) (e : Entry) : Option Entry := (shiftId handler e.2).map fun id => (e.1, id)

theorem cullHandlers_eq (handler : HandlerId) (ids : List HandlerId) :
    cullHandlers handler ids = ids.filterMap (shiftId handler) := by
  induction ids with
  | nil => rfl
  | cons id rest ih =>
    by_cases above : handler.index < id.index
    · have shifted : shiftId handler id = some { id with index := id.index - 1 } := if_pos above
      rw [cullHandlers, if_pos above, ih, List.filterMap_cons_some shifted]
    · by_cases same : id = handler
      · have gone : shiftId handler id = none := by rw [shiftId, if_neg above, if_pos same]
        rw [cullHandlers, if_neg above, if_pos same, ih, List.filterMap_cons_none gone]
      · have kept : shiftId handler id = some id := by rw [shiftId, if_neg above, if_neg same]
        rw [cullHandlers, if_neg above, if_neg same, ih, List.filterMap_cons_some kept]

theorem shiftEntry_below (handler : HandlerId) (label : Bytes × Bool) (es : List Entry) :
    (es.map (Entry.below label)).filterMap (shiftEntry handler) =
      (es.filterMap (shiftEntry handler)).map (Entry.below label) := by
  rw [List.filterMap_map, List.map_filterMap]
  congr 1
  funext e
  simp only [Function.comp, shiftEntry, Entry.below, Option.map_map]
  rfl

theorem shiftEntry_own (handler : HandlerId) (ids : List HandlerId) :
    (ids.map fun id => (([], id) : Entry)).filterMap (shiftEntry handler) =
      (ids.filterMap (shiftId handler)).map fun id => ([], id) := by
  rw [List.filterMap_map, List.map_filterMap]
  rfl

mutual

theorem cullNode_entries (handler : HandlerId) (p : Node) :
    p.entries.filterMap (shiftEntry handler) = ((cullNode handler p).map Node.entries).getD [] ∧
      ∀ q, cullNode handler p = some q → q.label = p.label := by
  match p with
  | .mk name children ids high =>
    have below := cullChildren_entries handler children
    unfold cullNode
    rw [entries, List.filterMap_append, shiftEntry_own, ← cullHandlers_eq, ← below]
    by_cases empty : cullHandlers handler ids = [] ∧ (cullChildren handler children).isEmpty = true
    · have none : cullChildren handler children = [] := List.isEmpty_iff.mp empty.2
      simp only [empty.1, none]
      exact ⟨rfl, nofun⟩
    · simp only [if_neg empty]
      refine ⟨rfl, ?_⟩
      rintro q ⟨⟩
      rfl

theorem cullChildren_entries (handler : HandlerId) (children : List Node) :
    childEntries (cullChildren handler children) = (childEntries children).filterMap (shiftEntry handler) := by
  match children with
  | [] => rfl
  | p :: rest =>
    obtain ⟨left, label⟩ := cullNode_entries handler p
    have others := cullChildren_entries handler rest
    rw [cullChildren, childEntries, List.filterMap_append, shiftEntry_below, left, ← others]
    cases culled : cullNode handler p with
    | none => rfl
    | some q =>
      simp only [Option.map_some, Option.getD_some]
      rw [childEntries, label q culled]

end

theorem cullChildren_labels (handler : HandlerId) (children : List Node) :
    ((cullChildren handler children).map label).Sublist (children.map label) := by
  induction children with
  | nil => exact List.Sublist.refl _
  | cons p rest ih =>
    rw [cullChildren]
    cases culled : cullNode handler p with
    | none => exact ih.cons _
    | some q =>
      simp only [List.map_cons]
      rw [(cullNode_entries handler p).2 q culled]
      exact ih.cons_cons _

theorem shiftId_before {handler a b c d : HandlerId} (ordered : b.before a = false) (first : shiftId handler a = some c)
    (second : shiftId handler b = some d) : d.before c = false := by
  have kept : ∀ {x y : HandlerId}, shiftId handler x = some y →
      y.priority = x.priority ∧ y.index = (if handler.index < x.index then x.index - 1 else x.index) := by
    intro x y shifted
    unfold shiftId at shifted
    split at shifted
    · rename_i above
      obtain rfl := Option.some.inj shifted
      exact ⟨rfl, (if_pos above).symm⟩
    · rename_i above
      split at shifted
      · cases shifted
      · obtain rfl := Option.some.inj shifted
        exact ⟨rfl, (if_neg above).symm⟩
  obtain ⟨priority₁, index₁⟩ := kept first
  obtain ⟨priority₂, index₂⟩ := kept second
  unfold HandlerId.before at ordered ⊢
  rw [priority₁, priority₂, index₁, index₂]
  simp only [Bool.or_eq_false_iff, decide_eq_false_iff_not, Bool.and_eq_false_iff, beq_eq_false_iff_ne] at ordered ⊢
  refine ⟨ordered.1, ordered.2.imp id ?_⟩
  intro below
  split <;> split <;> omega

mutual

theorem cullNode_proper (handler : HandlerId) (p : Node) (proper : p.Proper) :
    ∀ q, cullNode handler p = some q → q.Proper := by
  match p with
  | .mk name children ids high =>
    intro q culled
    unfold cullNode at culled
    simp only at culled
    split at culled
    · cases culled
    · obtain rfl := Option.some.inj culled
      rw [Proper] at proper ⊢
      obtain ⟨sorted, siblings, stripped, below⟩ := proper
      have labels := cullChildren_labels handler children
      refine ⟨?_, siblings.sublist labels, fun a member => stripped a (labels.subset member),
        cullChildren_proper handler children below⟩
      rw [cullHandlers_eq, List.pairwise_filterMap]
      exact sorted.imp fun ordered c first d second => shiftId_before ordered first second

theorem cullChildren_proper (handler : HandlerId) (children : List Node) (proper : AllProper children) :
    AllProper (cullChildren handler children) := by
  match children with
  | [] => exact True.intro
  | p :: rest =>
    rw [AllProper] at proper
    have others := cullChildren_proper handler rest proper.2
    rw [cullChildren]
    cases culled : cullNode handler p with
    | none => exact others
    | some q => exact ⟨cullNode_proper handler p proper.1 q culled, others⟩

end

theorem stripped_stripped (segment : Bytes) : strippedSegment (strippedSegment segment) = strippedSegment segment := by
  unfold strippedSegment
  by_cases parameter : segment.head? = some colon
  · rw [if_pos parameter]
    rfl
  · rw [if_neg parameter, if_neg parameter]

/-- The function that is applied to a node adds an entry to it and keeps its label. -/
structure Adds (path : List (Bytes × Bool)) (id : HandlerId) (f : Node → Node) : Prop where
  entries : ∀ p, (f p).entries.Perm ((path, id) :: p.entries)
  label : ∀ p, (f p).label = p.label
  proper : ∀ p : Node, p.Proper → (f p).Proper

section Adding

variable {path : List (Bytes × Bool)} {id : HandlerId} {f : Node → Node}

theorem childEntries_cons_below {label : Bytes × Bool} (p q : Node) (rest : List Node) (same : q.label = p.label)
    (own : p.label = label) (added : q.entries.Perm ((path, id) :: p.entries)) :
    (childEntries (q :: rest)).Perm ((label :: path, id) :: childEntries (p :: rest)) := by
  have mapped := (added.map (Entry.below label)).append_right (childEntries rest)
  rw [childEntries, childEntries, same, own]
  exact mapped

theorem updateChild_adds (adds : Adds path id f) (name : Bytes) (high : Bool) (children updated : List Node)
    (found : updateChild name high f children = some updated) :
    (childEntries updated).Perm (((name, high) :: path, id) :: childEntries children) ∧
      updated.map label = children.map label ∧ (AllProper children → AllProper updated) := by
  induction children generalizing updated with
  | nil => cases found
  | cons p rest ih =>
    rw [updateChild] at found
    by_cases here : p.name = name ∧ p.isHighPriority = high
    · rw [if_pos here] at found
      obtain rfl := Option.some.inj found
      have own : p.label = (name, high) := Prod.ext here.1 here.2
      refine ⟨childEntries_cons_below p (f p) rest (adds.label p) own (adds.entries p), ?_, ?_⟩
      · rw [List.map_cons, List.map_cons, adds.label]
      · exact fun proper => ⟨adds.proper p proper.1, proper.2⟩
    · rw [if_neg here] at found
      obtain ⟨others, later, rfl⟩ := Option.map_eq_some_iff.mp found
      obtain ⟨perm, labels, proper⟩ := ih others later
      refine ⟨?_, by rw [List.map_cons, labels, List.map_cons], fun all => ⟨all.1, proper all.2⟩⟩
      rw [childEntries, childEntries]
      exact (perm.append_left _).trans List.perm_middle

theorem updateChild_none {name : Bytes} {high : Bool} {children : List Node}
    (missing : updateChild name high f children = none) : (name, high) ∉ children.map label := by
  induction children with
  | nil => exact List.not_mem_nil
  | cons p rest ih =>
    rw [updateChild] at missing
    by_cases here : p.name = name ∧ p.isHighPriority = high
    · rw [if_pos here] at missing
      cases missing
    · rw [if_neg here, Option.map_eq_none_iff] at missing
      rw [List.map_cons, List.mem_cons]
      rintro (same | later)
      · exact here ⟨(congrArg Prod.fst same).symm, (congrArg Prod.snd same).symm⟩
      · exact ih missing later

theorem insertSorted_perm (isRoot : Bool) (name : Bytes) (high : Bool) (new : Node) (children : List Node) :
    (insertSorted isRoot name high new children).Perm (new :: children) := by
  induction children with
  | nil => exact List.Perm.refl _
  | cons b rest ih =>
    rw [insertSorted]
    split
    · exact List.Perm.refl _
    · exact (ih.cons b).trans (List.Perm.swap new b rest)

theorem sortsBefore_follows {name : Bytes} {high : Bool} {b : Node} (before : sortsBefore false name high b = true) :
    (b.isHighPriority = true → high = true) ∧
      (high = b.isHighPriority → lexicalOrder b.name < lexicalOrder name) := by
  unfold sortsBefore at before
  by_cases same : high = b.isHighPriority
  · simp only [same, bne_self_eq_false, Bool.false_eq_true, if_false, Bool.and_eq_true, decide_eq_true_eq] at before
    exact ⟨fun own => same.trans own, fun _ => before.2⟩
  · rw [if_pos (by simpa using same)] at before
    exact ⟨fun _ => before, fun own => absurd own same⟩

theorem sortsBefore_not {name : Bytes} {high : Bool} {b : Node} (after : ¬ sortsBefore false name high b = true) :
    (high = true → b.isHighPriority = true) ∧
      (b.isHighPriority = high → lexicalOrder name ≤ lexicalOrder b.name) := by
  unfold sortsBefore at after
  by_cases same : high = b.isHighPriority
  · refine ⟨fun own => same.symm.trans own, fun _ => ?_⟩
    rw [if_neg (by simp [same])] at after
    by_cases empty : b.name = []
    · have most : lexicalOrder name ≤ 2 := by
        unfold lexicalOrder
        split
        · exact Nat.le_refl 2
        · split
          · exact Nat.le_succ 1
          · split
            · exact Nat.zero_le 2
            · exact Nat.le_refl 2
      rw [empty]
      exact most
    · simpa [empty] using after
  · rw [if_pos (by simpa using same)] at after
    exact ⟨fun own => absurd own after, fun own => absurd own.symm same⟩

theorem insertSorted_follows (name : Bytes) (high : Bool) (new : Node) (children : List Node)
    (label_new : new.label = (name, high)) (missing : (name, high) ∉ children.map label)
    (siblings : (children.map label).Pairwise Follows) :
    ((insertSorted false name high new children).map label).Pairwise Follows := by
  induction children with
  | nil => simp [insertSorted]
  | cons b rest ih =>
    rw [List.map_cons, List.mem_cons, not_or] at missing
    rw [List.map_cons, List.pairwise_cons] at siblings
    rw [insertSorted]
    by_cases before : sortsBefore false name high b = true
    · rw [if_pos before, List.map_cons, List.map_cons, List.pairwise_cons, List.pairwise_cons, label_new]
      obtain ⟨high_b, order_b⟩ := sortsBefore_follows before
      refine ⟨?_, siblings⟩
      intro a member
      rcases List.mem_cons.mp member with rfl | member
      · exact ⟨missing.1, high_b, fun same => Nat.le_of_lt (order_b same)⟩
      · obtain ⟨-, high_a, order_a⟩ := siblings.1 a member
        refine ⟨fun same => missing.2 (same ▸ member), fun own => high_b (high_a own), fun same => ?_⟩
        change high = a.2 at same
        by_cases level : high = b.isHighPriority
        · exact Nat.le_of_lt (Nat.lt_of_le_of_lt (order_a (level.symm.trans same)) (order_b level))
        · have top : high = true := by
            unfold sortsBefore at before
            rwa [if_pos (by simpa using level)] at before
          exact absurd (top.trans (high_a (same ▸ top)).symm) level
    · rw [if_neg before, List.map_cons, List.pairwise_cons]
      obtain ⟨high_b, order_b⟩ := sortsBefore_not before
      refine ⟨?_, ih missing.2 siblings.2⟩
      intro a member
      rw [((insertSorted_perm false name high new rest).map label).mem_iff, List.map_cons, List.mem_cons, label_new] at member
      rcases member with rfl | member
      · exact ⟨fun same => missing.1 same.symm, high_b, order_b⟩
      · exact siblings.1 a member

theorem getNode_entries (adds : Adds path id f) (isRoot : Bool) (children : List Node) (name : Bytes) (high : Bool) :
    (childEntries (getNode isRoot children name high f)).Perm (((name, high) :: path, id) :: childEntries children) := by
  unfold getNode
  cases found : updateChild name high f children with
  | some updated => exact (updateChild_adds adds name high children updated found).1
  | none =>
    have added := childEntries_cons_below (.mk name [] [] high) (f (.mk name [] [] high)) children (adds.label _) rfl
      (adds.entries _)
    exact (childEntries_perm (insertSorted_perm isRoot name high _ children)).trans added

theorem getNode_proper (adds : Adds path id f) (isRoot : Bool) (children : List Node) (name : Bytes) (high : Bool)
    (proper : AllProper children) : AllProper (getNode isRoot children name high f) := by
  unfold getNode
  cases found : updateChild name high f children with
  | some updated => exact (updateChild_adds adds name high children updated found).2.2 proper
  | none =>
    rw [allProper_iff] at proper ⊢
    intro p member
    rw [(insertSorted_perm isRoot name high _ children).mem_iff, List.mem_cons] at member
    rcases member with rfl | member
    · exact adds.proper _ ⟨List.Pairwise.nil, List.Pairwise.nil, nofun, True.intro⟩
    · exact proper p member

theorem getNode_siblings (adds : Adds path id f) (children : List Node) (name : Bytes) (high : Bool)
    (siblings : (children.map label).Pairwise Follows) :
    ((getNode false children name high f).map label).Pairwise Follows := by
  unfold getNode
  cases found : updateChild name high f children with
  | some updated => exact (updateChild_adds adds name high children updated found).2.1 ▸ siblings
  | none => exact insertSorted_follows name high _ children (adds.label _) (updateChild_none found) siblings

theorem getNode_labels (adds : Adds path id f) (isRoot : Bool) (children : List Node) (name : Bytes) (high : Bool)
    (a : Bytes × Bool) :
    a ∈ (getNode isRoot children name high f).map label ↔ a = (name, high) ∨ a ∈ children.map label := by
  unfold getNode
  cases found : updateChild name high f children with
  | some updated =>
    obtain ⟨perm, labels, -⟩ := updateChild_adds adds name high children updated found
    simp only [labels]
    refine ⟨.inr, ?_⟩
    rintro (rfl | member)
    · obtain ⟨p, own, below, -, same⟩ := mem_childEntries.mp (perm.mem_iff.mpr List.mem_cons_self)
      have head : (name, high) = p.label := (List.cons.inj (congrArg Prod.fst same)).1
      rw [head, ← labels]
      exact List.mem_map_of_mem own
    · exact member
  | none =>
    simp only
    rw [((insertSorted_perm isRoot name high _ children).map label).mem_iff, List.map_cons, List.mem_cons, adds.label]
    rfl

end Adding

theorem insertHandler_perm (id : HandlerId) (ids : List HandlerId) : (insertHandler id ids).Perm (id :: ids) := by
  induction ids with
  | nil => exact List.Perm.refl _
  | cons b rest ih =>
    rw [insertHandler]
    split
    · exact List.Perm.refl _
    · exact (ih.cons b).trans (List.Perm.swap id b rest)

theorem HandlerId.before_trans {a b c : HandlerId} (first : a.before b = true) (second : c.before b = false) :
    c.before a = false := by
  unfold HandlerId.before at *
  simp only [Bool.or_eq_true, decide_eq_true_eq, Bool.and_eq_true, beq_iff_eq, Bool.or_eq_false_iff,
    decide_eq_false_iff_not, Bool.and_eq_false_iff, beq_eq_false_iff_ne] at *
  rcases first with first | ⟨same, first⟩
  · refine ⟨by omega, ?_⟩
    left
    intro equal
    rw [equal] at second
    exact second.1 first
  · rw [same]
    refine ⟨second.1, second.2.imp id ?_⟩
    omega

theorem HandlerId.before_asymm {a b : HandlerId} (first : a.before b = true) : b.before a = false := by
  unfold HandlerId.before at *
  simp only [Bool.or_eq_true, decide_eq_true_eq, Bool.and_eq_true, beq_iff_eq, Bool.or_eq_false_iff,
    decide_eq_false_iff_not, Bool.and_eq_false_iff, beq_eq_false_iff_ne] at *
  rcases first with first | ⟨same, first⟩
  · refine ⟨by omega, ?_⟩
    left
    intro equal
    rw [equal] at first
    exact Nat.lt_irrefl _ first
  · rw [same]
    exact ⟨Nat.lt_irrefl _, .inr (by omega)⟩

theorem insertHandler_sorted (id : HandlerId) (ids : List HandlerId)
    (sorted : ids.Pairwise fun a b => b.before a = false) :
    (insertHandler id ids).Pairwise fun a b => b.before a = false := by
  induction ids with
  | nil => simp [insertHandler]
  | cons b rest ih =>
    rw [List.pairwise_cons] at sorted
    rw [insertHandler]
    by_cases before : id.before b = true
    · rw [if_pos before, List.pairwise_cons, List.pairwise_cons]
      refine ⟨?_, sorted⟩
      intro c member
      rcases List.mem_cons.mp member with rfl | member
      · exact HandlerId.before_asymm before
      · exact HandlerId.before_trans before (sorted.1 c member)
    · rw [if_neg before, List.pairwise_cons]
      refine ⟨?_, ih sorted.2⟩
      intro c member
      rw [(insertHandler_perm id rest).mem_iff, List.mem_cons] at member
      rcases member with rfl | member
      · exact Bool.eq_false_of_not_eq_true before
      · exact sorted.1 c member

def segmentLabels (high : Bool) (segments : List Bytes) : List (Bytes × Bool) :=
  segments.map fun segment => (strippedSegment segment, high)

theorem addSegments_adds (high : Bool) (id : HandlerId) (segments : List Bytes) :
    Adds (segmentLabels high segments) id (addSegments high id segments) := by
  induction segments with
  | nil =>
    refine ⟨?_, ?_, ?_⟩
    · rintro ⟨name, children, ids, own⟩
      exact ((insertHandler_perm id ids).map _).append_right _
    · rintro ⟨name, children, ids, own⟩
      rfl
    · rintro ⟨name, children, ids, own⟩ ⟨sorted, siblings, stripped, below⟩
      exact ⟨insertHandler_sorted id ids sorted, siblings, stripped, below⟩
  | cons segment segments ih =>
    refine ⟨?_, ?_, ?_⟩
    · rintro ⟨name, children, ids, own⟩
      rw [addSegments, entries, entries]
      exact ((getNode_entries ih false children (strippedSegment segment) high).append_left _).trans List.perm_middle
    · rintro ⟨name, children, ids, own⟩
      rfl
    · rintro ⟨name, children, ids, own⟩ ⟨sorted, siblings, stripped, below⟩
      refine ⟨sorted, getNode_siblings ih children _ high siblings, ?_, getNode_proper ih false children _ high below⟩
      intro a member
      rcases (getNode_labels ih false children _ high a).mp member with rfl | member
      · exact stripped_stripped segment
      · exact stripped a member

end Uws.Http
