import Uws.Crypto.SniLookup

/-! Which of the registered names a look-up chooses, over any history of the tree. -/

namespace Uws.Crypto

open Uws.Http (Bytes ascii)

variable {υ : Type}

/-- As many labels, each equal or a wildcard. -/
def Matches (pattern host : List Bytes) : Prop := List.Forall₂ (fun a b => a = b ∨ a = asteriskLabel) pattern host

/-- Where two patterns differ first, the first one has the label of the host. -/
inductive Prefers : List Bytes → List Bytes → List Bytes → Prop where
  | exact {host : Bytes} {hosts left right : List Bytes} {other : Bytes} (apart : other ≠ host) :
      Prefers (host :: hosts) (host :: left) (other :: right)
  | later {host : Bytes} {hosts left right : List Bytes} {label : Bytes} (below : Prefers hosts left right) :
      Prefers (host :: hosts) (label :: left) (label :: right)

/-- What is registered under a matching pattern that is preferred to all others, or nothing where none matches. -/
structure Chosen (names : List Bytes → Option υ) (host : List Bytes) (found : Option υ) : Prop where
  best : ∀ user, found = some user → ∃ pattern, names pattern = some user ∧ Matches pattern host ∧
    ∀ other, names other ≠ none → Matches other host → other = pattern ∨ Prefers host pattern other
  missing : found = none → ∀ pattern, Matches pattern host → names pattern = none

theorem Matches.nil {pattern : List Bytes} : Matches pattern [] ↔ pattern = [] := List.forall₂_nil_right_iff

theorem Matches.cons {pattern : List Bytes} {host : Bytes} {hosts : List Bytes} :
    Matches pattern (host :: hosts) ↔
      ∃ label labels, pattern = label :: labels ∧ (label = host ∨ label = asteriskLabel) ∧ Matches labels hosts := by
  constructor
  · intro matched
    obtain ⟨label, labels, first, rest, rfl⟩ := List.forall₂_cons_right_iff.mp matched
    exact ⟨label, labels, rfl, first, rest⟩
  · rintro ⟨label, labels, rfl, first, rest⟩
    exact List.Forall₂.cons first rest

namespace SniNode

theorem getUser_chosen (host : List Bytes) (root : SniNode υ) : Chosen root.held host (root.getUser host) := by
  induction host generalizing root with
  | nil =>
    constructor
    · intro user found
      refine ⟨[], found, List.Forall₂.nil, ?_⟩
      intro other _ matched
      exact .inl (Matches.nil.mp matched)
    · intro missing pattern matched
      rw [Matches.nil.mp matched]
      exact missing
  | cons host hosts ih =>
    have below : ∀ label : Bytes, ((root.child label).bind (getUser hosts) = none) →
        ∀ labels, Matches labels hosts → root.held (label :: labels) = none := by
      intro label missing labels matched
      rw [held_cons]
      cases there : root.child label with
      | none => rfl
      | some node =>
        rw [there] at missing
        exact (ih node).missing missing labels matched
    unfold getUser
    cases first : (root.child host).bind (getUser hosts) with
    | some user =>
      -- the exact label leads to a name, which is preferred to all behind the wildcard
      obtain ⟨node, there, found⟩ := Option.bind_eq_some_iff.mp first
      constructor
      · rintro _ ⟨⟩
        obtain ⟨labels, holds, matched, best⟩ := (ih node).best user found
        refine ⟨host :: labels, ?_, Matches.cons.mpr ⟨host, labels, rfl, .inl rfl, matched⟩, ?_⟩
        · rw [held_cons, there]
          exact holds
        · intro other given match_
          obtain ⟨label, rest, rfl, -, matched'⟩ := Matches.cons.mp match_
          by_cases same : label = host
          · subst same
            rw [held_cons, there, Option.bind_some] at given
            rcases best rest given matched' with rfl | preferred
            · exact .inl rfl
            · exact .inr (.later preferred)
          · exact .inr (.exact same)
      · intro missing
        cases missing
    | none =>
      have exact_ := below host first
      simp only
      constructor
      · intro user second
        obtain ⟨node, there, found⟩ := Option.bind_eq_some_iff.mp second
        obtain ⟨labels, holds, matched, best⟩ := (ih node).best user found
        refine ⟨asteriskLabel :: labels, ?_, Matches.cons.mpr ⟨_, labels, rfl, .inr rfl, matched⟩, ?_⟩
        · rw [held_cons, there]
          exact holds
        · intro other given match_
          obtain ⟨label, rest, rfl, either, matched'⟩ := Matches.cons.mp match_
          rcases either with rfl | rfl
          · exact absurd (exact_ rest matched') given
          · rw [held_cons, there, Option.bind_some] at given
            rcases best rest given matched' with rfl | preferred
            · exact .inl rfl
            · exact .inr (.later preferred)
      · intro missing pattern match_
        obtain ⟨label, rest, rfl, either, matched⟩ := Matches.cons.mp match_
        rcases either with rfl | rfl
        · exact exact_ rest matched
        · exact below _ missing rest matched

end SniNode

theorem Matches.length {pattern host : List Bytes} (matched : Matches pattern host) : pattern.length = host.length :=
  List.Forall₂.length_eq matched

theorem Prefers.asymm {host left right : List Bytes} (first : Prefers host left right) : ¬ Prefers host right left := by
  induction first with
  | exact apart =>
    intro second
    cases second with
    | exact _ => exact apart rfl
    | later _ => exact apart rfl
  | later below ih =>
    intro second
    cases second with
    | exact apart => exact apart rfl
    | later below' => exact ih below'

theorem Chosen.unique {names : List Bytes → Option υ} {host : List Bytes} {a b : Option υ} (first : Chosen names host a)
    (second : Chosen names host b) : a = b := by
  cases a with
  | none =>
    cases b with
    | none => rfl
    | some user =>
      obtain ⟨pattern, there, matched, -⟩ := second.best user rfl
      rw [first.missing rfl pattern matched] at there
      cases there
  | some user =>
    obtain ⟨pattern, there, matched, best⟩ := first.best user rfl
    cases b with
    | none =>
      rw [second.missing rfl pattern matched] at there
      cases there
    | some other =>
      obtain ⟨pattern', there', matched', best'⟩ := second.best other rfl
      rcases best pattern' (by rw [there']; exact Option.some_ne_none _) matched' with rfl | preferred
      · exact there.symm.trans there'
      · rcases best' pattern (by rw [there]; exact Option.some_ne_none _) matched with rfl | preferred'
        · exact there.symm.trans there'
        · exact absurd preferred' preferred.asymm

inductive SniCall (υ : Type) where
  | add (hostname : Bytes) (user : υ)
  | remove (hostname : Bytes)
  | find (hostname : Bytes)

namespace SniCall

def run (root : SniNode υ) : SniCall υ → SniNode υ
  | .add hostname user => (sniAdd root hostname user).1
  | .remove hostname => (sniRemove root hostname).1
  | .find _ => root

def apply (names : List Bytes → Option υ) : SniCall υ → List Bytes → Option υ
  | .add hostname user =>
    if maxLabels < (hostLabels hostname).length ∨ (names (hostLabels hostname)).isSome then names
    else Function.update names (hostLabels hostname) (some user)
  | .remove hostname => Function.update names (hostLabels hostname) none
  | .find _ => names

end SniCall

/-- The tree behind a history, which begins with `sni_new`. -/
def sniRun (calls : List (SniCall υ)) : SniNode υ := calls.foldl SniCall.run (.mk none [])

def sniNames (calls : List (SniCall υ)) : List Bytes → Option υ := calls.foldl SniCall.apply fun _ => none

/-- A tree that holds a map: no node of it is vacant, and no name of it has too many labels. -/
structure Holds (root : SniNode υ) (names : List Bytes → Option υ) : Prop where
  held : root.held = names
  kept : root.Kept
  few : ∀ labels, names labels ≠ none → labels.length ≤ maxLabels

namespace Holds

variable {root : SniNode υ} {names : List Bytes → Option υ}

theorem init : Holds (.mk none [] : SniNode υ) fun _ => none :=
  ⟨funext fun labels => SniNode.held_vacant rfl labels, SniNode.Kept.empty, fun _ given => absurd rfl given⟩

theorem many (holds : Holds root names) {labels : List Bytes} (many : maxLabels < labels.length) : names labels = none := by
  by_contra given
  exact absurd (holds.few labels given) (Nat.not_le.mpr many)

theorem sniAdd (holds : Holds root names) (hostname : Bytes) (user : υ) :
    Holds (sniAdd root hostname user).1 (SniCall.apply names (.add hostname user)) ∧
      if maxLabels < (hostLabels hostname).length ∨ (names (hostLabels hostname)).isSome then
        Crypto.sniAdd root hostname user = (root, 1)
      else (Crypto.sniAdd root hostname user).2 = 0 := by
  unfold Crypto.sniAdd
  rw [labelsOf_eq, SniCall.apply]
  by_cases many : maxLabels < (hostLabels hostname).length
  · rw [if_neg (Nat.not_le.mpr many), if_pos (.inl many), if_pos (.inl many)]
    exact ⟨holds, rfl⟩
  · have within := Nat.not_lt.mp many
    obtain ⟨code, rest⟩ := SniNode.addUser_held (hostLabels hostname) user root
    rw [if_pos within]
    simp only [many, false_or]
    rw [holds.held] at code rest
    split
    · rename_i given
      rw [if_pos given] at code
      have same := holds.kept.addUser_again (hostLabels hostname) user (by rwa [holds.held])
      exact ⟨by rwa [same], Prod.ext same code⟩
    · rename_i free
      rw [if_neg free] at code rest
      refine ⟨⟨rest, (holds.kept.addUser _ _).1, ?_⟩, code⟩
      intro labels given
      by_cases own : labels = hostLabels hostname
      · rwa [own]
      · rw [Function.update_of_ne own] at given
        exact holds.few labels given

theorem sniRemove (holds : Holds root names) (hostname : Bytes) :
    Holds (sniRemove root hostname).1 (SniCall.apply names (.remove hostname)) ∧
      (Crypto.sniRemove root hostname).2 = names (hostLabels hostname) := by
  unfold Crypto.sniRemove
  rw [labelsOf_eq, SniCall.apply]
  by_cases within : (hostLabels hostname).length ≤ maxLabels
  · rw [if_pos within]
    simp only
    obtain ⟨removed, rest⟩ := SniNode.removeUser_held (hostLabels hostname) root
    rw [holds.held] at removed rest
    refine ⟨⟨rest, holds.kept.removeUser _, ?_⟩, removed⟩
    intro labels given
    by_cases own : labels = hostLabels hostname
    · rwa [own]
    · rw [Function.update_of_ne own] at given
      exact holds.few labels given
  · have none_ := holds.many (Nat.lt_of_not_le within)
    rw [if_neg within, none_]
    refine ⟨?_, rfl⟩
    rw [← none_, Function.update_eq_self]
    exact holds

theorem sniRemove_absent (holds : Holds root names) {hostname : Bytes} (absent : names (hostLabels hostname) = none) :
    Crypto.sniRemove root hostname = (root, none) := by
  unfold Crypto.sniRemove
  rw [labelsOf_eq]
  split
  · rename_i labels within
    split at within
    · cases within
    · rfl
  · rename_i labels within
    split at within
    · cases within
      exact holds.kept.removeUser_absent _ (by rwa [holds.held])
    · cases within

theorem sniFind (holds : Holds root names) (hostname : Bytes) :
    Chosen names (hostLabels hostname) (sniFind root hostname) := by
  unfold Crypto.sniFind
  rw [labelsOf_eq]
  by_cases within : (hostLabels hostname).length ≤ maxLabels
  · rw [if_pos within, ← holds.held]
    exact SniNode.getUser_chosen _ root
  · rw [if_neg within]
    refine ⟨nofun, fun _ pattern matched => ?_⟩
    exact holds.many (matched.length ▸ Nat.lt_of_not_le within)

theorem run (holds : Holds root names) (call : SniCall υ) : Holds (call.run root) (call.apply names) := by
  cases call with
  | add hostname user => exact (holds.sniAdd hostname user).1
  | remove hostname => exact (holds.sniRemove hostname).1
  | find hostname => exact holds

theorem foldl (holds : Holds root names) (calls : List (SniCall υ)) :
    Holds (calls.foldl SniCall.run root) (calls.foldl (fun names call => call.apply names) names) := by
  induction calls generalizing root names with
  | nil => exact holds
  | cons call calls ih => exact ih (holds.run call)

end Holds

/-- After any history the tree is a map of lists of labels: a name is taken unless it is there or has too many labels,
    a removal removes it alone, a look-up chooses the preferred match, and every node lies on the path of a name. -/
theorem sni_refines_map (calls : List (SniCall υ)) :
    (sniRun calls).held = sniNames calls ∧
    (∀ hostname user, (sniAdd (sniRun calls) hostname user = (sniRun calls, 1) ↔
      maxLabels < (hostLabels hostname).length ∨ (sniNames calls (hostLabels hostname)).isSome) ∧
      (sniAdd (sniRun calls) hostname user ≠ (sniRun calls, 1) → (sniAdd (sniRun calls) hostname user).2 = 0 ∧
        (sniAdd (sniRun calls) hostname user).1.held =
          Function.update (sniNames calls) (hostLabels hostname) (some user))) ∧
    (∀ hostname, (sniRemove (sniRun calls) hostname).2 = sniNames calls (hostLabels hostname) ∧
      (sniRemove (sniRun calls) hostname).1.held = Function.update (sniNames calls) (hostLabels hostname) none) ∧
    (∀ hostname, Chosen (sniNames calls) (hostLabels hostname) (sniFind (sniRun calls) hostname)) ∧
    ∀ path node, path ≠ [] → SniNode.nodeAt path (sniRun calls) = some node →
      ∃ rest, sniNames calls (path ++ rest) ≠ none := by
  have holds : Holds (sniRun calls) (sniNames calls) := Holds.init.foldl calls
  refine ⟨holds.held, fun hostname user => ?_, fun hostname => ?_, holds.sniFind, ?_⟩
  · obtain ⟨after, code⟩ := holds.sniAdd hostname user
    have grown := after.held
    rw [SniCall.apply] at grown
    split at code
    · rename_i refused
      exact ⟨⟨fun _ => refused, fun _ => code⟩, fun other => absurd code other⟩
    · rename_i free
      rw [if_neg free] at grown
      refine ⟨⟨fun same => ?_, fun refused => absurd refused free⟩, fun _ => ⟨code, grown⟩⟩
      rw [same] at code
      cases code
  · obtain ⟨after, removed⟩ := holds.sniRemove hostname
    exact ⟨removed, after.held⟩
  · intro path node below there
    rw [← holds.held]
    exact holds.kept.on_path below there

/-- A name of two labels beside a wildcard, and a name that ends in a dot. -/
example :
    let root := sniRun [.add (ascii "*.org") 1, .add (ascii "a.org") 2, .add (ascii "a.org.") 3]
    (sniFind root (ascii "a.org"), sniFind root (ascii "b.org"), sniFind root (ascii "org")) =
      (some 2, some 1, none) := by
  decide +kernel

end Uws.Crypto
