import Uws.Crypto.SniMatching

/-! The server names of an app: TLS contexts with a router each, and what a removal may touch. -/

namespace Uws.Crypto

open Uws.Http (Bytes ascii)

/-- Contexts and routers are numbers from `fresh`. `exData` is the user data of a context, `currentRouter` the router
    that routes are registered with, where it is not the app's own, and `deleted` what is deleted or deferred to be. -/
structure SslApp where
  sni : SniNode Nat := .mk none []
  exData : Nat → Option Nat := fun _ => none
  currentRouter : Option Nat := none
  deleted : List Nat := []
  fresh : Nat := 0

namespace SslApp

def findServerNameUserdata (app : SslApp) (hostname : Bytes) : Option Nat := (sniFind app.sni hostname).bind app.exData

def clearServerNameUserdata (app : SslApp) (hostname : Bytes) : SslApp :=
  match sniFind app.sni hostname with
  | none => app
  | some context => { app with exData := Function.update app.exData context none }

/-- `constructed` tells whether a context could be made from the options. -/
def addServerName (app : SslApp) (hostname : Bytes) (constructed : Bool) : SslApp × Bool :=
  let domainRouter := app.fresh
  let app := { app with fresh := app.fresh + 1 }
  if !constructed then ({ app with deleted := app.deleted ++ [domainRouter] }, false)
  else
    let context := domainRouter
    match sniAdd app.sni hostname context with
    | (sni, 0) => ({ app with sni, exData := Function.update app.exData context (some domainRouter) }, true)
    | _ => ({ app with deleted := app.deleted ++ [domainRouter] }, false)

def removeServerName (app : SslApp) (hostname : Bytes) : SslApp :=
  let domainRouter := app.findServerNameUserdata hostname
  let app := if domainRouter.isSome then app.clearServerNameUserdata hostname else app
  let app := { app with sni := (sniRemove app.sni hostname).1 }
  { app with deleted := app.deleted ++ domainRouter.toList }

def domain (app : SslApp) (serverName : Bytes) : SslApp :=
  { app with currentRouter := app.findServerNameUserdata serverName }

def registered (app : SslApp) (hostname : Bytes) : Option Nat := app.sni.held (hostLabels hostname)

end SslApp

inductive ServerNameCall where
  | addServerName (hostname : Bytes) (constructed : Bool)
  | removeServerName (hostname : Bytes)
  | domain (serverName : Bytes)

namespace ServerNameCall

def run (app : SslApp) : ServerNameCall → SslApp
  | .addServerName hostname constructed => (app.addServerName hostname constructed).1
  | .removeServerName hostname => app.removeServerName hostname
  | .domain serverName => app.domain serverName

/-- A removal finds its own context or none, and the current router is not the one of that name. -/
def Guarded (app : SslApp) : ServerNameCall → Prop
  | .removeServerName hostname =>
    (app.registered hostname ≠ none ∨ sniFind app.sni hostname = none) ∧
      (app.currentRouter = none ∨ (app.registered hostname).bind app.exData ≠ app.currentRouter)
  | _ => True

theorem guarded_remove {app : SslApp} {hostname : Bytes} : (removeServerName hostname).Guarded app ↔
    (app.registered hostname ≠ none ∨ sniFind app.sni hostname = none) ∧
      (app.currentRouter = none ∨ (app.registered hostname).bind app.exData ≠ app.currentRouter) :=
  Iff.rfl

instance (app : SslApp) (call : ServerNameCall) : Decidable (call.Guarded app) :=
  match call with
  | .removeServerName hostname =>
    inferInstanceAs (Decidable ((app.registered hostname ≠ none ∨ sniFind app.sni hostname = none) ∧
      (app.currentRouter = none ∨ (app.registered hostname).bind app.exData ≠ app.currentRouter)))
  | .addServerName _ _ => isTrue True.intro
  | .domain _ => isTrue True.intro

end ServerNameCall

def AllGuarded : SslApp → List ServerNameCall → Prop
  | _, [] => True
  | app, call :: calls => call.Guarded app ∧ AllGuarded (call.run app) calls

instance decidableAllGuarded : (app : SslApp) → (calls : List ServerNameCall) → Decidable (AllGuarded app calls)
  | _, [] => isTrue True.intro
  | app, call :: calls =>
    have := decidableAllGuarded (call.run app) calls
    inferInstanceAs (Decidable (call.Guarded app ∧ AllGuarded (call.run app) calls))

namespace SslApp

/-- No router that is deleted, or will be, is in a context or the current one. -/
def Reachable (app : SslApp) : Prop :=
  (∀ context router, app.exData context = some router → router ∉ app.deleted) ∧
    ∀ router, app.currentRouter = some router → router ∉ app.deleted

structure RemovesOnly (app : SslApp) (hostname : Bytes) : Prop where
  others : ∀ other, (∀ context, sniFind app.sni other = some context → app.registered hostname ≠ some context) →
    sniFind (app.removeServerName hostname).sni other = sniFind app.sni other ∧
      (app.removeServerName hostname).findServerNameUserdata other = app.findServerNameUserdata other
  unregistered : app.registered hostname = none → app.removeServerName hostname = app
  reachable : (app.removeServerName hostname).Reachable

/-- What holds as long as every removal was guarded: each registered context has a router of its own. -/
structure Sound (app : SslApp) : Prop where
  holds : Holds app.sni app.sni.held
  contexts : ∀ labels context, app.sni.held labels = some context → ∃ router, app.exData context = some router
  apart : ∀ labels other context, app.sni.held labels = some context → app.sni.held other = some context → labels = other
  routers : ∀ context router, app.exData context = some router → context < app.fresh ∧ router < app.fresh
  own : ∀ context other router, app.exData context = some router → app.exData other = some router → context = other
  current : ∀ router, app.currentRouter = some router → router < app.fresh
  gone : ∀ router ∈ app.deleted, router < app.fresh
  reachable : app.Reachable

namespace Sound

variable {app : SslApp}

theorem init : Sound {} := by
  have empty : ∀ labels, (SniNode.mk none [] : SniNode Nat).held labels = none := SniNode.held_vacant rfl
  have holds : Holds (SniNode.mk none [] : SniNode Nat) (SniNode.mk none [] : SniNode Nat).held :=
    ⟨rfl, SniNode.Kept.empty, fun labels given => absurd (empty labels) given⟩
  refine ⟨holds, ?_, ?_, nofun, nofun, nofun, nofun, nofun, nofun⟩
  · intro labels context there
    rw [empty] at there
    cases there
  · intro labels other context there
    rw [empty] at there
    cases there

theorem registered_found (sound : Sound app) {hostname : Bytes} {context : Nat}
    (there : app.registered hostname = some context) : sniFind app.sni hostname = some context := by
  have chosen := sound.holds.sniFind hostname
  refine chosen.unique ⟨?_, nofun⟩
  rintro _ ⟨⟩
  refine ⟨hostLabels hostname, there, ?_, ?_⟩
  · exact List.forall₂_same.mpr fun label _ => .inl rfl
  · intro other _ matched
    have better : ∀ host other : List Bytes, Matches other host → other = host ∨ Prefers host host other := by
      intro host
      induction host with
      | nil => exact fun other matched => .inl (Matches.nil.mp matched)
      | cons label host ih =>
        intro other matched
        obtain ⟨first, rest, rfl, -, below⟩ := Matches.cons.mp matched
        by_cases same : first = label
        · subst same
          rcases ih rest below with rfl | preferred
          · exact .inl rfl
          · exact .inr (.later preferred)
        · exact .inr (.exact same)
    exact better _ other matched

theorem found_context (sound : Sound app) {hostname : Bytes} {context : Nat}
    (found : sniFind app.sni hostname = some context) :
    ∃ labels, app.sni.held labels = some context ∧ ∃ router, app.exData context = some router := by
  obtain ⟨labels, there, -⟩ := (sound.holds.sniFind hostname).best context found
  exact ⟨labels, there, sound.contexts labels context there⟩

theorem find_others (sound : Sound app) {hostname other : Bytes}
    (differ : ∀ context, sniFind app.sni other = some context → app.registered hostname ≠ some context) :
    sniFind (sniRemove app.sni hostname).1 other = sniFind app.sni other := by
  have before := sound.holds.sniFind other
  have after := (sound.holds.sniRemove hostname).1.sniFind other
  refine after.unique ⟨?_, ?_⟩
  · intro context found
    obtain ⟨pattern, there, matched, best⟩ := before.best context found
    have apart : pattern ≠ hostLabels hostname := by
      rintro rfl
      exact differ context found there
    refine ⟨pattern, ?_, matched, ?_⟩
    · rw [SniCall.apply, Function.update_of_ne apart]
      exact there
    · intro label given match_
      apply best label _ match_
      intro none_
      apply given
      rw [SniCall.apply]
      by_cases own : label = hostLabels hostname
      · rw [own, Function.update_self]
      · rw [Function.update_of_ne own]
        exact none_
  · intro missing pattern matched
    rw [SniCall.apply]
    by_cases own : pattern = hostLabels hostname
    · rw [own, Function.update_self]
    · rw [Function.update_of_ne own]
      exact before.missing missing pattern matched

theorem remove_missing (sound : Sound app) {hostname : Bytes} (absent : app.registered hostname = none)
    (missed : sniFind app.sni hostname = none) : app.removeServerName hostname = app := by
  unfold removeServerName findServerNameUserdata
  rw [missed]
  simp only [Option.bind_none, Option.isSome_none, Bool.false_eq_true, if_false, Option.toList_none, List.append_nil]
  rw [sound.holds.sniRemove_absent absent]

theorem remove_found {hostname : Bytes} {context router : Nat} (found : sniFind app.sni hostname = some context)
    (data : app.exData context = some router) : app.removeServerName hostname =
      { app with
        sni := (sniRemove app.sni hostname).1
        exData := Function.update app.exData context none
        deleted := app.deleted ++ [router] } := by
  unfold removeServerName findServerNameUserdata clearServerNameUserdata
  rw [found, Option.bind_some, data]
  rfl

section Registered

variable {hostname : Bytes} {context router : Nat}

theorem removed_data {other : Nat} {router' : Nat}
    (data : Function.update app.exData context none other = some router') :
    other ≠ context ∧ app.exData other = some router' := by
  by_cases same : other = context
  · rw [same, Function.update_self] at data
    cases data
  · rw [Function.update_of_ne same] at data
    exact ⟨same, data⟩

theorem remove_registered (sound : Sound app) (there : app.registered hostname = some context)
    (data : app.exData context = some router) (free : app.currentRouter ≠ some router) :
    Sound (app.removeServerName hostname) := by
  rw [remove_found (sound.registered_found there) data]
  obtain ⟨holds, -⟩ := sound.holds.sniRemove hostname
  have held := holds.held
  rw [SniCall.apply] at held
  have old : ∀ labels other, (sniRemove app.sni hostname).1.held labels = some other →
      labels ≠ hostLabels hostname ∧ app.sni.held labels = some other := by
    intro labels other given
    rw [held] at given
    by_cases own : labels = hostLabels hostname
    · rw [own, Function.update_self] at given
      cases given
    · rw [Function.update_of_ne own] at given
      exact ⟨own, given⟩
  refine ⟨⟨rfl, holds.kept, ?_⟩, ?_, ?_, ?_, ?_, sound.current, ?_, ?_, ?_⟩
  · intro labels given
    obtain ⟨other, some_⟩ := Option.ne_none_iff_exists'.mp given
    have before := (old labels other some_).2
    exact sound.holds.few labels (by rw [before]; exact Option.some_ne_none _)
  · intro labels other given
    obtain ⟨apart, before⟩ := old labels other given
    obtain ⟨router', data'⟩ := sound.contexts labels other before
    have differs : other ≠ context := by
      rintro rfl
      exact apart (sound.apart labels _ other before there)
    exact ⟨router', (Function.update_of_ne differs ..).trans data'⟩
  · intro labels labels' other first second
    exact sound.apart labels labels' other (old labels other first).2 (old labels' other second).2
  · intro other router' given
    exact sound.routers other router' (removed_data given).2
  · intro other other' router' first second
    exact sound.own other other' router' (removed_data first).2 (removed_data second).2
  · intro router' member
    rcases List.mem_append.mp member with before | last
    · exact sound.gone router' before
    · rw [List.mem_singleton.mp last]
      exact (sound.routers context router data).2
  · intro other router' given member
    obtain ⟨apart, before⟩ := removed_data given
    rcases List.mem_append.mp member with gone | last
    · exact sound.reachable.1 other router' before gone
    · obtain rfl := List.mem_singleton.mp last
      exact apart (sound.own other context router' before data)
  · intro router' given member
    rcases List.mem_append.mp member with gone | last
    · exact sound.reachable.2 router' given gone
    · obtain rfl := List.mem_singleton.mp last
      exact free given

theorem remove_others (sound : Sound app) (there : app.registered hostname = some context)
    (data : app.exData context = some router) {other : Bytes}
    (differ : ∀ found, sniFind app.sni other = some found → app.registered hostname ≠ some found) :
    sniFind (app.removeServerName hostname).sni other = sniFind app.sni other ∧
      (app.removeServerName hostname).findServerNameUserdata other = app.findServerNameUserdata other := by
  have same := sound.find_others differ
  rw [remove_found (sound.registered_found there) data]
  refine ⟨same, ?_⟩
  unfold findServerNameUserdata
  simp only
  rw [same]
  cases found : sniFind app.sni other with
  | none => rfl
  | some context' =>
    have apart : context' ≠ context := by
      rintro rfl
      exact differ context' found there
    simp only [Option.bind_some]
    exact Function.update_of_ne apart ..

end Registered

theorem addServerName (sound : Sound app) (hostname : Bytes) (constructed : Bool) :
    Sound (app.addServerName hostname constructed).1 := by
  have refused : Sound { app with fresh := app.fresh + 1, deleted := app.deleted ++ [app.fresh] } := by
    refine ⟨sound.holds, sound.contexts, sound.apart, ?_, sound.own, ?_, ?_, ?_, ?_⟩
    · intro context router given
      have bounds := sound.routers context router given
      exact ⟨Nat.lt_succ_of_lt bounds.1, Nat.lt_succ_of_lt bounds.2⟩
    · exact fun router given => Nat.lt_succ_of_lt (sound.current router given)
    · intro router member
      rcases List.mem_append.mp member with gone | last
      · exact Nat.lt_succ_of_lt (sound.gone router gone)
      · rw [List.mem_singleton.mp last]
        exact Nat.lt_succ_self _
    · intro context router given member
      rcases List.mem_append.mp member with gone | last
      · exact sound.reachable.1 context router given gone
      · rw [List.mem_singleton.mp last] at given
        exact Nat.lt_irrefl _ (sound.routers context _ given).2
    · intro router given member
      rcases List.mem_append.mp member with gone | last
      · exact sound.reachable.2 router given gone
      · rw [List.mem_singleton.mp last] at given
        exact Nat.lt_irrefl _ (sound.current _ given)
  unfold SslApp.addServerName
  simp only
  split
  · exact refused
  · obtain ⟨holds, code⟩ := sound.holds.sniAdd hostname app.fresh
    have held := holds.held
    rw [SniCall.apply] at held
    split at code
    · rw [code]
      exact refused
    · rename_i free
      rw [if_neg free] at held
      rw [not_or, Option.not_isSome_iff_eq_none] at free
      have few := holds.few
      rw [SniCall.apply, if_neg (by rw [not_or, Option.not_isSome_iff_eq_none]; exact free)] at few
      cases added : sniAdd app.sni hostname app.fresh with
      | mk sni status =>
        rw [added] at code holds held
        obtain rfl : status = 0 := code
        simp only at holds held ⊢
        have fresh : ∀ labels, app.sni.held labels ≠ some app.fresh := by
          intro labels given
          obtain ⟨router, data⟩ := sound.contexts labels _ given
          exact Nat.lt_irrefl _ (sound.routers _ router data).1
        have unused : ∀ context, app.exData context ≠ some app.fresh := fun context given =>
          Nat.lt_irrefl _ (sound.routers context _ given).2
        have data : ∀ context router, Function.update app.exData app.fresh (some app.fresh) context = some router →
            context = app.fresh ∧ router = app.fresh ∨ context ≠ app.fresh ∧ app.exData context = some router := by
          intro context router given
          by_cases own : context = app.fresh
          · rw [own, Function.update_self] at given
            exact .inl ⟨own, (Option.some.inj given).symm⟩
          · rw [Function.update_of_ne own] at given
            exact .inr ⟨own, given⟩
        have names : ∀ labels context, sni.held labels = some context →
            labels = hostLabels hostname ∧ context = app.fresh ∨
              labels ≠ hostLabels hostname ∧ app.sni.held labels = some context := by
          intro labels context given
          rw [held] at given
          by_cases own : labels = hostLabels hostname
          · rw [own, Function.update_self] at given
            exact .inl ⟨own, (Option.some.inj given).symm⟩
          · rw [Function.update_of_ne own] at given
            exact .inr ⟨own, given⟩
        refine ⟨⟨rfl, holds.kept, ?_⟩, ?_, ?_, ?_, ?_, ?_, ?_, ?_, ?_⟩
        · rw [held]
          exact few
        · intro labels context given
          rcases names labels context given with ⟨-, rfl⟩ | ⟨-, before⟩
          · exact ⟨app.fresh, Function.update_self ..⟩
          · obtain ⟨router, old⟩ := sound.contexts labels context before
            have differs : context ≠ app.fresh := by
              rintro rfl
              exact fresh labels before
            exact ⟨router, (Function.update_of_ne differs ..).trans old⟩
        · intro labels labels' context first second
          rcases names labels context first with ⟨own, rfl⟩ | ⟨-, before⟩
          · rcases names labels' _ second with ⟨own', -⟩ | ⟨-, before'⟩
            · rw [own, own']
            · exact absurd before' (fresh labels')
          · rcases names labels' _ second with ⟨-, rfl⟩ | ⟨-, before'⟩
            · exact absurd before (fresh labels)
            · exact sound.apart labels labels' context before before'
        · intro context router given
          rcases data context router given with ⟨rfl, rfl⟩ | ⟨-, old⟩
          · exact ⟨Nat.lt_succ_self _, Nat.lt_succ_self _⟩
          · have bounds := sound.routers context router old
            exact ⟨Nat.lt_succ_of_lt bounds.1, Nat.lt_succ_of_lt bounds.2⟩
        · intro context other router first second
          rcases data context router first with ⟨own, rfl⟩ | ⟨-, old⟩
          · rcases data other _ second with ⟨own', -⟩ | ⟨-, old'⟩
            · rw [own, own']
            · exact absurd old' (unused other)
          · rcases data other router second with ⟨-, rfl⟩ | ⟨-, old'⟩
            · exact absurd old (unused context)
            · exact sound.own context other router old old'
        · exact fun router given => Nat.lt_succ_of_lt (sound.current router given)
        · exact fun router member => Nat.lt_succ_of_lt (sound.gone router member)
        · intro context router given member
          rcases data context router given with ⟨-, rfl⟩ | ⟨-, old⟩
          · exact Nat.lt_irrefl _ (sound.gone _ member)
          · exact sound.reachable.1 context router old member
        · exact sound.reachable.2

theorem domain (sound : Sound app) (serverName : Bytes) : Sound (app.domain serverName) := by
  refine ⟨sound.holds, sound.contexts, sound.apart, sound.routers, sound.own, ?_, sound.gone, sound.reachable.1, ?_⟩
  · intro router given
    obtain ⟨context, -, data⟩ := Option.bind_eq_some_iff.mp given
    exact (sound.routers context router data).2
  · intro router given
    obtain ⟨context, -, data⟩ := Option.bind_eq_some_iff.mp given
    exact sound.reachable.1 context router data

end Sound

theorem Sound.removes_only {app : SslApp} (sound : Sound app) (hostname : Bytes) :
    app.RemovesOnly hostname ↔ (ServerNameCall.removeServerName hostname).Guarded app := by
  cases there : app.registered hostname with
  | none =>
    have guarded : (ServerNameCall.removeServerName hostname).Guarded app ↔ sniFind app.sni hostname = none := by
      rw [ServerNameCall.guarded_remove, there]
      constructor
      · rintro ⟨either, -⟩
        exact either.resolve_left fun given => given rfl
      · intro missed
        refine ⟨.inr missed, ?_⟩
        rw [Option.bind_none]
        cases app.currentRouter with
        | none => exact .inl rfl
        | some router => exact .inr nofun
    rw [guarded]
    constructor
    · intro only
      by_contra found
      -- the context that is found by a wildcard is cleared
      obtain ⟨context, given⟩ := Option.ne_none_iff_exists'.mp found
      obtain ⟨-, -, router, data⟩ := sound.found_context given
      have same := congrArg SslApp.exData (only.unregistered there)
      rw [Sound.remove_found given data] at same
      have cleared := congrFun same context
      simp only [Function.update_self] at cleared
      rw [data] at cleared
      cases cleared
    · intro missed
      have same := sound.remove_missing there missed
      refine ⟨fun other _ => ?_, fun _ => same, ?_⟩
      · rw [same]
        exact ⟨rfl, rfl⟩
      · rw [same]
        exact sound.reachable
  | some context =>
    obtain ⟨router, data⟩ := sound.contexts _ context there
    have guarded : (ServerNameCall.removeServerName hostname).Guarded app ↔ app.currentRouter ≠ some router := by
      rw [ServerNameCall.guarded_remove, there, Option.bind_some, data]
      constructor
      · rintro ⟨-, none_ | other⟩
        · rw [none_]
          nofun
        · exact other.symm
      · intro other
        exact ⟨.inl nofun, .inr other.symm⟩
    rw [guarded]
    constructor
    · intro only current
      have reachable := only.reachable
      rw [Sound.remove_found (sound.registered_found there) data] at reachable
      exact reachable.2 router current (by simp)
    · intro free
      refine ⟨fun other differ => sound.remove_others there data (by rwa [there] at *), ?_, ?_⟩
      · intro absent
        rw [there] at absent
        cases absent
      · exact (sound.remove_registered there data free).reachable

theorem Sound.run {app : SslApp} (sound : Sound app) {call : ServerNameCall} (guarded : call.Guarded app) :
    Sound (call.run app) := by
  cases call with
  | addServerName hostname constructed => exact sound.addServerName hostname constructed
  | removeServerName hostname =>
    cases there : app.registered hostname with
    | none =>
      have missed : sniFind app.sni hostname = none := guarded.1.resolve_left fun given => given there
      have same := sound.remove_missing there missed
      rw [ServerNameCall.run, same]
      exact sound
    | some context =>
      obtain ⟨router, data⟩ := sound.contexts _ context there
      refine sound.remove_registered there data fun current => ?_
      rcases guarded.2 with none_ | other
      · rw [none_] at current
        cases current
      · rw [there, Option.bind_some, data] at other
        exact other current.symm
  | domain serverName => exact sound.domain serverName

theorem Sound.foldl {app : SslApp} (sound : Sound app) (calls : List ServerNameCall) (guarded : AllGuarded app calls) :
    Sound (calls.foldl ServerNameCall.run app) := by
  induction calls generalizing app with
  | nil => exact sound
  | cons call calls ih => exact ih (sound.run guarded.1) guarded.2

end SslApp

/-- After any calls whose removals were guarded, a removal affects only its name exactly if it is guarded, too. -/
theorem removal_affects_only (calls : List ServerNameCall) (guarded : AllGuarded {} calls) (hostname : Bytes) :
    (calls.foldl ServerNameCall.run {}).RemovesOnly hostname ↔
      (ServerNameCall.removeServerName hostname).Guarded (calls.foldl ServerNameCall.run {}) :=
  (SslApp.Sound.init.foldl calls guarded).removes_only hostname

/-- A name beside a wildcard, which is not touched. -/
theorem name_beside_wildcard :
    AllGuarded {} [.addServerName (ascii "*.org") true, .addServerName (ascii "a.org") true] ∧
      ([.addServerName (ascii "*.org") true, .addServerName (ascii "a.org") true].foldl ServerNameCall.run {}).RemovesOnly
        (ascii "a.org") := by
  have guarded : AllGuarded {} [.addServerName (ascii "*.org") true, .addServerName (ascii "a.org") true] := by
    decide +kernel
  exact ⟨guarded, (removal_affects_only _ guarded (ascii "a.org")).mpr (by decide +kernel)⟩

/-- A name that only a wildcard matches, and the name of the current router. -/
theorem removal_reaches_others :
    ¬ ([.addServerName (ascii "*.org") true].foldl ServerNameCall.run {}).RemovesOnly (ascii "a.org") ∧
      ¬ ([.addServerName (ascii "a.org") true, .domain (ascii "a.org")].foldl ServerNameCall.run {}).RemovesOnly
        (ascii "a.org") := by
  constructor
  · intro only
    have same := congrArg SslApp.deleted (only.unregistered (by decide +kernel))
    revert same
    decide +kernel
  · intro only
    have current : (([.addServerName (ascii "a.org") true, .domain (ascii "a.org")].foldl ServerNameCall.run
        {}).removeServerName (ascii "a.org")).currentRouter = some 0 := by decide +kernel
    exact only.reachable.2 0 current (by decide +kernel)

end Uws.Crypto
