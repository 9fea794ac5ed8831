import Tatara.Lib.Delimited
import Tatara.Lib.Fallible
import Tatara.Reconciler.Arbitration

/-! Who renders a stable name, and who holds it. -/

namespace Tatara.Reconciler

open Tatara.Rust Tatara.Crd Tatara.Fallible
open Tatara.Delimited (append_mark_inj)

section Names

variable [Crates] {app ephemeralId cluster location domain name : String}

/-- A label that is valid has no dot. -/
theorem validateLabel_dotless {segment label : String}
    (valid : validateLabel segment label = .ok ()) : '.' ∉ label.toList := by
  unfold validateLabel at valid
  split at valid
  · cases valid
  · split at valid
    · cases valid
    · split at valid
      · rename_i plain
        intro dot
        -- A dot is not one of the characters that a label may have.
        have refused := List.all_eq_true.mp plain '.' dot
        revert refused
        decide
      · cases valid

/-- The name of an application has no dot. -/
theorem validateApp_dotless (valid : validateApp app = .ok ()) : '.' ∉ app.toList := by
  obtain ⟨_, label, -⟩ := bind_eq_ok_iff.mp valid
  exact validateLabel_dotless label

/-- The name of a cluster has no dot. -/
theorem validateFqdnSuffix_dotless (valid : validateFqdnSuffix cluster location domain = .ok ()) :
    '.' ∉ cluster.toList := by
  obtain ⟨_, label, -⟩ := bind_eq_ok_iff.mp valid
  exact validateLabel_dotless label

/-- A stable name is two labels in front of the location. -/
theorem fmtFqdnStable_eq_ok_iff :
    fmtFqdnStable app cluster location domain = .ok name ↔
      validateApp app = .ok () ∧ validateFqdnSuffix cluster location domain = .ok () ∧
        name = app ++ "." ++ cluster ++ "." ++ location ++ "." ++ domain := by
  simp only [fmtFqdnStable, bind_eq_ok_iff, Except.ok.injEq, eq_comm (a := name)]
  exact ⟨fun ⟨_, first, _, second, same⟩ => ⟨first, second, same⟩,
    fun ⟨first, second, same⟩ => ⟨(), first, (), second, same⟩⟩

/-- The name of an instance is three labels in front of the location. -/
theorem fmtFqdn_eq_ok_iff :
    fmtFqdn app ephemeralId cluster location domain = .ok name ↔
      validateApp app = .ok () ∧ validateLabel "ephemeral_id" ephemeralId = .ok () ∧
        validateFqdnSuffix cluster location domain = .ok () ∧
        name = app ++ "." ++ ephemeralId ++ "." ++ cluster ++ "." ++ location ++ "." ++ domain := by
  simp only [fmtFqdn, bind_eq_ok_iff, Except.ok.injEq, eq_comm (a := name)]
  exact ⟨fun ⟨_, first, _, second, _, third, same⟩ => ⟨first, second, third, same⟩,
    fun ⟨first, second, third, same⟩ => ⟨(), first, (), second, (), third, same⟩⟩

/-- Where there is a name of an instance, there is a stable name. -/
theorem exists_fmtFqdnStable
    (instanced : fmtFqdn app ephemeralId cluster location domain = .ok name) :
    ∃ stable, fmtFqdnStable app cluster location domain = .ok stable := by
  obtain ⟨first, -, suffix, -⟩ := fmtFqdn_eq_ok_iff.mp instanced
  exact ⟨_, fmtFqdnStable_eq_ok_iff.mpr ⟨first, suffix, rfl⟩⟩

/-- A stable name tells the app and the cluster that it is made of. -/
theorem fmtFqdnStable_inj {app' cluster' : String}
    (here : fmtFqdnStable app cluster location domain = .ok name)
    (there : fmtFqdnStable app' cluster' location domain = .ok name) :
    app = app' ∧ cluster = cluster' := by
  obtain ⟨validApp, suffix, rfl⟩ := fmtFqdnStable_eq_ok_iff.mp here
  obtain ⟨validApp', suffix', same⟩ := fmtFqdnStable_eq_ok_iff.mp there
  have texts := congrArg String.toList same
  simp only [String.toList_append, List.append_assoc] at texts
  -- Labels have no dots, so the first dot ends the app and the second one the cluster.
  obtain ⟨apps, rest⟩ :=
    append_mark_inj (validateApp_dotless validApp) (validateApp_dotless validApp') texts
  obtain ⟨clusters, -⟩ := append_mark_inj (validateFqdnSuffix_dotless suffix)
    (validateFqdnSuffix_dotless suffix') rest
  exact ⟨String.ext apps, String.ext clusters⟩

/-- No name of an instance is a stable name. -/
theorem fmtFqdn_ne_fmtFqdnStable {app' cluster' : String}
    (here : fmtFqdn app ephemeralId cluster location domain = .ok name) :
    fmtFqdnStable app' cluster' location domain ≠ .ok name := by
  intro there
  obtain ⟨validApp, label, suffix, rfl⟩ := fmtFqdn_eq_ok_iff.mp here
  obtain ⟨validApp', suffix', same⟩ := fmtFqdnStable_eq_ok_iff.mp there
  have texts := congrArg String.toList same
  simp only [String.toList_append, List.append_assoc] at texts
  -- Behind the app the one goes on with the instance, and the other one with the cluster.
  obtain ⟨-, rest⟩ :=
    append_mark_inj (validateApp_dotless validApp) (validateApp_dotless validApp') texts
  obtain ⟨-, tails⟩ :=
    append_mark_inj (validateLabel_dotless label) (validateFqdnSuffix_dotless suffix') rest
  -- The name of an instance has a label more in front of the same location.
  have lengths := congrArg List.length tails
  simp at lengths
  omega

end Names

/-- A hostname has edges, and all of them have its name. -/
theorem exists_mem_edges {config : Config} {p : Process} {hostname : RoutingHostname}
    {form fqdn name : String} :
    (∃ edge ∈ edges config p hostname form fqdn, edge.fqdn = name) ↔ fqdn = name := by
  unfold edges
  split <;> simp

section Rendering

variable [Crates] {config : Config} {p : Process} {routing : RoutingSpec} {holds : Bool}
  {fallback : String} {hostname : RoutingHostname}

/-- The name of the instance that a hostname stands for. -/
def instanceName (config : Config) (fallback : String) (hostname : RoutingHostname) :
    Except String String :=
  fmtFqdn hostname.app (resolveEphemeralId hostname fallback) (hostname.clusterOr config.cluster)
    config.location config.domain

/-- The stable name that a hostname stands for. -/
def stableName (config : Config) (hostname : RoutingHostname) : Except String String :=
  fmtFqdnStable hostname.app (hostname.clusterOr config.cluster) config.location config.domain

/-- A hostname is rendered where it has a name of an instance. -/
theorem exists_renderHostname (p : Process) (routing : RoutingSpec) (holds : Bool)
    (valid : ∃ fqdn, instanceName config fallback hostname = .ok fqdn) :
    ∃ routes, renderHostname config p routing holds fallback hostname = .ok routes := by
  obtain ⟨fqdn, instanced⟩ := valid
  obtain ⟨stable, stably⟩ := exists_fmtFqdnStable instanced
  have first := mapError_eq_ok_iff (f := ("fmt_fqdn (per-instance): " ++ ·)) |>.mpr instanced
  have second := mapError_eq_ok_iff (f := ("fmt_fqdn_stable: " ++ ·)) |>.mpr stably
  unfold renderHostname
  -- Where the stable name is not asked for, only the name of the instance is rendered.
  by_cases asks : (routing.stableNameClaim && holds) = true
  · refine ⟨edges config p hostname (resolveEphemeralId hostname fallback) fqdn ++
      edges config p hostname "stable" stable, bind_eq_ok_iff.mpr ⟨fqdn, first, ?_⟩⟩
    rw [if_pos asks]
    exact bind_eq_ok_iff.mpr ⟨stable, second, rfl⟩
  · refine ⟨edges config p hostname (resolveEphemeralId hostname fallback) fqdn,
      bind_eq_ok_iff.mpr ⟨fqdn, first, ?_⟩⟩
    rw [if_neg asks]

/-- What a hostname is rendered with: the name of the instance, and the stable name where the
Process holds a claim. -/
theorem exists_mem_renderHostname (name : String) {routes : List RenderedEdge}
    (success : renderHostname config p routing holds fallback hostname = .ok routes) :
    (∃ fqdn, instanceName config fallback hostname = .ok fqdn) ∧
      ((∃ edge ∈ routes, edge.fqdn = name) ↔
        instanceName config fallback hostname = .ok name ∨
          (routing.stableNameClaim && holds) = true ∧ stableName config hostname = .ok name) := by
  unfold renderHostname at success
  obtain ⟨fqdn, instanced, rest⟩ := bind_eq_ok_iff.mp success
  rw [mapError_eq_ok_iff] at instanced
  refine ⟨⟨fqdn, instanced⟩, ?_⟩
  unfold instanceName
  rw [instanced, Except.ok.injEq]
  split at rest
  · -- The routes to both names are put together.
    rename_i asks
    obtain ⟨stable, stably, ended⟩ := bind_eq_ok_iff.mp rest
    rw [mapError_eq_ok_iff] at stably
    obtain rfl := Except.ok.inj ended
    unfold stableName
    rw [stably, Except.ok.injEq]
    simp only [List.mem_append, or_and_right, exists_or, exists_mem_edges, asks, true_and]
  · rename_i asks
    obtain rfl := Except.ok.inj rest
    simp only [exists_mem_edges, asks, Bool.false_eq_true, false_and, or_false]

/-- The names of all the instances that a Process stands for are well formed. -/
def WellNamed (config : Config) (p : Process) (routing : RoutingSpec) : Prop :=
  ∃ fallback, Crates.ephemeralIdFromSpec p.spec = .ok fallback ∧
    ∀ hostname ∈ routing.hostnames, ∃ fqdn, instanceName config fallback hostname = .ok fqdn

/-- What is rendered to route to a Process, where this is the registry. -/
def rendered (config : Config) (claims : Claims) (p : Process) :
    Except String (List RenderedEdge) :=
  match p.spec.routing with
  | none => .ok []
  | some routing => renderRouting config p routing (holdsAnyClaim claims p)

/-- The rendered routing of a Process has a name in it. -/
def Renders (config : Config) (claims : Claims) (p : Process) (name : String) : Prop :=
  ∃ routes, rendered config claims p = .ok routes ∧ ∃ edge ∈ routes, edge.fqdn = name

/-- The registry names the Process as the holder of a key. -/
def Holds (claims : Claims) (key : String) (p : Process) : Prop :=
  ∃ entry, claims[key]? = some entry ∧ entry.holder = p.qualifiedRef

/-- A routing is rendered where it is well named. -/
theorem exists_renderRouting (holds : Bool) (named : WellNamed config p routing) :
    ∃ routes, renderRouting config p routing holds = .ok routes := by
  obtain ⟨fallback, derived, valid⟩ := named
  -- Every one of the hostnames is rendered, so the loop comes to its end.
  obtain ⟨routes, success⟩ := exists_mapM_of_forall fun hostname among =>
    exists_renderHostname p routing holds (valid hostname among)
  refine ⟨routes.flatten, ?_⟩
  refine bind_eq_ok_iff.mpr ⟨fallback, mapError_eq_ok_iff.mpr derived, ?_⟩
  exact bind_eq_ok_iff.mpr ⟨routes, success, rfl⟩

/-- The names that are rendered: of every instance, and of every hostname the stable one as well,
where the Process asks for stable names and holds any claim. -/
theorem exists_mem_renderRouting (name : String) {routes : List RenderedEdge}
    (success : renderRouting config p routing holds = .ok routes) :
    WellNamed config p routing ∧
      ((∃ edge ∈ routes, edge.fqdn = name) → ∃ hostname ∈ routing.hostnames,
        (∃ fallback, instanceName config fallback hostname = .ok name) ∨
          (routing.stableNameClaim && holds) = true ∧ stableName config hostname = .ok name) ∧
      ((routing.stableNameClaim && holds) = true → ∀ hostname ∈ routing.hostnames,
        stableName config hostname = .ok name → ∃ edge ∈ routes, edge.fqdn = name) := by
  obtain ⟨fallback, derived, rest⟩ := bind_eq_ok_iff.mp success
  rw [mapError_eq_ok_iff] at derived
  obtain ⟨parts, traversed, ended⟩ := bind_eq_ok_iff.mp rest
  obtain rfl := Except.ok.inj ended
  refine ⟨⟨fallback, derived, ?_⟩, ?_, ?_⟩
  · intro hostname among
    obtain ⟨part, -, found⟩ := exists_result_of_mapM traversed among
    exact (exists_mem_renderHostname name found).1
  · intro present
    obtain ⟨edge, among, same⟩ := present
    -- A route belongs to the part of one hostname.
    obtain ⟨part, partOf, inside⟩ := List.mem_flatten.mp among
    obtain ⟨hostname, listed, found⟩ := exists_item_of_mapM traversed partOf
    refine ⟨hostname, listed, ?_⟩
    rcases (exists_mem_renderHostname name found).2.mp ⟨edge, inside, same⟩ with instanced | stable
    · exact .inl ⟨fallback, instanced⟩
    · exact .inr stable
  · intro asks hostname listed stable
    obtain ⟨part, partOf, found⟩ := exists_result_of_mapM traversed listed
    obtain ⟨edge, inside, same⟩ :=
      (exists_mem_renderHostname name found).2.mpr (.inr ⟨asks, stable⟩)
    exact ⟨edge, List.mem_flatten.mpr ⟨part, partOf, inside⟩, same⟩

end Rendering

section Owners

variable [Crates] (config : Config) (claims : Claims)

/-- Every stable name has one owner, which is the one that the registry names. -/
structure SingleOwner (processes : List Process) : Prop where
  unique : ∀ cluster app name, fmtFqdnStable app cluster config.location config.domain = .ok name →
    ∀ p ∈ processes, ∀ q ∈ processes, Renders config claims p name →
      Renders config claims q name → p.qualifiedRef = q.qualifiedRef
  recorded : ∀ cluster app name,
    fmtFqdnStable app cluster config.location config.domain = .ok name →
      ∀ p ∈ processes, Renders config claims p name → Holds claims (cluster ++ "/" ++ app) p
  /-- Nobody renders the stable name of a hostname that another one holds. -/
  spared : ∀ p ∈ processes, ∀ routing, p.spec.routing = some routing →
    ∀ hostname ∈ routing.hostnames, ∀ name entry, stableName config hostname = .ok name →
      claims[claimKey config hostname]? = some entry → entry.holder ≠ p.qualifiedRef →
      ¬ Renders config claims p name

/-- A Process that asks for stable names and holds one of them holds all of those it asks for. -/
def HoldsAllOrNone (p : Process) : Prop :=
  ∀ routing, p.spec.routing = some routing → routing.stableNameClaim = true →
    WellNamed config p routing → holdsAnyClaim claims p = true →
      ∀ hostname ∈ routing.hostnames, Holds claims (claimKey config hostname) p

variable {config claims}

/-- Where the claims are held all or none, whoever renders a stable name holds its claim. -/
theorem recorded_of_holdsAllOrNone {p : Process} (whole : HoldsAllOrNone config claims p)
    {cluster app name : String}
    (stable : fmtFqdnStable app cluster config.location config.domain = .ok name)
    (renders : Renders config claims p name) : Holds claims (cluster ++ "/" ++ app) p := by
  obtain ⟨routes, success, present⟩ := renders
  unfold rendered at success
  cases routed : p.spec.routing with
  | none =>
    -- A Process without routing has no routes.
    rw [routed] at success
    obtain rfl := Except.ok.inj success
    obtain ⟨edge, among, -⟩ := present
    cases among
  | some routing =>
    rw [routed] at success
    obtain ⟨named, from_, -⟩ := exists_mem_renderRouting name success
    obtain ⟨hostname, listed, ⟨fallback, instanced⟩ | ⟨asks, same⟩⟩ := from_ present
    · -- A name of an instance is no stable name.
      exact absurd stable (fmtFqdn_ne_fmtFqdnStable instanced)
    · obtain ⟨asks, any⟩ := Bool.and_eq_true_iff.mp asks
      obtain ⟨rfl, rfl⟩ := fmtFqdnStable_inj stable same
      exact whole routing routed asks named any hostname listed

/-- With a single owner for each name, the claims are held all or none. -/
theorem SingleOwner.holdsAllOrNone {processes : List Process}
    (single : SingleOwner config claims processes) {p : Process} (among : p ∈ processes) :
    HoldsAllOrNone config claims p := by
  intro routing routed asks named any hostname listed
  obtain ⟨routes, success⟩ := exists_renderRouting (holdsAnyClaim claims p) named
  obtain ⟨fallback, derived, valid⟩ := named
  obtain ⟨fqdn, instanced⟩ := valid hostname listed
  obtain ⟨name, stable⟩ := exists_fmtFqdnStable instanced
  -- The stable name of each of its hostnames is rendered.
  have present := (exists_mem_renderRouting name success).2.2
    (Bool.and_eq_true_iff.mpr ⟨asks, any⟩) hostname listed stable
  refine single.recorded _ _ name stable p among ⟨routes, ?_, present⟩
  rw [rendered, routed]
  exact success

/-- Exactly where nobody holds only some of the stable names it asks for, every stable name has one
owner. -/
theorem singleOwner_iff (config : Config) (claims : Claims) (processes : List Process) :
    SingleOwner config claims processes ↔ ∀ p ∈ processes, HoldsAllOrNone config claims p := by
  constructor
  · intro single p among
    exact single.holdsAllOrNone among
  · intro whole
    have recorded {cluster app name : String}
        (stable : fmtFqdnStable app cluster config.location config.domain = .ok name)
        {p : Process} (among : p ∈ processes) (renders : Renders config claims p name) :
        Holds claims (cluster ++ "/" ++ app) p :=
      recorded_of_holdsAllOrNone (whole p among) stable renders
    refine ⟨?_, ?_, ?_⟩
    · intro cluster app name stable p amongP q amongQ rendersP rendersQ
      -- Both are the holder of the one entry.
      obtain ⟨entry, found, holder⟩ := recorded stable amongP rendersP
      obtain ⟨entry', found', holder'⟩ := recorded stable amongQ rendersQ
      rw [found] at found'
      obtain rfl := Option.some.inj found'
      rw [← holder, holder']
    · intro cluster app name stable p among renders
      exact recorded stable among renders
    · intro p among routing routed hostname listed name entry stable found other renders
      -- Whoever renders the name is the holder of the entry, and not another one.
      obtain ⟨entry', found', holder⟩ := recorded stable among renders
      rw [claimKey] at found
      rw [found] at found'
      obtain rfl := Option.some.inj found'
      exact other holder

end Owners

/-- Whoever holds a claim holds any. -/
theorem holdsAnyClaim_of_holds {claims : Claims} {key : String} {p : Process}
    (holds : Holds claims key p) : holdsAnyClaim claims p = true := by
  obtain ⟨entry, found, holder⟩ := holds
  have among : (key, entry) ∈ claims.toList :=
    Std.ExtTreeMap.mem_toList_iff_getElem?_eq_some.mpr found
  exact List.any_eq_true.mpr ⟨(key, entry), among, decide_eq_true holder⟩

/-- The registries that reconciles of the table lead to, whatever Processes each of them lists. -/
inductive Reached (config : Config) : Claims → Prop where
  | empty : Reached config ∅
  | settles {processes : List Process} {before after : Claims} {events : List Event}
      (reached : Reached config before) (settles : Settles config processes before events after) :
      Reached config after

/-- A Process that holds one of the two names it asks for renders both of them. -/
theorem not_singleOwner_partial :
    let _ := plainCrates
    ∃ claims, Reached plainConfig claims ∧
      ¬ SingleOwner plainConfig claims
        [claimant "young" 2 ["api", "web"], claimant "old" 1 ["api"]] := by
  intro _
  have stamped : ∀ p ∈ [claimant "young" 2 ["api", "web"], claimant "old" 1 ["api"]],
      p.metadata.creationTimestamp.isSome := by decide
  obtain ⟨events, claims, settles, reading⟩ := exists_settles plainConfig stamped ∅ ⟨3⟩
  refine ⟨claims, .settles .empty settles, ?_⟩
  intro single
  -- The reconcile leaves what is decided for each key.
  obtain ⟨now, same, rfl, -⟩ := settles.after_eq stamped
  obtain rfl : now = ⟨3⟩ := Option.some.inj (same.symm.trans reading)
  have entry (key : String) := arbitrate_getElem? ∅ (groupCandidates
    ([claimant "young" 2 ["api", "web"], claimant "old" 1 ["api"]].flatMap
      (declared plainConfig))) ⟨3⟩ key
  simp only [getD_groupCandidates, Std.ExtTreeMap.getElem?_empty] at entry
  -- The younger one holds the name that nobody else asks for, and the older one the other name.
  have web := (entry "rio/web").trans (b := _) (c := some
    { holder := "default/young", pid := "", grantedAt := ⟨3⟩, priority := 0 }) (by decide +kernel)
  have api := (entry "rio/api").trans (b := _) (c := some
    { holder := "default/old", pid := "", grantedAt := ⟨3⟩, priority := 0 }) (by decide +kernel)
  have named : WellNamed plainConfig (claimant "young" 2 ["api", "web"])
      (claimedRouting ["api", "web"]) := by
    refine ⟨"00000000", rfl, ?_⟩
    intro hostname listed
    obtain rfl | rfl : hostname = ⟨"api", none, none⟩ ∨ hostname = ⟨"web", none, none⟩ := by
      simpa [claimedRouting] using listed
    · exact ⟨"api.00000000.rio.br.example.org", by decide +kernel⟩
    · exact ⟨"web.00000000.rio.br.example.org", by decide +kernel⟩
  obtain ⟨entry', found, holder⟩ := single.holdsAllOrNone List.mem_cons_self _ rfl rfl named
    (holdsAnyClaim_of_holds ⟨_, web, by decide⟩) ⟨"api", none, none⟩ List.mem_cons_self
  rw [show claimKey plainConfig ⟨"api", none, none⟩ = "rio/api" by decide, api] at found
  obtain rfl := Option.some.inj found
  revert holder
  decide

end Tatara.Reconciler
