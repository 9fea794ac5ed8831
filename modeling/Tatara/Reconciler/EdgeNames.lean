import Tatara.Reconciler.StableNames

/-! The names of routing objects, and when no two of them collide. -/

namespace Tatara.Reconciler

open Tatara.Rust Tatara.Crd Tatara.Fallible
open Tatara.Delimited (append_mark_inj splitOn_inj)

/-- The pieces of a text between its dashes. -/
def pieces (text : String) : List (List Char) := text.toList.splitOn '-'

/-- Three texts joined with dashes tell only the pieces that they have together. -/
theorem dashed_eq_iff {a b c a' b' c' : String} :
    a ++ "-" ++ b ++ "-" ++ c = a' ++ "-" ++ b' ++ "-" ++ c' ↔
      pieces a ++ pieces b ++ pieces c = pieces a' ++ pieces b' ++ pieces c' := by
  -- Each dash in between ends a piece, so that no piece runs across it.
  have joined (a b c : String) : (a ++ "-" ++ b ++ "-" ++ c).toList.splitOn '-' =
      pieces a ++ pieces b ++ pieces c := by
    have texts : (a ++ "-" ++ b ++ "-" ++ c).toList =
        a.toList ++ '-' :: (b.toList ++ '-' :: c.toList) := by
      simp [String.toList_append]
    rw [texts, List.splitOn_append_cons_self, List.splitOn_append_cons_self, ← List.append_assoc]
    rfl
  rw [← joined, ← joined, splitOn_inj, String.toList_inj]

section

variable {config : Config} {p : Process} {hostname : RoutingHostname}

/-- The name of an object is that of its hostname and form, with an ending for a DNS record. -/
theorem mem_edges {form fqdn : String} {edge : RenderedEdge}
    (among : edge ∈ edges config p hostname form fqdn) :
    edge.fqdn = fqdn ∧ edge.coords.ns = some p.namespaceOrDefault ∧
      (edge.coords.kind = "Ingress" ∧
          edge.coords.name = p.metadata.name ++ "-" ++ hostname.app ++ "-" ++ form ∨
        edge.coords.kind = "DNSEndpoint" ∧
          edge.coords.name = p.metadata.name ++ "-" ++ hostname.app ++ "-" ++ form ++ "-dns") := by
  -- There are an Ingress, and a DNS record where the configuration asks for one.
  unfold edges at among
  split at among
  · rcases List.mem_cons.mp among with rfl | last
    · exact ⟨rfl, rfl, .inl ⟨rfl, rfl⟩⟩
    · rw [List.mem_singleton.mp last]
      exact ⟨rfl, rfl, .inr ⟨rfl, rfl⟩⟩
  · rw [List.mem_singleton.mp among]
    exact ⟨rfl, rfl, .inl ⟨rfl, rfl⟩⟩

/-- Edges at one place are those of Processes of one namespace, under one name. -/
theorem place_eq_of_coords {q : Process} {hostname' : RoutingHostname}
    {form form' fqdn fqdn' : String} {edge edge' : RenderedEdge}
    (among : edge ∈ edges config p hostname form fqdn)
    (among' : edge' ∈ edges config q hostname' form' fqdn') (same : edge.coords = edge'.coords) :
    p.namespaceOrDefault = q.namespaceOrDefault ∧
      p.metadata.name ++ "-" ++ hostname.app ++ "-" ++ form =
        q.metadata.name ++ "-" ++ hostname'.app ++ "-" ++ form' := by
  obtain ⟨-, place, kind⟩ := mem_edges among
  obtain ⟨-, place', kind'⟩ := mem_edges among'
  rw [same] at place kind
  refine ⟨Option.some.inj (place.symm.trans place'), ?_⟩
  -- An Ingress is never at the place of a DNS record.
  rcases kind with ⟨kind, name⟩ | ⟨kind, name⟩ <;>
    rcases kind' with ⟨kind', name'⟩ | ⟨kind', name'⟩
  · exact name.symm.trans name'
  · exact absurd (kind.symm.trans kind') (by decide)
  · exact absurd (kind.symm.trans kind') (by decide)
  · exact String.append_left_inj _ |>.mp (name.symm.trans name')

/-- The Ingress is rendered for every form. -/
theorem ingress_mem_edges (config : Config) (p : Process) (hostname : RoutingHostname)
    (form fqdn : String) :
    RenderedEdge.mk
      { apiVersion := "networking.k8s.io/v1", kind := "Ingress"
        name := p.metadata.name ++ "-" ++ hostname.app ++ "-" ++ form
        ns := some p.namespaceOrDefault } fqdn ∈ edges config p hostname form fqdn := by
  -- It is the first of the edges in both cases.
  unfold edges
  split
  · exact List.mem_cons_self
  · exact List.mem_cons_self

end

section

variable [Crates] {config : Config} {p q : Process} {routing : RoutingSpec} {holds : Bool}
  {fallback fallback' : String} {hostname hostname' : RoutingHostname} {isStable isStable' : Bool}

/-- The form segment of the name of a routing object. -/
def formSegment (fallback : String) (hostname : RoutingHostname) (isStable : Bool) : String :=
  if isStable then "stable" else resolveEphemeralId hostname fallback

/-- The name that a routing object routes. -/
def formFqdn (config : Config) (fallback : String) (hostname : RoutingHostname)
    (isStable : Bool) : Except String String :=
  if isStable then stableName config hostname else instanceName config fallback hostname

/-- Whether a form is rendered: that of the instance always is. -/
def Emits (routing : RoutingSpec) (holds isStable : Bool) : Prop :=
  isStable = true → (routing.stableNameClaim && holds) = true

/-- What a hostname is rendered to is the edges of its forms. -/
theorem mem_renderHostname_iff {routes : List RenderedEdge}
    (success : renderHostname config p routing holds fallback hostname = .ok routes)
    (edge : RenderedEdge) :
    edge ∈ routes ↔ ∃ isStable fqdn, Emits routing holds isStable ∧
      formFqdn config fallback hostname isStable = .ok fqdn ∧
      edge ∈ edges config p hostname (formSegment fallback hostname isStable) fqdn := by
  -- The instance is rendered first, and then, if it is asked for, the stable form.
  unfold renderHostname at success
  obtain ⟨fqdn, instanced, rest⟩ := bind_eq_ok_iff.mp success
  rw [mapError_eq_ok_iff] at instanced
  have instanced_ : instanceName config fallback hostname = .ok fqdn := instanced
  simp only [Bool.exists_bool, formFqdn, formSegment, if_true, if_false, Bool.false_eq_true,
    instanced_, Except.ok.injEq, Emits]
  split at rest
  · rename_i asks
    obtain ⟨stable, stably, ended⟩ := bind_eq_ok_iff.mp rest
    rw [mapError_eq_ok_iff] at stably
    have stably_ : stableName config hostname = .ok stable := stably
    obtain rfl := Except.ok.inj ended
    simp [asks, stably_]
  · rename_i asks
    obtain rfl := Except.ok.inj rest
    simp [asks]

/-- The edges of a routing are those of its hostnames, in the forms in which they are emitted. -/
theorem mem_renderRouting_iff {routes : List RenderedEdge}
    (derived : Crates.ephemeralIdFromSpec p.spec = .ok fallback)
    (success : renderRouting config p routing holds = .ok routes) (edge : RenderedEdge) :
    edge ∈ routes ↔ ∃ hostname ∈ routing.hostnames, ∃ isStable fqdn,
      Emits routing holds isStable ∧ formFqdn config fallback hostname isStable = .ok fqdn ∧
        edge ∈ edges config p hostname (formSegment fallback hostname isStable) fqdn := by
  -- The edges are those of one hostname after the other.
  obtain ⟨derived', hashed, rest⟩ := bind_eq_ok_iff.mp success
  rw [mapError_eq_ok_iff, derived] at hashed
  obtain rfl := Except.ok.inj hashed
  obtain ⟨parts, traversed, ended⟩ := bind_eq_ok_iff.mp rest
  obtain rfl := Except.ok.inj ended
  rw [List.mem_flatten]
  constructor
  · rintro ⟨part, among, inside⟩
    obtain ⟨hostname, listed, rendered⟩ := exists_item_of_mapM traversed among
    exact ⟨hostname, listed, (mem_renderHostname_iff rendered edge).mp inside⟩
  · rintro ⟨hostname, listed, form⟩
    obtain ⟨part, among, rendered⟩ := exists_result_of_mapM traversed listed
    exact ⟨part, among, (mem_renderHostname_iff rendered edge).mpr form⟩

/-- The name of an instance tells the app, the instance and the cluster that it is made of. -/
theorem fmtFqdn_inj {app app' id id' cluster cluster' location domain name : String}
    (here : fmtFqdn app id cluster location domain = .ok name)
    (there : fmtFqdn app' id' cluster' location domain = .ok name) :
    app = app' ∧ id = id' ∧ cluster = cluster' := by
  obtain ⟨validApp, label, suffix, rfl⟩ := fmtFqdn_eq_ok_iff.mp here
  obtain ⟨validApp', label', suffix', same⟩ := fmtFqdn_eq_ok_iff.mp there
  have texts := congrArg String.toList same
  simp only [String.toList_append, List.append_assoc] at texts
  -- Labels have no dots, so each of the first three dots ends one of them.
  obtain ⟨apps, rest⟩ :=
    append_mark_inj (validateApp_dotless validApp) (validateApp_dotless validApp') texts
  obtain ⟨ids, tails⟩ :=
    append_mark_inj (validateLabel_dotless label) (validateLabel_dotless label') rest
  obtain ⟨clusters, -⟩ := append_mark_inj (validateFqdnSuffix_dotless suffix)
    (validateFqdnSuffix_dotless suffix') tails
  exact ⟨String.ext apps, String.ext ids, String.ext clusters⟩

/-- What two forms route tells what they are made of. -/
theorem formFqdn_inj {name : String}
    (here : formFqdn config fallback hostname isStable = .ok name)
    (there : formFqdn config fallback' hostname' isStable' = .ok name) :
    isStable = isStable' ∧ hostname.app = hostname'.app ∧
      hostname.clusterOr config.cluster = hostname'.clusterOr config.cluster := by
  -- Of different forms the one name has a label more than the other.
  cases isStable <;> cases isStable'
  · obtain ⟨apps, -, clusters⟩ := fmtFqdn_inj here there
    exact ⟨rfl, apps, clusters⟩
  · exact absurd there (fmtFqdn_ne_fmtFqdnStable here)
  · exact absurd here (fmtFqdn_ne_fmtFqdnStable there)
  · exact ⟨rfl, fmtFqdnStable_inj here there⟩

/-- Where a hostname has an instance name, it has a name in either form. -/
theorem exists_formFqdn (valid : ∃ fqdn, instanceName config fallback hostname = .ok fqdn)
    (isStable : Bool) : ∃ fqdn, formFqdn config fallback hostname isStable = .ok fqdn := by
  -- The stable name has the parts of the instance name but one.
  cases isStable with
  | false => exact valid
  | true =>
    obtain ⟨fqdn, instanced⟩ := valid
    exact exists_fmtFqdnStable instanced

variable (config) in
/-- Routing objects of one place route the same name and belong to one Process. -/
def NoCollision (holds : Process → Bool) (processes : List Process) : Prop :=
  ∀ p ∈ processes, ∀ q ∈ processes, ∀ routing routing' routes routes',
    p.spec.routing = some routing → q.spec.routing = some routing' →
    renderRouting config p routing (holds p) = .ok routes →
    renderRouting config q routing' (holds q) = .ok routes' →
      ∀ edge ∈ routes, ∀ edge' ∈ routes', edge.coords = edge'.coords →
        edge.fqdn = edge'.fqdn ∧ p.metadata.name = q.metadata.name

variable (config) in
/-- In one namespace, the pieces that the name of the Process, the app and the form have together
tell the Process, the app, the cluster and whether the form is the stable one. -/
def NamesApart (holds : Process → Bool) (processes : List Process) : Prop :=
  ∀ p ∈ processes, ∀ q ∈ processes, ∀ routing routing' fallback fallback',
    p.spec.routing = some routing → q.spec.routing = some routing' →
    WellNamed config p routing → WellNamed config q routing' →
    Crates.ephemeralIdFromSpec p.spec = .ok fallback →
    Crates.ephemeralIdFromSpec q.spec = .ok fallback' →
    p.namespaceOrDefault = q.namespaceOrDefault →
      ∀ hostname ∈ routing.hostnames, ∀ hostname' ∈ routing'.hostnames, ∀ isStable isStable',
        Emits routing (holds p) isStable → Emits routing' (holds q) isStable' →
        pieces p.metadata.name ++ pieces hostname.app ++
            pieces (formSegment fallback hostname isStable) =
          pieces q.metadata.name ++ pieces hostname'.app ++
            pieces (formSegment fallback' hostname' isStable') →
          p.metadata.name = q.metadata.name ∧ hostname.app = hostname'.app ∧
            hostname.clusterOr config.cluster = hostname'.clusterOr config.cluster ∧
            isStable = isStable'

/-- Routing objects do not collide exactly where their pieces tell them apart. -/
theorem noCollision_iff_namesApart (config : Config) (holds : Process → Bool)
    (processes : List Process) :
    NoCollision config holds processes ↔ NamesApart config holds processes := by
  constructor
  · intro none p amongP q amongQ routing routing' fallback fallback' routed routed' named named'
      derived derived' sameNs hostname listed hostname' listed' isStable isStable' emits emits' same
    obtain ⟨routes, success⟩ := exists_renderRouting (holds p) named
    obtain ⟨routes', success'⟩ := exists_renderRouting (holds q) named'
    obtain ⟨_, hashed, valid⟩ := named
    obtain ⟨_, hashed', valid'⟩ := named'
    cases derived.symm.trans hashed
    cases derived'.symm.trans hashed'
    obtain ⟨fqdn, routes_⟩ := exists_formFqdn (valid hostname listed) isStable
    obtain ⟨fqdn', routes'_⟩ := exists_formFqdn (valid' hostname' listed') isStable'
    -- The two Ingresses are at one place.
    have among := (mem_renderRouting_iff derived success _).mpr
      ⟨hostname, listed, isStable, fqdn, emits, routes_, ingress_mem_edges config p hostname _ _⟩
    have among' := (mem_renderRouting_iff derived' success' _).mpr
      ⟨hostname', listed', isStable', fqdn', emits', routes'_,
        ingress_mem_edges config q hostname' _ _⟩
    obtain ⟨sameFqdn, names⟩ := none p amongP q amongQ routing routing' routes routes' routed
      routed' success success' _ among _ among' (by rw [dashed_eq_iff.mpr same, sameNs])
    dsimp only at sameFqdn
    rw [← sameFqdn] at routes'_
    obtain ⟨forms, apps, clusters⟩ := formFqdn_inj routes_ routes'_
    exact ⟨names, apps, clusters, forms⟩
  · intro apart p amongP q amongQ routing routing' routes routes' routed routed' success success'
      edge among edge' among' sameCoords
    obtain ⟨named, -⟩ := exists_mem_renderRouting "" success
    obtain ⟨named', -⟩ := exists_mem_renderRouting "" success'
    obtain ⟨fallback, derived, valid⟩ := id named
    obtain ⟨fallback', derived', valid'⟩ := id named'
    obtain ⟨hostname, listed, isStable, fqdn, emits, routes_, inside⟩ :=
      (mem_renderRouting_iff derived success edge).mp among
    obtain ⟨hostname', listed', isStable', fqdn', emits', routes'_, inside'⟩ :=
      (mem_renderRouting_iff derived' success' edge').mp among'
    obtain ⟨sameNs, sameName⟩ := place_eq_of_coords inside inside' sameCoords
    obtain rfl := (mem_edges inside).1
    obtain rfl := (mem_edges inside').1
    have samePieces := dashed_eq_iff.mp sameName
    obtain ⟨names, apps, clusters, rfl⟩ := apart p amongP q amongQ routing routing' fallback
      fallback' routed routed' named named' derived derived' sameNs hostname listed hostname'
      listed' isStable isStable' emits emits' samePieces
    refine ⟨?_, names⟩
    rw [names, apps, List.append_cancel_left_eq] at samePieces
    have segments := String.toList_inj.mp (splitOn_inj.mp samePieces)
    -- With the same form, app and cluster the same name is routed.
    have sameFqdn : formFqdn config fallback hostname isStable =
        formFqdn config fallback' hostname' isStable := by
      unfold formFqdn stableName instanceName
      rw [apps, clusters]
      cases isStable with
      | true => rfl
      | false =>
        simp only [formSegment, Bool.false_eq_true, if_false] at segments
        rw [segments]
    exact Except.ok.inj (routes_.symm.trans (sameFqdn.trans routes'_))

end

/-- An app that is reached in two clusters. -/
def twoClusters : RoutingSpec :=
  { hostnames := [⟨"web", none, some "rio"⟩, ⟨"web", none, some "mar"⟩]
    stableNameClaim := false
    rest := .null }

/-- A Process with this app. -/
def shop : Process :=
  { metadata := { name := "shop" }
    spec := { intent := {}, routing := some twoClusters, rest := .null } }

/-- The Ingress of one of its hostnames. -/
def shopIngress (fqdn : String) : RenderedEdge :=
  { coords :=
      { apiVersion := "networking.k8s.io/v1", kind := "Ingress", name := "shop-web-00000000"
        ns := some "default" }
    fqdn }

/-- The Ingress for one cluster is overwritten with the one for the other. -/
theorem two_clusters_collide :
    let _ := plainCrates
    ¬ NoCollision plainConfig (fun _ => false) [shop] := by
  -- Both hostnames are rendered to Ingresses of one name.
  intro _ none
  have success : renderRouting plainConfig shop twoClusters false =
      .ok [shopIngress "web.00000000.rio.br.example.org",
        shopIngress "web.00000000.mar.br.example.org"] := by decide +kernel
  have same := none shop List.mem_cons_self shop List.mem_cons_self twoClusters twoClusters _ _
    rfl rfl success success _ List.mem_cons_self _ (List.mem_cons_of_mem _ List.mem_cons_self) rfl
  exact absurd same.1 (by decide)

end Tatara.Reconciler
