import Tatara.Reconciler.Api

/-! What is rendered for a Process: its workload, the edges that route to it, and its exports. -/

namespace Tatara.Reconciler

open Tatara.Rust Tatara.Crd

/-- What the reconciler is configured with. -/
structure Config where
  heartbeatSeconds : Nat
  cluster : String
  location : String
  domain : String
  dnsLbTarget : Option String

/-- A configuration without a target for DNS records. -/
def plainConfig : Config :=
  { heartbeatSeconds := 30, cluster := "rio", location := "br", domain := "example.org"
    dnsLbTarget := none }

/-- The intents that the reconciler renders. -/
inductive Workload where
  | flux (intent : Json)
  | aplicacao (intent : AplicacaoIntent)

/-- `render_flux`: one Kustomization. -/
def renderFlux (name ns : String) : List RenderedResourceCoords :=
  [{ apiVersion := "kustomize.toolkit.fluxcd.io/v1", kind := "Kustomization", name, ns := some ns }]

/-- `render_aplicacao`: a HelmRelease, behind the repository of a chart that comes by OCI. -/
def renderAplicacao (name ns : String) (a : AplicacaoIntent) : List RenderedResourceCoords :=
  let repository : List RenderedResourceCoords :=
    if "oci://".toList.isPrefixOf a.chartRef.toList then
      [{ apiVersion := "source.toolkit.fluxcd.io/v1beta2", kind := "OCIRepository", name
         ns := some ns }]
    else []
  repository ++
    [{ apiVersion := "helm.toolkit.fluxcd.io/v2", kind := "HelmRelease", name, ns := some ns }]

/-- `render`, as far as the places of the resources go. -/
def render (p : Process) (workload : Workload) : List RenderedResourceCoords :=
  let mode := (p.spec.encapsulates.map (·.mode)).getD .manage
  -- A Process that only observes a workload emits nothing for it.
  if !mode.emitsWorkload then []
  else
    match workload with
    | .flux _ => renderFlux p.metadata.name p.namespaceOrDefault
    | .aplicacao a => renderAplicacao p.metadata.name p.namespaceOrDefault a

/-- `export_job_name`. -/
def exportJobName (processName : String) (index : Nat) : String :=
  processName ++ "-export-" ++ String.ofList (renderNat index)

/-- `render_export_jobs`: one Job for each export that the gate lets run. -/
def renderExportJobs (p : Process) (gate : ProcessPhase) : List RenderedResourceCoords :=
  match p.spec.lifetime.resolvedEphemeral with
  | none => []
  | some e =>
    (e.exports.zipIdx.filter fun entry => entry.1.trigger.firesOn gate).map fun entry =>
      { apiVersion := "batch/v1", kind := "Job", name := exportJobName p.metadata.name entry.2
        ns := some p.namespaceOrDefault }

section

variable [Crates]

/-- `InvalidLabel`, as it is displayed. -/
def invalidLabel (segment label reason : String) : String :=
  "invalid DNS label " ++ String.ofList (debugStr label.toList) ++ " for segment " ++ segment ++
    ": " ++ reason

/-- `validate_label`. -/
def validateLabel (segment label : String) : Except String Unit :=
  if label.utf8ByteSize = 0 ∨ 63 < label.utf8ByteSize then
    .error (invalidLabel segment label "must be 1–63 characters")
  else if label.toList.head? = some '-' ∨ label.toList.getLast? = some '-' then
    .error (invalidLabel segment label "must not start or end with a hyphen")
  else if label.toList.all fun c => c.isLower || c.isDigit || c == '-' then .ok ()
  else .error (invalidLabel segment label "must contain only [a-z0-9-]")

/-- `validate_app`. -/
def validateApp (app : String) : Except String Unit := do
  validateLabel "app" app
  if app ∈ ["auth", "cracha"] then
    .error ("app label " ++ String.ofList (debugStr app.toList) ++
      " is reserved for the saguão control plane")
  else .ok ()

/-- `validate_fqdn_suffix`, in which every piece of the domain is a label. -/
def validateFqdnSuffix (cluster location domain : String) : Except String Unit := do
  validateLabel "cluster" cluster
  validateLabel "location" location
  if domain = "" then .error (invalidLabel "domain" domain "must not be empty")
  else
    (domain.toList.splitOnP (· == '.')).forM fun piece =>
      validateLabel "domain" (String.ofList piece)

/-- `fmt_fqdn`. -/
def fmtFqdn (app ephemeralId cluster location domain : String) : Except String String := do
  validateApp app
  validateLabel "ephemeral_id" ephemeralId
  validateFqdnSuffix cluster location domain
  .ok (app ++ "." ++ ephemeralId ++ "." ++ cluster ++ "." ++ location ++ "." ++ domain)

/-- `fmt_fqdn_stable`. -/
def fmtFqdnStable (app cluster location domain : String) : Except String String := do
  validateApp app
  validateFqdnSuffix cluster location domain
  .ok (app ++ "." ++ cluster ++ "." ++ location ++ "." ++ domain)

/-- A resource that routes to a Process, and the name that it routes. -/
structure RenderedEdge where
  coords : RenderedResourceCoords
  fqdn : String
  deriving DecidableEq, Repr

/-- The Ingress and, where there is a target for it, the DNS record of one form of a hostname. -/
def edges (config : Config) (p : Process) (hostname : RoutingHostname) (form fqdn : String) :
    List RenderedEdge :=
  let name := p.metadata.name ++ "-" ++ hostname.app ++ "-" ++ form
  let ingress : RenderedResourceCoords :=
    { apiVersion := "networking.k8s.io/v1", kind := "Ingress", name
      ns := some p.namespaceOrDefault }
  let endpoint : RenderedResourceCoords :=
    { apiVersion := "externaldns.k8s.io/v1alpha1", kind := "DNSEndpoint", name := name ++ "-dns"
      ns := some p.namespaceOrDefault }
  if config.dnsLbTarget.isSome then
    [{ coords := ingress, fqdn }, { coords := endpoint, fqdn }]
  else [{ coords := ingress, fqdn }]

/-- `resolve_ephemeral_id`. -/
def resolveEphemeralId (hostname : RoutingHostname) (fallback : String) : String :=
  match hostname.hostInstance with
  | some s => if s = "" then fallback else s
  | none => fallback

/-- What `render_routing` emits for one hostname. -/
def renderHostname (config : Config) (p : Process) (routing : RoutingSpec) (holdsStableClaim : Bool)
    (fallback : String) (hostname : RoutingHostname) : Except String (List RenderedEdge) := do
  let cluster := hostname.clusterOr config.cluster
  let ephemeralId := resolveEphemeralId hostname fallback
  let fqdn ← (fmtFqdn hostname.app ephemeralId cluster config.location config.domain).mapError
    ("fmt_fqdn (per-instance): " ++ ·)
  if routing.stableNameClaim && holdsStableClaim then
    let fqdnStable ← (fmtFqdnStable hostname.app cluster config.location config.domain).mapError
      ("fmt_fqdn_stable: " ++ ·)
    .ok (edges config p hostname ephemeralId fqdn ++ edges config p hostname "stable" fqdnStable)
  else .ok (edges config p hostname ephemeralId fqdn)

/-- `render_routing`. -/
def renderRouting (config : Config) (p : Process) (routing : RoutingSpec)
    (holdsStableClaim : Bool) : Except String (List RenderedEdge) := do
  let fallback ←
    (Crates.ephemeralIdFromSpec p.spec).mapError ("ephemeral_id_from_spec: " ++ ·)
  let routes ←
    routing.hostnames.mapM (renderHostname config p routing holdsStableClaim fallback)
  .ok routes.flatten

end

end Tatara.Reconciler
