import Tatara.Crd.Phase
import Tatara.Rust.Data

/-! Processes: what is asked of them, what is recorded of them, and how long they live; and their
table in a cluster, with the registry of the stable names they hold. -/

namespace Tatara.Crd

open Tatara.Rust

/-- The identity that a spec asks for. -/
structure IdentitySpec where
  parent : Option String := none
  nameOverride : Option String := none

/-- The phase that a dependency has to reach. -/
inductive MustReachPhase where
  | running
  | attested
  deriving DecidableEq, Repr

/-- `as_process_phase`. -/
def MustReachPhase.asProcessPhase : MustReachPhase → ProcessPhase
  | running => .running
  | attested => .attested

/-- Another Process that has to come first. -/
structure DependsOn where
  name : String
  ns : Option String
  mustReach : MustReachPhase

/-- The kinds of conditions at a boundary. -/
inductive ConditionKind where
  | processPhase
  | kustomizationHealthy
  | helmReleaseReleased
  | promQL
  | cel
  | nixEval
  | jobAttested
  | closedLoopAuth
  deriving DecidableEq, Repr

/-- `Debug` writes the name of the variant. -/
def ConditionKind.debug : ConditionKind → String
  | processPhase => "ProcessPhase"
  | kustomizationHealthy => "KustomizationHealthy"
  | helmReleaseReleased => "HelmReleaseReleased"
  | promQL => "PromQL"
  | cel => "Cel"
  | nixEval => "NixEval"
  | jobAttested => "JobAttested"
  | closedLoopAuth => "ClosedLoopAuth"

/-- A condition at a boundary. -/
structure Condition where
  kind : ConditionKind
  params : Json

/-- The conditions before and after the work of a Process. -/
structure Boundary where
  preconditions : List Condition := []
  postconditions : List Condition := []

/-- The intent to install a chart; `rest` has the fields that only its manifests show. -/
structure AplicacaoIntent where
  chartRef : String
  rest : Json

/-- What a Process is to bring about: one slot for each variant, as the resource has them. -/
structure Intent where
  nix : Option Json := none
  flux : Option Json := none
  lisp : Option Json := none
  container : Option Json := none
  aplicacao : Option AplicacaoIntent := none
  guest : Option Json := none

/-- The one variant that an intent has set. -/
inductive IntentVariant where
  | nix (intent : Json)
  | flux (intent : Json)
  | lisp (intent : Json)
  | container (intent : Json)
  | aplicacao (intent : AplicacaoIntent)
  | guest (intent : Json)

/-- Why a tagged union does not resolve. -/
inductive ResolveError where
  | none
  | many
  deriving DecidableEq, Repr

/-- `resolve`: the one candidate that is present. -/
def resolve {V : Type} (candidates : List (Option V)) : Except ResolveError V :=
  match candidates.filterMap id with
  | [] => .error .none
  | [found] => .ok found
  | _ => .error .many

/-- `Intent::variant`, whose errors read as `IntentError` displays them. -/
def Intent.variant (intent : Intent) : Except String IntentVariant :=
  let candidates :=
    [intent.nix.map .nix, intent.flux.map .flux, intent.lisp.map .lisp,
      intent.container.map .container, intent.aplicacao.map .aplicacao, intent.guest.map .guest]
  match resolve candidates with
  | .ok variant => .ok variant
  | .error .none =>
    .error "intent has no variant set (one of nix/flux/lisp/container/aplicacao/guest required)"
  | .error .many => .error "intent has multiple variants set; exactly one required"

/-- When an export runs. -/
inductive ExportTrigger where
  | onAttested
  | onFailed
  | always
  deriving DecidableEq, Repr

/-- `fires_on`. -/
def ExportTrigger.firesOn : ExportTrigger → ProcessPhase → Bool
  | onAttested, .attested => true
  | always, .attested => true
  | onFailed, .failed => true
  | always, .failed => true
  | _, _ => false

/-- An artifact to export; `rest` has the fields that only its Job shows. -/
structure ExportSpec where
  trigger : ExportTrigger
  rest : Json

/-- When a lifetime tears its Process down by itself. -/
inductive TeardownPolicy where
  | always
  | onAttested
  | onFailed
  | never
  deriving DecidableEq, Repr

namespace TeardownPolicy

/-- `as_str`. -/
def asStr : TeardownPolicy → String
  | always => "Always"
  | onAttested => "OnAttested"
  | onFailed => "OnFailed"
  | never => "Never"

/-- `should_teardown_on`. -/
def shouldTeardownOn : TeardownPolicy → ProcessPhase → Bool
  | always, .attested => true
  | onAttested, .attested => true
  | always, .failed => true
  | onFailed, .failed => true
  | _, _ => false

end TeardownPolicy

/-- A lifetime that ends by itself. -/
structure EphemeralLifetime where
  ttl : String
  teardownPolicy : TeardownPolicy
  exports : List ExportSpec

/-- `has_applicable_exports`. -/
def EphemeralLifetime.hasApplicableExports (e : EphemeralLifetime) (phase : ProcessPhase) : Bool :=
  e.exports.any fun spec => spec.trigger.firesOn phase

/-- The lifetime of a Process: one slot for each variant, as the resource has them. -/
structure Lifetime where
  permanent : Option Unit := none
  ephemeral : Option EphemeralLifetime := none

/-- `resolved_ephemeral`: an ambiguous lifetime resolves to nothing. -/
def Lifetime.resolvedEphemeral (lifetime : Lifetime) : Option EphemeralLifetime :=
  match lifetime.permanent, lifetime.ephemeral with
  | none, some e => some e
  | _, _ => none

/-- `is_ephemeral`, which asks for the slot and not for what the lifetime resolves to. -/
def Lifetime.isEphemeral (lifetime : Lifetime) : Bool := lifetime.ephemeral.isSome

/-- A name under which a Process is to be reached. -/
structure RoutingHostname where
  app : String
  hostInstance : Option String
  cluster : Option String

/-- `cluster_or`. -/
def RoutingHostname.clusterOr (hostname : RoutingHostname) (fallback : String) : String :=
  hostname.cluster.getD fallback

/-- How a Process is to be reached; `rest` has the fields that only the manifests show. -/
structure RoutingSpec where
  hostnames : List RoutingHostname
  stableNameClaim : Bool
  /-- Among those that ask for the same stable name, the highest priority gets it. -/
  priority : Int := 0
  rest : Json

/-- What a Process does to the workload it stands for. -/
inductive EncapsulationMode where
  | manage
  | adopt
  | observe
  deriving DecidableEq, Repr

/-- `emits_workload`. -/
def EncapsulationMode.emitsWorkload : EncapsulationMode → Bool
  | manage | adopt => true
  | observe => false

/-- The workload that a Process stands for; `kind` says which one. -/
structure EncapsulatesSpec where
  kind : Json
  mode : EncapsulationMode

/-- What is asked of a Process; `rest` has the fields that the reconciler only hashes. -/
structure ProcessSpec where
  identity : IdentitySpec := {}
  intent : Intent
  boundary : Boundary := {}
  dependsOn : List DependsOn := []
  sighupStrategy : SighupStrategy := .reconverge
  lifetime : Lifetime := {}
  routing : Option RoutingSpec := none
  encapsulates : Option EncapsulatesSpec := none
  suspended : Bool := false
  rest : Json

/-- The identity that is derived from a spec. -/
structure Identity where
  name : String
  contentHash : String
  nameOverride : Bool

/-- A resource of Flux that was applied for a Process, and how it was last seen. -/
structure FluxResourceRef where
  apiVersion : String
  kind : String
  name : String
  ns : String
  ready : Bool
  message : Option String
  lastCheck : Option DateTime

/-- A condition and how it was last found. -/
structure CheckedCondition where
  condition : Condition
  satisfied : Bool
  lastCheck : Option DateTime
  message : Option String

/-- `all_satisfied`. -/
def CheckedCondition.allSatisfied (checked : List CheckedCondition) : Bool :=
  checked.all fun c => c.satisfied

/-- How the conditions of a boundary were last found. -/
structure BoundaryStatus where
  preconditions : List CheckedCondition := []
  postconditions : List CheckedCondition := []

/-- The attestation of a Process, with the root of the one before. -/
structure ProcessAttestation where
  artifactHash : String
  controlHash : Option String
  intentHash : String
  composedRoot : String
  generation : UInt64
  previousRoot : Option String
  attestedAt : DateTime

/-- What is recorded of a Process. -/
structure ProcessStatus where
  pid : Option String := none
  parent : Option String := none
  identity : Option Identity := none
  phase : ProcessPhase := .pending
  phaseSince : Option DateTime := none
  attestation : Option ProcessAttestation := none
  fluxResources : List FluxResourceRef := []
  boundary : BoundaryStatus := {}
  message : Option String := none

/-- The metadata of a Process; the API server admits no object without a name. -/
structure ObjectMeta where
  name : String
  ns : Option String := none
  uid : Option String := none
  annotations : List (String × String) := []
  finalizers : Option (List String) := none
  creationTimestamp : Option DateTime := none
  deletionTimestamp : Option DateTime := none

/-- A Process, as the API server stores it. -/
structure Process where
  metadata : ObjectMeta
  spec : ProcessSpec
  status : Option ProcessStatus := none

namespace Process

/-- `namespace_or_default`. -/
def namespaceOrDefault (p : Process) : String := p.metadata.ns.getD "default"

/-- `annotation`. -/
def annotation (p : Process) (key : String) : Option String := p.metadata.annotations.lookup key

/-- `is_being_deleted`. -/
def isBeingDeleted (p : Process) : Bool := p.metadata.deletionTimestamp.isSome

/-- `observed_phase`. -/
def observedPhase (p : Process) : Option ProcessPhase := p.status.map (·.phase)

/-- `observed_phase_or_pending`. -/
def observedPhaseOrPending (p : Process) : ProcessPhase := p.observedPhase.getD .pending

/-- `observed_pid`. -/
def observedPid (p : Process) : Option String := p.status.bind (·.pid)

/-- `observed_identity`. -/
def observedIdentity (p : Process) : Option Identity := p.status.bind (·.identity)

/-- `observed_attestation`. -/
def observedAttestation (p : Process) : Option ProcessAttestation := p.status.bind (·.attestation)

/-- `observed_flux_resources`. -/
def observedFluxResources (p : Process) : List FluxResourceRef :=
  (p.status.map (·.fluxResources)).getD []

/-- `observed_phase_since_or`. -/
def observedPhaseSinceOr (p : Process) (fallback : DateTime) : DateTime :=
  (p.status.bind (·.phaseSince)).getD fallback

/-- `created_at_or`. -/
def createdAtOr (p : Process) (fallback : DateTime) : DateTime :=
  p.metadata.creationTimestamp.getD fallback

/-- `declared_parent_pid`. -/
def declaredParentPid (p : Process) : Option String := p.spec.identity.parent

end Process

/-- `qualified_process_ref`. -/
def qualifiedProcessRef (ns name : String) : String := ns ++ "/" ++ name

/-- `qualified_ref`. -/
def Process.qualifiedRef (p : Process) : String :=
  qualifiedProcessRef p.namespaceOrDefault p.metadata.name

/-- What the reconciler has from other crates: digests of canonical JSON, durations, and the debug
form of strings. -/
class Crates extends CharTable where
  /-- `content_hash`. -/
  contentHash : ProcessSpec → String
  /-- `ephemeral_id_from_spec`, with the text of its error. -/
  ephemeralIdFromSpec : ProcessSpec → Except String String
  /-- `compute_intent_hash`. -/
  intentHash : Intent → String
  /-- `hex_blake3` of a text. -/
  hexBlake3 : String → String
  /-- `humantime::parse_duration`, in nanoseconds. -/
  parseDuration : String → Option Nat

/-- Digests that are always the same, and no duration that parses. -/
@[reducible] def plainCrates : Crates where
  toCharTable := asciiTable
  contentHash _ := "00000000000000000000000000"
  ephemeralIdFromSpec _ := .ok "00000000"
  intentHash _ := "00"
  hexBlake3 _ := "00"
  parseDuration _ := none

section

variable [Crates]

/-- `str::trim`. -/
def trim (s : String) : String :=
  String.ofList ((s.toList.dropWhile isWhitespace).reverse.dropWhile isWhitespace).reverse

/-- `derive_identity`. -/
def deriveIdentity (spec : ProcessSpec) : Identity :=
  let hash := Crates.contentHash spec
  match (spec.identity.nameOverride.map trim).filter (· ≠ "") with
  | some name => { name, contentHash := hash, nameOverride := true }
  | none => { name := hash, contentHash := hash, nameOverride := false }

/-- `compose_root`: the pillars on one line each, behind the tag of the format. -/
def composeRoot (artifact : String) (control : Option String) (intent : String)
    (previous : Option String) : String :=
  Crates.hexBlake3
    ("tatara-process/v1alpha1\n" ++ artifact ++ "\n" ++ control.getD "" ++ "\n" ++ intent ++ "\n" ++
      previous.getD "")

namespace ProcessAttestation

/-- `compose`. -/
def compose (artifactHash : String) (controlHash : Option String) (intentHash : String)
    (previousRoot : Option String) (generation : UInt64) (now : DateTime) : ProcessAttestation :=
  { artifactHash, controlHash, intentHash, previousRoot, generation
    composedRoot := composeRoot artifactHash controlHash intentHash previousRoot
    attestedAt := now }

/-- `initial` for the first attestation and `next` for every later one. -/
def next (prior : Option ProcessAttestation) (artifactHash : String) (controlHash : Option String)
    (intentHash : String) (now : DateTime) : ProcessAttestation :=
  match prior with
  | none => compose artifactHash controlHash intentHash none 0 now
  | some prior =>
    compose artifactHash controlHash intentHash (some prior.composedRoot) (prior.generation + 1) now

end ProcessAttestation

/-- Why the clock of a lifetime goes off; the time elapsed is in nanoseconds. -/
inductive TerminateReason where
  | teardownPolicy (policy : TeardownPolicy) (phase : ProcessPhase)
  | ttlExpired (ttl : String) (elapsed : Nat)
  deriving DecidableEq, Repr

/-- `Display` of the reason, which counts whole seconds. -/
def TerminateReason.render : TerminateReason → String
  | teardownPolicy policy phase =>
    "ephemeral lifetime: teardown_policy=" ++ policy.asStr ++ " fired on " ++ phase.asStr
  | ttlExpired ttl elapsed =>
    "ephemeral lifetime: ttl=" ++ ttl ++ " expired (elapsed=" ++
      String.ofList (renderNat (elapsed / 1000000000)) ++ "s)"

/-- `AutoTerminate`: what the clock of a lifetime says. -/
inductive AutoTerminate where
  | skip
  | now (reason : TerminateReason)
  deriving DecidableEq, Repr

/-- `elapsed_since`, which has no answer for an instant that is still to come. -/
def elapsedSince (now anchor : DateTime) : Option Nat :=
  if anchor.nanos ≤ now.nanos then some (now.nanos - anchor.nanos).toNat else none

/-- `is_terminal_or_exit`. -/
def isTerminalOrExit : ProcessPhase → Bool
  | .exiting | .zombie | .reaped => true
  | _ => false

/-- The time a lifetime has had, once it has used up its time to live. -/
def ttlExpired (p : Process) (e : EphemeralLifetime) (now : DateTime) : Option Nat := do
  let creation ← p.metadata.creationTimestamp
  let ttl ← Crates.parseDuration e.ttl
  let elapsed ← elapsedSince now creation
  if ttl ≤ elapsed then some elapsed else none

/-- `lifetime_clock::evaluate`. -/
def lifetimeClock (p : Process) (phase : ProcessPhase) (now : DateTime) : AutoTerminate :=
  match p.spec.lifetime.resolvedEphemeral with
  | none => .skip
  | some e =>
    if e.teardownPolicy.shouldTeardownOn phase then .now (.teardownPolicy e.teardownPolicy phase)
    else if isTerminalOrExit phase then .skip
    else
      match ttlExpired p e now with
      | some elapsed => .now (.ttlExpired e.ttl elapsed)
      | none => .skip

end

/-- `has_applicable_exports`, which reads the ephemeral slot whether or not it resolves. -/
def hasApplicableExports (p : Process) (phase : ProcessPhase) : Bool :=
  (p.spec.lifetime.ephemeral.map (·.hasApplicableExports phase)).getD false

/-- A stable name that is held, and by whom. -/
structure ClaimRecord where
  holder : String
  pid : String
  grantedAt : DateTime
  priority : Int
  deriving DecidableEq, Repr

/-- The stable names that are held, each under its cluster and its app. -/
abbrev Claims := Std.ExtTreeMap String ClaimRecord

/-- The table of the Processes of a cluster; the claims are in its status, once it has one. -/
structure ProcessTable where
  nextSequence : UInt32
  claims : Option Claims

end Tatara.Crd
