import Tatara.Lib.Program
import Tatara.Crd.Process

/-! The requests of the reconciler, what they do to the stored Process, and the patches it sends. -/

namespace Tatara.Reconciler

open Tatara.Rust Tatara.Crd

/-- What a condition turned out to be. -/
inductive Satisfaction where
  | satisfied
  | unsatisfied (message : String)
  | unknown (message : String)
  deriving DecidableEq, Repr

namespace Satisfaction

/-- `is_satisfied`. -/
def isSatisfied : Satisfaction → Bool
  | satisfied => true
  | _ => false

/-- `message`. -/
def message : Satisfaction → Option String
  | satisfied => none
  | unsatisfied m | unknown m => some m

end Satisfaction

/-- A merge patch of the status of a Process; a slot that it leaves out stays as it is. -/
structure StatusPatch where
  phase : Option ProcessPhase := none
  phaseSince : Option DateTime := none
  identity : Option Identity := none
  pid : Option String := none
  /-- A `null` in this slot clears it. -/
  parent : Option (Option String) := none
  message : Option String := none
  fluxResources : Option (List FluxResourceRef) := none
  preconditions : Option (List CheckedCondition) := none
  postconditions : Option (List CheckedCondition) := none
  attestation : Option ProcessAttestation := none

/-- An attestation merged into another one, where a slot that is not written stays as it is. -/
def mergeAttestation (new old : Option ProcessAttestation) : Option ProcessAttestation :=
  match new, old with
  | none, old => old
  | some new, none => some new
  | some new, some old =>
    some { new with
      controlHash := new.controlHash <|> old.controlHash
      previousRoot := new.previousRoot <|> old.previousRoot }

/-- The status after a merge patch; a Process without a status gets one. -/
def StatusPatch.merge (patch : StatusPatch) (status : Option ProcessStatus) : ProcessStatus :=
  -- Without a status the patch falls on the defaults, of which the phase is `Pending`.
  let old := status.getD {}
  { pid := patch.pid <|> old.pid
    parent := patch.parent.getD old.parent
    identity := patch.identity <|> old.identity
    phase := patch.phase.getD old.phase
    phaseSince := patch.phaseSince <|> old.phaseSince
    attestation := mergeAttestation patch.attestation old.attestation
    fluxResources := patch.fluxResources.getD old.fluxResources
    boundary :=
      { preconditions := patch.preconditions.getD old.boundary.preconditions
        postconditions := patch.postconditions.getD old.boundary.postconditions }
    message := patch.message <|> old.message }

/-- Where a rendered resource goes. -/
structure RenderedResourceCoords where
  apiVersion : String
  kind : String
  name : String
  ns : Option String
  deriving DecidableEq, Repr

/-- A Job, and how often it has succeeded and failed. -/
structure JobStatus where
  name : String
  succeeded : Option Int
  failed : Option Int

/-- What the reconciler asks of the API server, and of the evaluation of conditions. -/
inductive Request where
  | mergeStatus (patch : StatusPatch)
  | mergeAnnotations (key : String) (value : Option String)
  | mergeSuspended (suspended : Bool)
  | mergeFinalizers (finalizers : List String)
  | applyAnnotations (key value : String)
  | getStatus
  | getProcess (ns name : String)
  | listProcesses
  | deleteProcess (ns name : String)
  | getProcessTable
  | createProcessTable
  | mergeNextSequence (sequence : UInt32)
  | applyClaims (claims : Claims)
  /-- `boundary::evaluate`, whose own requests are left to it. -/
  | evaluate (condition : Condition)
  | applyObject (ns : String) (coords : RenderedResourceCoords)
  | getObject (ns apiVersion kind name : String)
  | listJobs (ns selector : String)

/-- What a request that succeeds is answered with. -/
@[reducible] def Request.Reply : Request → Type
  | getStatus => Process
  | getProcess _ _ => Option Process
  | listProcesses => List Process
  | getProcessTable => Option ProcessTable
  | createProcessTable => ProcessTable
  | evaluate _ => Satisfaction
  | getObject _ _ _ _ => Option Json
  | listJobs _ _ => List JobStatus
  | _ => Unit

/-- A look at the clock, or a request that may fail. -/
inductive Call where
  | now
  | request (r : Request)

/-- The answers to calls; the error of a request is the text that is displayed. -/
@[reducible] def Answer : Call → Type
  | .now => DateTime
  | .request r => Except String r.Reply

/-- Programs of the reconciler. -/
abbrev Task := Program Call Answer

/-- Programs of the reconciler that may fail. -/
abbrev Handler := ExceptT String Task

/-- A call of the reconciler with its answer. -/
abbrev Event := Program.Exchange Answer

/-- The request was answered with an error. -/
def Event.failed : Event → Bool
  | ⟨.request _, .error _⟩ => true
  | _ => false

/-- The phase that a call writes to the status. -/
def Event.phase : Event → Option ProcessPhase
  | ⟨.request (.mergeStatus patch), _⟩ => patch.phase
  | _ => none

@[simp] theorem Event.phase_now (now : DateTime) : Event.phase ⟨.now, now⟩ = none := rfl

@[simp] theorem Event.phase_mergeStatus (patch : StatusPatch) (answer : Except String Unit) :
    Event.phase ⟨.request (.mergeStatus patch), answer⟩ = patch.phase := rfl

/-- Set or remove an annotation. -/
def setAnnotation (key : String) (value : Option String) (annotations : List (String × String)) :
    List (String × String) :=
  let others := annotations.filter fun entry => entry.1 ≠ key
  match value with
  | some value => (key, value) :: others
  | none => others

/-- What a call does to the stored Process. -/
def Event.effect : Event → Process → Process
  | ⟨.request (.mergeStatus patch), _⟩, p => { p with status := some (patch.merge p.status) }
  | ⟨.request (.mergeAnnotations key value), _⟩, p =>
    { p with metadata.annotations := setAnnotation key value p.metadata.annotations }
  | ⟨.request (.applyAnnotations key value), _⟩, p =>
    { p with metadata.annotations := setAnnotation key (some value) p.metadata.annotations }
  | ⟨.request (.mergeSuspended suspended), _⟩, p => { p with spec.suspended := suspended }
  | ⟨.request (.mergeFinalizers finalizers), _⟩, p =>
    { p with metadata.finalizers := some finalizers }
  | _, p => p

/-- `Utc::now`. -/
def utcNow : Task DateTime := Program.call Call.now

/-- Send a request. -/
def send (r : Request) : Task (Except String r.Reply) := Program.call (Call.request r)

/-- `err_ctx`: an error says in front what was being done. -/
def errCtx {α : Type} (context : String) (task : Task (Except String α)) : Handler α :=
  ExceptT.mk do
    match ← task with
    | .ok a => return .ok a
    | .error e => return .error (context ++ ": " ++ e)

/-- A task whose outcome is of no consequence. -/
def bestEffort {α : Type} (task : Task (Except String α)) : Handler Unit :=
  liftM (do
    let _ ← task
    return () : Task Unit)

/-- `phase_status_base`. -/
def phaseStatusBase (phase : ProcessPhase) : Task StatusPatch := do
  let now ← utcNow
  return { phase := some phase, phaseSince := some now }

/-- `transition`. -/
def transition (phase : ProcessPhase) : Task (Except String Unit) := do
  let base ← phaseStatusBase phase
  send (.mergeStatus base)

/-- `transition_msg`. -/
def transitionMsg (phase : ProcessPhase) (message : String) : Task (Except String Unit) := do
  let base ← phaseStatusBase phase
  send (.mergeStatus { base with message := some message })

/-- `add_finalizer`. -/
def addFinalizer (existing : List String) (target : String) : Option (List String) :=
  if target ∈ existing then none else some (existing ++ [target])

/-- `remove_finalizer_from`. -/
def removeFinalizerFrom (existing : List String) (target : String) : Option (List String) :=
  if target ∈ existing then some (existing.filter (· ≠ target)) else none

/-- `apply_finalizer_transform`. -/
def applyFinalizerTransform (p : Process) (target : String)
    (transform : List String → String → Option (List String)) : Task (Except String Bool) := do
  match transform (p.metadata.finalizers.getD []) target with
  -- There is nothing to change, and no request is made.
  | none => return .ok false
  | some finalizers =>
    match ← send (.mergeFinalizers finalizers) with
    | .ok _ => return .ok true
    | .error e => return .error e

/-- `PROCESS_FINALIZER`. -/
def processFinalizer : String := "tatara.pleme.io/process-finalizer"

/-- `ensure_finalizer`. -/
def ensureFinalizer (p : Process) (target : String) : Task (Except String Bool) :=
  applyFinalizerTransform p target addFinalizer

/-- `remove_finalizer`. -/
def removeFinalizer (p : Process) (target : String) : Task (Except String Bool) :=
  applyFinalizerTransform p target removeFinalizerFrom

/-- `ensure_process_table`. -/
def ensureProcessTable : Task (Except String ProcessTable) := do
  match ← send .getProcessTable with
  | .error e => return .error e
  | .ok (some table) => return .ok table
  -- The first Process of a cluster finds no table, and creates it.
  | .ok none => send .createProcessTable

section

variable [Crates]

/-- `plural_of`, of which `api_resource` passes on the error. -/
def pluralOf (kind : String) : Except String String :=
  match kind with
  | "GitRepository" => .ok "gitrepositories"
  | "HelmRepository" => .ok "helmrepositories"
  | "OCIRepository" => .ok "ocirepositories"
  | "Bucket" => .ok "buckets"
  | "Kustomization" => .ok "kustomizations"
  | "HelmRelease" => .ok "helmreleases"
  | "Job" => .ok "jobs"
  | "ConfigMap" => .ok "configmaps"
  | "Secret" => .ok "secrets"
  | "Namespace" => .ok "namespaces"
  | other => .error ("unknown plural for kind " ++ String.ofList (debugStr other.toList))

/-- `apply_owned`. -/
def applyOwned (p : Process) (ns : String) (coords : RenderedResourceCoords) : Handler Unit :=
  -- Without the UID of the owner or a plural of the kind, no request is made.
  match p.metadata.uid, pluralOf coords.kind with
  | none, _ => throw "Process has no metadata.uid"
  | some _, .error e => throw e
  | some _, .ok _ =>
    errCtx ("ssapply " ++ coords.kind ++ "/" ++ coords.name) (send (.applyObject ns coords))

/-- `fetch_flux_ref`. -/
def fetchFluxRef (r : FluxResourceRef) : Handler (Option Json) :=
  let context := "fetch " ++ r.kind ++ "/" ++ r.name
  match pluralOf r.kind with
  | .error e => throw (context ++ ": " ++ e)
  | .ok _ => errCtx context (send (.getObject r.ns r.apiVersion r.kind r.name))

end

/-- What the `Ready` condition of a resource says. -/
inductive ReadyState where
  | ready
  | notReady (message : Option String)
  | unknown
  deriving DecidableEq, Repr

/-- `get` on a JSON value. -/
def jsonGet (value : Json) (key : String) : Option Json :=
  match value with
  | .object fields => fields.lookup key
  | _ => none

/-- `get_str` on a JSON value. -/
def jsonGetStr (value : Json) (key : String) : Option String :=
  match jsonGet value key with
  | some (.string text) => some text
  | _ => none

/-- `ready_condition_value`: the first condition of type `Ready` decides. -/
def readyConditionValue (data : Json) : ReadyState :=
  match (jsonGet data "status").bind (jsonGet · "conditions") with
  | some (.array conditions) =>
    match conditions.find? fun c => jsonGetStr c "type" = some "Ready" with
    | none => .unknown
    | some c =>
      -- Anything but these two texts leaves the resource unobserved.
      match jsonGetStr c "status" with
      | some "True" => .ready
      | some "False" => .notReady (jsonGetStr c "message")
      | _ => .unknown
  | _ => .unknown

end Tatara.Reconciler
