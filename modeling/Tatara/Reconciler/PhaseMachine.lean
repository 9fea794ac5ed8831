import Tatara.Reconciler.Render

/-! The handlers of the phases. -/

namespace Tatara.Reconciler

open Tatara.Rust Tatara.Crd

/-- When the controller looks at a Process again; delays are in seconds. -/
inductive Action where
  | requeue (seconds : Nat)
  | awaitChange
  deriving DecidableEq, Repr

/-- `requeue::tick`. -/
def tick : Action := .requeue 1

/-- `requeue::short_retry`. -/
def shortRetry : Action := .requeue 5

/-- `requeue::heartbeat`. -/
def heartbeat : Action := .requeue 30

/-- `annotations::RELEASED_FROM`. -/
def releasedFromAnnotation : String := "tatara.pleme.io/released-from"

/-- `phase_rank`. -/
def phaseRank : ProcessPhase → Nat
  | .forking => 1
  | .execing => 2
  | .running | .reconverging => 3
  | .attested => 4
  | .pending | .releasing | .exiting | .failed | .zombie | .reaped => 0

/-- `phase_reached`. -/
def phaseReached (actual required : ProcessPhase) : Bool := phaseRank required ≤ phaseRank actual

/-- What `check_depends_on` reports of one dependency that is not met. -/
def unmetDependency (ns : String) (dep : DependsOn) :
    Except String (Option Process) → Option String
  | .ok (some target) =>
    if phaseReached target.observedPhaseOrPending dep.mustReach.asProcessPhase then none
    else
      some (qualifiedProcessRef ns dep.name ++ " is " ++ target.observedPhaseOrPending.asStr ++
        "; need " ++ dep.mustReach.asProcessPhase.asStr)
  | .ok none => some (qualifiedProcessRef ns dep.name ++ " not found")
  | .error e => some ("error fetching " ++ qualifiedProcessRef ns dep.name ++ ": " ++ e)

/-- `check_depends_on`: the messages about the dependencies that are not met. -/
def checkDependsOn (p : Process) : List DependsOn → Task (List String)
  | [] => return []
  | dep :: deps => do
    -- A dependency without a namespace is looked for next to the Process.
    let ns := dep.ns.getD p.namespaceOrDefault
    let answer ← send (.getProcess ns dep.name)
    let unmet ← checkDependsOn p deps
    return (unmetDependency ns dep answer).toList ++ unmet

/-- `evaluate_conditions`. -/
def evaluateConditions : List Condition → Handler (List CheckedCondition)
  | [] => return []
  | c :: conditions => do
    let sat ← errCtx ("evaluate " ++ c.kind.debug) (send (.evaluate c))
    let now ← utcNow
    let checked ← evaluateConditions conditions
    return { condition := c, satisfied := sat.isSatisfied, lastCheck := some now
             message := sat.message } :: checked

/-- `allocate_pid`. -/
def allocatePid (identity : Identity) (parentPid : Option String) (nextSequence : UInt32) :
    String :=
  let tail := String.ofList (renderNat nextSequence.toNat)
  match parentPid with
  | some parent => if parent = "" then identity.name ++ "." ++ tail else parent ++ "." ++ tail
  | none => identity.name ++ "." ++ tail

section

variable [Crates]

/-- `handle_pending`. -/
def handlePending (p : Process) : Handler Action := do
  -- The finalizer is in place before anything is recorded that a deletion would have to undo.
  let _ ← errCtx "install finalizer" (ensureFinalizer p processFinalizer)
  errCtx "patch status" do
    let base ← phaseStatusBase .forking
    send (.mergeStatus { base with identity := some (deriveIdentity p.spec) })
  return tick

/-- The part of `handle_forking` that gives a Process its PID. -/
def assignPid (p : Process) : Handler Unit := do
  -- A PID stays for good once it is recorded.
  if p.observedPid.isSome then return ()
  else
    let identity := p.observedIdentity.getD (deriveIdentity p.spec)
    let table ← errCtx "ensure ProcessTable" ensureProcessTable
    -- The table moves on first, so that a failure in between wastes a number and repeats none.
    let pid := allocatePid identity p.declaredParentPid table.nextSequence
    errCtx "bump nextSequence" (send (.mergeNextSequence (table.nextSequence + 1)))
    errCtx "patch pid"
      (send (.mergeStatus { pid := some pid, parent := some p.declaredParentPid }))

/-- `handle_forking`. -/
def handleForking (p : Process) : Handler Action := do
  let unmet ← checkDependsOn p p.spec.dependsOn
  if unmet ≠ [] then
    -- What is being waited for is only reported, and a failure to report it is ignored.
    bestEffort (send (.mergeStatus
      { message := some ("waiting on " ++ String.ofList (renderNat unmet.length) ++
          " dependency/dependencies: " ++ "; ".intercalate unmet) }))
    return heartbeat
  else
    assignPid p
    errCtx "patch (forking→execing)" (transitionMsg .execing "dependencies satisfied")
    return tick

/-- The part of `handle_execing` that looks at the preconditions. -/
def provePreconditions (p : Process) : Handler Bool := do
  if p.spec.boundary.preconditions = [] then return true
  else
    let checked ← evaluateConditions p.spec.boundary.preconditions
    let allPass := CheckedCondition.allSatisfied checked
    let message := if allPass then "preconditions satisfied" else "waiting on preconditions"
    bestEffort (send (.mergeStatus { preconditions := some checked, message := some message }))
    return allPass

/-- `flux_ref_from_json`. -/
def fluxRef (coords : RenderedResourceCoords) (now : DateTime) : FluxResourceRef :=
  { apiVersion := coords.apiVersion, kind := coords.kind, name := coords.name
    ns := coords.ns.getD "default", ready := false
    message := some "applied; awaiting reconciliation", lastCheck := some now }

/-- Apply rendered resources one after the other, and record them. -/
def applyRendered (p : Process) : List RenderedResourceCoords → Handler (List FluxResourceRef)
  | [] => return []
  | coords :: rest => do
    applyOwned p p.namespaceOrDefault coords
    let now ← utcNow
    let refs ← applyRendered p rest
    return fluxRef coords now :: refs

/-- Some entry of the registry names the Process. -/
def holdsAnyClaim (claims : Claims) (p : Process) : Bool :=
  claims.toList.any fun entry => entry.2.holder = p.qualifiedRef

/-- `process_holds_any_claim`. -/
def processHoldsAnyClaim (p : Process) : Task Bool := do
  match ← send .getProcessTable with
  | .ok (some { claims := some claims, .. }) => return holdsAnyClaim claims p
  | _ => return false

/-- The part of `handle_execing` that emits the edges of the routing. -/
def applyRouting (config : Config) (p : Process) : Handler Unit := do
  match p.spec.routing with
  | none => return ()
  | some routing =>
    let holdsStable ← processHoldsAnyClaim p
    let routes ← ((renderRouting config p routing holdsStable).mapError ("render routing: " ++ ·) :
      Except String (List RenderedEdge))
    routes.forM fun edge => applyOwned p p.namespaceOrDefault edge.coords

/-- `handle_execing`. -/
def handleExecing (config : Config) (p : Process) : Handler Action := do
  let proved ← provePreconditions p
  if !proved then return heartbeat
  else
    let emit (workload : Workload) : Handler Action := do
      let refs ← applyRendered p (render p workload)
      applyRouting config p
      errCtx "patch status (execing→running)" do
        let base ← phaseStatusBase .running
        send (.mergeStatus { base with fluxResources := some refs })
      return shortRetry
    match p.spec.intent.variant with
    | .error e => throw e
    | .ok (.flux intent) => emit (.flux intent)
    | .ok (.aplicacao intent) => emit (.aplicacao intent)
    -- The other intents are not rendered, and the Process stays where it is.
    | .ok _ => return heartbeat

/-- `advance_to_attested`. -/
def advanceToAttested (p : Process) (artifactHash : Option String) : Handler Action := do
  let now ← utcNow
  -- The new attestation names the root of the one before.
  let next := ProcessAttestation.next p.observedAttestation (artifactHash.getD "") none
    (Crates.intentHash p.spec.intent) now
  errCtx "patch attestation" do
    let base ← phaseStatusBase .attested
    send (.mergeStatus { base with attestation := some next })
  return heartbeat

/-- How `handle_running` records a resource, from the object that it has fetched. -/
def observe (r : FluxResourceRef) (obj : Option Json) (now : DateTime) : FluxResourceRef :=
  match obj.map readyConditionValue with
  | some .ready => { r with ready := true, message := none, lastCheck := some now }
  | some (.notReady m) => { r with ready := false, message := m, lastCheck := some now }
  | _ => { r with ready := false, message := some "not yet observed", lastCheck := some now }

/-- Fetch the resources one after the other, and record how each of them is. -/
def pollRefs : List FluxResourceRef → Handler (List FluxResourceRef)
  | [] => return []
  | r :: refs => do
    let obj ← fetchFluxRef r
    let now ← utcNow
    let updated ← pollRefs refs
    return observe r obj now :: updated

/-- The artifact hash is taken of the identities of the resources, on one line each. -/
def artifactHash (refs : List FluxResourceRef) : String :=
  Crates.hexBlake3 (String.join (refs.map fun r =>
    r.apiVersion ++ "/" ++ r.kind ++ "/" ++ r.ns ++ "/" ++ r.name ++ "\n"))

/-- The part of `handle_running` that looks at the postconditions. -/
def verifyPostconditions (p : Process) : Handler Bool := do
  if p.spec.boundary.postconditions = [] then return true
  else
    let checked ← evaluateConditions p.spec.boundary.postconditions
    errCtx "patch postconditions" (send (.mergeStatus { postconditions := some checked }))
    return CheckedCondition.allSatisfied checked

/-- `transition_to_exiting`. -/
def transitionToExiting (reason : String) : Handler Action := do
  errCtx "patch (→exiting, ephemeral)" (transitionMsg .exiting reason)
  return tick

/-- `handle_running`. -/
def handleRunning (p : Process) : Handler Action := do
  let now ← utcNow
  match lifetimeClock p .running now with
  | .now reason => transitionToExiting reason.render
  | .skip =>
    -- Nothing was rendered: the handler goes on without a look at the postconditions.
    if p.observedFluxResources = [] then advanceToAttested p none
    else
      let updated ← pollRefs p.observedFluxResources
      -- The resources are recorded as they were found, ready or not.
      errCtx "patch fluxResources" (send (.mergeStatus { fluxResources := some updated }))
      if updated.all (·.ready) then
        let verified ← verifyPostconditions p
        if verified then advanceToAttested p (some (artifactHash updated))
        else return heartbeat
      else return heartbeat

/-- `p_current_phase_str`, the gate that a Process is leaving. -/
def currentPhaseStr : Handler String := do
  let p ← errCtx "get status (released-from)" (send .getStatus)
  return (p.observedPhase.getD .attested).releasedFromLabel

/-- `transition_to_releasing`. -/
def transitionToReleasing (reason : String) : Handler Action := do
  -- The gate is read from the stored status, not from the Process that the handler was given.
  let gate ← currentPhaseStr
  errCtx "annotate released-from" (send (.applyAnnotations releasedFromAnnotation gate))
  errCtx "patch (→releasing)" (transitionMsg .releasing ("releasing exports — " ++ reason))
  return tick

/-- Some resource, the first of which is found, is not `Ready` any more. -/
def anyDrift : List FluxResourceRef → Handler Bool
  | [] => return false
  | r :: refs => do
    let obj ← fetchFluxRef r
    if obj.map readyConditionValue = some .ready then anyDrift refs else return true

/-- `handle_attested`. -/
def handleAttested (p : Process) : Handler Action := do
  let now ← utcNow
  match lifetimeClock p .attested now with
  | .now reason =>
    if hasApplicableExports p .attested then transitionToReleasing reason.render
    else transitionToExiting reason.render
  | .skip =>
    let drift ← anyDrift p.observedFluxResources
    if drift then
      errCtx "patch (attested→reconverging)"
        (transitionMsg .reconverging "flux resource drift detected")
      return shortRetry
    else return heartbeat

/-- `handle_reconverging`. -/
def handleReconverging : Handler Action := do
  errCtx "patch (reconverging→execing)" (transition .execing)
  return tick

/-- `advance_out_of_releasing`. -/
def advanceOutOfReleasing (gate : ProcessPhase) (reason : String) : Handler Action := do
  -- A Process that has failed has nothing left to drain.
  let next := if gate = .failed then ProcessPhase.zombie else .exiting
  errCtx ("patch (releasing→" ++ next.asStr ++ ")")
    (transitionMsg next ("releasing → " ++ next.asStr ++ " — " ++ reason))
  return tick

/-- A Job that has succeeded counts as such whatever its failures are. -/
inductive JobOutcome where
  | succeeded
  | failed
  | active
  deriving DecidableEq, Repr

/-- How `handle_releasing` counts a Job. -/
def JobStatus.outcome (job : JobStatus) : JobOutcome :=
  if 0 < job.succeeded.getD 0 then .succeeded
  else if 0 < job.failed.getD 0 then .failed
  else .active

/-- `handle_releasing`. -/
def handleReleasing (p : Process) : Handler Action := do
  let gate := ProcessPhase.parseReleasedFrom (p.annotation releasedFromAnnotation)
  let applicable := (p.spec.lifetime.ephemeral.toList.flatMap (·.exports)).filter
    fun spec => spec.trigger.firesOn gate
  if applicable = [] then advanceOutOfReleasing gate "no applicable exports"
  else
    -- The Jobs are applied on every look, and counted by their labels.
    (renderExportJobs p gate).forM fun job =>
      errCtx "apply export job" (applyOwned p p.namespaceOrDefault job).run
    let selector := "tatara.pleme.io/process=" ++
      qualifiedProcessRef p.namespaceOrDefault p.metadata.name ++ ",tatara.pleme.io/role=export"
    let jobs ← errCtx "list export jobs" (send (.listJobs p.namespaceOrDefault selector))
    let outcomes := jobs.map JobStatus.outcome
    if 0 < outcomes.count .active ∨ jobs.length < applicable.length then return shortRetry
    else
      advanceOutOfReleasing gate ("exports complete (succeeded=" ++
        String.ofList (renderNat (outcomes.count .succeeded)) ++ ", failed=" ++
        String.ofList (renderNat (outcomes.count .failed)) ++ ")")

/-- The children that `handle_exiting` waits for, after it has asked for their deletion. -/
def drainChildren (p : Process) : Handler (List Process) := do
  match p.observedPid with
  | none => return []
  | some pid =>
    let processes ← errCtx "list processes" (send .listProcesses)
    let children := processes.filter fun c => c.declaredParentPid = some pid
    -- A child that is already being deleted is only waited for.
    (children.filter fun c => !c.isBeingDeleted).forM fun child =>
      bestEffort (send (.deleteProcess child.namespaceOrDefault child.metadata.name))
    return children

/-- `handle_exiting`. -/
def handleExiting (p : Process) : Handler Action := do
  let children ← drainChildren p
  if children = [] then
    errCtx "patch (exiting→zombie)" (transition .zombie)
    return tick
  else return shortRetry

/-- `handle_failed`. -/
def handleFailed (p : Process) : Handler Action := do
  let now ← utcNow
  match lifetimeClock p .failed now with
  | .now reason =>
    -- Exports of a failure are released first, on the way that leads to a zombie in the end.
    if hasApplicableExports p .failed then transitionToReleasing reason.render
    else
      errCtx "patch (failed→zombie, ephemeral teardown)" (transitionMsg .zombie reason.render)
      return tick
  | .skip =>
    errCtx "patch (failed→zombie)" (transition .zombie)
    return tick

/-- `handle_zombie`. -/
def handleZombie : Handler Action := do
  errCtx "patch (zombie→reaped)" (transition .reaped)
  return tick

/-- `handle_reaped`. -/
def handleReaped (p : Process) : Handler Action := do
  let _ ← errCtx "release finalizer" (removeFinalizer p processFinalizer)
  return .awaitChange

end

end Tatara.Reconciler
