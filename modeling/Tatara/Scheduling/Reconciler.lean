import Tatara.Lib.Least
import Tatara.Scheduling.Evaluator

/-! The reconciler, as far as it creates allocations: the count pass and the rolling update. -/

namespace Tatara.Scheduling

open Tatara.Domain Tatara.Rust

/-- `list_allocations_for_job`. -/
def listAllocationsForJob (jobId : String) : Task (List Allocation) :=
  Program.call (Call.listAllocationsForJob jobId)

/-- `list_nodes`. -/
def listNodes : Task (List Node) := Program.call Call.listNodes

/-- `eval_expr`. -/
def evalExpr (expr : String) : Task (Except String JobSpec) := Program.call (Call.evalExpr expr)

/-- `put_allocation`. -/
def putAllocation (alloc : Allocation) : Task (Except String Unit) :=
  Program.call (Call.putAllocation alloc)

/-- `start_allocation`. -/
def startAllocation (alloc : Allocation) : Task (Except String Unit) :=
  Program.call (Call.startAllocation alloc)

/-- `stop_allocation`. -/
def stopAllocation (allocId : Uuid) (secs : Nat) : Task (Except String Unit) :=
  Program.call (Call.stopAllocation allocId secs)

/-- `update_job`. -/
def updateJob (jobId : String) (update : JobUpdate) : Task (Except String Unit) :=
  Program.call (Call.updateJob jobId update)

/-- A call whose failure ends the pass. -/
def attempt (task : Task (Except String Unit)) : Handler Unit := ExceptT.mk task

/-- A call whose failure is only logged. -/
def bestEffort (task : Task (Except String Unit)) : Handler Unit :=
  liftM (do
    let _ ← task
    return () : Task Unit)

/-- The allocation runs or is about to. -/
def isActive (a : Allocation) : Bool := a.state = .running || a.state = .pending

/-- How many allocations of a group a node carries. -/
def load (allocations : List Allocation) (group : TaskGroup) (n : Node) : Nat :=
  allocations.countP fun a => a.nodeId = n.id && !a.isTerminal && a.groupName = group.name

/-- Create an allocation, store it, and start it. -/
def createAllocation (jobId : String) (version : UInt64) (group : TaskGroup) (nodeId : String) :
    Handler Unit := do
  let alloc ← allocate jobId group nodeId
  let alloc := alloc.withJobVersion version
  attempt (putAllocation alloc)
  bestEffort (startAllocation alloc)

/-- Stop allocations one after the other. -/
def stopAllocations (secs : Nat) (allocations : List Allocation) : Handler Unit :=
  allocations.forM fun a => bestEffort (stopAllocation a.id secs)

/-- How many allocations of a group are active. -/
def activeCount (allocations : List Allocation) (group : TaskGroup) : UInt32 :=
  UInt32.ofNat (allocations.countP fun a => a.groupName = group.name && isActive a)

/-- The body of the loop of `reconcile_count`. -/
def reconcileGroup (job : Job) (allocations : List Allocation) (ready : List Node)
    (group : TaskGroup) : Handler Unit := do
  let desired := desiredCount job group ready
  let active := activeCount allocations group
  if active < desired then
    (List.range (desired - active).toNat).forM fun _ =>
      -- The list of allocations is not read again, so every turn comes to the same node.
      match firstLeastBy (load allocations group) ready with
      | none => return
      | some node => createAllocation job.id job.version group node.id
  else if desired < active then
    let groupAllocs := allocations.filter fun a => a.groupName = group.name && isActive a
    let newestFirst := groupAllocs.mergeSort fun a b => b.createdAt.nanos ≤ a.createdAt.nanos
    stopAllocations 10 (newestFirst.take (active - desired).toNat)

/-- `reconcile_count`. -/
def reconcileCount (job : Job) (nodes : List Node) : Handler Unit := do
  if job.status ≠ .running then return
  let allocations ← listAllocationsForJob job.id
  let ready := readyNodes nodes
  if ready.isEmpty then return
  job.groups.forM (reconcileGroup job allocations ready)

/-- The flake that a job comes from, by its first task with the Nix driver. -/
def flakeRefOf (job : Job) : Option String :=
  (job.groups.flatMap (·.tasks)).findSome? fun task =>
    match task.config with
    | .nix flakeRef _ => some flakeRef
    | _ => none

/-- The node that the replacement of an allocation goes to. -/
def replacementNode (ready : List Node) (old : Allocation) : Option String :=
  if ready.any (·.id = old.nodeId) then some old.nodeId
  else ready.head?.map (·.id)

/-- The body of the loop of the rolling update. -/
def replaceAllocation (jobId : String) (version : UInt64) (spec : JobSpec) (ready : List Node)
    (old : Allocation) : Handler Unit :=
  match spec.groups.find? (·.name = old.groupName) with
  | none => return
  | some group =>
    match replacementNode ready old with
    | none => return
    | some nodeId => createAllocation jobId version group nodeId

/-- The allocations that the rolling update replaces. -/
def outdated (allocations : List Allocation) (version : UInt64) : List Allocation :=
  allocations.filter fun a => a.jobVersion < version && isActive a

/-- The rolling update, in which the new allocations are created before the old ones stop. -/
def rollingUpdate (job : Job) (spec : JobSpec) (hash : String) : Handler Unit := do
  let version := job.version + 1
  attempt (updateJob job.id
    { groups := spec.groups, constraints := spec.constraints, «meta» := spec.meta
      specHash := hash, version := version })
  let allocations ← listAllocationsForJob job.id
  let old := outdated allocations version
  let nodes ← listNodes
  old.forM (replaceAllocation job.id version spec (readyNodes nodes))
  stopAllocations 30 old

/-- `reconcile_drift`, for a hash of the specifications. -/
def reconcileDrift (contentHash : JobSpec → String) (job : Job) : Handler Unit := do
  match flakeRefOf job with
  | none => return
  | some flakeRef =>
    let expr := "(builtins.getFlake \"" ++ flakeRef ++ "\").tataraJobs." ++ job.id
    let evaluated : Except String JobSpec ← liftM (evalExpr expr)
    match evaluated with
    -- The flake may have no jobs, and nothing is done then.
    | .error _ => return
    | .ok spec =>
      if contentHash spec = job.specHash.getD "" then return
      rollingUpdate job spec (contentHash spec)

end Tatara.Scheduling
