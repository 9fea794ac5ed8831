import Tatara.Domain.Job

/-! Allocations, the phases that the distributed state machine moves workloads through, and nodes. -/

namespace Tatara.Domain

open Tatara.Rust

/-- Where an allocation is in its life. -/
inductive AllocationState where
  | pending
  | running
  | complete
  | failed
  | lost
  deriving DecidableEq, Repr

namespace AllocationState

/-- The name of an allocation state in JSON. -/
def serialize : AllocationState → Json
  | pending => .string "pending"
  | running => .string "running"
  | complete => .string "complete"
  | failed => .string "failed"
  | lost => .string "lost"

end AllocationState

/-- Where a task is in its life. -/
inductive TaskRunState where
  | pending
  | running
  | dead
  deriving DecidableEq, Repr

/-- What is known of a task of an allocation. -/
structure TaskState where
  state : TaskRunState
  pid : Option UInt32
  exitCode : Option Int32
  startedAt : Option DateTime
  finishedAt : Option DateTime
  restarts : UInt32

/-- A task group placed on a node. -/
structure Allocation where
  id : Uuid
  jobId : String
  groupName : String
  nodeId : String
  state : AllocationState
  createdAt : DateTime
  taskStates : Std.ExtTreeMap String TaskState
  jobVersion : UInt64

/-- `TaskState::new`. -/
def TaskState.new : TaskState :=
  { state := .pending, pid := none, exitCode := none, startedAt := none, finishedAt := none
    restarts := 0 }

namespace Allocation

/-- `new`, with the identifier and the reading of the clock that it takes. -/
def new (id : Uuid) (createdAt : DateTime) (jobId groupName nodeId : String)
    (taskNames : List String) : Allocation :=
  { id, jobId, groupName, nodeId, createdAt
    state := .pending
    taskStates := .ofList (taskNames.map fun name => (name, TaskState.new))
    jobVersion := 0 }

/-- `with_job_version`. -/
def withJobVersion (a : Allocation) (version : UInt64) : Allocation :=
  { a with jobVersion := version }

/-- `is_terminal`. -/
def isTerminal (a : Allocation) : Bool :=
  a.state = .complete || a.state = .failed || a.state = .lost

end Allocation

/-- The phase of a workload, with what is known of it in each. -/
inductive WorkloadPhase (W E C T : Type) where
  | initial
  | warming (detail : W)
  | executing (detail : E)
  | contracting (detail : C)
  | terminal (detail : T)

/-- Why a workload winds down. -/
inductive ContractReason where
  | stopped
  | superseded (newVersion : UInt64)
  | nodeDrain
  | scaleDown
  | healthFailure
  | resourcePressure
  deriving DecidableEq

/-- How a workload ended. -/
inductive Outcome where
  | success
  | failed
  | lost
  | cancelled
  deriving DecidableEq, Repr

/-- What the checks of a workload say. -/
inductive HealthStatus where
  | unknown
  | passing
  | warning (message : String)
  | critical (message : String)
  deriving DecidableEq

/-- What the scheduler wants of an allocation. -/
inductive DesiredPhase where
  | active
  | stopped (reason : ContractReason)
  deriving DecidableEq

/-- How far a task is from running. -/
structure TaskWarmProgress where
  fetchProgress : F64
  depsResolved : Bool
  portAllocated : Bool
  warmupChecksPassed : UInt32
  warmupChecksRequired : UInt32

/-- A running task. -/
structure TaskExecuteDetail where
  pid : Option UInt32
  containerId : Option String
  health : HealthStatus
  startedAt : DateTime
  healthCheckEpoch : UInt64

/-- A task on its way to a stop. -/
structure TaskContractDetail where
  reason : ContractReason
  signalSentAt : Option DateTime
  gracePeriodSecs : UInt64
  drainConnections : Bool

/-- A task that has ended. -/
structure TaskTerminalDetail where
  outcome : Outcome
  exitCode : Option Int32
  finishedAt : DateTime
  restarts : UInt32

/-- The phase of a task. -/
abbrev TaskPhase :=
  WorkloadPhase TaskWarmProgress TaskExecuteDetail TaskContractDetail TaskTerminalDetail

/-- How far an allocation is from running. -/
structure AllocWarmProgress where
  secretsResolved : Bool
  volumesMounted : Bool
  taskProgress : Std.ExtTreeMap String TaskWarmProgress
  networkIdentityAssigned : Bool
  endpointRegistered : Bool

/-- A running allocation. -/
structure AllocExecuteDetail where
  registeredInCatalog : Bool
  health : HealthStatus
  taskStates : Std.ExtTreeMap String TaskPhase

/-- An allocation on its way to a stop. -/
structure AllocContractDetail where
  reason : ContractReason
  deregisteredFromCatalog : Bool
  taskStates : Std.ExtTreeMap String TaskPhase

/-- An allocation that has ended. -/
structure AllocTerminalDetail where
  outcome : Outcome
  finishedAt : DateTime

/-- The phase of an allocation. -/
abbrev AllocationPhase :=
  WorkloadPhase AllocWarmProgress AllocExecuteDetail AllocContractDetail AllocTerminalDetail

/-- How far a node is from taking work. -/
structure NodeWarmProgress where
  raftJoined : Bool
  gossipConverged : Bool
  driversReady : List String
  wireguardTunnelUp : Bool
  meshPeersConnected : UInt32

/-- A node that takes work. -/
structure NodeExecuteDetail where
  eligible : Bool
  allocationCount : UInt32
  lastHeartbeat : DateTime

/-- A node that hands its work over. -/
structure NodeContractDetail where
  reason : ContractReason
  drainingAllocations : List Uuid

/-- A node that has left. -/
structure NodeTerminalDetail where
  departedAt : DateTime
  reason : ContractReason

/-- The phase of a node. -/
abbrev NodePhase :=
  WorkloadPhase NodeWarmProgress NodeExecuteDetail NodeContractDetail NodeTerminalDetail

/-- What the scheduler declares an allocation should be. -/
structure DesiredAllocationState where
  allocId : Uuid
  jobId : String
  groupName : String
  nodeId : String
  jobVersion : UInt64
  desiredPhase : DesiredPhase
  generation : UInt64

/-- What a node observes an allocation to be. -/
structure ObservedAllocationState where
  allocId : Uuid
  nodeId : String
  phase : AllocationPhase
  observedAt : DateTime
  observationSeq : UInt64

/-- Whether a node takes work. -/
inductive NodeStatus where
  | ready
  | down
  | draining
  deriving DecidableEq, Repr

/-- A node, with what it has in all and what it has left. -/
structure Node where
  id : String
  address : String
  status : NodeStatus
  eligible : Bool
  totalResources : Resources
  availableResources : Resources
  attributes : Std.ExtTreeMap String String
  drivers : List DriverType
  lastHeartbeat : DateTime
  allocations : List Uuid

/-- The node takes work. -/
def Node.isReady (n : Node) : Bool := n.status = .ready && n.eligible

end Tatara.Domain
