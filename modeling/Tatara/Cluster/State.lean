import Tatara.Domain.Event

/-! The state that the cluster replicates, the commands that change it, and their responses. -/

namespace Tatara.Cluster

open Tatara.Rust Tatara.Domain

/-- The number of a node in the cluster. -/
abbrev NodeId := UInt64

/-- What a node is willing to do. -/
structure NodeRoles where
  voter : Bool
  worker : Bool
  voterPriority : UInt32

/-- What a node advertises of itself. -/
structure NodeMeta where
  nodeId : NodeId
  hostname : String
  httpAddr : String
  gossipAddr : String
  raftAddr : String
  os : String
  arch : String
  roles : NodeRoles
  drivers : List DriverType
  totalResources : Resources
  availableResources : Resources
  allocationsRunning : UInt32
  joinedAt : DateTime
  version : String
  eligible : Bool
  wireguardPubkey : Option String
  tunnelAddress : Option IpAddr

/-- A job as it was at one version. -/
structure JobVersionEntry where
  version : UInt64
  spec : JobSpec
  status : JobStatus
  submittedAt : DateTime

/-- The replicated state. -/
structure ClusterState where
  jobs : Std.ExtTreeMap String Job
  allocations : Std.ExtTreeMap Uuid Allocation
  nodes : Std.ExtTreeMap NodeId NodeMeta
  dataIndex : Std.ExtTreeMap String (List NodeId)
  lastAppliedLog : UInt64
  events : EventRing
  jobHistory : Std.ExtTreeMap String (List JobVersionEntry)
  releases : Std.ExtTreeMap Uuid Release
  sources : Std.ExtTreeMap Uuid Source
  desiredAllocations : Std.ExtTreeMap Uuid DesiredAllocationState
  observedAllocations : Std.ExtTreeMap Uuid ObservedAllocationState
  schedulingGeneration : UInt64
  nodePhases : Std.ExtTreeMap NodeId NodePhase

namespace ClusterState

/-- The state of a cluster that nothing has happened to. -/
def default : ClusterState where
  jobs := ∅
  allocations := ∅
  nodes := ∅
  dataIndex := ∅
  lastAppliedLog := 0
  events := .default
  jobHistory := ∅
  releases := ∅
  sources := ∅
  desiredAllocations := ∅
  observedAllocations := ∅
  schedulingGeneration := 0
  nodePhases := ∅

end ClusterState

/-- A command of the log. -/
inductive ClusterCommand where
  | putJob (job : Job)
  | updateJobStatus (jobId : String) (status : JobStatus)
  | putAllocation (alloc : Allocation)
  | updateAllocation (allocId : Uuid) (state : AllocationState)
      (taskStates : Std.ExtTreeMap String TaskState)
  | registerNode (nodeMeta : NodeMeta)
  | removeNode (nodeId : NodeId)
  | advertiseChunk (hash : String) (nodeId : NodeId)
  | removeChunkAdvertisement (hash : String) (nodeId : NodeId)
  | emitEvent (event : Event)
  | rollbackJob (jobId : String) (version : UInt64)
  | putRelease (release : Release)
  | updateReleaseStatus (releaseId : Uuid) (status : ReleaseStatus)
  | drainNode (nodeId : NodeId)
  | setNodeEligibility (nodeId : NodeId) (eligible : Bool)
  | putSource (source : Source)
  | updateSource (sourceId : Uuid) (status : SourceStatus) (lastRev lastError : Option String)
      (managedJobs : Option (Std.ExtTreeMap String String))
  | deleteSource (sourceId : Uuid)
  | proposeAllocations (expectedGeneration : UInt64) (allocations : List DesiredAllocationState)
      (jobStatusUpdates : List (String × JobStatus))
  | setDesiredAllocation (desired : DesiredAllocationState)
  | removeDesiredAllocation (allocId : Uuid)
  | reportObservation (nodeId : NodeId) (allocId : Uuid) (phase : AllocationPhase)
      (observationSeq : UInt64)
  | batchObservations (nodeId : NodeId) (observations : List (Uuid × AllocationPhase))
      (observationSeq : UInt64)
  | reportNodePhase (nodeId : NodeId) (phase : NodePhase)
  | heartbeat (nodeId : NodeId) (timestamp : DateTime) (allocationSummary : List (Uuid × String))

/-- The answer to a command. -/
inductive ClusterResponse where
  | ok
  | job (job : Job)
  | allocation (alloc : Allocation)
  | release (release : Release)
  | source (source : Source)
  | jobHistory (entries : List JobVersionEntry)
  | events (events : List Event)
  | error (message : String)

end Tatara.Cluster
