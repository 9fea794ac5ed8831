import Tatara.Cluster.State
import Tatara.Lib.Machine

/-! The Raft state machine: how a log entry changes the replicated state, which parts of it a command
leaves alone, and its snapshots. -/

namespace Tatara.Cluster

open Tatara.Rust Tatara.Domain

namespace ClusterState

/-- Add an event that is made on the spot. -/
def emit (state : ClusterState) (readings : Readings) (reads : Nat) (kind : EventKind)
    (payload : List (String × Json)) : ClusterState :=
  { state with events := state.events.push (.new readings reads kind (.ofFields payload)) }

/-- `ClusterCommand::PutJob`. -/
def putJob (state : ClusterState) (readings : Readings) (job : Job) :
    ClusterResponse × ClusterState :=
  let spec : JobSpec :=
    { id := job.id, jobType := job.jobType, groups := job.groups, constraints := job.constraints,
      «meta» := job.meta }
  let entry : JobVersionEntry :=
    { version := job.version, spec := spec, status := job.status, submittedAt := job.submittedAt }
  -- The history takes every version that is put, also one that it has already.
  let history := (state.jobHistory[job.id]?.getD []) ++ [entry]
  let state := { state with jobHistory := state.jobHistory.insert job.id history }
  let state := state.emit readings 0 .jobSubmitted
    [("job_id", .string job.id), ("version", .ofU64 job.version),
      ("job_type", job.jobType.serialize)]
  (.job job, { state with jobs := state.jobs.insert job.id job })

/-- `ClusterCommand::UpdateJobStatus`. -/
def updateJobStatus (state : ClusterState) (readings : Readings) (jobId : String)
    (status : JobStatus) : ClusterResponse × ClusterState :=
  match state.jobs[jobId]? with
  | none => (.error ("Job not found: " ++ jobId), state)
  | some job =>
    let oldStatus := job.status
    let job := { job with status := status }
    -- A status that stays the same moves no version on and is no event.
    if oldStatus ≠ status then
      let job := { job with version := job.version + 1 }
      let kind := match status with
        | .dead => EventKind.jobStopped
        | _ => EventKind.jobUpdated
      let state := { state with jobs := state.jobs.insert jobId job }
      (.job job, state.emit readings 0 kind
        [("job_id", .string jobId), ("old_status", oldStatus.serialize),
          ("new_status", status.serialize), ("version", .ofU64 job.version)])
    else (.job job, { state with jobs := state.jobs.insert jobId job })

/-- `ClusterCommand::PutAllocation`. -/
def putAllocation (state : ClusterState) (readings : Readings) (alloc : Allocation) :
    ClusterResponse × ClusterState :=
  let state := state.emit readings 0 .allocationPlaced
    [("alloc_id", .string alloc.id.render), ("job_id", .string alloc.jobId),
      ("node_id", .string alloc.nodeId), ("group", .string alloc.groupName)]
  (.allocation alloc, { state with allocations := state.allocations.insert alloc.id alloc })

/-- `ClusterCommand::UpdateAllocation`. -/
def updateAllocation (state : ClusterState) (readings : Readings) (allocId : Uuid)
    (allocState : AllocationState) (taskStates : Std.ExtTreeMap String TaskState) :
    ClusterResponse × ClusterState :=
  match state.allocations[allocId]? with
  | none => (.error ("Allocation not found: " ++ allocId.render), state)
  | some alloc =>
    let oldState := alloc.state
    -- The task states are replaced even where the state stays.
    let alloc := { alloc with state := allocState, taskStates := taskStates }
    let state := { state with allocations := state.allocations.insert allocId alloc }
    if oldState ≠ allocState then
      let kind := match allocState with
        | .running => EventKind.allocationStarted
        | .failed => EventKind.allocationFailed
        | .complete => EventKind.allocationCompleted
        | _ => EventKind.allocationPlaced
      (.allocation alloc, state.emit readings 0 kind
        [("alloc_id", .string allocId.render), ("job_id", .string alloc.jobId),
          ("old_state", oldState.serialize), ("new_state", allocState.serialize)])
    else (.allocation alloc, state)

/-- `ClusterCommand::RegisterNode`. -/
def registerNode (state : ClusterState) (readings : Readings) (nodeMeta : NodeMeta) :
    ClusterResponse × ClusterState :=
  let state := state.emit readings 0 .nodeJoined
    [("node_id", .ofU64 nodeMeta.nodeId), ("hostname", .string nodeMeta.hostname)]
  (.ok, { state with nodes := state.nodes.insert nodeMeta.nodeId nodeMeta })

/-- `ClusterCommand::RemoveNode`. -/
def removeNode (state : ClusterState) (readings : Readings) (nodeId : NodeId) :
    ClusterResponse × ClusterState :=
  let state := state.emit readings 0 .nodeLeft [("node_id", .ofU64 nodeId)]
  (.ok, { state with nodes := state.nodes.erase nodeId })

/-- `ClusterCommand::AdvertiseChunk`. -/
def advertiseChunk (state : ClusterState) (hash : String) (nodeId : NodeId) :
    ClusterResponse × ClusterState :=
  -- The node is added whether or not it is listed.
  let holders := (state.dataIndex[hash]?.getD []) ++ [nodeId]
  (.ok, { state with dataIndex := state.dataIndex.insert hash holders })

/-- `ClusterCommand::RemoveChunkAdvertisement`. -/
def removeChunkAdvertisement (state : ClusterState) (hash : String) (nodeId : NodeId) :
    ClusterResponse × ClusterState :=
  match state.dataIndex[hash]? with
  | none => (.ok, state)
  | some holders =>
    let holders := holders.filter fun id => id ≠ nodeId
    -- The last holder takes the entry of the chunk along.
    if holders.isEmpty then (.ok, { state with dataIndex := state.dataIndex.erase hash })
    else (.ok, { state with dataIndex := state.dataIndex.insert hash holders })

/-- The entry of the history that a rollback goes back to. -/
def rollbackTarget (state : ClusterState) (jobId : String) (version : UInt64) :
    Option JobVersionEntry :=
  -- Of several entries with the version, the oldest one counts.
  state.jobHistory[jobId]?.bind fun history =>
    history.find? fun entry => entry.version == version

/-- `ClusterCommand::RollbackJob`. -/
def rollbackJob (state : ClusterState) (readings : Readings) (jobId : String) (version : UInt64) :
    ClusterResponse × ClusterState :=
  match state.rollbackTarget jobId version with
  | some entry =>
    match state.jobs[jobId]? with
    | some job =>
      let job := { job with
        groups := entry.spec.groups
        constraints := entry.spec.constraints
        «meta» := entry.spec.meta
        version := job.version + 1
        status := .pending }
      let state := { state with jobs := state.jobs.insert jobId job }
      (.job job, state.emit readings 0 .jobUpdated
        [("job_id", .string jobId), ("rolled_back_to", .ofU64 version),
          ("new_version", .ofU64 job.version)])
    | none => (.error ("Job not found: " ++ jobId), state)
  | none => (.error ("Version " ++ renderU64 version ++ " not found for job " ++ jobId), state)

/-- `ClusterCommand::PutRelease`. -/
def putRelease (state : ClusterState) (release : Release) : ClusterResponse × ClusterState :=
  (.release release, { state with releases := state.releases.insert release.id release })

/-- `ClusterCommand::UpdateReleaseStatus`. -/
def updateReleaseStatus (state : ClusterState) (releaseId : Uuid) (status : ReleaseStatus) :
    ClusterResponse × ClusterState :=
  match state.releases[releaseId]? with
  | none => (.error ("Release not found: " ++ releaseId.render), state)
  | some release =>
    let release := { release with status := status }
    (.release release, { state with releases := state.releases.insert releaseId release })

/-- `ClusterCommand::DrainNode`. -/
def drainNode (state : ClusterState) (readings : Readings) (nodeId : NodeId) :
    ClusterResponse × ClusterState :=
  match state.nodes[nodeId]? with
  | none => (.error ("Node not found: " ++ renderU64 nodeId), state)
  | some node =>
    let state := { state with nodes := state.nodes.insert nodeId { node with eligible := false } }
    (.ok, state.emit readings 0 .nodeDraining
      [("node_id", .ofU64 nodeId), ("hostname", .string node.hostname)])

/-- `ClusterCommand::SetNodeEligibility`. -/
def setNodeEligibility (state : ClusterState) (nodeId : NodeId) (eligible : Bool) :
    ClusterResponse × ClusterState :=
  match state.nodes[nodeId]? with
  | none => (.error ("Node not found: " ++ renderU64 nodeId), state)
  | some node =>
    (.ok, { state with nodes := state.nodes.insert nodeId { node with eligible := eligible } })

/-- `ClusterCommand::PutSource`. -/
def putSource (state : ClusterState) (readings : Readings) (source : Source) :
    ClusterResponse × ClusterState :=
  let state := state.emit readings 0 .sourceCreated
    [("source_id", .string source.id.render), ("name", .string source.name),
      ("flake_ref", .string source.flakeRef)]
  (.source source, { state with sources := state.sources.insert source.id source })

/-- The event that follows from a new status of a source. -/
def sourceEventKind (oldStatus status : SourceStatus) : EventKind :=
  -- A suspension and its end are told once, when they happen.
  match status with
  | .ready => .sourceReconciled
  | .failed => .sourceFailed
  | .suspended => if oldStatus ≠ .suspended then .sourceSuspended else .sourceReconciled
  | .pending => if oldStatus = .suspended then .sourceResumed else .sourceReconciled

/-- `ClusterCommand::UpdateSource`. -/
def updateSource (state : ClusterState) (readings : Readings) (sourceId : Uuid)
    (status : SourceStatus) (lastRev lastError : Option String)
    (managedJobs : Option (Std.ExtTreeMap String String)) : ClusterResponse × ClusterState :=
  match state.sources[sourceId]? with
  | none => (.error ("Source not found: " ++ sourceId.render), state)
  | some source =>
    let oldStatus := source.status
    -- A missing revision or job map leaves the old one, and a missing error clears it.
    let source := { source with
      status := status
      lastRev := lastRev.or source.lastRev
      lastError := lastError
      managedJobs := managedJobs.getD source.managedJobs
      lastReconciledAt := some (readings.now 0) }
    let state := { state with sources := state.sources.insert sourceId source }
    -- The event reads the clock a second time.
    (.source source, state.emit readings 1 (sourceEventKind oldStatus status)
      [("source_id", .string sourceId.render), ("name", .string source.name),
        ("status", status.serialize)])

/-- `ClusterCommand::DeleteSource`. -/
def deleteSource (state : ClusterState) (readings : Readings) (sourceId : Uuid) :
    ClusterResponse × ClusterState :=
  match state.sources[sourceId]? with
  | none => (.error ("Source not found: " ++ sourceId.render), state)
  | some source =>
    let state := { state with sources := state.sources.erase sourceId }
    (.ok, state.emit readings 0 .sourceReconciled
      [("source_id", .string sourceId.render), ("name", .string source.name),
        ("action", .string "deleted")])

/-- Set the status of a job that exists. -/
def setJobStatus (jobs : Std.ExtTreeMap String Job) (update : String × JobStatus) :
    Std.ExtTreeMap String Job :=
  -- Neither the version nor the events take part here.
  match jobs[update.1]? with
  | some job => jobs.insert update.1 { job with status := update.2 }
  | none => jobs

/-- `ClusterCommand::ProposeAllocations`. -/
def proposeAllocations (state : ClusterState) (expectedGeneration : UInt64)
    (allocations : List DesiredAllocationState) (jobStatusUpdates : List (String × JobStatus)) :
    ClusterResponse × ClusterState :=
  -- Nothing is written before the generations have been compared.
  if state.schedulingGeneration ≠ expectedGeneration then
    (.error ("scheduling generation conflict: expected " ++ renderU64 expectedGeneration ++
      ", current " ++ renderU64 state.schedulingGeneration), state)
  else
    (.ok, { state with
      schedulingGeneration := state.schedulingGeneration + 1
      desiredAllocations := allocations.foldl (fun desired alloc =>
        desired.insert alloc.allocId alloc) state.desiredAllocations
      jobs := jobStatusUpdates.foldl setJobStatus state.jobs })

/-- Record what a node observed of an allocation, in place of what was recorded before. -/
def observe (state : ClusterState) (nodeId : NodeId) (allocId : Uuid) (phase : AllocationPhase)
    (observedAt : DateTime) (observationSeq : UInt64) : ClusterState :=
  let observed : ObservedAllocationState :=
    { allocId := allocId, nodeId := renderU64 nodeId, phase := phase, observedAt := observedAt,
      observationSeq := observationSeq }
  -- The sequence number is stored and compared with nothing.
  { state with observedAllocations := state.observedAllocations.insert allocId observed }

/-- The loop of `ClusterCommand::BatchObservations`, with the clock read once for each entry. -/
def observeAll (readings : Readings) (nodeId : NodeId) (observationSeq : UInt64) :
    Nat → List (Uuid × AllocationPhase) → ClusterState → ClusterState
  | _, [], state => state
  | reads, (allocId, phase) :: observations, state =>
    observeAll readings nodeId observationSeq (reads + 1) observations
      (state.observe nodeId allocId phase (readings.now reads) observationSeq)

/-- `ClusterCommand::Heartbeat`, which reuses the time of joining for the last sign of life. -/
def heartbeat (state : ClusterState) (nodeId : NodeId) (timestamp : DateTime) :
    ClusterResponse × ClusterState :=
  match state.nodes[nodeId]? with
  | none => (.ok, state)
  | some node =>
    (.ok, { state with nodes := state.nodes.insert nodeId { node with joinedAt := timestamp } })

end ClusterState

/-- `apply_command`. -/
def applyCommand (readings : Readings) (cmd : ClusterCommand) (state : ClusterState) :
    ClusterResponse × ClusterState :=
  match cmd with
  | .putJob job => state.putJob readings job
  | .updateJobStatus jobId status => state.updateJobStatus readings jobId status
  | .putAllocation alloc => state.putAllocation readings alloc
  | .updateAllocation allocId allocState taskStates =>
    state.updateAllocation readings allocId allocState taskStates
  | .registerNode nodeMeta => state.registerNode readings nodeMeta
  | .removeNode nodeId => state.removeNode readings nodeId
  | .advertiseChunk hash nodeId => state.advertiseChunk hash nodeId
  | .removeChunkAdvertisement hash nodeId => state.removeChunkAdvertisement hash nodeId
  | .emitEvent event => (.ok, { state with events := state.events.push event })
  | .rollbackJob jobId version => state.rollbackJob readings jobId version
  | .putRelease release => state.putRelease release
  | .updateReleaseStatus releaseId status => state.updateReleaseStatus releaseId status
  | .drainNode nodeId => state.drainNode readings nodeId
  | .setNodeEligibility nodeId eligible => state.setNodeEligibility nodeId eligible
  | .putSource source => state.putSource readings source
  | .updateSource sourceId status lastRev lastError managedJobs =>
    state.updateSource readings sourceId status lastRev lastError managedJobs
  | .deleteSource sourceId => state.deleteSource readings sourceId
  | .proposeAllocations expectedGeneration allocations jobStatusUpdates =>
    state.proposeAllocations expectedGeneration allocations jobStatusUpdates
  | .setDesiredAllocation desired =>
    (.ok, { state with
      desiredAllocations := state.desiredAllocations.insert desired.allocId desired })
  | .removeDesiredAllocation allocId =>
    (.ok, { state with desiredAllocations := state.desiredAllocations.erase allocId })
  | .reportObservation nodeId allocId phase observationSeq =>
    (.ok, state.observe nodeId allocId phase (readings.now 0) observationSeq)
  | .batchObservations nodeId observations observationSeq =>
    (.ok, state.observeAll readings nodeId observationSeq 0 observations)
  | .reportNodePhase nodeId phase =>
    (.ok, { state with nodePhases := state.nodePhases.insert nodeId phase })
  | .heartbeat nodeId timestamp _ => state.heartbeat nodeId timestamp

/-- The state that commands lead to from the empty one, each with what is read while it is
applied. -/
def ClusterState.after (inputs : List (Readings × ClusterCommand)) : ClusterState :=
  (Machine.run applyCommand inputs .default).2

/-- One more command is applied to the state that the commands before it lead to. -/
theorem ClusterState.after_concat (inputs : List (Readings × ClusterCommand)) (readings : Readings)
    (cmd : ClusterCommand) :
    after (inputs ++ [(readings, cmd)]) = (applyCommand readings cmd (after inputs)).2 := by
  -- The commands are a run of the machine.
  simp only [after, Machine.run_concat]

/-- The term and the node that an entry of the log comes from. -/
structure LeaderId where
  term : UInt64
  nodeId : NodeId
  deriving DecidableEq

/-- The place of an entry in the log. -/
structure LogId where
  leaderId : LeaderId
  index : UInt64
  deriving DecidableEq

/-- A configuration of the cluster: the joint sets of voters, and the address of every node. -/
structure Membership where
  configs : List (Std.ExtTreeSet NodeId)
  nodes : Std.ExtTreeMap NodeId String

/-- A configuration with the place of the entry that brought it. -/
structure StoredMembership where
  logId : Option LogId
  membership : Membership

/-- What an entry of the log asks for. -/
inductive EntryPayload where
  | blank
  | normal (cmd : ClusterCommand)
  | membership (membership : Membership)

/-- An entry of the log. -/
structure Entry where
  logId : LogId
  payload : EntryPayload

/-- What the state machine holds. -/
structure StateMachineData where
  lastAppliedLog : Option LogId
  lastMembership : StoredMembership
  clusterState : ClusterState

namespace StateMachineData

/-- What a new state machine holds. -/
def default : StateMachineData where
  lastAppliedLog := none
  lastMembership := ⟨none, ⟨[], ∅⟩⟩
  clusterState := .default

/-- One turn of the loop in `StateMachine::apply`. -/
def applyEntry (readings : Readings) (entry : Entry) (data : StateMachineData) :
    ClusterResponse × StateMachineData :=
  -- The place is noted before the payload is looked at.
  let data := { data with lastAppliedLog := some entry.logId }
  match entry.payload with
  | .membership membership =>
    (.ok, { data with lastMembership := ⟨some entry.logId, membership⟩ })
  | .normal cmd =>
    let (response, state) := applyCommand readings cmd data.clusterState
    (response, { data with clusterState := state })
  | .blank => (.ok, data)

/-- `StateMachine::apply`, where each entry comes with what is read while it is applied. -/
def apply (entries : List (Readings × Entry)) (data : StateMachineData) :
    List ClusterResponse × StateMachineData :=
  Machine.run applyEntry entries data

/-- Apply one batch of entries after the other. -/
def applyBatches (batches : List (List (Readings × Entry))) (data : StateMachineData) :
    List ClusterResponse × StateMachineData :=
  Machine.runBatches applyEntry batches data

end StateMachineData

/-- The way `serde_json` writes and reads what the state machine holds. -/
class StateCodec where
  Bytes : Type
  toVec : StateMachineData → Except String Bytes
  fromSlice : Bytes → Except String StateMachineData

/-- What goes wrong with a snapshot. -/
inductive StorageError where
  | readStateMachine (source : String)
  | readSnapshot (source : String)
  deriving DecidableEq, Repr

/-- What a snapshot says of itself. -/
structure SnapshotMeta where
  lastLogId : Option LogId
  lastMembership : StoredMembership
  snapshotId : String

/-- A snapshot of the state machine. -/
structure Snapshot [StateCodec] where
  «meta» : SnapshotMeta
  snapshot : StateCodec.Bytes

namespace StateMachineData

variable [StateCodec]

/-- The snapshot of what the state machine holds, under a name with a given ending. -/
def snapshotAs (data : StateMachineData) (ending : String) : Except StorageError Snapshot :=
  match StateCodec.toVec data with
  | .error err => .error (.readStateMachine err)
  | .ok bytes =>
    let index := (data.lastAppliedLog.map LogId.index).getD 0
    .ok
      { «meta» :=
          { lastLogId := data.lastAppliedLog
            lastMembership := data.lastMembership
            snapshotId := renderU64 index ++ "-" ++ ending }
        snapshot := bytes }

/-- `StateMachine::build_snapshot`, which puts the time in seconds into the name. -/
def buildSnapshot (data : StateMachineData) (now : DateTime) : Except StorageError Snapshot :=
  data.snapshotAs (String.ofList (renderInt (now.nanos / 1000000000)))

/-- `StateMachine::get_current_snapshot`. -/
def getCurrentSnapshot (data : StateMachineData) : Except StorageError (Option Snapshot) :=
  -- The snapshot is made of what is in memory, and not of a snapshot that was built before.
  if data.lastAppliedLog.isNone then .ok none
  else (data.snapshotAs "snap").map some

/-- `StateMachine::install_snapshot`, which leaves nothing of what was held before. -/
def installSnapshot (snapshotMeta : SnapshotMeta) (bytes : StateCodec.Bytes) :
    Except StorageError StateMachineData :=
  match StateCodec.fromSlice bytes with
  | .error err => .error (.readSnapshot err)
  | .ok newData =>
    -- Where the metadata and the bytes differ, the metadata win.
    .ok { newData with
      lastAppliedLog := snapshotMeta.lastLogId
      lastMembership := snapshotMeta.lastMembership }

end StateMachineData

/-- A part of the replicated state that only some commands write. -/
inductive Part where
  | jobs
  | jobHistory
  | dataIndex
  | observedAllocations
  | schedulingGeneration
  deriving DecidableEq, Repr

/-- Whether a command may write a part of the state. -/
def ClusterCommand.writes : ClusterCommand → Part → Bool
  | .putJob _, .jobs | .putJob _, .jobHistory => true
  | .updateJobStatus _ _, .jobs | .rollbackJob _ _, .jobs => true
  | .proposeAllocations _ _ _, .jobs | .proposeAllocations _ _ _, .schedulingGeneration => true
  | .advertiseChunk _ _, .dataIndex | .removeChunkAdvertisement _ _, .dataIndex => true
  | .reportObservation _ _ _ _, .observedAllocations => true
  | .batchObservations _ _ _, .observedAllocations => true
  | _, _ => false

/-- Two states that agree in the parts that are not written. -/
structure SameBut (writes : Part → Bool) (state state' : ClusterState) : Prop where
  jobs : writes .jobs = false → state'.jobs = state.jobs
  jobHistory : writes .jobHistory = false → state'.jobHistory = state.jobHistory
  dataIndex : writes .dataIndex = false → state'.dataIndex = state.dataIndex
  observedAllocations :
    writes .observedAllocations = false → state'.observedAllocations = state.observedAllocations
  schedulingGeneration :
    writes .schedulingGeneration = false → state'.schedulingGeneration = state.schedulingGeneration

namespace SameBut

/-- Nothing has changed. -/
theorem refl (writes : Part → Bool) (state : ClusterState) : SameBut writes state state :=
  -- Every part is equal to itself.
  ⟨fun _ => rfl, fun _ => rfl, fun _ => rfl, fun _ => rfl, fun _ => rfl⟩

/-- What two changes leave alone is left alone. -/
theorem trans {writes : Part → Bool} {first second third : ClusterState}
    (left : SameBut writes first second) (right : SameBut writes second third) :
    SameBut writes first third := by
  -- Each part is followed through both changes.
  constructor
  · exact fun unwritten => (right.jobs unwritten).trans (left.jobs unwritten)
  · exact fun unwritten => (right.jobHistory unwritten).trans (left.jobHistory unwritten)
  · exact fun unwritten => (right.dataIndex unwritten).trans (left.dataIndex unwritten)
  · exact fun unwritten =>
      (right.observedAllocations unwritten).trans (left.observedAllocations unwritten)
  · exact fun unwritten =>
      (right.schedulingGeneration unwritten).trans (left.schedulingGeneration unwritten)

end SameBut

/-- A batch of observations writes records of allocations and nothing else. -/
theorem observeAll_sameBut {writes : Part → Bool} (written : writes .observedAllocations = true)
    (readings : Readings) (nodeId : NodeId) (observationSeq : UInt64) (reads : Nat)
    (observations : List (Uuid × AllocationPhase)) (state : ClusterState) :
    SameBut writes state (state.observeAll readings nodeId observationSeq reads observations) := by
  -- Each turn of the loop writes one record.
  induction observations generalizing reads state with
  | nil => exact .refl _ _
  | cons observation observations ih =>
    have turn : SameBut writes state
        (state.observe nodeId observation.1 observation.2 (readings.now reads) observationSeq) :=
      ⟨fun _ => rfl, fun _ => rfl, fun _ => rfl, by simp [written], fun _ => rfl⟩
    exact turn.trans (ih (reads + 1) _)

/-- A command leaves alone every part that it does not write. -/
theorem applyCommand_sameBut (readings : Readings) (cmd : ClusterCommand) (state : ClusterState) :
    SameBut cmd.writes state (applyCommand readings cmd state).2 := by
  cases cmd with
  | batchObservations nodeId observations observationSeq =>
    exact observeAll_sameBut rfl readings nodeId observationSeq 0 observations state
  | updateJobStatus | updateAllocation | removeChunkAdvertisement | rollbackJob
  | updateReleaseStatus | drainNode | setNodeEligibility | updateSource | deleteSource
  | heartbeat | proposeAllocations =>
    -- Every branch rebuilds the state around the parts that it does not write.
    simp only [applyCommand, ClusterState.updateJobStatus, ClusterState.updateAllocation,
      ClusterState.removeChunkAdvertisement, ClusterState.rollbackJob,
      ClusterState.updateReleaseStatus, ClusterState.drainNode, ClusterState.setNodeEligibility,
      ClusterState.updateSource, ClusterState.deleteSource, ClusterState.heartbeat,
      ClusterState.proposeAllocations]
    repeat' split
    all_goals constructor <;> intro unwritten <;> first | rfl | cases unwritten
  | _ => constructor <;> intro unwritten <;> first | rfl | cases unwritten

end Tatara.Cluster
