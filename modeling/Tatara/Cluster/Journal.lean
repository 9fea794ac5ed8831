import Tatara.Cluster.StateMachine

/-! The events that are told along a log, of which the replicated state keeps the latest ones. -/

namespace Tatara.Cluster

open Tatara.Rust Tatara.Domain

namespace ClusterState

/-- The same state with another ring of events. -/
def withEvents (state : ClusterState) (events : EventRing) : ClusterState := { state with events }

/-- The events that a command tells: what it leaves in a ring for one event. -/
def told (readings : Readings) (cmd : ClusterCommand) (state : ClusterState) : List Event :=
  (applyCommand readings cmd (state.withEvents (.withCapacity 1))).2.events.events

/-- All events that are told along a log, of which nothing is dropped. -/
def journal : List (Readings × ClusterCommand) → ClusterState → List Event
  | [], _ => []
  | (readings, cmd) :: inputs, state =>
    told readings cmd state ++ journal inputs (applyCommand readings cmd state).2

/-- `list_events`. -/
def listEvents (state : ClusterState) (kind : Option EventKind) (since : Option DateTime) :
    List Event :=
  state.events.query kind since

end ClusterState

open ClusterState

variable {readings : Readings} {state : ClusterState}

/-- How a command deals with the ring of events: it adds some of its own, and nothing else depends
on what is there. -/
def Tells (readings : Readings) (cmd : ClusterCommand) (state : ClusterState) (own : List Event) :
    Prop :=
  own.length ≤ 1 ∧ ∀ ring, applyCommand readings cmd (state.withEvents ring) =
    ((applyCommand readings cmd state).1,
      (applyCommand readings cmd state).2.withEvents (own.foldl EventRing.push ring))

/-- Observations leave the ring of events alone. -/
theorem observeAll_withEvents (ring : EventRing) (nodeId : NodeId) (observationSeq : UInt64)
    (reads : Nat) (observations : List (Uuid × AllocationPhase)) :
    (state.withEvents ring).observeAll readings nodeId observationSeq reads observations =
      (state.observeAll readings nodeId observationSeq reads observations).withEvents ring := by
  -- By induction on the observations, each of which only changes an allocation.
  induction observations generalizing reads state with
  | nil => rfl
  | cons observation rest ih =>
    obtain ⟨allocId, phase⟩ := observation
    exact @ih (state.observe nodeId allocId phase (readings.now reads) observationSeq) (reads + 1)

/-- A command that leaves the ring alone tells nothing. -/
theorem tells_nothing {cmd : ClusterCommand} (silent : ∀ ring,
    applyCommand readings cmd (state.withEvents ring) =
      ((applyCommand readings cmd state).1, (applyCommand readings cmd state).2.withEvents ring)) :
    ∃ own, Tells readings cmd state own :=
  ⟨[], Nat.zero_le _, silent⟩

/-- Only a status that changes is told. -/
theorem updateJobStatus_tells (jobId : String) (status : JobStatus) :
    ∃ own, Tells readings (.updateJobStatus jobId status) state own := by
  -- An event is told where the job is there and its status is another one.
  cases found : state.jobs[jobId]? with
  | none =>
    refine tells_nothing fun ring => ?_
    simp only [applyCommand, updateJobStatus, withEvents, found]
  | some job =>
    by_cases changed : job.status ≠ status
    · exact ⟨[_], le_rfl, fun ring => by
        simp only [applyCommand, updateJobStatus, withEvents, found, if_pos changed]
        rfl⟩
    · refine tells_nothing fun ring => ?_
      simp only [applyCommand, updateJobStatus, withEvents, found, if_neg changed]

/-- Only a state of an allocation that changes is told. -/
theorem updateAllocation_tells (allocId : Uuid) (allocState : AllocationState)
    (taskStates : Std.ExtTreeMap String TaskState) :
    ∃ own, Tells readings (.updateAllocation allocId allocState taskStates) state own := by
  -- An event is told where the allocation is there and its state is another one.
  cases found : state.allocations[allocId]? with
  | none =>
    refine tells_nothing fun ring => ?_
    simp only [applyCommand, updateAllocation, withEvents, found]
  | some alloc =>
    by_cases changed : alloc.state ≠ allocState
    · exact ⟨[_], le_rfl, fun ring => by
        simp only [applyCommand, updateAllocation, withEvents, found, if_pos changed]
        rfl⟩
    · refine tells_nothing fun ring => ?_
      simp only [applyCommand, updateAllocation, withEvents, found, if_neg changed]

/-- A rollback is told if there is a version to go back to, and the job itself. -/
theorem rollbackJob_tells (jobId : String) (version : UInt64) :
    ∃ own, Tells readings (.rollbackJob jobId version) state own := by
  -- The versions to go back to are not in the ring.
  have same (ring : EventRing) :
      (state.withEvents ring).rollbackTarget jobId version = state.rollbackTarget jobId version :=
    rfl
  cases entered : state.rollbackTarget jobId version with
  | none =>
    refine tells_nothing fun ring => ?_
    simp only [applyCommand, rollbackJob, same, entered]
  | some entry =>
    cases found : state.jobs[jobId]? with
    | none =>
      refine tells_nothing fun ring => ?_
      have none : (state.withEvents ring).jobs[jobId]? = none := found
      simp only [applyCommand, rollbackJob, same, entered, found, none]
    | some job =>
      exact ⟨[_], le_rfl, fun ring => by
        have there : (state.withEvents ring).jobs[jobId]? = some job := found
        simp only [applyCommand, rollbackJob, same, entered, found, there]
        rfl⟩

/-- Allocations are proposed without an event, also those that come too late. -/
theorem proposeAllocations_tells (expectedGeneration : UInt64)
    (allocations : List DesiredAllocationState) (jobStatusUpdates : List (String × JobStatus)) :
    ∃ own, Tells readings (.proposeAllocations expectedGeneration allocations jobStatusUpdates)
      state own := by
  refine tells_nothing fun ring => ?_
  -- Either answer leaves the ring as it was.
  by_cases outdated : state.schedulingGeneration ≠ expectedGeneration
  · have refused : state.proposeAllocations expectedGeneration allocations jobStatusUpdates = _ :=
      if_pos outdated
    have refused' : (state.withEvents ring).proposeAllocations expectedGeneration allocations
      jobStatusUpdates = _ := if_pos outdated
    simp only [applyCommand, refused, refused']
    rfl
  · have taken : state.proposeAllocations expectedGeneration allocations jobStatusUpdates = _ :=
      if_neg outdated
    have taken' : (state.withEvents ring).proposeAllocations expectedGeneration allocations
      jobStatusUpdates = _ := if_neg outdated
    simp only [applyCommand, taken, taken']
    rfl

/-- A command tells at most one event, whatever the ring holds. -/
theorem exists_tells (cmd : ClusterCommand) : ∃ own, Tells readings cmd state own := by
  cases cmd with
  | putJob | putAllocation | registerNode | removeNode | emitEvent | putSource =>
    -- These tell an event in any case.
    exact ⟨[_], le_rfl, fun ring => rfl⟩
  | advertiseChunk | putRelease | setDesiredAllocation | removeDesiredAllocation
    | reportObservation | reportNodePhase => exact tells_nothing fun ring => rfl
  | batchObservations nodeId observations observationSeq =>
    refine tells_nothing fun ring => ?_
    simp only [applyCommand, observeAll_withEvents]
  | updateJobStatus jobId status => exact updateJobStatus_tells jobId status
  | updateAllocation allocId allocState taskStates =>
    exact updateAllocation_tells allocId allocState taskStates
  | rollbackJob jobId version => exact rollbackJob_tells jobId version
  | proposeAllocations expectedGeneration allocations jobStatusUpdates =>
    exact proposeAllocations_tells expectedGeneration allocations jobStatusUpdates
  | removeChunkAdvertisement hash nodeId =>
    refine tells_nothing fun ring => ?_
    cases found : state.dataIndex[hash]? with
    | none => simp only [applyCommand, removeChunkAdvertisement, withEvents, found]
    | some holders =>
      simp only [applyCommand, removeChunkAdvertisement, withEvents, found]
      split <;> rfl
  | updateReleaseStatus releaseId status =>
    refine tells_nothing fun ring => ?_
    cases found : state.releases[releaseId]? <;>
      simp only [applyCommand, updateReleaseStatus, withEvents, found]
  | setNodeEligibility nodeId eligible =>
    refine tells_nothing fun ring => ?_
    cases found : state.nodes[nodeId]? <;>
      simp only [applyCommand, setNodeEligibility, withEvents, found]
  | heartbeat nodeId timestamp allocs =>
    refine tells_nothing fun ring => ?_
    cases found : state.nodes[nodeId]? <;> simp only [applyCommand, heartbeat, withEvents, found]
  | drainNode nodeId =>
    cases found : state.nodes[nodeId]? with
    | none =>
      refine tells_nothing fun ring => ?_
      simp only [applyCommand, drainNode, withEvents, found]
    | some node =>
      exact ⟨[_], le_rfl, fun ring => by
        simp only [applyCommand, drainNode, withEvents, found]
        rfl⟩
  | updateSource sourceId status lastRev lastError managedJobs =>
    cases found : state.sources[sourceId]? with
    | none =>
      refine tells_nothing fun ring => ?_
      simp only [applyCommand, updateSource, withEvents, found]
    | some source =>
      exact ⟨[_], le_rfl, fun ring => by
        simp only [applyCommand, updateSource, withEvents, found]
        rfl⟩
  | deleteSource sourceId =>
    cases found : state.sources[sourceId]? with
    | none =>
      refine tells_nothing fun ring => ?_
      simp only [applyCommand, deleteSource, withEvents, found]
    | some source =>
      exact ⟨[_], le_rfl, fun ring => by
        simp only [applyCommand, deleteSource, withEvents, found]
        rfl⟩

/-- What a command does with the ring of events is to add the events that it tells. -/
theorem tells_told (cmd : ClusterCommand) : Tells readings cmd state (told readings cmd state) := by
  obtain ⟨own, few, adds⟩ := @exists_tells readings state cmd
  -- Added to an empty ring that is large enough, the events are all that is in it.
  have same : told readings cmd state = own := by
    rw [told, adds, withEvents, EventRing.foldl_push, List.rtake, Nat.max_self,
      Nat.sub_eq_zero_of_le few, List.drop_zero]
  rw [same]
  exact ⟨few, adds⟩

/-- Along a log nothing that is answered and nothing else in the state depends on the ring of
events, and the ring gets the events of the journal. -/
theorem run_withEvents (inputs : List (Readings × ClusterCommand)) (ring : EventRing) :
    Machine.run applyCommand inputs (state.withEvents ring) =
      ((Machine.run applyCommand inputs state).1,
        (Machine.run applyCommand inputs state).2.withEvents
          ((journal inputs state).foldl EventRing.push ring)) := by
  -- By induction on the log: each command adds the events that it tells.
  induction inputs generalizing state ring with
  | nil => rfl
  | cons input rest ih =>
    obtain ⟨readings, cmd⟩ := input
    rw [Machine.run_cons, Machine.run_cons, (tells_told cmd).2, journal, List.foldl_append, ih]

/-- The ring of events is a window on the journal: along any log, from any state with an empty ring
of any capacity, it holds the latest events of the journal in their order, and at least one; and
with a ring of another capacity the answers and the rest of the state are the same. -/
theorem run_withCapacity (inputs : List (Readings × ClusterCommand)) (capacity : Nat) :
    Machine.run applyCommand inputs (state.withEvents (.withCapacity capacity)) =
      ((Machine.run applyCommand inputs state).1,
        (Machine.run applyCommand inputs state).2.withEvents
          ⟨(journal inputs state).rtake (max 1 capacity), capacity⟩) := by
  rw [run_withEvents, EventRing.foldl_push]

/-- What `list_events` answers after a log: the events of the journal that are asked for, as far as
they are among the latest ten thousand. -/
theorem listEvents_after (inputs : List (Readings × ClusterCommand)) (kind : Option EventKind)
    (since : Option DateTime) :
    (ClusterState.after inputs).listEvents kind since =
      ((journal inputs .default).rtake 10000).filter fun e =>
        kind.all (e.kind = ·) && since.all (·.nanos ≤ e.timestamp.nanos) := by
  -- The first state has an empty ring of ten thousand.
  have ring := @run_withEvents .default inputs (.withCapacity 10000)
  have start : ClusterState.default.withEvents (.withCapacity 10000) = .default := rfl
  rw [start, EventRing.foldl_push, Nat.max_eq_right (by decide)] at ring
  rw [ClusterState.after, listEvents, EventRing.query, ring]
  simp only [withEvents]

end Tatara.Cluster
