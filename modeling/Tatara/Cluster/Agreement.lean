import Tatara.Cluster.StateMachine

/-! When replicas that apply one log in different surroundings end in the same state. -/

namespace Tatara.Cluster

open Tatara.Rust Tatara.Domain

namespace ClusterState

/-- Whether a command reads the clock or takes a fresh identifier in a given state. -/
def readsSurroundings (state : ClusterState) : ClusterCommand → Bool
  -- These make an event or a record in any case.
  | .putJob _ | .putAllocation _ | .registerNode _ | .removeNode _ | .putSource _
  | .reportObservation _ _ _ _ => true
  -- These do so when they find what they are about, or when they change it.
  | .updateJobStatus jobId status => state.jobs[jobId]?.any fun job => job.status ≠ status
  | .updateAllocation allocId allocState _ =>
    state.allocations[allocId]?.any fun alloc => alloc.state ≠ allocState
  | .rollbackJob jobId version =>
    (state.rollbackTarget jobId version).isSome && state.jobs[jobId]?.isSome
  | .drainNode nodeId => state.nodes[nodeId]?.isSome
  | .updateSource sourceId _ _ _ _ => state.sources[sourceId]?.isSome
  | .deleteSource sourceId => state.sources[sourceId]?.isSome
  | .batchObservations _ observations _ => !observations.isEmpty
  -- These take every time and identifier from the log.
  | _ => false

/-- When the latest event was made. -/
def latestEvent (state : ClusterState) : Option DateTime :=
  state.events.events.getLast?.map Event.timestamp

/-- When an allocation was last observed. -/
def observedTime (state : ClusterState) (allocId : Uuid) : Option DateTime :=
  state.observedAllocations[allocId]?.map ObservedAllocationState.observedAt

/-- An event made on the spot carries the time that was read for it. -/
@[simp] theorem emit_latestEvent (state : ClusterState) (readings : Readings) (reads : Nat)
    (kind : EventKind) (payload : List (String × Json)) :
    (state.emit readings reads kind payload).latestEvent = some (readings.now reads) := by
  -- The event goes to the end of the ring, whether or not the ring is full.
  simp [latestEvent, emit, Event.new]

/-- An observation carries the time that was read for it, and leaves other allocations alone. -/
@[simp] theorem observe_observedTime (state : ClusterState) (nodeId : NodeId) (allocId other : Uuid)
    (phase : AllocationPhase) (observedAt : DateTime) (observationSeq : UInt64) :
    (state.observe nodeId allocId phase observedAt observationSeq).observedTime other =
      if allocId = other then some observedAt else state.observedTime other := by
  -- The record of the allocation is replaced, and no other record is touched.
  simp only [observedTime, observe, Std.ExtTreeMap.getElem?_insert,
    Std.LawfulEqOrd.compare_eq_iff_eq]
  split <;> rfl

/-- Under a clock that stands still, what was observed at its time stays so through a batch. -/
theorem observeAll_observedTime {readings : Readings} {time : DateTime}
    (still : ∀ reads, readings.now reads = time) {nodeId : NodeId} {observationSeq : UInt64}
    {reads : Nat} {observations : List (Uuid × AllocationPhase)} {state : ClusterState}
    {allocId : Uuid} (observed : state.observedTime allocId = some time) :
    (state.observeAll readings nodeId observationSeq reads observations).observedTime allocId =
      some time := by
  -- An observation that replaces the first one carries the same time.
  induction observations generalizing reads state with
  | nil => exact observed
  | cons observation observations ih =>
    refine ih ?_
    rw [observe_observedTime, still]
    split
    · rfl
    · exact observed

end ClusterState

open ClusterState

/-- A command that reads nothing does the same in all surroundings. -/
theorem applyCommand_silent {state : ClusterState} {cmd : ClusterCommand}
    (notRead : state.readsSurroundings cmd = false) (readings readings' : Readings) :
    applyCommand readings cmd state = applyCommand readings' cmd state := by
  cases cmd with
  -- These always read.
  | putJob | putAllocation | registerNode | removeNode | putSource | reportObservation =>
    cases notRead
  -- These read when they find what they are about, or when they change it.
  | updateJobStatus jobId status =>
    simp only [applyCommand, updateJobStatus]
    simp only [readsSurroundings] at notRead
    split
    · rfl
    · rename_i found
      rw [found] at notRead
      rw [if_neg (by simpa using notRead), if_neg (by simpa using notRead)]
  | updateAllocation allocId allocState taskStates =>
    simp only [applyCommand, updateAllocation]
    simp only [readsSurroundings] at notRead
    split
    · rfl
    · rename_i found
      rw [found] at notRead
      rw [if_neg (by simpa using notRead), if_neg (by simpa using notRead)]
  | rollbackJob jobId version =>
    simp only [applyCommand, rollbackJob]
    cases target : state.rollbackTarget jobId version with
    | none => rfl
    | some entry =>
      simp only [readsSurroundings, target, Option.isSome_some, Bool.true_and] at notRead
      rw [Option.isSome_eq_false_iff, Option.isNone_iff_eq_none] at notRead
      rw [notRead]
  | drainNode nodeId =>
    simp only [applyCommand, drainNode]
    simp only [readsSurroundings] at notRead
    rw [Option.isSome_eq_false_iff, Option.isNone_iff_eq_none] at notRead
    rw [notRead]
  | updateSource sourceId =>
    simp only [applyCommand, updateSource]
    simp only [readsSurroundings] at notRead
    rw [Option.isSome_eq_false_iff, Option.isNone_iff_eq_none] at notRead
    rw [notRead]
  | deleteSource sourceId =>
    simp only [applyCommand, deleteSource]
    simp only [readsSurroundings] at notRead
    rw [Option.isSome_eq_false_iff, Option.isNone_iff_eq_none] at notRead
    rw [notRead]
  | batchObservations nodeId observations observationSeq =>
    cases observations with
    | nil => rfl
    | cons => cases notRead
  -- The others have no use for the surroundings.
  | _ => rfl

/-- A command that reads shows the time in the state it leaves: in its latest event, or in what was
observed of an allocation. -/
theorem applyCommand_shows {state : ClusterState} {cmd : ClusterCommand}
    (read : state.readsSurroundings cmd = true) :
    (∀ time, (applyCommand (.still time) cmd state).2.latestEvent = some time) ∨
      ∃ allocId, ∀ time,
        (applyCommand (.still time) cmd state).2.observedTime allocId = some time := by
  cases cmd with
  -- The event is made last, whatever else is written.
  | putJob job => exact .inl fun time => emit_latestEvent ..
  | putAllocation alloc => exact .inl fun time => emit_latestEvent ..
  | registerNode nodeMeta => exact .inl fun time => emit_latestEvent ..
  | removeNode nodeId => exact .inl fun time => emit_latestEvent ..
  | putSource source => exact .inl fun time => emit_latestEvent ..
  -- What is found in the state selects the branch that makes the event.
  | updateJobStatus jobId status =>
    simp only [readsSurroundings, Option.any_eq_true] at read
    obtain ⟨job, found, changes⟩ := read
    left
    intro time
    simp only [applyCommand, updateJobStatus, found]
    rw [if_pos (by simpa using changes)]
    exact emit_latestEvent ..
  | updateAllocation allocId allocState taskStates =>
    simp only [readsSurroundings, Option.any_eq_true] at read
    obtain ⟨alloc, found, changes⟩ := read
    left
    intro time
    simp only [applyCommand, updateAllocation, found]
    rw [if_pos (by simpa using changes)]
    exact emit_latestEvent ..
  | rollbackJob jobId version =>
    simp only [readsSurroundings, Bool.and_eq_true, Option.isSome_iff_exists] at read
    obtain ⟨⟨entry, target⟩, job, found⟩ := read
    left
    intro time
    simp only [applyCommand, rollbackJob, target, found]
    exact emit_latestEvent ..
  | drainNode nodeId =>
    obtain ⟨node, found⟩ := Option.isSome_iff_exists.mp read
    left
    intro time
    simp only [applyCommand, drainNode, found]
    exact emit_latestEvent ..
  | updateSource sourceId =>
    obtain ⟨source, found⟩ := Option.isSome_iff_exists.mp read
    left
    intro time
    simp only [applyCommand, updateSource, found]
    exact emit_latestEvent ..
  | deleteSource sourceId =>
    obtain ⟨source, found⟩ := Option.isSome_iff_exists.mp read
    left
    intro time
    simp only [applyCommand, deleteSource, found]
    exact emit_latestEvent ..
  -- Observations leave no event, but their records carry the time.
  | reportObservation nodeId allocId phase observationSeq =>
    refine .inr ⟨allocId, fun time => ?_⟩
    simp [applyCommand, Readings.still]
  | batchObservations nodeId observations observationSeq =>
    -- Whatever follows the first observation carries the same time.
    cases observations with
    | nil => cases read
    | cons observation observations =>
      obtain ⟨allocId, phase⟩ := observation
      refine .inr ⟨allocId, fun time => ?_⟩
      simp only [applyCommand, observeAll]
      refine observeAll_observedTime (fun _ => rfl) ?_
      rw [observe_observedTime, if_pos rfl]
      rfl
  | _ => cases read

namespace StateMachineData

/-- Whether applying an entry reads the clock or takes a fresh identifier. -/
def entryReads (data : StateMachineData) (entry : Entry) : Prop :=
  ∃ cmd, entry.payload = .normal cmd ∧ data.clusterState.readsSurroundings cmd = true

/-- An entry that reads nothing is applied alike in all surroundings. -/
theorem applyEntry_silent (data : StateMachineData) (entry : Entry)
    (notRead : ¬ data.entryReads entry) (readings readings' : Readings) :
    applyEntry readings entry data = applyEntry readings' entry data := by
  simp only [applyEntry]
  split
  · rfl
  · rename_i cmd payload
    -- Only commands can tell one clock from another.
    have silent : data.clusterState.readsSurroundings cmd = false := by
      rw [← Bool.not_eq_true]
      exact fun read => notRead ⟨cmd, payload, read⟩
    rw [applyCommand_silent silent readings readings']
  · rfl

/-- An entry that reads is applied differently by a clock that is one nanosecond ahead. -/
theorem applyEntry_heard (data : StateMachineData) (entry : Entry) (read : data.entryReads entry) :
    ∃ readings readings', applyEntry readings entry data ≠ applyEntry readings' entry data := by
  obtain ⟨cmd, payload, read⟩ := read
  refine ⟨.still ⟨0⟩, .still ⟨1⟩, fun same => ?_⟩
  -- The state that the entry leaves shows the time.
  have state := congrArg (fun result => result.2.clusterState) same
  simp only [applyEntry, payload] at state
  rcases applyCommand_shows read with shown | ⟨allocId, shown⟩
  · have latest := congrArg latestEvent state
    rw [shown, shown] at latest
    simp at latest
  · have observed := congrArg (fun state => observedTime state allocId) state
    simp only [shown] at observed
    simp at observed

/-- Replicas that apply one log agree after each part of it, whatever their clocks and identifiers
and however their batches are cut, exactly when no entry reads the clock or takes an identifier in
the state that it is applied to. -/
theorem replicas_agree_iff (log : List Entry) :
    (∀ left right : List (List (Readings × Entry)), left.flatten.map Prod.snd <+: log →
        right.flatten.map Prod.snd = left.flatten.map Prod.snd →
        applyBatches left .default = applyBatches right .default) ↔
      Machine.Quiet applyEntry entryReads log .default := by
  -- The cut into batches makes no difference, so it is enough to compare whole runs.
  rw [← Machine.run_agree_iff_quiet applyEntry_silent applyEntry_heard]
  simp only [applyBatches, Machine.runBatches_eq_run]
  constructor
  · intro agree left right before same
    -- A run is a run with one batch.
    simpa using agree [left] [right] (by simpa using before) (by simpa using same)
  · intro agree left right before same
    exact agree left.flatten right.flatten before same

/-- The entry that removes the first node. -/
def removal : Entry := ⟨⟨⟨1, 1⟩, 0⟩, .normal (.removeNode 1)⟩

/-- Two replicas that apply the removal of a node at different times keep different events. -/
theorem replicas_disagree_removal :
    ¬ ∀ left right : List (List (Readings × Entry)),
      right.flatten.map Prod.snd = left.flatten.map Prod.snd →
      applyBatches left .default = applyBatches right .default := by
  -- The event of the removal carries the time at which each replica got to it.
  intro agree
  have same := agree [[(.still ⟨0⟩, removal)]] [[(.still ⟨1⟩, removal)]] rfl
  have latest := congrArg (fun result => latestEvent result.2.clusterState) same
  exact absurd latest (by decide +kernel)

end StateMachineData

end Tatara.Cluster
