import Mathlib.Logic.Function.Basic
import Mathlib.Logic.Relation
import Tatara.Cluster.LogStore

/-! Writes through the cluster's store, and what they report of their propagation. -/

namespace Tatara.Cluster

open Tatara.Domain

/-- What a node publishes of itself: the last entry that it has applied, and on a leader the last
entry that each follower is known to hold. -/
structure RaftMetrics where
  lastApplied : Option LogId
  replication : Option (List (NodeId × Option LogId))

/-- Result of a write operation including propagation status. -/
structure WriteResult (T : Type) where
  value : T
  /-- The Raft log index this write was committed at. -/
  logIndex : UInt64
  /-- Whether the write has been confirmed propagated to all nodes. -/
  fullyPropagated : Bool
  /-- Number of nodes that have applied this write. -/
  propagatedCount : Nat
  /-- Total number of nodes in the cluster. -/
  totalNodes : Nat

/-- How far a write has come. -/
structure PropagationStatus where
  fullyPropagated : Bool
  propagatedCount : Nat
  totalNodes : Nat

/-- The index of the last entry applied, and 0 before there is one. -/
def RaftMetrics.appliedIndex (metrics : RaftMetrics) : UInt64 :=
  (metrics.lastApplied.map LogId.index).getD 0

/-- Get the current commit index from Raft metrics. -/
def currentCommitIndex (metrics : RaftMetrics) : UInt64 := metrics.appliedIndex

/-- A follower is known to hold the entry of an index. -/
def holds (targetIndex : UInt64) (follower : NodeId × Option LogId) : Bool :=
  match follower.2 with
  | some logId => logId.index ≥ targetIndex
  | none => false

/-- Check current propagation status for a given log index. -/
def checkPropagation (metrics : RaftMetrics) (targetIndex : UInt64) : PropagationStatus :=
  match metrics.replication with
  | some rep =>
    -- One more for the leader itself.
    let total := rep.length + 1
    let leader := if metrics.appliedIndex ≥ targetIndex then 1 else 0
    let propagated := leader + rep.countP (holds targetIndex)
    { fullyPropagated := propagated ≥ total
      propagatedCount := propagated
      totalNodes := total }
  | none => { fullyPropagated := true, propagatedCount := 1, totalNodes := 1 }

/-- What `put_job` takes from the response to its command. -/
def putJobResponse : ClusterResponse → Except String Job
  | .job job => .ok job
  | .error e => .error ("Failed to put job: " ++ e)
  | _ => .error "Unexpected response from Raft"

/-- What `put_job` returns when it has waited for the propagation up to an index. -/
def putJobResult (job : Job) (logIndex : UInt64) (prop : PropagationStatus) : WriteResult Job :=
  { value := job
    logIndex := logIndex
    fullyPropagated := prop.fullyPropagated
    propagatedCount := prop.propagatedCount
    totalNodes := prop.totalNodes }

/-- A table reports full propagation when the leader has applied the index and every follower is
known to hold it. -/
theorem fullyPropagated_of_replication {metrics : RaftMetrics}
    {rep : List (NodeId × Option LogId)} (table : metrics.replication = some rep)
    (targetIndex : UInt64) :
    (checkPropagation metrics targetIndex).fullyPropagated = true ↔
      metrics.appliedIndex ≥ targetIndex ∧ ∀ follower ∈ rep, holds targetIndex follower = true := by
  -- At most all followers are counted, so that the leader has to be counted as well.
  have most := @List.countP_le_length _ (holds targetIndex) rep
  simp only [checkPropagation, table, decide_eq_true_eq]
  constructor
  · intro reached
    have leader : metrics.appliedIndex ≥ targetIndex := by
      by_contra behind
      rw [if_neg behind] at reached
      omega
    rw [if_pos leader] at reached
    exact ⟨leader, List.countP_eq_length.mp (by omega)⟩
  · rintro ⟨leader, every⟩
    rw [if_pos leader, List.countP_eq_length.mpr every]
    omega

end Tatara.Cluster

/-! Runs of a store over a cluster: which of its writes are rightly reported as propagated. -/

namespace Tatara.Cluster

open Tatara.Domain

/-- The last entry of a node is at an index, or behind it. -/
def Reaches (last : Option LogId) (index : UInt64) : Prop :=
  ∃ logId, last = some logId ∧ index ≤ logId.index

/-- The members of a cluster, and the one that the store runs on. -/
structure Members where
  nodes : List NodeId
  own : NodeId
  distinct : nodes.Nodup
  member : own ∈ nodes

/-- What a node has in its log, and what it has applied of it. -/
structure Replica where
  lastLog : Option LogId
  lastApplied : Option LogId

/-- How far a call of `put_job` has come. -/
inductive PutJob
  | idle
  | writing (logId : LogId)
  | written (logId : LogId) (job : Job)
  | awaiting (logId : LogId) (job : Job) (target : UInt64)
  | returned (logId : LogId) (result : WriteResult Job)
  | failed (reason : String)

/-- The nodes of a cluster, and the calls to the store on one of them. -/
structure World where
  replicas : NodeId → Replica
  committed : Option LogId
  leader : Option NodeId
  /-- The last entry that the leader knows each follower to hold. -/
  matched : NodeId → Option LogId
  /-- What the metrics watch of the store's node shows. -/
  watch : RaftMetrics
  calls : Nat → PutJob

/-- What happens in a cluster and its store. -/
inductive Action
  | append (logId : LogId)
  | replicate (follower : NodeId) (logId : LogId)
  | acknowledge (follower : NodeId)
  | commit (logId : LogId)
  | apply (node : NodeId) (logId : LogId)
  | elect (node : NodeId)
  | stepDown
  | publish
  | submit (call : Nat) (logId : LogId)
  | respond (call : Nat) (response : ClusterResponse)
  | refuse (call : Nat) (reason : String)
  | readTarget (call : Nat)
  | check (call : Nat) (late : Bool)

namespace World

/-- What the metrics of a node show: the followers are shown by the leader only. -/
def metrics (members : Members) (world : World) : RaftMetrics where
  lastApplied := (world.replicas members.own).lastApplied
  replication :=
    if world.leader = some members.own then
      some ((members.nodes.filter (· ≠ members.own)).map fun node => (node, world.matched node))
    else none

/-- Change what one node has. -/
def setReplica (world : World) (node : NodeId) (replica : Replica) : World :=
  { world with replicas := Function.update world.replicas node replica }

/-- Change how far one call has come. -/
def setCall (world : World) (call : Nat) (phase : PutJob) : World :=
  { world with calls := Function.update world.calls call phase }

end World

/-- One thing happens: the nodes replicate, commit and apply a log under a leader that may change,
the node of the store publishes its metrics, and a call of `put_job` goes on. -/
inductive Step (members : Members) : World → Action → World → Prop
  | append {world leader logId} (leads : world.leader = some leader)
      (next : logId.index.toNat = nextIndex (world.replicas leader).lastLog) :
      Step members world (.append logId)
        (world.setReplica leader { world.replicas leader with lastLog := some logId })
  | replicate {world leader follower logId} (leads : world.leader = some leader)
      (member : follower ∈ members.nodes) (other : follower ≠ leader)
      (held : Reaches (world.replicas leader).lastLog logId.index)
      (keeps : nextIndex (world.replicas follower).lastApplied ≤ logId.index.toNat + 1) :
      Step members world (.replicate follower logId)
        (world.setReplica follower { world.replicas follower with lastLog := some logId })
  | acknowledge {world leader follower} (leads : world.leader = some leader) :
      Step members world (.acknowledge follower)
        { world with
          matched := Function.update world.matched follower (world.replicas follower).lastLog }
  | commit {world leader logId} (leads : world.leader = some leader)
      (majority : ∃ voters : List NodeId, voters.Nodup ∧ voters ⊆ members.nodes ∧
        members.nodes.length < 2 * voters.length ∧
        ∀ voter ∈ voters, Reaches (world.replicas voter).lastLog logId.index)
      (further : nextIndex world.committed ≤ logId.index.toNat) :
      Step members world (.commit logId) { world with committed := some logId }
  | apply {world node logId} (committed : Reaches world.committed logId.index)
      (held : Reaches (world.replicas node).lastLog logId.index)
      (further : nextIndex (world.replicas node).lastApplied ≤ logId.index.toNat) :
      Step members world (.apply node logId)
        (world.setReplica node { world.replicas node with lastApplied := some logId })
  | elect {world node} (member : node ∈ members.nodes)
      (complete : nextIndex world.committed ≤ nextIndex (world.replicas node).lastLog) :
      Step members world (.elect node)
        { world with leader := some node, matched := fun _ => none }
  | stepDown {world} : Step members world .stepDown { world with leader := none }
  | publish {world} : Step members world .publish { world with watch := world.metrics members }
  -- A write is accepted by the leader only, and answered once its entry is applied there.
  | submit {world call logId} (leads : world.leader = some members.own)
      (next : logId.index.toNat = nextIndex (world.replicas members.own).lastLog)
      (idle : world.calls call = .idle) :
      Step members world (.submit call logId)
        ((world.setReplica members.own
          { world.replicas members.own with lastLog := some logId }).setCall call (.writing logId))
  | respond {world call logId response} (writes : world.calls call = .writing logId)
      (applied : Reaches (world.replicas members.own).lastApplied logId.index) :
      Step members world (.respond call response)
        (world.setCall call (match putJobResponse response with
          | .ok job => .written logId job
          | .error reason => .failed reason))
  | refuse {world call logId reason} (writes : world.calls call = .writing logId) :
      Step members world (.refuse call reason)
        (world.setCall call (.failed ("Raft write failed: " ++ reason)))
  | readTarget {world call logId job} (written : world.calls call = .written logId job) :
      Step members world (.readTarget call)
        (world.setCall call (.awaiting logId job (currentCommitIndex world.watch)))
  | check {world call logId job target late}
      (awaits : world.calls call = .awaiting logId job target) :
      Step members world (.check call late)
        (world.setCall call
          (if (checkPropagation world.watch target).fullyPropagated || late then
            .returned logId (putJobResult job target (checkPropagation world.watch target))
          else .awaiting logId job target))

/-- A store that is opened on a running cluster. -/
structure World.Opened (members : Members) (world : World) : Prop where
  watch : world.watch = world.metrics members
  calls : ∀ call, world.calls call = .idle

/-- Every member has applied an entry that is not before the index of a write reported as fully
propagated. -/
def Honest (members : Members) (world : World) : Prop :=
  ∀ call logId result, world.calls call = .returned logId result → result.fullyPropagated = true →
    ∀ node ∈ members.nodes, Reaches (world.replicas node).lastApplied logId.index

/-- The watch shows what the step relies on. The target is read when the watch shows the entry of the
write; a check meets a watch without followers only where the node is alone; and the followers that
hold the target have applied it. -/
def Shown (members : Members) (world : World) : Action → Prop
  | .readTarget call => ∀ logId job, world.calls call = .written logId job →
    logId.index ≤ currentCommitIndex world.watch
  | .check call _ => ∀ logId job target, world.calls call = .awaiting logId job target →
    (world.watch.replication = none → members.nodes = [members.own]) ∧
    ∀ rep, world.watch.replication = some rep → ∀ follower ∈ rep, holds target follower = true →
      Reaches (world.replicas follower.1).lastApplied target
  | _ => True

/-- A step at which the watch shows what it relies on. -/
def ShownStep (members : Members) (world after : World) : Prop :=
  ∃ action, Step members world action after ∧ Shown members world action

/-- What a step makes of a call. -/
inductive CallStep (members : Members) (world : World) (action : Action) (call : Nat) :
    PutJob → PutJob → Prop
  | stays (phase : PutJob) : CallStep members world action call phase phase
  | begins (logId : LogId) : CallStep members world action call .idle (.writing logId)
  | answered {logId : LogId} {job : Job}
      (applied : Reaches (world.replicas members.own).lastApplied logId.index) :
      CallStep members world action call (.writing logId) (.written logId job)
  | fails (logId : LogId) (reason : String) :
      CallStep members world action call (.writing logId) (.failed reason)
  | reads {logId : LogId} {job : Job} (same : action = .readTarget call) :
      CallStep members world action call (.written logId job)
        (.awaiting logId job (currentCommitIndex world.watch))
  | returns {logId : LogId} {job : Job} {target : UInt64} {late : Bool}
      (same : action = .check call late) :
      CallStep members world action call (.awaiting logId job target)
        (.returned logId (putJobResult job target (checkPropagation world.watch target)))

section

variable {members : Members} {world after : World} {action : Action}

/-- A step on one call leaves the others alone. -/
theorem callStep_update {call other : Nat} {phase : PutJob}
    (own : CallStep members world action call (world.calls call) phase) :
    CallStep members world action other (world.calls other)
      (Function.update world.calls call phase other) := by
  -- The step is about the one call; the others keep their phases.
  by_cases same : other = call
  · subst same
    rwa [Function.update_self]
  · rw [Function.update_of_ne same]
    exact .stays _

/-- A step does to each call one of the things that the store does. -/
theorem Step.callStep (step : Step members world action after) (call : Nat) :
    CallStep members world action call (world.calls call) (after.calls call) := by
  -- One kind of step after the other; a call goes through its states in order.
  cases step with
  | append | replicate | acknowledge | commit | apply | elect | stepDown | publish =>
    exact .stays _
  | submit leads next idle =>
    refine callStep_update ?_
    rw [idle]
    exact .begins _
  | @respond own logId response writes applied =>
    refine callStep_update ?_
    rw [writes]
    split
    · exact .answered applied
    · exact .fails logId _
  | refuse writes =>
    refine callStep_update ?_
    rw [writes]
    exact .fails _ _
  | readTarget written =>
    refine callStep_update ?_
    rw [written]
    exact .reads rfl
  | check awaits =>
    refine callStep_update ?_
    rw [awaits]
    split
    · exact .returns rfl
    · exact .stays _

/-- The watch shows what it did, or what the metrics are. -/
theorem Step.watch (step : Step members world action after) :
    after.watch = world.watch ∨ after.watch = world.metrics members := by
  cases step with
  | publish => exact .inr rfl
  | _ => exact .inl rfl

/-- A replica of which the log changes has applied what it had. -/
theorem reaches_setReplica {node other : NodeId} {replica : Replica} {index : UInt64}
    (further : Reaches (world.replicas node).lastApplied index → Reaches replica.lastApplied index)
    (reaches : Reaches (world.replicas other).lastApplied index) :
    Reaches ((world.setReplica node replica).replicas other).lastApplied index := by
  -- The other replicas are not touched.
  by_cases same : other = node
  · subst same
    simpa only [World.setReplica, Function.update_self] using further reaches
  · simpa only [World.setReplica, Function.update_of_ne same] using reaches

/-- What a node has applied it has applied for good. -/
theorem Step.reaches (step : Step members world action after) {node : NodeId} {index : UInt64}
    (reaches : Reaches (world.replicas node).lastApplied index) :
    Reaches (after.replicas node).lastApplied index := by
  cases step with
  | append | replicate | submit => exact reaches_setReplica id reaches
  | @apply other logId committed held further =>
    refine reaches_setReplica ?_ reaches
    -- The entry that is applied comes after the last one.
    rintro ⟨last, isLast, before⟩
    rw [isLast] at further
    refine ⟨logId, rfl, ?_⟩
    rw [UInt64.le_iff_toNat_le] at before ⊢
    exact Nat.le_trans before (Nat.le_trans (Nat.le_succ _) further)
  | acknowledge | commit | elect | stepDown | publish | respond | refuse | readTarget | check =>
    exact reaches

/-- What holds along a run at whose steps the watch shows what they rely on. -/
structure Kept (members : Members) (world : World) : Prop where
  table : ∀ rep, world.watch.replication = some rep → ∀ node ∈ members.nodes,
    node ≠ members.own → ∃ follower ∈ rep, follower.1 = node
  written : ∀ call logId job, world.calls call = .written logId job →
    Reaches (world.replicas members.own).lastApplied logId.index
  awaiting : ∀ call logId job target, world.calls call = .awaiting logId job target →
    Reaches (world.replicas members.own).lastApplied logId.index ∧ logId.index ≤ target
  honest : Honest members world

/-- The metrics of a leader list every other member. -/
theorem metrics_table {rep : List (NodeId × Option LogId)}
    (shown : (world.metrics members).replication = some rep) {node : NodeId}
    (member : node ∈ members.nodes) (other : node ≠ members.own) :
    ∃ follower ∈ rep, follower.1 = node := by
  -- Only what changes the metrics is looked at.
  unfold World.metrics at shown
  dsimp only at shown
  split at shown
  · cases shown
    refine ⟨(node, world.matched node), List.mem_map_of_mem ?_, rfl⟩
    exact List.mem_filter.mpr ⟨member, decide_eq_true other⟩
  · cases shown

/-- What has reached an index has reached those before it. -/
theorem Reaches.mono {last : Option LogId} {index earlier : UInt64} (reaches : Reaches last index)
    (before : earlier ≤ index) : Reaches last earlier := by
  obtain ⟨logId, isLast, within⟩ := reaches
  exact ⟨logId, isLast, UInt64.le_trans before within⟩

/-- A check that reports full propagation is right if the watch shows what it relies on. -/
theorem Kept.check (kept : Kept members world) {call : Nat} {logId : LogId} {job : Job}
    {target : UInt64} {late : Bool} (awaits : world.calls call = .awaiting logId job target)
    (shown : Shown members world (.check call late))
    (full : (checkPropagation world.watch target).fullyPropagated = true) :
    ∀ node ∈ members.nodes, Reaches (world.replicas node).lastApplied logId.index := by
  obtain ⟨own, within⟩ := kept.awaiting call logId job target awaits
  obtain ⟨alone, followers⟩ := shown logId job target awaits
  intro node member
  by_cases same : node = members.own
  · rwa [same]
  · cases table : world.watch.replication with
    | none =>
      -- Without a table the node is the only one.
      rw [alone table] at member
      exact absurd (List.mem_singleton.mp member) same
    | some rep =>
      obtain ⟨follower, listed, rfl⟩ := kept.table rep table node member same
      have every := ((fullyPropagated_of_replication table target).mp full).2
      exact (followers rep table follower listed (every follower listed)).mono within

/-- A step at which the watch shows what it relies on keeps the invariant. -/
theorem Kept.step (kept : Kept members world) (step : Step members world action after)
    (shown : Shown members world action) : Kept members after where
  table := by
    -- A step leaves what was published or publishes the table anew.
    intro rep table node member other
    rcases step.watch with same | published
    · rw [same] at table
      exact kept.table rep table node member other
    · rw [published] at table
      exact metrics_table table member other
  written := by
    intro call logId job written
    have calls := step.callStep call
    rw [written] at calls
    generalize before : world.calls call = phase at calls
    cases calls with
    | stays => exact step.reaches (kept.written call logId job before)
    | answered applied => exact step.reaches applied
  awaiting := by
    intro call logId job target awaits
    have calls := step.callStep call
    rw [awaits] at calls
    generalize before : world.calls call = phase at calls
    generalize now : PutJob.awaiting logId job target = next at calls
    cases calls with
    | stays =>
      subst now
      obtain ⟨own, within⟩ := kept.awaiting call logId job target before
      exact ⟨step.reaches own, within⟩
    | reads same =>
      cases now
      subst same
      exact ⟨step.reaches (kept.written call logId job before), shown logId job before⟩
    | begins | answered | fails | returns => cases now
  honest := by
    intro call logId result returned full node member
    have calls := step.callStep call
    rw [returned] at calls
    generalize before : world.calls call = phase at calls
    generalize now : PutJob.returned logId result = next at calls
    cases calls with
    | stays =>
      subst now
      exact step.reaches (kept.honest call logId result before full node member)
    | returns same =>
      cases now
      subst same
      exact step.reaches (kept.check before shown full node member)
    | begins | answered | fails | reads => cases now

end

/-- Along every run at whose steps the watch shows what they rely on, a write that is reported as
fully propagated has been applied by every member. -/
theorem honest_of_shown (members : Members) {opened world : World} (start : opened.Opened members)
    (run : Relation.ReflTransGen (ShownStep members) opened world) : Honest members world := by
  suffices kept : Kept members world from kept.honest
  induction run with
  | refl =>
    refine ⟨?_, ?_, ?_, ?_⟩
    · intro rep table node member other
      rw [start.watch] at table
      exact metrics_table table member other
    -- No call has begun yet.
    · intro call logId job written
      rw [start.calls] at written
      cases written
    · intro call logId job target awaits
      rw [start.calls] at awaits
      cases awaits
    · intro call logId result returned
      rw [start.calls] at returned
      cases returned
  | tail _ last ih =>
    obtain ⟨action, step, shown⟩ := last
    exact ih.step step shown

section

/-- The place of an entry that the first leader wrote. -/
def entryAt (index : UInt64) : LogId := ⟨⟨1, 1⟩, index⟩

/-- A job that is put. -/
def newJob : Job where
  id := "web"
  version := 1
  jobType := .service
  status := .pending
  submittedAt := ⟨0⟩
  groups := []
  constraints := []
  «meta» := ∅
  specHash := none

/-- A cluster of a node that the store runs on and of two others. -/
def threeMembers : Members where
  nodes := [1, 2, 3]
  own := 1
  distinct := by decide
  member := by decide

/-- Nodes that have the first entry, under the leader 1, with a store that no one has called. -/
def freshWorld (members : Members) : World :=
  let world : World :=
    { replicas := fun _ => ⟨some (entryAt 0), some (entryAt 0)⟩
      committed := some (entryAt 0)
      leader := some 1
      matched := fun _ => none
      watch := ⟨none, none⟩
      calls := fun _ => .idle }
  { world with watch := world.metrics members }

theorem freshWorld_opened (members : Members) : (freshWorld members).Opened members :=
  ⟨rfl, fun _ => rfl⟩

/-- A cluster of a node that the store runs on and of another one. -/
def twoMembers : Members where
  nodes := [1, 2]
  own := 1
  distinct := by decide
  member := by decide

/-- A write that both nodes have applied when the store checks is reported as fully propagated. -/
theorem honest_of_shown_twoMembers :
    ∃ world, (∃ result, world.calls 0 = .returned (entryAt 1) result ∧
      result.fullyPropagated = true) ∧ Honest twoMembers world := by
  refine ⟨_, ⟨_, rfl, ?_⟩, honest_of_shown twoMembers (freshWorld_opened twoMembers) <|
    .head ⟨.submit 0 (entryAt 1), .submit rfl rfl rfl, trivial⟩ <|
    .head ⟨.replicate 2 (entryAt 1), .replicate rfl (by decide) (by decide) ⟨_, rfl, by decide⟩
      (by decide), trivial⟩ <|
    .head ⟨.acknowledge 2, .acknowledge rfl, trivial⟩ <|
    .head ⟨.commit (entryAt 1), .commit rfl ⟨[1, 2], by decide, by decide, by decide, ?_⟩
      (by decide), trivial⟩ <|
    .head ⟨.apply 1 (entryAt 1), .apply ⟨_, rfl, by decide⟩ ⟨_, rfl, by decide⟩ (by decide),
      trivial⟩ <|
    .head ⟨.apply 2 (entryAt 1), .apply ⟨_, rfl, by decide⟩ ⟨_, rfl, by decide⟩ (by decide),
      trivial⟩ <|
    .head ⟨.respond 0 (.job newJob), .respond rfl ⟨_, rfl, by decide⟩, trivial⟩ <|
    .head ⟨.publish, .publish, trivial⟩ <|
    .head ⟨.readTarget 0, .readTarget rfl, ?_⟩ <|
    .single ⟨.check 0 true, .check rfl, ?_⟩⟩
  · rfl
  · intro voter listed
    rcases List.mem_cons.mp listed with rfl | listed
    · exact ⟨_, rfl, by decide⟩
    · rw [List.mem_singleton.mp listed]
      exact ⟨_, rfl, by decide⟩
  · intro logId job written
    cases written
    decide
  · intro logId job target awaits
    cases awaits
    refine ⟨(fun missing => by cases missing), ?_⟩
    -- The only follower has applied the entry.
    intro rep table follower listed _
    cases table
    rw [List.mem_singleton.mp listed]
    exact ⟨_, rfl, by decide⟩

/-- The leader loses its place while a write waits, and the missing table reads as one node. -/
theorem deposed_not_honest :
    ∃ world, Relation.ReflTransGen (fun world after => ∃ action,
        Step threeMembers world action after) (freshWorld threeMembers) world ∧
      ¬ Honest threeMembers world := by
  -- One of the two followers holds the entry, which commits it, and the third node has nothing.
  refine ⟨_, .head ⟨.submit 0 (entryAt 1), .submit rfl rfl rfl⟩ <|
    .head ⟨.replicate 2 (entryAt 1), .replicate rfl (by decide) (by decide) ⟨_, rfl, by decide⟩
      (by decide)⟩ <|
    .head ⟨.commit (entryAt 1), .commit rfl ⟨[1, 2], by decide, by decide, by decide, ?_⟩
      (by decide)⟩ <|
    .head ⟨.apply 1 (entryAt 1), .apply ⟨_, rfl, by decide⟩ ⟨_, rfl, by decide⟩ (by decide)⟩ <|
    .head ⟨.respond 0 (.job newJob), .respond rfl ⟨_, rfl, by decide⟩⟩ <|
    .head ⟨.publish, .publish⟩ <|
    .head ⟨.readTarget 0, .readTarget rfl⟩ <|
    .head ⟨.elect 2, .elect (by decide) (by decide)⟩ <|
    .head ⟨.publish, .publish⟩ <|
    .single ⟨.check 0 false, .check rfl⟩, ?_⟩
  · intro voter listed
    rcases List.mem_cons.mp listed with rfl | listed
    · exact ⟨_, rfl, by decide⟩
    · rw [List.mem_singleton.mp listed]
      exact ⟨_, rfl, by decide⟩
  · intro honest
    obtain ⟨last, isLast, within⟩ := honest 0 (entryAt 1) _ rfl rfl 3 (by decide)
    cases isLast
    exact absurd within (by decide)

end

end Tatara.Cluster
