import Tatara.Cluster.LogStore

/-! What a node can rebuild after a crash, when its log is on disk and its state is in memory. -/

namespace Tatara.Cluster

open Tatara.Rust Tatara.Domain

/-- A node: its log on disk, its state machine in memory, the snapshots built so far, and, for the
record, every entry that was ever applied. -/
structure Node where
  store : LogStore
  data : StateMachineData
  snapshots : List SnapshotMeta
  applied : List LogId

/-- What can happen to a node. -/
inductive NodeStep where
  | append (entries : List Entry)
  | apply (entries : List (Readings × Entry))
  | buildSnapshot (now : DateTime)
  | purge (logId : LogId)
  | crashRestart

/-- Entries come next in the log of a store, for a state machine that has applied what it has. -/
def ComesNext (store : LogStore) (data : StateMachineData) (entries : List (Readings × Entry)) :
    Prop :=
  ∀ (position : Nat) (readings : Readings) (entry : Entry),
    entries[position]? = some (readings, entry) →
    entry.logId.index.toNat = nextIndex data.lastAppliedLog + position ∧
      store.log[entry.logId.index]? = some entry

/-- What comes next in a log comes next in every log that holds the same entries and more. -/
theorem ComesNext.mono {store store' : LogStore} {data : StateMachineData}
    {entries : List (Readings × Entry)}
    (kept : ∀ (index : UInt64) (entry : Entry),
      store.log[index]? = some entry → store'.log[index]? = some entry)
    (next : ComesNext store data entries) : ComesNext store' data entries := by
  -- The indices depend on the state machine alone.
  intro position readings entry listed
  obtain ⟨index, stored⟩ := next position readings entry listed
  exact ⟨index, kept _ entry stored⟩

namespace StateMachineData

/-- An entry that is applied is the last one that was. -/
@[simp] theorem applyEntry_lastAppliedLog (readings : Readings) (entry : Entry)
    (data : StateMachineData) :
    (applyEntry readings entry data).2.lastAppliedLog = some entry.logId := by
  -- The place is set before the payload is looked at.
  simp only [applyEntry]
  split <;> rfl

/-- Applying what comes next moves the next index on by as many entries. -/
theorem nextIndex_apply {store : LogStore} {data : StateMachineData}
    {entries : List (Readings × Entry)} (next : ComesNext store data entries) :
    nextIndex (data.apply entries).2.lastAppliedLog =
      nextIndex data.lastAppliedLog + entries.length := by
  -- The last entry decides.
  rcases List.eq_nil_or_concat entries with rfl | ⟨front, last, rfl⟩
  · rfl
  · obtain ⟨readings, entry⟩ := last
    rw [List.concat_eq_append] at next ⊢
    have index := (next front.length readings entry (by simp)).1
    rw [apply, Machine.run_append, Machine.run_cons, Machine.run_nil, applyEntry_lastAppliedLog,
      nextIndex, index, List.length_append, List.length_singleton, Nat.add_assoc]

end StateMachineData

/-- What comes next after what came next comes next. -/
theorem ComesNext.append {store : LogStore} {data : StateMachineData}
    {front back : List (Readings × Entry)} (first : ComesNext store data front)
    (second : ComesNext store (data.apply front).2 back) :
    ComesNext store data (front ++ back) := by
  -- Positions behind the first list are counted from where it ended.
  intro position readings entry listed
  rw [List.getElem?_append] at listed
  split at listed
  · exact first position readings entry listed
  · obtain ⟨index, stored⟩ := second _ readings entry listed
    rw [StateMachineData.nextIndex_apply first] at index
    exact ⟨by omega, stored⟩

namespace Node

/-- A node on a new file. -/
def start : Node := ⟨.new, .default, [], []⟩

/-- `RaftCluster::start` on the same file: the log is opened again, and the state machine is new. -/
def restart (node : Node) : Node := { node with data := .default }

/-- A purge that takes an entry away. -/
def PurgeRemoves (node : Node) (logId : LogId) : Prop :=
  ∃ index entry, node.store.log[index]? = some entry ∧ index ≤ logId.index

/-- All entries before an index have been applied at some time. -/
def AppliedBefore (node : Node) (stop : Nat) : Prop :=
  ∀ index : UInt64, index.toNat < stop → ∃ id ∈ node.applied, id.index = index

/-- Nothing has been lost of the log. -/
structure Intact (node : Node) : Prop where
  keyed : node.store.Keyed
  applied : ∀ id ∈ node.applied, ∃ entry, node.store.log[id.index]? = some entry ∧ entry.logId = id
  rebuilt : ∃ entries, ComesNext node.store .default entries ∧
    (StateMachineData.default.apply entries).2 = node.data
  reaches : node.AppliedBefore (nextIndex node.data.lastAppliedLog)
  snapshots : ∀ snapshotMeta ∈ node.snapshots, node.AppliedBefore (nextIndex snapshotMeta.lastLogId)

/-- A node on a new file has lost nothing. -/
theorem start_intact : start.Intact where
  -- The log is empty and nothing has been applied.
  keyed := by
    intro index entry stored
    simp [start, LogStore.new] at stored
  applied := by simp [start]
  rebuilt := ⟨[], by simp [ComesNext], rfl⟩
  reaches := by simp [AppliedBefore, start, StateMachineData.default, nextIndex]
  snapshots := by simp [start]

/-- Entries that have been applied stay so. -/
theorem AppliedBefore.mono {node node' : Node} {stop : Nat} (before : node.AppliedBefore stop)
    (kept : ∀ id ∈ node.applied, id ∈ node'.applied) : node'.AppliedBefore stop := by
  -- The record of applied entries only grows.
  intro index less
  obtain ⟨id, member, same⟩ := before index less
  exact ⟨id, kept id member, same⟩

/-- A restart forgets the state and keeps the log. -/
theorem Intact.restart {node : Node} (intact : node.Intact) : node.restart.Intact where
  -- The new state machine is rebuilt by no entries at all.
  keyed := intact.keyed
  applied := intact.applied
  rebuilt := ⟨[], by simp [ComesNext], rfl⟩
  reaches := by simp [AppliedBefore, Node.restart, StateMachineData.default, nextIndex]
  snapshots := intact.snapshots

variable [StateCodec]

/-- What a step does to a node. -/
def perform (node : Node) : NodeStep → Node
  -- Only the append and the purge reach the disk.
  | .append entries => { node with store := node.store.append entries }
  | .apply entries =>
    -- The record of applied entries survives crashes, as no part of the node does.
    { node with
      data := (node.data.apply entries).2
      applied := node.applied ++ entries.map fun (_, entry) => entry.logId }
  | .buildSnapshot now =>
    match node.data.buildSnapshot now with
    | .ok snapshot => { node with snapshots := node.snapshots ++ [snapshot.meta] }
    | .error _ => node
  | .purge logId => { node with store := node.store.purge logId }
  | .crashRestart => node.restart

/-- When Raft takes a step: entries are appended at the end of the log, applied in the order of the
log, and purged only as far as a snapshot reaches that has been built. -/
def Permitted (node : Node) : NodeStep → Prop
  -- The state machine itself checks none of this.
  | .append entries => ∀ (position : Nat) (entry : Entry), entries[position]? = some entry →
    entry.logId.index.toNat = nextIndex node.store.getLogState.lastLogId + position
  | .apply entries => ComesNext node.store node.data entries
  | .buildSnapshot _ => True
  | .purge logId => ∃ snapshotMeta ∈ node.snapshots, ∃ last,
    snapshotMeta.lastLogId = some last ∧ logId.index ≤ last.index
  | .crashRestart => True

/-- The steps of a run, each with the node as it finds it. -/
def moves : List NodeStep → Node → List (Node × NodeStep)
  | [], _ => []
  | step :: steps, node => (node, step) :: moves steps (node.perform step)

/-- The node before and after every step of a run. -/
def reached : List NodeStep → Node → List Node
  | [], node => [node]
  | step :: steps, node => node :: reached steps (node.perform step)

/-- After a crash every entry ever applied is in the snapshot that the restarted state machine
offers or still in the log, and applying what is left of the log rebuilds the state. -/
structure Recoverable (node : Node) : Prop where
  covered : ∀ id ∈ node.applied,
    (∃ snapshot last, node.restart.data.getCurrentSnapshot = .ok (some snapshot) ∧
      snapshot.meta.lastLogId = some last ∧ id.index ≤ last.index) ∨
    ∃ entry, node.restart.store.log[id.index]? = some entry ∧ entry.logId = id
  rebuilt : ∃ entries, ComesNext node.restart.store node.restart.data entries ∧
    (node.restart.data.apply entries).2 = node.data

/-- A restarted state machine offers no snapshot. -/
theorem restart_getCurrentSnapshot (node : Node) :
    node.restart.data.getCurrentSnapshot = .ok none :=
  -- The new state machine has applied nothing.
  rfl

/-- An append adds entries behind all others. -/
theorem Intact.append {node : Node} (intact : node.Intact) {entries : List Entry}
    (permitted : node.Permitted (.append entries)) :
    (node.perform (.append entries)).Intact := by
  have kept : ∀ (index : UInt64) (entry : Entry), node.store.log[index]? = some entry →
      (node.store.append entries).log[index]? = some entry := by
    intro index entry stored
    rw [LogStore.append_getElem?, stored]
    -- An entry that is appended has a larger index.
    intro added member same
    obtain ⟨position, found⟩ := List.mem_iff_getElem?.mp member
    have behind := permitted position added found
    have before := intact.keyed.lt_nextIndex stored
    rw [same] at behind
    omega
  refine ⟨intact.keyed.append entries, ?_, ?_, intact.reaches, intact.snapshots⟩
  · intro id member
    obtain ⟨entry, stored, same⟩ := intact.applied id member
    exact ⟨entry, kept _ entry stored, same⟩
  · obtain ⟨replayed, next, same⟩ := intact.rebuilt
    exact ⟨replayed, next.mono kept, same⟩

/-- Applying what comes next in the log keeps to the log. -/
theorem Intact.apply {node : Node} (intact : node.Intact) {entries : List (Readings × Entry)}
    (permitted : ComesNext node.store node.data entries) :
    (node.perform (.apply entries)).Intact := by
  -- The log is not touched, and every entry that is applied was read from it.
  have grown : ∀ id ∈ node.applied, id ∈ (node.perform (.apply entries)).applied :=
    fun id member => List.mem_append_left _ member
  refine ⟨intact.keyed, ?_, ?_, ?_, fun snapshotMeta member =>
    (intact.snapshots snapshotMeta member).mono grown⟩
  · intro id member
    rcases List.mem_append.mp member with earlier | later
    · exact intact.applied id earlier
    · obtain ⟨⟨readings, entry⟩, listed, rfl⟩ := List.mem_map.mp later
      obtain ⟨position, found⟩ := List.mem_iff_getElem?.mp listed
      exact ⟨entry, (permitted position readings entry found).2, rfl⟩
  · -- The node is rebuilt by what rebuilt it before and then the new entries.
    obtain ⟨replayed, next, same⟩ := intact.rebuilt
    refine ⟨replayed ++ entries, next.append (by rw [same]; exact permitted), ?_⟩
    rw [StateMachineData.apply, Machine.run_append]
    exact congrArg (fun data => (StateMachineData.apply entries data).2) same
  · intro index less
    rw [perform, StateMachineData.nextIndex_apply permitted] at less
    by_cases earlier : index.toNat < nextIndex node.data.lastAppliedLog
    · exact (intact.reaches.mono grown) index earlier
    · -- An index that is new belongs to one of the entries.
      have bound : index.toNat - nextIndex node.data.lastAppliedLog < entries.length := by omega
      obtain ⟨⟨readings, entry⟩, found⟩ : ∃ input,
          entries[index.toNat - nextIndex node.data.lastAppliedLog]? = some input :=
        ⟨_, List.getElem?_eq_getElem bound⟩
      have place := (permitted _ readings entry found).1
      refine ⟨entry.logId, List.mem_append_right _ (List.mem_map.mpr
        ⟨(readings, entry), List.mem_of_getElem? found, rfl⟩), ?_⟩
      exact UInt64.toNat_inj.mp (by omega)

/-- A snapshot reaches as far as the state machine has applied. -/
theorem Intact.buildSnapshot {node : Node} (intact : node.Intact) (now : DateTime) :
    (node.perform (.buildSnapshot now)).Intact := by
  -- A snapshot that fails to serialize is not built at all.
  simp only [perform]
  split
  · rename_i snapshot built
    have reach : snapshot.meta.lastLogId = node.data.lastAppliedLog := by
      simp only [StateMachineData.buildSnapshot, StateMachineData.snapshotAs] at built
      split at built
      · cases built
      · cases built
        rfl
    refine ⟨intact.keyed, intact.applied, intact.rebuilt, intact.reaches, ?_⟩
    intro snapshotMeta member
    rcases List.mem_append.mp member with earlier | new
    · exact intact.snapshots snapshotMeta earlier
    · rw [List.mem_singleton.mp new, reach]
      exact intact.reaches
  · exact intact

/-- A purge that takes nothing away changes no entry. -/
theorem Intact.purge {node : Node} (intact : node.Intact) {logId : LogId}
    (nothing : ¬ node.PurgeRemoves logId) : (node.perform (.purge logId)).Intact := by
  -- Where the purge range is empty, the table keeps every entry.
  have same : (node.store.purge logId).log = node.store.log := by
    refine Std.ExtTreeMap.ext_getElem? fun index => ?_
    rw [LogStore.purge_getElem?]
    split
    · rename_i inside
      cases stored : node.store.log[index]? with
      | none => rfl
      | some entry => exact absurd ⟨index, entry, stored, inside⟩ nothing
    · rfl
  obtain ⟨keyed, applied, rebuilt, reaches, snapshots⟩ := intact
  constructor
  all_goals simp only [perform, LogStore.Keyed, ComesNext, same]
  · exact keyed
  · exact applied
  · exact rebuilt
  · exact reaches
  · exact snapshots

/-- A step loses nothing unless it is a purge that takes an entry away. -/
theorem Intact.perform {node : Node} (intact : node.Intact) {step : NodeStep}
    (permitted : node.Permitted step)
    (nothing : ∀ logId, step = .purge logId → ¬ node.PurgeRemoves logId) :
    (node.perform step).Intact := by
  -- Only the purge needs more than the permission to be taken.
  cases step with
  | append entries => exact intact.append permitted
  | apply entries => exact intact.apply permitted
  | buildSnapshot now => exact intact.buildSnapshot now
  | purge logId => exact intact.purge (nothing logId rfl)
  | crashRestart => exact intact.restart

/-- After a purge that takes an entry away, a crash cannot be recovered from. -/
theorem Intact.not_recoverable_purge {node : Node} (intact : node.Intact) {logId : LogId}
    (permitted : node.Permitted (.purge logId)) (removes : node.PurgeRemoves logId) :
    ¬ (node.perform (.purge logId)).Recoverable := by
  intro recoverable
  obtain ⟨index, entry, stored, inside⟩ := removes
  obtain ⟨snapshotMeta, built, last, reach, within⟩ := permitted
  -- The entry was applied before the snapshot was built.
  obtain ⟨id, member, rfl⟩ := intact.snapshots snapshotMeta built index (by
    rw [reach, nextIndex]
    exact Nat.lt_succ_of_le (UInt64.le_iff_toNat_le.mp (UInt64.le_trans inside within)))
  rcases recoverable.covered id member with ⟨snapshot, _, offered, -⟩ | ⟨entry', kept, -⟩
  · rw [restart_getCurrentSnapshot] at offered
    cases offered
  · rw [Node.restart, Node.perform, LogStore.purge_getElem?, if_pos inside] at kept
    cases kept

/-- As long as nothing is lost, a crash can be recovered from. -/
theorem Intact.recoverable {node : Node} (intact : node.Intact) : node.Recoverable :=
  -- The log alone covers every applied entry and rebuilds the state.
  ⟨fun id member => .inr (intact.applied id member), intact.rebuilt⟩

/-- From a node that has lost nothing, every node of a run can be recovered exactly when no purge
takes an entry away. -/
theorem Intact.recoverable_iff {node : Node} (intact : node.Intact) (steps : List NodeStep)
    (valid : ∀ move ∈ moves steps node, move.1.Permitted move.2) :
    (∀ found ∈ reached steps node, found.Recoverable) ↔
      ∀ found logId, (found, .purge logId) ∈ moves steps node → ¬ found.PurgeRemoves logId := by
  -- The run is followed step by step, up to the first purge that takes an entry away.
  induction steps generalizing node with
  | nil => simp [moves, reached, intact.recoverable]
  | cons step steps ih =>
    simp only [moves, List.forall_mem_cons] at valid
    obtain ⟨permitted, valid⟩ := valid
    simp only [reached, List.forall_mem_cons, intact.recoverable, true_and]
    simp only [moves, List.mem_cons, Prod.mk.injEq]
    by_cases loses : ∃ logId, step = .purge logId ∧ node.PurgeRemoves logId
    · -- The node after such a purge cannot be recovered.
      obtain ⟨logId, rfl, removes⟩ := loses
      refine iff_of_false ?_ fun nothing => nothing node logId (.inl ⟨rfl, rfl⟩) removes
      intro all
      refine intact.not_recoverable_purge permitted removes (all _ ?_)
      cases steps <;> simp [reached]
    · have nothing : ∀ logId, step = .purge logId → ¬ node.PurgeRemoves logId :=
        fun logId same removes => loses ⟨logId, same, removes⟩
      have rest := ih (intact.perform permitted nothing) valid
      rw [rest]
      constructor
      · rintro later found logId (⟨rfl, same⟩ | member)
        · exact nothing logId same.symm
        · exact later found logId member
      · intro all found logId member
        exact all found logId (.inr member)

/-- A crash can be recovered from at every moment of a run exactly when no purge of the run takes an
entry away. -/
theorem recoverable_iff_nothing_purged (steps : List NodeStep)
    (valid : ∀ move ∈ moves steps start, move.1.Permitted move.2) :
    (∀ node ∈ reached steps start, node.Recoverable) ↔
      ∀ node logId, (node, .purge logId) ∈ moves steps start → ¬ node.PurgeRemoves logId :=
  -- A run starts on a new file.
  start_intact.recoverable_iff steps valid

end Node

/-- Snapshots that carry the state as it is. -/
@[reducible] def plainCodec : StateCodec := ⟨StateMachineData, .ok, .ok⟩

/-- The first entry of a log, by which a node says that it holds a chunk. -/
def firstEntry : Entry := ⟨⟨⟨1, 1⟩, 0⟩, .normal (.advertiseChunk "chunk" 1)⟩

/-- The first entry is appended and applied, and a snapshot is built of it. -/
def snapshotRun : List NodeStep :=
  [.append [firstEntry], .apply [(.still ⟨0⟩, firstEntry)], .buildSnapshot ⟨0⟩]

/-- After a snapshot of the first entry, the log up to it may be purged. -/
theorem purgeRun_permitted :
    ∀ move ∈ @Node.moves plainCodec (snapshotRun ++ [.purge firstEntry.logId]) .start,
      move.1.Permitted move.2 := by
  -- The log is empty at first, and the snapshot reaches as far as its only entry.
  simp only [snapshotRun, List.cons_append, List.nil_append, Node.moves, List.forall_mem_cons]
  refine ⟨?_, ?_, trivial, ?_, by simp⟩
  · intro position entry found
    cases position with
    | zero =>
      cases found
      simp [firstEntry, nextIndex, Node.start, LogStore.new, LogStore.getLogState]
    | succ => cases found
  · intro position readings entry found
    cases position with
    | zero =>
      cases found
      exact ⟨rfl, by simp [Node.perform, LogStore.append, firstEntry]⟩
    | succ => cases found
  · exact ⟨_, List.mem_singleton.mpr rfl, firstEntry.logId, rfl, UInt64.le_refl _⟩

/-- A run that never purges can be recovered at every moment. -/
theorem recoverable_iff_snapshotRun :
    (∀ node ∈ @Node.reached plainCodec snapshotRun .start, @Node.Recoverable plainCodec node) ↔
      ∀ node logId, (node, .purge logId) ∈ @Node.moves plainCodec snapshotRun .start →
        ¬ node.PurgeRemoves logId :=
  @Node.recoverable_iff_nothing_purged plainCodec snapshotRun fun move member =>
    purgeRun_permitted move (by
      simp only [snapshotRun, List.cons_append, List.nil_append, Node.moves, List.mem_cons] at *
      tauto)

/-- The node after the first entry has been purged behind its snapshot. -/
def purgedNode : Node :=
  (snapshotRun ++ [NodeStep.purge firstEntry.logId]).foldl (@Node.perform plainCodec) .start

/-- Once the log is purged up to a snapshot, a crash loses the entry for good. -/
theorem not_recoverable_purgedNode :
    ¬ ∀ steps, (∀ move ∈ @Node.moves plainCodec steps .start, move.1.Permitted move.2) →
      ∀ node ∈ @Node.reached plainCodec steps .start, @Node.Recoverable plainCodec node := by
  intro recoverable
  have last := recoverable _ purgeRun_permitted purgedNode
    (by simp [purgedNode, snapshotRun, Node.reached])
  -- The entry was applied, the log is empty, and the new state machine has no snapshot.
  rcases @Node.Recoverable.covered plainCodec _ last firstEntry.logId (by decide +kernel) with
    ⟨snapshot, _, offered, -⟩ | ⟨entry, kept, -⟩
  · rw [@Node.restart_getCurrentSnapshot plainCodec] at offered
    cases offered
  · have gone : purgedNode.restart.store.log[firstEntry.logId.index]?.isNone = true := by
      decide +kernel
    rw [kept] at gone
    cases gone

end Tatara.Cluster
