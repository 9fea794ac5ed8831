import Tatara.Engine.StateStore

/-! In which runs the state store is atomic and durable. -/

namespace Tatara.Engine

open Tatara.Domain Tatara.Rust
open Tatara.Durable (Stored WritesWhole AtomicDurable FailsUnchanged atomicDurable_iff after
  acknowledged commit memoryFirst)

/-- What changes the state store. -/
inductive Operation where
  | putJob (job : Job)
  | updateJob (id : String) (f : Job → Job)
  | putAllocation (alloc : Allocation)
  | updateAllocation (id : Uuid) (f : Allocation → Allocation)
  | putNode (node : Node)
  | putSource (source : Source)
  | updateSource (id : Uuid) (f : Source → Source)
  | deleteSource (id : Uuid)

namespace Operation

/-- What an operation returns, as far as it says whether the operation has succeeded. -/
def discard {α β : Type} (outcome : Except String α × β) : Except String Unit × β :=
  (outcome.1.map fun _ => (), outcome.2)

/-- Carry out an operation. -/
def apply {Text : Type} (format : SnapshotFormat Text) (fault : Option (PersistFault Text))
    (op : Operation) (store : StateStore Text) : Except String Unit × StateStore Text :=
  match op with
  | putJob job => store.putJob format fault job
  | updateJob id f => discard (store.updateJob format fault id f)
  | putAllocation alloc => store.putAllocation format fault alloc
  | updateAllocation id f => discard (store.updateAllocation format fault id f)
  | putNode node => store.putNode format fault node
  | putSource source => store.putSource format fault source
  | updateSource id f => discard (store.updateSource format fault id f)
  | deleteSource id => store.deleteSource format fault id

/-- The state that an operation writes, if it writes at all. -/
def change (op : Operation) (state : StateSnapshot) : Option StateSnapshot :=
  match op with
  | putJob job => some { state with jobs := state.jobs.insert job.id job }
  | updateJob id f =>
    state.jobs[id]?.map fun job => { state with jobs := state.jobs.insert id (f job) }
  | putAllocation alloc =>
    some { state with allocations := state.allocations.insert alloc.id alloc }
  | updateAllocation id f =>
    state.allocations[id]?.map fun alloc =>
      { state with allocations := state.allocations.insert id (f alloc) }
  | putNode node => some { state with nodes := state.nodes.insert node.id node }
  | putSource source => some { state with sources := state.sources.insert source.id source }
  | updateSource id f =>
    state.sources[id]?.map fun source =>
      { state with sources := state.sources.insert id (f source) }
  | deleteSource id => some { state with sources := state.sources.erase id }

/-- What the operation asks for is there already. -/
def Harmless (op : Operation) (state : StateSnapshot) : Prop :=
  match op with
  | putJob job => state.jobs[job.id]? = some job
  | updateJob id f => ∀ job, state.jobs[id]? = some job → f job = job
  | putAllocation alloc => state.allocations[alloc.id]? = some alloc
  | updateAllocation id f => ∀ alloc, state.allocations[id]? = some alloc → f alloc = alloc
  | putNode node => state.nodes[node.id]? = some node
  | putSource source => state.sources[source.id]? = some source
  | updateSource id f => ∀ source, state.sources[id]? = some source → f source = source
  | deleteSource id => state.sources[id]? = none

section

variable {κ ν : Type} [Ord κ] [Std.TransOrd κ] [Std.LawfulEqOrd κ] {m : Std.ExtTreeMap κ ν}
  {k : κ} {v : ν}

/-- A change of one entry leaves the map as it is if it is the entry that is there. -/
theorem eq_self_iff {changed : Std.ExtTreeMap κ ν} {entry : Option ν}
    (sets : ∀ other, changed[other]? = if compare k other = .eq then entry else m[other]?) :
    changed = m ↔ m[k]? = entry := by
  constructor
  · intro same
    rw [← same, sets]
    simp
  · intro there
    -- Every other entry is left alone anyway.
    refine Std.ExtTreeMap.ext_getElem? fun other => ?_
    rw [sets]
    split
    · rename_i equal
      rw [← Std.LawfulEqOrd.eq_of_compare equal, there]
    · rfl

theorem insert_eq_self_iff : m.insert k v = m ↔ m[k]? = some v :=
  eq_self_iff fun _ => Std.ExtTreeMap.getElem?_insert

/-- An entry that is changed in place leaves the map as it is if it stays what it was. -/
theorem modify_eq_self_iff {f : ν → ν} :
    (∀ v, m[k]? = some v → m.insert k (f v) = m) ↔ ∀ v, m[k]? = some v → f v = v := by
  refine forall₂_congr fun v there => ?_
  rw [insert_eq_self_iff, there, Option.some.injEq, eq_comm]

theorem erase_eq_self_iff : m.erase k = m ↔ m[k]? = none :=
  eq_self_iff fun _ => Std.ExtTreeMap.getElem?_erase

end

/-- An operation is harmless if what it writes is the state that is there. -/
theorem harmless_iff {op : Operation} {state : StateSnapshot} :
    op.Harmless state ↔ ∀ written, op.change state = some written → written = state := by
  obtain ⟨jobs, allocations, nodes, sources⟩ := state
  -- Insertion, change and erasure are each compared with what is there.
  cases op with
  | putJob | putAllocation | putNode | putSource => simp [Harmless, change, insert_eq_self_iff]
  | updateJob | updateAllocation | updateSource => simp [Harmless, change, modify_eq_self_iff]
  | deleteSource => simp [Harmless, change, erase_eq_self_iff]

variable {Text : Type} {format : SnapshotFormat Text}

/-- To change an entry is to change the memory and then to write, as far as one can see. -/
theorem discard_modify {α : Type} (fault : Option (PersistFault Text)) (store : StateStore Text)
    (found : Option α) (f : α → α) (place : α → StateSnapshot) :
    discard (store.modify format fault found f place) =
      commit (persist format) fault (found.map fun entry => place (f entry)) store := by
  -- Without the entry nothing is done.
  cases found with
  | none => rfl
  | some entry =>
    simp only [StateStore.modify, StateStore.replace, discard, Option.map_some, commit]
    cases (persist format fault (place (f entry)) store.disk).1 <;> rfl

/-- Every operation changes the memory and then writes it, where it writes at all. -/
theorem apply_eq_memoryFirst (format : SnapshotFormat Text) :
    apply format = memoryFirst (persist format) change := by
  -- Five of the operations are of this form as they stand; three return the entry besides.
  funext fault op store
  cases op with
  | putJob | putAllocation | putNode | putSource | deleteSource => rfl
  | updateJob | updateAllocation | updateSource => exact discard_modify ..

end Operation

/-- What is written is there, and what fails to be written leaves the old file in place. -/
theorem writesWhole_persist {Text : Type} {format : SnapshotFormat Text}
    (roundTrips : format.RoundTrips) : WritesWhole (persist format) (readState format) := by
  -- Only the rename touches the file that is read.
  constructor
  · intro fault state dir written
    cases fault with
    | some fault => cases fault <;> cases written
    | none => simp [persist, readState, roundTrips state]
  · intro fault state dir error failed
    cases fault with
    | some fault => cases fault <;> rfl
    | none => cases failed

section

variable {Text : Type}

/-- Operations that fail change nothing, and what has been acknowledged is what can be opened. -/
def KeepsState (format : SnapshotFormat Text)
    (inputs : List (Option (PersistFault Text) × Operation)) (store : StateStore Text) : Prop :=
  AtomicDurable (Operation.apply format) (readState format) inputs store

/-- Only such writes fail as have nothing new to write. -/
def FaultsHarmless (format : SnapshotFormat Text)
    (inputs : List (Option (PersistFault Text) × Operation)) (store : StateStore Text) : Prop :=
  ∀ front fault op, front ++ [(some fault, op)] <+: inputs →
    op.Harmless (after (Operation.apply format) front store).state

/-- To persist fails exactly with a fault. -/
theorem fst_persist {format : SnapshotFormat Text} {fault : Option (PersistFault Text)}
    {state : StateSnapshot} {dir : Directory Text} :
    (∃ error, (persist format fault state dir).1 = .error error) ↔ fault.isSome := by
  cases fault with
  | none => simp [persist]
  | some fault => cases fault <;> simp [persist]

/-- The store changes its memory before it writes, and does not take the change back. -/
theorem keepsState_iff (format : SnapshotFormat Text) (roundTrips : format.RoundTrips)
    (dir : Directory Text) (openFault : Option OpenFault) (store : StateStore Text)
    (opened : StateStore.new format openFault dir = .ok store)
    (inputs : List (Option (PersistFault Text) × Operation)) :
    KeepsState format inputs store ↔ FaultsHarmless format inputs store := by
  have start : readState format store.disk = store.state := by
    simp only [StateStore.new] at opened
    split at opened <;> cases opened
    rfl
  rw [KeepsState, FaultsHarmless, Operation.apply_eq_memoryFirst,
    atomicDurable_iff (writesWhole_persist roundTrips) start]
  simp only [FailsUnchanged, Operation.harmless_iff]
  constructor
  · intro unchanged front fault op before written changed
    obtain ⟨error, failed⟩ := fst_persist.mpr (rfl : (some fault).isSome)
    exact unchanged front (some fault) op before written changed error failed
  · intro harmless front fault op before written changed error failed
    -- A write that fails has a step at which it does.
    obtain ⟨fault, rfl⟩ := Option.isSome_iff_exists.mp (fst_persist.mp ⟨error, failed⟩)
    exact harmless front fault op before written changed

end

/-- A format whose texts are the snapshots themselves. -/
def plainFormat : SnapshotFormat StateSnapshot where
  toStringPretty := id
  fromStr := some

/-- A directory that has just been created. -/
def emptyDirectory : Directory StateSnapshot := ⟨none, none⟩

/-- A node to store. -/
def storedNode : Node :=
  { id := "n1", address := "127.0.0.1:4647", status := .ready, eligible := true
    totalResources := ⟨4000, 8192⟩, availableResources := ⟨4000, 8192⟩, attributes := ∅
    drivers := [.exec], lastHeartbeat := ⟨0⟩, allocations := [] }

/-- The node is stored, and stored once more while the rename fails. -/
def storedTwice : List (Option (PersistFault StateSnapshot) × Operation) :=
  [(none, .putNode storedNode), (some .rename, .putNode storedNode)]

/-- The node is stored while the rename fails, and then a job that is missing is updated. -/
def renameFails : List (Option (PersistFault StateSnapshot) × Operation) :=
  [(some .rename, .putNode storedNode), (none, .updateJob "web" id)]

/-- The write that fails has nothing new to write, so the store keeps its state. -/
theorem keepsState_storedTwice :
    FaultsHarmless plainFormat storedTwice ⟨.default, emptyDirectory⟩ ∧
      KeepsState plainFormat storedTwice ⟨.default, emptyDirectory⟩ := by
  have stored : (StateSnapshot.default.nodes.insert "n1" storedNode)["n1"]? = some storedNode :=
    Std.ExtTreeMap.getElem?_insert_self
  have harmless : FaultsHarmless plainFormat storedTwice ⟨.default, emptyDirectory⟩ := by
    intro front fault op part
    obtain ⟨rest, whole⟩ := part
    -- Only the second operation fails, and the node is there by then.
    rcases front with _ | ⟨first, _ | ⟨second, front⟩⟩
    · cases (List.cons.inj whole).1
    · obtain ⟨rfl, others⟩ := List.cons.inj whole
      obtain ⟨-, rfl⟩ := Prod.mk.inj (List.cons.inj others).1
      exact stored
    · have lengths := congrArg List.length whole
      simp [storedTwice] at lengths
  exact ⟨harmless,
    (keepsState_iff plainFormat (fun _ => rfl) emptyDirectory none _ rfl storedTwice).mpr harmless⟩

/-- The node stays in memory although its file could not be renamed, and the update, which finds
nothing to do, succeeds with the node in memory and not on the disk. -/
theorem not_keepsState_rename :
    ¬ KeepsState plainFormat renameFails ⟨.default, emptyDirectory⟩ ∧
      readState plainFormat
          (after (Operation.apply plainFormat) renameFails ⟨.default, emptyDirectory⟩).disk ≠
        acknowledged (Operation.apply plainFormat) renameFails ⟨.default, emptyDirectory⟩ := by
  have stored : (StateSnapshot.default.nodes.insert "n1" storedNode)["n1"]? = some storedNode :=
    Std.ExtTreeMap.getElem?_insert_self
  -- The node is in memory, and what is on disk does not have it.
  constructor
  · intro kept
    have same := kept.atomic [] (some .rename) (.putNode storedNode) (by simp [renameFails]) _ rfl
    have found := congrArg (fun state : StateSnapshot => state.nodes["n1"]?) same
    cases stored.symm.trans found
  · intro same
    have found := congrArg (fun state : StateSnapshot => state.nodes["n1"]?) same
    cases found.trans stored

end Tatara.Engine
