import Tatara.Domain.Event
import Tatara.Domain.Allocation
import Tatara.Lib.Machine

/-! The state store of a single node, which writes its whole state to a file after each change. -/

namespace Tatara.Engine

open Tatara.Domain Tatara.Rust
open Tatara.Durable (Stored WritesWhole AtomicDurable FailsUnchanged atomicDurable_iff)

/-- `StateSnapshot`. -/
structure StateSnapshot where
  jobs : Std.ExtTreeMap String Job
  allocations : Std.ExtTreeMap Uuid Allocation
  nodes : Std.ExtTreeMap String Node
  sources : Std.ExtTreeMap Uuid Source

/-- `StateSnapshot::default`. -/
def StateSnapshot.default : StateSnapshot := ⟨∅, ∅, ∅, ∅⟩

/-- How snapshots are written as texts and read back. -/
structure SnapshotFormat (Text : Type) where
  toStringPretty : StateSnapshot → Text
  fromStr : Text → Option StateSnapshot

/-- What is written is read back. -/
def SnapshotFormat.RoundTrips {Text : Type} (format : SnapshotFormat Text) : Prop :=
  ∀ state, format.fromStr (format.toStringPretty state) = some state

/-- The two files of the directory, as far as they exist. -/
structure Directory (Text : Type) where
  stateFile : Option Text
  tmpFile : Option Text

/-- The step at which writing fails, and what is left of the temporary file. -/
inductive PersistFault (Text : Type) where
  | serialize
  | write (left : Option Text)
  | rename

/-- The step at which opening fails. -/
inductive OpenFault where
  | createDir
  | read

/-- The store, with the directory that belongs to it. -/
abbrev StateStore (Text : Type) := Stored StateSnapshot (Directory Text)

section

variable {Text : Type} (format : SnapshotFormat Text)

/-- The state that is read from a directory; a file that makes no sense counts for nothing. -/
def readState (dir : Directory Text) : StateSnapshot :=
  match dir.stateFile with
  | some data => (format.fromStr data).getD .default
  | none => .default

/-- `StateStore::new`. -/
def StateStore.new (fault : Option OpenFault) (dir : Directory Text) :
    Except String (StateStore Text) :=
  match fault, dir.stateFile with
  | some .createDir, _ => .error "Failed to create state directory"
  | some .read, some _ => .error "Failed to read state file"
  | _, _ => .ok { state := readState format dir, disk := dir }

/-- `persist`. -/
def persist (fault : Option (PersistFault Text)) (state : StateSnapshot) (dir : Directory Text) :
    Except String Unit × Directory Text :=
  match fault with
  | some .serialize => (.error "Failed to serialize state", dir)
  | some (.write left) =>
    (.error "Failed to write temporary state file", { dir with tmpFile := left })
  | some .rename =>
    (.error "Failed to rename state file",
      { dir with tmpFile := some (format.toStringPretty state) })
  | none => (.ok (), { stateFile := some (format.toStringPretty state), tmpFile := none })

end

namespace StateStore

variable {Text : Type} (format : SnapshotFormat Text) (fault : Option (PersistFault Text))
  (store : StateStore Text)

/-- The state in memory is replaced and then written. -/
def replace (state : StateSnapshot) : Except String Unit × StateStore Text :=
  let (result, disk) := persist format fault state store.disk
  (result, { state, disk })

/-- An entry that is there is changed in place; of one that is missing nothing is written. -/
def modify {α : Type} (found : Option α) (f : α → α) (place : α → StateSnapshot) :
    Except String (Option α) × StateStore Text :=
  match found with
  | some entry =>
    let (result, store) := store.replace format fault (place (f entry))
    (result.map fun _ => some (f entry), store)
  | none => (.ok none, store)

/-- `put_job`. -/
def putJob (job : Job) : Except String Unit × StateStore Text :=
  store.replace format fault { store.state with jobs := store.state.jobs.insert job.id job }

/-- `update_job`. -/
def updateJob (id : String) (f : Job → Job) : Except String (Option Job) × StateStore Text :=
  store.modify format fault store.state.jobs[id]? f fun job =>
    { store.state with jobs := store.state.jobs.insert id job }

/-- `put_allocation`. -/
def putAllocation (alloc : Allocation) : Except String Unit × StateStore Text :=
  store.replace format fault
    { store.state with allocations := store.state.allocations.insert alloc.id alloc }

/-- `update_allocation`. -/
def updateAllocation (id : Uuid) (f : Allocation → Allocation) :
    Except String (Option Allocation) × StateStore Text :=
  store.modify format fault store.state.allocations[id]? f fun alloc =>
    { store.state with allocations := store.state.allocations.insert id alloc }

/-- `put_node`. -/
def putNode (node : Node) : Except String Unit × StateStore Text :=
  store.replace format fault { store.state with nodes := store.state.nodes.insert node.id node }

/-- `put_source`. -/
def putSource (source : Source) : Except String Unit × StateStore Text :=
  store.replace format fault
    { store.state with sources := store.state.sources.insert source.id source }

/-- `update_source`. -/
def updateSource (id : Uuid) (f : Source → Source) :
    Except String (Option Source) × StateStore Text :=
  store.modify format fault store.state.sources[id]? f fun source =>
    { store.state with sources := store.state.sources.insert id source }

/-- `delete_source`. -/
def deleteSource (id : Uuid) : Except String Unit × StateStore Text :=
  store.replace format fault { store.state with sources := store.state.sources.erase id }

end StateStore

end Tatara.Engine
