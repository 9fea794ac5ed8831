import Tatara.Domain.Allocation
import Tatara.Engine.StateStore

/-! The executor of a node, which starts, stops and restarts the tasks of allocations. -/

namespace Tatara.Engine

open Tatara.Domain Tatara.Rust

/-- The name of a driver type for an error. -/
def debugDriver : DriverType → String
  | .exec => "Exec"
  | .oci => "Oci"
  | .nix => "Nix"
  | .nixBuild => "NixBuild"
  | .kasou => "Kasou"
  | .kube => "Kube"
  | .wasi => "Wasi"

/-- `TaskHandle`. -/
structure TaskHandle where
  driver : DriverType
  pid : Option UInt32
  containerId : Option String
  startedAt : DateTime

/-- A task in the running table. The processes that the executor has started are numbered, and the
task is known by the number of its own. -/
structure RunningTask where
  handle : TaskHandle
  taskName : String
  allocId : Uuid
  process : Nat

/-- The executor, with the processes that it has started and not stopped, and the number of the
next one. -/
structure Executor (Text : Type) where
  store : StateStore Text
  running : Std.ExtTreeMap Uuid (List RunningTask)
  live : List (Uuid × Nat)
  next : Nat

/-- What the calls of a start are answered: the directory, each task in its place with the update of
the store behind it, and the update at the end. -/
structure StartAnswers (Text : Type) where
  createDir : Except String Unit
  start : Nat → Except String TaskHandle
  fault : Nat → Option (PersistFault Text)
  last : Option (PersistFault Text)

/-- What the calls of a stop are answered: each task in its place, the clock for each task state,
and the update of the store. -/
structure StopAnswers (Text : Type) where
  stop : Nat → Except String Unit
  now : String → DateTime
  fault : Option (PersistFault Text)

/-- What the calls of a restart are answered. -/
structure RestartAnswers (Text : Type) where
  stop : Except String Unit
  createDir : Except String Unit
  start : Except String TaskHandle
  fault : Option (PersistFault Text)

/-- Change the state of one task of an allocation, if it has one. -/
def withTask (alloc : Allocation) (name : String) (f : TaskState → TaskState) : Allocation :=
  { alloc with taskStates := alloc.taskStates.modify name f }

/-- `Executor::new`. -/
def Executor.new {Text : Type} (store : StateStore Text) : Executor Text := ⟨store, ∅, [], 0⟩

namespace Executor

variable {Text : Type} (format : SnapshotFormat Text) (drivers : DriverType → Bool)

/-- Update an allocation in the store. -/
def update (x : Executor Text) (fault : Option (PersistFault Text)) (allocId : Uuid)
    (f : Allocation → Allocation) : Except String Unit × Executor Text :=
  let (result, store) := x.store.updateAllocation format fault allocId f
  (result.map fun _ => (), { x with store })

/-- A process of an allocation has been started. -/
def spawned (x : Executor Text) (allocId : Uuid) : Executor Text :=
  { x with live := (allocId, x.next) :: x.live, next := x.next + 1 }

/-- A process of an allocation has been stopped. -/
def stopped (x : Executor Text) (allocId : Uuid) (process : Nat) : Executor Text :=
  { x with live := x.live.filter (· ≠ (allocId, process)) }

/-- The tasks of a group are started one after the other. -/
def startTasks (answers : StartAnswers Text) (allocId : Uuid) (place : Nat) :
    List Task → List RunningTask → Executor Text →
      Except String (List RunningTask) × Executor Text
  | [], tasks, x => (.ok tasks, x)
  | task :: rest, tasks, x =>
    if drivers task.driver then
      match answers.start place with
      | .ok handle =>
        let running := fun a => withTask a task.name fun ts =>
          { ts with state := .running, pid := handle.pid, startedAt := some handle.startedAt }
        match (x.spawned allocId).update format (answers.fault place) allocId running with
        | (.error e, y) => (.error e, y)
        | (.ok _, y) =>
          startTasks answers allocId (place + 1) rest
            (tasks ++ [⟨handle, task.name, allocId, x.next⟩]) y
      | .error e =>
        let failed := fun a =>
          { withTask a task.name (fun ts => { ts with state := .dead }) with state := .failed }
        match x.update format (answers.fault place) allocId failed with
        | (.error e', y) => (.error e', y)
        | (.ok _, y) => (.error e, y)
    else (.error ("Driver " ++ debugDriver task.driver ++ " not available"), x)

/-- The task group of an allocation. -/
def findGroup (x : Executor Text) (alloc : Allocation) : Except String TaskGroup :=
  match x.store.state.jobs[alloc.jobId]? with
  | none => .error "Job not found for allocation"
  | some job =>
    match job.groups.find? fun g => g.name == alloc.groupName with
    | none => .error "Task group not found in job"
    | some group => .ok group

/-- `start_allocation`. -/
def startAllocation (x : Executor Text) (answers : StartAnswers Text) (alloc : Allocation) :
    Except String Unit × Executor Text :=
  match x.findGroup alloc with
  | .error e => (.error e, x)
  | .ok group =>
    match answers.createDir with
    | .error e => (.error e, x)
    | .ok _ =>
      match startTasks format drivers answers alloc.id 0 group.tasks [] x with
      | (.error e, y) => (.error e, y)
      | (.ok tasks, y) =>
        match y.update format answers.last alloc.id fun a => { a with state := .running } with
        | (.error e, y) => (.error e, y)
        | (.ok _, y) => (.ok (), { y with running := y.running.insert alloc.id tasks })

/-- The tasks that the running table has listed are stopped one after the other. -/
def stopTasks (stop : Nat → Except String Unit) (allocId : Uuid) (place : Nat) :
    List RunningTask → Executor Text → Except String Unit × Executor Text
  | [], x => (.ok (), x)
  | rt :: rest, x =>
    if drivers rt.handle.driver then
      match stop place with
      | .ok _ => stopTasks stop allocId (place + 1) rest (x.stopped allocId rt.process)
      | .error _ => stopTasks stop allocId (place + 1) rest x
    else (.error "Driver not found", x)

/-- `stop_allocation`. -/
def stopAllocation (x : Executor Text) (answers : StopAnswers Text) (allocId : Uuid) :
    Except String Unit × Executor Text :=
  let complete := fun (a : Allocation) =>
    { a with
      state := .complete
      taskStates := a.taskStates.map fun name ts =>
        { ts with state := .dead, finishedAt := some (answers.now name) } }
  match x.running[allocId]? with
  | none => x.update format answers.fault allocId complete
  | some tasks =>
    match stopTasks drivers answers.stop allocId 0 tasks
        { x with running := x.running.erase allocId } with
    | (.error e, y) => (.error e, y)
    | (.ok _, y) => y.update format answers.fault allocId complete

/-- The task that a restart is about. -/
def findTask (x : Executor Text) (allocId : Uuid) (name : String) : Except String Task :=
  match x.store.state.allocations[allocId]? with
  | none => .error "Allocation not found"
  | some alloc =>
    match x.findGroup alloc with
    | .error e => .error e
    | .ok group =>
      match group.tasks.find? fun t => t.name == name with
      | none => .error ("Task " ++ name ++ " not found in group " ++ group.name)
      | some task => .ok task

/-- The old process of a task is stopped, whatever comes of it, and taken off the running table. -/
def dropTask (x : Executor Text) (stop : Except String Unit) (allocId : Uuid) (name : String) :
    Executor Text :=
  match x.running[allocId]? with
  | none => x
  | some tasks =>
    let y :=
      match tasks.find? fun rt => rt.taskName == name with
      | none => x
      | some rt =>
        if drivers rt.handle.driver then
          match stop with
          | .ok _ => x.stopped allocId rt.process
          | .error _ => x
        else x
    { y with running := y.running.insert allocId (tasks.filter fun rt => rt.taskName ≠ name) }

/-- `restart_task`. -/
def restartTask (x : Executor Text) (answers : RestartAnswers Text) (allocId : Uuid)
    (name : String) : Except String Unit × Executor Text :=
  match x.findTask allocId name with
  | .error e => (.error e, x)
  | .ok task =>
    let y := x.dropTask drivers answers.stop allocId name
    match answers.createDir with
    | .error e => (.error e, y)
    | .ok _ =>
      if drivers task.driver then
        match answers.start with
        | .error e => (.error e, y)
        | .ok handle =>
          let restarted := fun a => withTask a name fun ts =>
            { ts with
              state := .running
              pid := handle.pid
              startedAt := some handle.startedAt
              restarts := ts.restarts + 1 }
          match (y.spawned allocId).update format answers.fault allocId restarted with
          | (.error e, z) => (.error e, z)
          | (.ok _, z) =>
            (.ok (), { z with
              running := z.running.insert allocId
                (z.running[allocId]?.getD [] ++ [⟨handle, name, allocId, y.next⟩]) })
      else (.error ("Driver " ++ debugDriver task.driver ++ " not available"), y)

end Executor

end Tatara.Engine
