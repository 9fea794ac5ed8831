import Tatara.Engine.Executor
import Tatara.Lib.Consecutive
import Tatara.Lib.Machine

/-! In which runs the running table lists every process that the executor has started and not
stopped. -/

namespace Tatara.Engine

open Tatara.Domain Tatara.Rust Tatara.Places

namespace Executor

variable {Text : Type} {format : SnapshotFormat Text} {drivers : DriverType → Bool}
  {x y : Executor Text} {allocId a : Uuid} {p : Nat}

/-- The tasks that the running table lists under an allocation. -/
def tasksOf (x : Executor Text) (allocId : Uuid) : List RunningTask :=
  x.running[allocId]?.getD []

/-- A process is listed in the running table under its allocation. -/
def Listed (x : Executor Text) (allocId : Uuid) (process : Nat) : Prop :=
  ∃ rt ∈ x.tasksOf allocId, rt.process = process

/-- Every process that was started and not stopped is listed under its allocation. -/
def Tracked (x : Executor Text) : Prop :=
  ∀ allocId process, (allocId, process) ∈ x.live → x.Listed allocId process

/-- What holds of an executor after any calls: what is listed has not been stopped, is listed once,
and was numbered before. -/
structure Sound (x : Executor Text) : Prop where
  listed : ∀ allocId, ∀ rt ∈ x.tasksOf allocId, (allocId, rt.process) ∈ x.live
  once : ∀ allocId, ((x.tasksOf allocId).map RunningTask.process).Nodup
  below : ∀ allocId process, (allocId, process) ∈ x.live → process < x.next

/-- An update of the store succeeds when nothing fails, or when there is nothing to write. -/
def Recorded (x : Executor Text) (fault : Option (PersistFault Text)) (allocId : Uuid) : Prop :=
  fault = none ∨ x.store.state.allocations[allocId]? = none

section

variable {fault later : Option (PersistFault Text)} {f : Allocation → Allocation}

/-- An update succeeds exactly if it is recorded. -/
theorem update_eq_ok_iff :
    (x.update format fault allocId f).1 = .ok () ↔ x.Recorded fault allocId := by
  -- The update needs the allocation in the store, and a write that does not fail.
  unfold update Recorded StateStore.updateAllocation StateStore.modify
  cases found : x.store.state.allocations[allocId]? with
  | none => simp [Except.map]
  | some alloc =>
    cases fault with
    | none => simp [StateStore.replace, persist, Except.map]
    | some fault => cases fault <;> simp [StateStore.replace, persist, Except.map]

/-- An update leaves an allocation in the store, or out of it. -/
theorem recorded_update :
    (x.update format fault allocId f).2.Recorded later allocId ↔ x.Recorded later allocId := by
  -- An update leaves the allocation where it is.
  unfold update Recorded StateStore.updateAllocation StateStore.modify
  cases found : x.store.state.allocations[allocId]? with
  | none => simp [found]
  | some alloc => simp [StateStore.replace]

/-- An update changes the store alone. -/
theorem updated {result : Except String Unit}
    (written : x.update format fault allocId f = (result, y)) :
    y.running = x.running ∧ y.live = x.live ∧ y.next = x.next ∧
      (∀ later, y.Recorded later allocId ↔ x.Recorded later allocId) ∧
      (result = .ok () ↔ x.Recorded fault allocId) := by
  cases congrArg Prod.fst written
  cases congrArg Prod.snd written
  exact ⟨rfl, rfl, rfl, fun _ => recorded_update, update_eq_ok_iff⟩

end

/-- To spawn a task lists none. -/
@[simp] theorem spawned_tasksOf : (x.spawned allocId).tasksOf a = x.tasksOf a := rfl

@[simp] theorem stopped_tasksOf {process : Nat} :
    (x.stopped allocId process).tasksOf a = x.tasksOf a := rfl

/-- Behind a spawn one more process is running. -/
theorem mem_spawned_live_iff :
    (a, p) ∈ (x.spawned allocId).live ↔ (a, p) ∈ x.live ∨ a = allocId ∧ p = x.next := by
  simp only [spawned, List.mem_cons, Prod.mk.injEq]
  exact or_comm

/-- Behind a stop all others are running. -/
theorem mem_stopped_live_iff {process : Nat} :
    (a, p) ∈ (x.stopped allocId process).live ↔
      (a, p) ∈ x.live ∧ ¬ (a = allocId ∧ p = process) := by
  simp only [stopped, List.mem_filter, ne_eq, Prod.mk.injEq, decide_not, Bool.not_eq_true',
    decide_eq_false_iff_not]

/-- Listing tasks under one allocation leaves the others as they are. -/
theorem tasksOf_insert (tasks : List RunningTask) :
    ({ x with running := x.running.insert allocId tasks } : Executor Text).tasksOf a =
      if a = allocId then tasks else x.tasksOf a := by
  -- The lists of other allocations stay.
  unfold tasksOf
  rw [Std.ExtTreeMap.getElem?_insert]
  by_cases own : a = allocId
  · subst own
    simp
  · have other : compare allocId a ≠ .eq := fun same => own (Std.compare_eq_iff_eq.mp same).symm
    rw [if_neg other, if_neg own]

/-- Behind an erasure the allocation has no tasks, and the others keep theirs. -/
theorem tasksOf_erase :
    ({ x with running := x.running.erase allocId } : Executor Text).tasksOf a =
      if a = allocId then [] else x.tasksOf a := by
  -- The lists of other allocations stay.
  unfold tasksOf
  rw [Std.ExtTreeMap.getElem?_erase]
  by_cases own : a = allocId
  · subst own
    simp
  · have other : compare allocId a ≠ .eq := fun same => own (Std.compare_eq_iff_eq.mp same).symm
    rw [if_neg other, if_neg own]

section Start

variable {answers : StartAnswers Text} {place : Nat} {tasks : List Task}
  {listed : List RunningTask}

/-- Each task has its driver, is started, and is recorded in the store. -/
def StartsAll (drivers : DriverType → Bool) (x : Executor Text) (answers : StartAnswers Text)
    (allocId : Uuid) (place : Nat) (tasks : List Task) : Prop :=
  ∀ i task, tasks[i]? = some task → drivers task.driver = true ∧
    (∃ handle, answers.start (place + i) = .ok handle) ∧
    x.Recorded (answers.fault (place + i)) allocId

/-- The first task has its driver and is started. -/
def StartsFirst (drivers : DriverType → Bool) (answers : StartAnswers Text) (place : Nat)
    (tasks : List Task) : Prop :=
  ∃ task, tasks.head? = some task ∧ drivers task.driver = true ∧
    ∃ handle, answers.start place = .ok handle

/-- All tasks start if the first one does and the others do. -/
theorem startsAll_cons_iff {task : Task} {rest : List Task} :
    StartsAll drivers x answers allocId place (task :: rest) ↔
      (drivers task.driver = true ∧ (∃ handle, answers.start place = .ok handle) ∧
        x.Recorded (answers.fault place) allocId) ∧
      StartsAll drivers x answers allocId (place + 1) rest := by
  -- The condition on a task is one on its place.
  exact forall_places_cons (fun i other => drivers other.driver = true ∧
    (∃ handle, answers.start i = .ok handle) ∧ x.Recorded (answers.fault i) allocId) task rest place

/-- Whether all tasks start is a matter of what can be recorded. -/
theorem startsAll_congr (same : ∀ fault, y.Recorded fault allocId ↔ x.Recorded fault allocId) :
    StartsAll drivers y answers allocId place tasks ↔
      StartsAll drivers x answers allocId place tasks := by
  simp only [StartsAll, same]

/-- What comes of starting tasks: the processes with the next numbers have been started, and where
all goes well these are the ones listed. -/
structure StartSpec (drivers : DriverType → Bool) (x : Executor Text)
    (answers : StartAnswers Text) (allocId : Uuid) (place : Nat) (tasks : List Task)
    (listed : List RunningTask) (result : Except String (List RunningTask)) (y : Executor Text) :
    Prop where
  running : y.running = x.running
  later : x.next ≤ y.next
  live : ∀ a p, (a, p) ∈ y.live ↔ (a, p) ∈ x.live ∨ a = allocId ∧ x.next ≤ p ∧ p < y.next
  recorded : ∀ fault, y.Recorded fault allocId ↔ x.Recorded fault allocId
  succeeds : (∃ all, result = .ok all) ↔ StartsAll drivers x answers allocId place tasks
  lists : ∀ all, result = .ok all → all.map RunningTask.process =
    listed.map RunningTask.process ++ List.range' x.next (y.next - x.next)
  begins : x.next < y.next ↔ StartsFirst drivers answers place tasks

/-- Where no process is started, none has a number that has been drawn. -/
theorem mem_live_of_idle (live : y.live = x.live) (next : y.next = x.next) (a : Uuid) (p : Nat) :
    (a, p) ∈ y.live ↔ (a, p) ∈ x.live ∨ a = allocId ∧ x.next ≤ p ∧ p < y.next := by
  rw [live, next]
  -- No number is between one and itself.
  have empty : ¬ (a = allocId ∧ x.next ≤ p ∧ p < x.next) := fun ⟨_, low, high⟩ =>
    absurd high (Nat.not_lt.mpr low)
  exact (or_iff_left empty).symm

/-- What fails without a process has started nothing. -/
theorem StartSpec.idle {error : String} (running : y.running = x.running) (live : y.live = x.live)
    (next : y.next = x.next)
    (recorded : ∀ fault, y.Recorded fault allocId ↔ x.Recorded fault allocId)
    (fails : ¬ StartsAll drivers x answers allocId place tasks)
    (idle : ¬ StartsFirst drivers answers place tasks) :
    StartSpec drivers x answers allocId place tasks listed (.error error) y where
  running := running
  later := next ▸ Nat.le_refl _
  live := mem_live_of_idle live next
  recorded := recorded
  succeeds := by simp [fails]
  lists := by simp
  begins := by simp [next, idle]

/-- What comes of a task that is started and recorded is what comes of the others behind it. -/
theorem StartSpec.cons {task : Task} {rest : List Task} {handle : TaskHandle}
    {result : Except String (List RunningTask)} (there : drivers task.driver = true)
    (started : answers.start place = .ok handle)
    (written : x.Recorded (answers.fault place) allocId)
    (running : y.running = x.running) (live : y.live = (x.spawned allocId).live)
    (next : y.next = x.next + 1)
    (recorded : ∀ fault, y.Recorded fault allocId ↔ x.Recorded fault allocId)
    (behind : StartSpec drivers y answers allocId (place + 1) rest
      (listed ++ [⟨handle, task.name, allocId, x.next⟩]) result z) :
    StartSpec drivers x answers allocId place (task :: rest) listed result z := by
  have later := behind.later
  refine ⟨behind.running.trans running, by omega, fun b q => ?_,
    fun fault => (behind.recorded fault).trans (recorded fault), ?_, fun all ok => ?_,
    iff_of_true (by omega) ⟨task, rfl, there, handle, started⟩⟩
  · -- The process started here comes before those of the tasks behind it.
    rw [behind.live, live, mem_spawned_live_iff, next, or_assoc, ← and_or_left]
    exact or_congr_right (and_congr_right fun _ => by omega)
  · rw [behind.succeeds, startsAll_cons_iff, startsAll_congr recorded]
    exact (and_iff_right ⟨there, ⟨handle, started⟩, written⟩).symm
  · rw [behind.lists all ok, List.map_append, List.append_assoc, next]
    congr 1
    rw [show z.next - x.next = z.next - (x.next + 1) + 1 by omega, List.range'_succ]
    rfl

/-- What comes of starting the tasks of a group, one after the other. -/
theorem startTasks_spec :
    StartSpec drivers x answers allocId place tasks listed
      (startTasks format drivers answers allocId place tasks listed x).1
      (startTasks format drivers answers allocId place tasks listed x).2 := by
  -- By induction on the tasks; the first one that fails ends it.
  induction tasks generalizing place listed x with
  | nil =>
    rw [startTasks]
    exact ⟨rfl, Nat.le_refl _, mem_live_of_idle rfl rfl, fun _ => .rfl, by simp [StartsAll],
      by simp, by simp [StartsFirst]⟩
  | cons task rest ih =>
    rw [startTasks]
    by_cases there : drivers task.driver = true
    · rw [if_pos there]
      cases started : answers.start place with
      | error e =>
        -- Nothing is started from here on, whether the failure is recorded or not.
        have idle : ¬ StartsFirst drivers answers place (task :: rest) := by
          rintro ⟨_, -, -, handle, ok⟩
          rw [started] at ok
          cases ok
        have fails : ¬ StartsAll drivers x answers allocId place (task :: rest) := fun all =>
          idle ⟨task, rfl, there, (startsAll_cons_iff.mp all).1.2.1⟩
        dsimp only
        split <;>
        · rename_i written
          obtain ⟨running, live, next, recorded, -⟩ := updated written
          exact .idle running live next recorded fails idle
      | ok handle =>
        dsimp only
        split
        · rename_i e y written
          obtain ⟨running, live, next, recorded, succeeds⟩ := updated written
          -- The process runs, but it could not be recorded.
          refine ⟨running, next ▸ Nat.le_succ _, fun b q => ?_, recorded, ?_, by simp,
            iff_of_true (next ▸ Nat.lt_succ_self _) ⟨task, rfl, there, handle, started⟩⟩
          · rw [live, next, mem_spawned_live_iff]
            exact or_congr_right (and_congr_right fun _ => by simp only [spawned]; omega)
          · refine iff_of_false (by simp) fun all => ?_
            cases succeeds.mpr (startsAll_cons_iff.mp all).1.2.2
        · rename_i u y written
          obtain ⟨running, live, next, recorded, succeeds⟩ := updated written
          exact .cons there started (succeeds.mp rfl) running live next recorded ih
    · rw [if_neg there]
      have fails : ¬ StartsAll drivers x answers allocId place (task :: rest) := fun all =>
        there (startsAll_cons_iff.mp all).1.1
      have idle : ¬ StartsFirst drivers answers place (task :: rest) := by
        rintro ⟨_, first, present, -⟩
        cases first
        exact there present
      exact .idle rfl rfl rfl (fun _ => .rfl) fails idle

end Start

section Stop

variable {stop : Nat → Except String Unit} {place : Nat} {tasks : List RunningTask}

/-- Each task has its driver and is stopped. -/
def StopsAll (drivers : DriverType → Bool) (stop : Nat → Except String Unit) (place : Nat)
    (tasks : List RunningTask) : Prop :=
  ∀ i rt, tasks[i]? = some rt → drivers rt.handle.driver = true ∧ stop (place + i) = .ok ()

theorem stopsAll_cons_iff {rt : RunningTask} {rest : List RunningTask} :
    StopsAll drivers stop place (rt :: rest) ↔
      (drivers rt.handle.driver = true ∧ stop place = .ok ()) ∧
      StopsAll drivers stop (place + 1) rest := by
  -- The condition on a task is one on its place.
  exact forall_places_cons (fun i other => drivers other.handle.driver = true ∧ stop i = .ok ()) rt
    rest place

/-- What comes of stopping tasks: some of their processes have been stopped, and nothing else has
changed. -/
structure StopSpec (drivers : DriverType → Bool) (x : Executor Text)
    (stop : Nat → Except String Unit) (allocId : Uuid) (place : Nat) (tasks : List RunningTask)
    (y : Executor Text) : Prop where
  running : y.running = x.running
  next : y.next = x.next
  kept : ∀ a p, (a, p) ∈ x.live →
    (a, p) ∈ y.live ∨ a = allocId ∧ ∃ rt ∈ tasks, rt.process = p
  old : ∀ a p, (a, p) ∈ y.live → (a, p) ∈ x.live
  all : (∀ rt ∈ tasks, (allocId, rt.process) ∈ x.live) →
    (tasks.map RunningTask.process).Nodup →
      ((∀ rt ∈ tasks, (allocId, rt.process) ∉ y.live) ↔ StopsAll drivers stop place tasks)

theorem stopTasks_spec :
    StopSpec drivers x stop allocId place tasks
      (stopTasks drivers stop allocId place tasks x).2 := by
  -- By induction on the tasks; a driver that is missing ends it, a failure to stop does not.
  induction tasks generalizing place x with
  | nil =>
    rw [stopTasks]
    exact ⟨rfl, rfl, fun _ _ old => .inl old, fun _ _ old => old, by simp [StopsAll]⟩
  | cons rt rest ih =>
    rw [stopTasks]
    by_cases there : drivers rt.handle.driver = true
    · rw [if_pos there]
      cases answered : stop place with
      | ok u =>
        have spec := @ih (x.stopped allocId rt.process) (place + 1)
        refine ⟨spec.running, spec.next, fun a p old => ?_,
          fun a p left => (mem_stopped_live_iff.mp (spec.old a p left)).1, fun alive once => ?_⟩
        · by_cases own : a = allocId ∧ p = rt.process
          · exact .inr ⟨own.1, rt, List.mem_cons_self, own.2.symm⟩
          · rcases spec.kept a p (mem_stopped_live_iff.mpr ⟨old, own⟩) with left | ⟨same, other⟩
            · exact .inl left
            · obtain ⟨other, among, same'⟩ := other
              exact .inr ⟨same, other, List.mem_cons_of_mem _ among, same'⟩
        · rw [List.map_cons, List.nodup_cons] at once
          have first : (allocId, rt.process) ∉ (stopTasks drivers stop allocId (place + 1) rest
              (x.stopped allocId rt.process)).2.live :=
            fun left => (mem_stopped_live_iff.mp (spec.old _ _ left)).2 ⟨rfl, rfl⟩
          rw [stopsAll_cons_iff, and_iff_right ⟨there, answered⟩, List.forall_mem_cons,
            and_iff_right first]
          refine spec.all (fun other among => ?_) once.2
          refine mem_stopped_live_iff.mpr ⟨alive other (List.mem_cons_of_mem _ among), ?_⟩
          rintro ⟨-, same⟩
          exact once.1 (List.mem_map.mpr ⟨other, among, same⟩)
      | error e =>
        have spec := @ih x (place + 1)
        refine ⟨spec.running, spec.next, fun a p old => ?_, spec.old, fun alive once => ?_⟩
        · rcases spec.kept a p old with left | ⟨same, other, among, same'⟩
          · exact .inl left
          · exact .inr ⟨same, other, List.mem_cons_of_mem _ among, same'⟩
        · -- No other task has the process that is left.
          rw [List.map_cons, List.nodup_cons] at once
          refine iff_of_false (fun gone => ?_) (fun all => ?_)
          · rcases spec.kept _ _ (alive rt List.mem_cons_self) with left | ⟨-, other, among, same⟩
            · exact gone rt List.mem_cons_self left
            · exact once.1 (List.mem_map.mpr ⟨other, among, same⟩)
          · have stopped := (stopsAll_cons_iff.mp all).1.2
            rw [answered] at stopped
            cases stopped
    · rw [if_neg there]
      refine ⟨rfl, rfl, fun _ _ old => .inl old, fun _ _ old => old, fun alive _ => ?_⟩
      refine iff_of_false (fun gone => ?_) fun all => there (stopsAll_cons_iff.mp all).1.1
      exact gone rt List.mem_cons_self (alive rt List.mem_cons_self)

end Stop

section Drop

variable {stop : Except String Unit} {name : String}

/-- The first task of a name has its driver and is stopped, and no other one has the name. -/
def Drops (drivers : DriverType → Bool) (stop : Except String Unit) (name : String)
    (tasks : List RunningTask) : Prop :=
  ∀ rt, tasks.find? (fun rt => rt.taskName == name) = some rt →
    drivers rt.handle.driver = true ∧ stop = .ok () ∧
      ∀ other ∈ tasks, other.taskName = name → other.process = rt.process

/-- What comes of dropping a task: no task of the name is listed any more, and the process of one
may have been stopped. -/
structure DropSpec (drivers : DriverType → Bool) (x : Executor Text) (stop : Except String Unit)
    (allocId : Uuid) (name : String) (y : Executor Text) : Prop where
  store : y.store = x.store
  tasksOf : ∀ a, y.tasksOf a =
    if a = allocId then (x.tasksOf allocId).filter fun rt => rt.taskName ≠ name else x.tasksOf a
  next : y.next = x.next
  kept : ∀ a p, (a, p) ∈ x.live → (a, p) ∈ y.live ∨
    a = allocId ∧ ∃ rt ∈ x.tasksOf allocId, rt.taskName = name ∧ rt.process = p
  old : ∀ a p, (a, p) ∈ y.live → (a, p) ∈ x.live
  all : (∀ rt ∈ x.tasksOf allocId, (allocId, rt.process) ∈ x.live) →
    ((∀ rt ∈ x.tasksOf allocId, rt.taskName = name → (allocId, rt.process) ∉ y.live) ↔
      Drops drivers stop name (x.tasksOf allocId))

/-- What is stopped when a task is dropped. -/
theorem dropTask_live :
    (x.dropTask drivers stop allocId name).live =
      match (x.tasksOf allocId).find? fun rt => rt.taskName == name with
      | none => x.live
      | some rt =>
        if drivers rt.handle.driver = true ∧ stop = .ok () then (x.stopped allocId rt.process).live
        else x.live := by
  -- A process ends only if it has a driver and the stop succeeds.
  unfold dropTask tasksOf
  cases x.running[allocId]? with
  | none => rfl
  | some tasks =>
    dsimp only [Option.getD_some]
    cases tasks.find? fun rt => rt.taskName == name with
    | none => rfl
    | some rt =>
      by_cases present : drivers rt.handle.driver = true
      · cases stop <;> simp [present]
      · simp [present]

theorem dropTask_tasksOf :
    (x.dropTask drivers stop allocId name).tasksOf a =
      if a = allocId then (x.tasksOf allocId).filter fun rt => rt.taskName ≠ name
      else x.tasksOf a := by
  -- The task is taken off the list, whether or not it has been stopped.
  unfold dropTask
  cases there : x.running[allocId]? with
  | none =>
    by_cases own : a = allocId
    · rw [if_pos own, own]
      simp [tasksOf, there]
    · rw [if_neg own]
  | some tasks =>
    dsimp only
    rw [tasksOf_insert]
    by_cases own : a = allocId
    · rw [if_pos own, if_pos own]
      simp [tasksOf, there]
    · rw [if_neg own, if_neg own]
      unfold tasksOf
      cases tasks.find? fun rt => rt.taskName == name with
      | none => rfl
      | some rt =>
        by_cases present : drivers rt.handle.driver = true
        · cases stop <;> simp [present, stopped]
        · simp [present]

theorem dropTask_unchanged :
    (x.dropTask drivers stop allocId name).store = x.store ∧
      (x.dropTask drivers stop allocId name).next = x.next := by
  -- No branch writes to the store or draws a number.
  unfold dropTask
  cases x.running[allocId]? with
  | none => exact ⟨rfl, rfl⟩
  | some tasks =>
    dsimp only
    cases tasks.find? fun rt => rt.taskName == name with
    | none => exact ⟨rfl, rfl⟩
    | some rt =>
      by_cases present : drivers rt.handle.driver = true
      · cases stop <;> simp [present, stopped]
      · simp [present]

theorem dropTask_spec :
    DropSpec drivers x stop allocId name (x.dropTask drivers stop allocId name) := by
  have live := @dropTask_live Text drivers x allocId stop name
  have store := @dropTask_unchanged Text drivers x allocId stop name
  have tasksOf (a : Uuid) := @dropTask_tasksOf Text drivers x allocId a stop name
  cases found : (x.tasksOf allocId).find? fun rt => rt.taskName == name with
  | none =>
    rw [found] at live
    have unlisted (rt : RunningTask) (among : rt ∈ x.tasksOf allocId) : rt.taskName ≠ name := by
      simpa using List.find?_eq_none.mp found rt among
    dsimp only at live
    refine ⟨store.1, tasksOf, store.2, fun _ _ old => .inl (live ▸ old), fun _ _ old => live ▸ old,
      fun _ => ?_⟩
    refine iff_of_true (fun rt among same => absurd same (unlisted rt among)) fun rt first => ?_
    rw [found] at first
    cases first
  | some rt =>
    rw [found] at live
    have among := List.mem_of_find?_eq_some found
    have same : rt.taskName = name := by simpa using List.find?_some found
    dsimp only at live
    by_cases stops : drivers rt.handle.driver = true ∧ stop = .ok ()
    · rw [if_pos stops] at live
      have gone (a : Uuid) (p : Nat) : (a, p) ∈ (x.dropTask drivers stop allocId name).live ↔
          (a, p) ∈ x.live ∧ ¬ (a = allocId ∧ p = rt.process) := by
        rw [live, mem_stopped_live_iff]
      refine ⟨store.1, tasksOf, store.2, fun a p old => ?_, fun a p left => ((gone a p).mp left).1,
        fun alive => ⟨fun none first found' => ?_, fun drops other among' same' left => ?_⟩⟩
      · by_cases own : a = allocId ∧ p = rt.process
        · exact .inr ⟨own.1, rt, among, same, own.2.symm⟩
        · exact .inl ((gone a p).mpr ⟨old, own⟩)
      · cases found.symm.trans found'
        refine ⟨stops.1, stops.2, fun other among' same' => ?_⟩
        -- A task of the name that is not left has the process that was stopped.
        by_contra differ
        exact none other among' same' ((gone _ _).mpr ⟨alive other among', fun own => differ own.2⟩)
      · exact ((gone _ _).mp left).2 ⟨rfl, (drops rt found).2.2 other among' same'⟩
    · rw [if_neg stops] at live
      refine ⟨store.1, tasksOf, store.2, fun _ _ old => .inl (live ▸ old),
        fun _ _ old => live ▸ old, fun alive => ?_⟩
      refine iff_of_false (fun gone => gone rt among same (live ▸ alive rt among)) fun drops => ?_
      have first := drops rt found
      exact stops ⟨first.1, first.2.1⟩

end Drop

end Executor

end Tatara.Engine
