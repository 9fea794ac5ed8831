import Mathlib.Data.List.Nodup
import Tatara.Engine.Durability
import Tatara.Engine.Tracking

/-! Runs of the executor, and in which of them it tracks exactly what it runs. -/

namespace Tatara.Engine

open Tatara.Domain Tatara.Rust Tatara.Steps

namespace Executor

variable {Text : Type} (format : SnapshotFormat Text) (drivers : DriverType → Bool)

/-- What happens to the executor: its calls, and what the other components do to the store. -/
inductive Call (Text : Type) where
  | start (answers : StartAnswers Text) (alloc : Allocation)
  | stop (answers : StopAnswers Text) (allocId : Uuid)
  | restart (answers : RestartAnswers Text) (allocId : Uuid) (name : String)
  | others (store : StateStore Text)

/-- What one call comes to. -/
def answer (x : Executor Text) : Call Text → Except String Unit × Executor Text
  | .start answers alloc => x.startAllocation format drivers answers alloc
  | .stop answers allocId => x.stopAllocation format drivers answers allocId
  | .restart answers allocId name => x.restartTask format drivers answers allocId name
  | .others store => (.ok (), { x with store })

/-- The executor after one call. -/
def serve (x : Executor Text) (call : Call Text) : Executor Text :=
  (x.answer format drivers call).2

/-- No process of the allocation is left. -/
def Idle (x : Executor Text) (allocId : Uuid) : Prop := ∀ process, (allocId, process) ∉ x.live

/-- A task of this name is listed under the allocation. -/
def Known (x : Executor Text) (allocId : Uuid) (name : String) : Prop :=
  ∃ rt ∈ x.tasksOf allocId, rt.taskName = name

/-- After the call every process is tracked, a start that has failed has left none, and a task
whose restart has failed is as known as before. -/
structure Tracks (x : Executor Text) (call : Call Text) : Prop where
  tracked : (x.serve format drivers call).Tracked
  start : ∀ answers alloc e, call = .start answers alloc →
    (x.answer format drivers call).1 = .error e → (x.serve format drivers call).Idle alloc.id
  restart : ∀ answers allocId name e, call = .restart answers allocId name →
    (x.answer format drivers call).1 = .error e → x.Known allocId name →
      (x.serve format drivers call).Known allocId name

/-- The directory of a task is made, its driver is there, and it is started. -/
def Restarts (answers : RestartAnswers Text) (task : Task) : Prop :=
  answers.createDir = .ok () ∧ drivers task.driver = true ∧
    ∃ handle, answers.start = .ok handle

/-- Nothing fails once something of the allocation is running: not behind the first task of a
start, not while an allocation is stopped, and not in the restart of a listed task. -/
def Unbroken (x : Executor Text) : Call Text → Prop
  | .start answers alloc =>
    x.Idle alloc.id ∧ ∀ group, x.findGroup alloc = .ok group → answers.createDir = .ok () →
      StartsFirst drivers answers 0 group.tasks →
        StartsAll drivers x answers alloc.id 0 group.tasks ∧ x.Recorded answers.last alloc.id
  | .stop answers allocId => StopsAll drivers answers.stop 0 (x.tasksOf allocId)
  | .restart answers allocId name =>
    ∀ task, x.findTask allocId name = .ok task →
      Drops drivers answers.stop name (x.tasksOf allocId) ∧
      (x.Known allocId name → Restarts drivers answers task) ∧
      (Restarts drivers answers task → x.Recorded answers.fault allocId)
  | .others _ => True

variable {format drivers} {x y : Executor Text} {allocId : Uuid}

/-- An executor starts without any process. -/
theorem sound_new (store : StateStore Text) : (Executor.new store).Sound := by
  -- Nothing is listed, and nothing runs.
  have none (a : Uuid) : (Executor.new store).tasksOf a = [] := by simp [Executor.new, tasksOf]
  refine ⟨fun a rt among => ?_, fun a => ?_, fun a p left => by cases left⟩
  · rw [none] at among
    cases among
  · rw [none]
    exact List.nodup_nil

/-- A new executor tracks what it runs, which is nothing. -/
theorem tracked_new (store : StateStore Text) : (Executor.new store).Tracked := by
  intro a p left
  cases left

/-- An executor stays sound while only the store changes. -/
theorem Sound.congr (sound : x.Sound) (tasksOf : ∀ a, y.tasksOf a = x.tasksOf a)
    (live : ∀ a p, (a, p) ∈ x.live → (a, p) ∈ y.live)
    (below : ∀ a p, (a, p) ∈ y.live → p < y.next) : y.Sound := by
  -- What is listed is the same, and still runs.
  refine ⟨fun a rt among => ?_, fun a => ?_, below⟩
  · rw [tasksOf] at among
    exact live a _ (sound.listed a rt among)
  · rw [tasksOf]
    exact sound.once a

section Start

variable {answers : StartAnswers Text} {alloc : Allocation} {group : TaskGroup}

/-- What comes of a start of an allocation whose group is there and whose directory is made. -/
structure StartOutcome (drivers : DriverType → Bool) (x : Executor Text)
    (answers : StartAnswers Text) (allocId : Uuid) (tasks : List Task)
    (result : Except String Unit) (y : Executor Text) : Prop where
  later : x.next ≤ y.next
  live : ∀ a p, (a, p) ∈ y.live ↔ (a, p) ∈ x.live ∨ a = allocId ∧ x.next ≤ p ∧ p < y.next
  begins : x.next < y.next ↔ StartsFirst drivers answers 0 tasks
  succeeds : result = .ok () ↔
    StartsAll drivers x answers allocId 0 tasks ∧ x.Recorded answers.last allocId
  fails : ∀ e, result = .error e → ∀ a, y.tasksOf a = x.tasksOf a
  lists : result = .ok () → (∀ a, a ≠ allocId → y.tasksOf a = x.tasksOf a) ∧
    (y.tasksOf allocId).map RunningTask.process = List.range' x.next (y.next - x.next)

/-- What comes of a start that has found its group and made its directory. -/
theorem startAllocation_spec (found : x.findGroup alloc = .ok group)
    (made : answers.createDir = .ok ()) :
    StartOutcome drivers x answers alloc.id group.tasks
      (x.startAllocation format drivers answers alloc).1
      (x.startAllocation format drivers answers alloc).2 := by
  have spec := @startTasks_spec Text format drivers x alloc.id answers 0 group.tasks []
  unfold startAllocation
  rw [found]
  dsimp only
  rw [made]
  dsimp only
  cases begun : startTasks format drivers answers alloc.id 0 group.tasks [] x with
  | mk result y =>
    rw [begun] at spec
    have same (a : Uuid) : y.tasksOf a = x.tasksOf a := by
      unfold tasksOf
      rw [spec.running]
    cases result with
    | error e =>
      -- The tasks that were started before the failure are not entered.
      refine ⟨spec.later, spec.live, spec.begins, ?_, fun _ _ a => same a, fun ok => by cases ok⟩
      refine iff_of_false (by simp) fun all => ?_
      obtain ⟨tasks, ok⟩ := spec.succeeds.mpr all.1
      cases ok
    | ok tasks =>
      have all := spec.succeeds.mp ⟨tasks, rfl⟩
      dsimp only
      split
      · rename_i e z written
        obtain ⟨running, live, next, -, succeeds⟩ := updated written
        refine ⟨next ▸ spec.later, fun a p => ?_, next ▸ spec.begins, ?_, fun _ _ a => ?_,
          fun ok => by cases ok⟩
        · rw [live, next]
          exact spec.live a p
        · refine iff_of_false (by simp) fun both => ?_
          cases succeeds.mpr ((spec.recorded _).mpr both.2)
        · rw [← same a]
          unfold tasksOf
          rw [running]
      · rename_i u z written
        obtain ⟨running, live, next, -, succeeds⟩ := updated written
        refine ⟨next ▸ spec.later, fun a p => ?_, next ▸ spec.begins, ?_,
          fun e err => (by cases err), fun _ => ⟨fun a other => ?_, ?_⟩⟩
        · rw [live, next]
          exact spec.live a p
        · exact iff_of_true rfl ⟨all, (spec.recorded _).mp (succeeds.mp rfl)⟩
        · rw [tasksOf_insert, if_neg other, ← same a]
          unfold tasksOf
          rw [running]
        · rw [tasksOf_insert, if_pos rfl, next]
          exact spec.lists tasks rfl

/-- A start that finds no group, or cannot make the directory, changes nothing. -/
theorem startAllocation_of_not_begun
    (fails : ∀ group, x.findGroup alloc = .ok group → answers.createDir ≠ .ok ()) :
    ∃ e, x.startAllocation format drivers answers alloc = (.error e, x) := by
  -- The group is looked up first, and the directory is made next.
  unfold startAllocation
  cases found : x.findGroup alloc with
  | error e => exact ⟨e, rfl⟩
  | ok group =>
    cases made : answers.createDir with
    | error e => exact ⟨e, rfl⟩
    | ok u => exact absurd made (fails group found)

namespace StartOutcome

variable {tasks : List Task} {result : Except String Unit}

/-- A start keeps an executor sound. -/
theorem sound (outcome : StartOutcome drivers x answers allocId tasks result y)
    (sound : x.Sound) : y.Sound := by
  have below (a : Uuid) (p : Nat) (left : (a, p) ∈ y.live) : p < y.next := by
    rcases (outcome.live a p).mp left with old | ⟨-, -, new⟩
    · exact Nat.lt_of_lt_of_le (sound.below a p old) outcome.later
    · exact new
  cases result with
  | error e =>
    refine sound.congr (outcome.fails e rfl) (fun a p old => ?_) below
    exact (outcome.live a p).mpr (.inl old)
  | ok u =>
    -- What is listed under the allocation are the processes of this start.
    obtain ⟨others, own⟩ := outcome.lists rfl
    refine ⟨fun a rt among => ?_, fun a => ?_, below⟩
    · rw [outcome.live]
      by_cases same : a = allocId
      · have new := List.mem_map_of_mem (f := RunningTask.process) (same ▸ among)
        rw [own, List.mem_range'_1] at new
        exact .inr ⟨same, new.1, by omega⟩
      · exact .inl (sound.listed a rt (others a same ▸ among))
    · by_cases same : a = allocId
      · rw [same, own]
        exact List.nodup_range'
      · rw [others a same]
        exact sound.once a

/-- A start after which every process is tracked and, if it has failed, none is left. -/
theorem tracks_iff (outcome : StartOutcome drivers x answers allocId tasks result y)
    (sound : x.Sound) (tracked : x.Tracked) :
    y.Tracked ∧ (∀ e, result = .error e → y.Idle allocId) ↔
      x.Idle allocId ∧ (StartsFirst drivers answers 0 tasks →
        StartsAll drivers x answers allocId 0 tasks ∧ x.Recorded answers.last allocId) := by
  constructor
  · rintro ⟨after, failed⟩
    cases result with
    | error e =>
      have idle := failed e rfl
      refine ⟨fun p old => idle p ((outcome.live _ p).mpr (.inl old)), fun first => ?_⟩
      have begun := outcome.begins.mpr first
      exact absurd ((outcome.live _ _).mpr (.inr ⟨rfl, Nat.le_refl _, begun⟩)) (idle x.next)
    | ok u =>
      refine ⟨fun p old => ?_, fun _ => outcome.succeeds.mp rfl⟩
      -- The entry of an earlier process would have been replaced.
      obtain ⟨rt, among, same⟩ := after allocId p ((outcome.live _ p).mpr (.inl old))
      have new := List.mem_map_of_mem (f := RunningTask.process) among
      rw [(outcome.lists rfl).2, List.mem_range'_1, same] at new
      exact absurd (sound.below _ p old) (Nat.not_lt.mpr new.1)
  · rintro ⟨idle, unbroken⟩
    cases result with
    | error e =>
      have idleStart : ¬ StartsFirst drivers answers 0 tasks := by
        intro first
        cases outcome.succeeds.mpr (unbroken first)
      have none := mt outcome.begins.mp idleStart
      have left (a : Uuid) (p : Nat) (there : (a, p) ∈ y.live) : (a, p) ∈ x.live := by
        rcases (outcome.live a p).mp there with old | ⟨-, _, _⟩
        · exact old
        · omega
      refine ⟨fun a p there => ?_, fun _ _ p there => idle p (left _ p there)⟩
      obtain ⟨rt, among, same⟩ := tracked a p (left a p there)
      exact ⟨rt, (outcome.fails e rfl a).symm ▸ among, same⟩
    | ok u =>
      obtain ⟨others, own⟩ := outcome.lists rfl
      refine ⟨fun a p there => ?_, fun e err => by cases err⟩
      rcases (outcome.live a p).mp there with old | ⟨rfl, first, last⟩
      · have other : a ≠ allocId := fun same => idle p (same ▸ old)
        obtain ⟨rt, among, same⟩ := tracked a p old
        exact ⟨rt, (others a other).symm ▸ among, same⟩
      · have new : p ∈ (y.tasksOf a).map RunningTask.process := by
          rw [own, List.mem_range'_1]
          omega
        exact List.mem_map.mp new

end StartOutcome

end Start

section Stop

variable {answers : StopAnswers Text}

/-- Taking off an entry that is not there changes nothing. -/
theorem erase_of_not_listed (absent : x.running[allocId]? = none) :
    x.running.erase allocId = x.running := by
  -- Only the entry that is taken off could differ, and it is not there.
  refine Std.ExtTreeMap.ext_getElem? fun a => ?_
  rw [Std.ExtTreeMap.getElem?_erase]
  split
  · rename_i same
    rw [← Std.compare_eq_iff_eq.mp same, absent]
  · rfl

/-- A stop takes the entry off and stops the tasks that were listed there. -/
theorem stopAllocation_spec :
    StopSpec drivers { x with running := x.running.erase allocId } answers.stop allocId 0
      (x.tasksOf allocId) (x.stopAllocation format drivers answers allocId).2 := by
  -- The list is taken out of the table before the tasks are stopped.
  unfold stopAllocation
  cases there : x.running[allocId]? with
  | none =>
    dsimp only
    have none : x.tasksOf allocId = [] := by
      unfold tasksOf
      rw [there]
      rfl
    rw [none, erase_of_not_listed there]
    exact ⟨rfl, rfl, fun _ _ old => .inl old, fun _ _ old => old, by simp [StopsAll]⟩
  | some tasks =>
    have listed : x.tasksOf allocId = tasks := by
      unfold tasksOf
      rw [there]
      rfl
    have spec := @stopTasks_spec Text drivers { x with running := x.running.erase allocId } allocId
      answers.stop 0 tasks
    dsimp only
    rw [listed]
    split
    · rename_i e y stopped
      rw [stopped] at spec
      exact spec
    · rename_i u y stopped
      rw [stopped] at spec
      exact ⟨spec.running, spec.next, spec.kept, spec.old, spec.all⟩

/-- Behind a stop the allocation has no tasks, and the others keep theirs. -/
theorem stopAllocation_tasksOf (a : Uuid) :
    (x.stopAllocation format drivers answers allocId).2.tasksOf a =
      if a = allocId then [] else x.tasksOf a := by
  rw [← tasksOf_erase]
  unfold tasksOf
  rw [stopAllocation_spec.running]

/-- A stop keeps an executor sound. -/
theorem stopAllocation_sound (sound : x.Sound) :
    (x.stopAllocation format drivers answers allocId).2.Sound := by
  -- What is listed under other allocations is still running.
  have spec := @stopAllocation_spec Text format drivers x allocId answers
  refine ⟨fun a rt among => ?_, fun a => ?_, fun a p left => ?_⟩
  · rw [stopAllocation_tasksOf] at among
    split at among
    · cases among
    · rename_i other
      rcases spec.kept a _ (sound.listed a rt among) with left | ⟨same, -⟩
      · exact left
      · exact absurd same other
  · rw [stopAllocation_tasksOf]
    split
    · exact List.nodup_nil
    · exact sound.once a
  · rw [spec.next]
    exact sound.below a p (spec.old a p left)

variable (format) in
/-- After a stop every process is tracked exactly when each listed task has been stopped. -/
theorem stopAllocation_tracked_iff (sound : x.Sound) (tracked : x.Tracked) :
    (x.stopAllocation format drivers answers allocId).2.Tracked ↔
      StopsAll drivers answers.stop 0 (x.tasksOf allocId) := by
  have spec := @stopAllocation_spec Text format drivers x allocId answers
  rw [← spec.all (sound.listed allocId) (sound.once allocId)]
  constructor
  · intro after rt _ left
    -- Nothing is listed under the allocation any more.
    obtain ⟨other, among, -⟩ := after allocId _ left
    rw [stopAllocation_tasksOf, if_pos rfl] at among
    cases among
  · intro gone a p left
    obtain ⟨rt, among, same⟩ := tracked a p (spec.old a p left)
    have other : a ≠ allocId := by
      rintro rfl
      exact gone rt among (same ▸ left)
    refine ⟨rt, ?_, same⟩
    rw [stopAllocation_tasksOf, if_neg other]
    exact among

end Stop

section Restart

variable {answers : RestartAnswers Text} {name : String} {task : Task}

/-- A task is dropped from a sound executor. -/
theorem DropSpec.sound {stop : Except String Unit} (spec : DropSpec drivers x stop allocId name y)
    (sound : x.Sound) : y.Sound := by
  refine ⟨fun a rt among => ?_, fun a => ?_, fun a p left => ?_⟩
  · rw [spec.tasksOf] at among
    split at among
    · rename_i same
      obtain ⟨among, differs⟩ := List.mem_filter.mp among
      rcases spec.kept a _ (sound.listed a rt (same ▸ among)) with left | ⟨-, other⟩
      · exact left
      · obtain ⟨other, among', named, number⟩ := other
        -- The task that was dropped is another one, so its process is as well.
        have same := List.inj_on_of_nodup_map (sound.once allocId) among' among number
        rw [same] at named
        simp [named] at differs
    · rename_i other
      rcases spec.kept a _ (sound.listed a rt among) with left | ⟨same, -⟩
      · exact left
      · exact absurd same other
  · rw [spec.tasksOf]
    split
    · exact (sound.once allocId).sublist (List.filter_sublist.map _)
    · exact sound.once a
  · rw [spec.next]
    exact sound.below a p (spec.old a p left)

/-- What a task is dropped from tracks its processes exactly when it is the only one of its name
and stopped. -/
theorem DropSpec.tracked_iff {stop : Except String Unit}
    (spec : DropSpec drivers x stop allocId name y) (sound : x.Sound) (tracked : x.Tracked) :
    y.Tracked ↔ Drops drivers stop name (x.tasksOf allocId) := by
  -- A process that is left is another task than the one dropped.
  rw [← spec.all (sound.listed allocId)]
  constructor
  · intro after rt among named left
    obtain ⟨other, among', number⟩ := after allocId _ left
    rw [spec.tasksOf, if_pos rfl] at among'
    obtain ⟨among', differs⟩ := List.mem_filter.mp among'
    have same := List.inj_on_of_nodup_map (sound.once allocId) among' among number
    rw [same] at differs
    simp [named] at differs
  · intro gone a p left
    obtain ⟨rt, among, number⟩ := tracked a p (spec.old a p left)
    refine ⟨rt, ?_, number⟩
    rw [spec.tasksOf]
    split
    · rename_i same
      subst same
      refine List.mem_filter.mpr ⟨among, ?_⟩
      simpa using fun named => gone rt among named (number ▸ left)
    · exact among

/-- What comes of a restart once the task has been started again. -/
structure RestartOutcome (y : Executor Text) (allocId : Uuid) (name : String)
    (result : Except String Unit) (z : Executor Text) : Prop where
  next : z.next = y.next + 1
  live : ∀ a p, (a, p) ∈ z.live ↔ (a, p) ∈ y.live ∨ a = allocId ∧ p = y.next
  fails : ∀ e, result = .error e → ∀ a, z.tasksOf a = y.tasksOf a
  lists : result = .ok () → ∃ rt : RunningTask, rt.process = y.next ∧ rt.taskName = name ∧
    ∀ a, z.tasksOf a = if a = allocId then y.tasksOf allocId ++ [rt] else y.tasksOf a

variable (format) in
/-- What comes of a restart whose task can be started. -/
theorem restartTask_of_restarts (found : x.findTask allocId name = .ok task)
    (restarts : Restarts drivers answers task) :
    RestartOutcome (x.dropTask drivers answers.stop allocId name) allocId name
        (x.restartTask format drivers answers allocId name).1
        (x.restartTask format drivers answers allocId name).2 ∧
      ((x.restartTask format drivers answers allocId name).1 = .ok () ↔
        x.Recorded answers.fault allocId) := by
  -- The task is started after it has been dropped, and listed if the record is written.
  obtain ⟨made, there, handle, started⟩ := restarts
  unfold restartTask
  rw [found]
  dsimp only
  rw [made, started, if_pos there]
  dsimp only
  have store := (@dropTask_unchanged Text drivers x allocId answers.stop name).1
  generalize x.dropTask drivers answers.stop allocId name = y at store
  have known : (y.spawned allocId).Recorded answers.fault allocId ↔
      x.Recorded answers.fault allocId := by
    unfold Recorded spawned
    rw [store]
  split
  · rename_i e z written
    obtain ⟨running, live, next, -, succeeds⟩ := updated written
    refine ⟨⟨next, fun a p => ?_, fun _ _ a => ?_, fun ok => by cases ok⟩, ?_⟩
    · rw [live]
      exact mem_spawned_live_iff
    · unfold tasksOf
      rw [running]
      rfl
    · rw [succeeds, known]
  · rename_i u z written
    obtain ⟨running, live, next, -, succeeds⟩ := updated written
    refine ⟨⟨next, fun a p => ?_, fun e err => (by cases err), fun _ => ?_⟩, ?_⟩
    · rw [live]
      exact mem_spawned_live_iff
    · refine ⟨⟨handle, name, allocId, y.next⟩, rfl, rfl, fun a => ?_⟩
      rw [tasksOf_insert]
      unfold tasksOf
      rw [running]
      rfl
    · rw [succeeds, known]

variable (format) in
/-- A restart that does not come to start the task leaves it dropped. -/
theorem restartTask_of_not_restarts (found : x.findTask allocId name = .ok task)
    (fails : ¬ Restarts drivers answers task) :
    ∃ e, x.restartTask format drivers answers allocId name =
      (.error e, x.dropTask drivers answers.stop allocId name) := by
  -- It fails before the start, at the start, or for want of a driver.
  unfold restartTask
  rw [found]
  dsimp only
  cases made : answers.createDir with
  | error e => exact ⟨e, rfl⟩
  | ok u =>
    dsimp only
    by_cases there : drivers task.driver = true
    · rw [if_pos there]
      cases started : answers.start with
      | error e => exact ⟨e, rfl⟩
      | ok handle => exact absurd ⟨made, there, handle, started⟩ fails
    · rw [if_neg there]
      exact ⟨_, rfl⟩

namespace RestartOutcome

variable {z : Executor Text} {result : Except String Unit}

/-- A restart keeps an executor sound. -/
theorem sound (outcome : RestartOutcome y allocId name result z) (sound : y.Sound) : z.Sound := by
  have below (a : Uuid) (p : Nat) (left : (a, p) ∈ z.live) : p < z.next := by
    rw [outcome.next]
    rcases (outcome.live a p).mp left with old | ⟨-, new⟩
    · exact Nat.lt_succ_of_lt (sound.below a p old)
    · omega
  cases result with
  | error e =>
    refine sound.congr (outcome.fails e rfl) (fun a p old => ?_) below
    exact (outcome.live a p).mpr (.inl old)
  | ok u =>
    obtain ⟨new, number, -, tasksOf⟩ := outcome.lists rfl
    refine ⟨fun a rt among => ?_, fun a => ?_, below⟩
    · rw [outcome.live]
      rw [tasksOf] at among
      split at among
      · rename_i same
        rcases List.mem_append.mp among with old | last
        · exact .inl (sound.listed a rt (same ▸ old))
        · rw [List.mem_singleton.mp last]
          exact .inr ⟨same, number⟩
      · exact .inl (sound.listed a rt among)
    · rw [tasksOf]
      split
      · -- The new process has a number that none had before.
        rw [List.map_append, List.nodup_append]
        refine ⟨sound.once allocId, by simp, fun p old q last => ?_⟩
        obtain ⟨rt, among, rfl⟩ := List.mem_map.mp old
        have before := sound.below allocId _ (sound.listed allocId rt among)
        simp only [List.map_cons, List.map_nil, List.mem_singleton] at last
        omega
      · exact sound.once a

/-- After a restart that has been recorded every process is tracked if it was before. -/
theorem tracked_iff (outcome : RestartOutcome y allocId name result z) (sound : y.Sound) :
    z.Tracked ↔ y.Tracked ∧ result = .ok () := by
  have unlisted (rt : RunningTask) (among : rt ∈ y.tasksOf allocId) : rt.process ≠ y.next :=
    Nat.ne_of_lt (sound.below allocId _ (sound.listed allocId rt among))
  cases result with
  | error e =>
    refine iff_of_false (fun after => ?_) fun both => by cases both.2
    -- The process that was started is not listed.
    obtain ⟨rt, among, number⟩ := after allocId y.next ((outcome.live _ _).mpr (.inr ⟨rfl, rfl⟩))
    rw [outcome.fails e rfl] at among
    exact unlisted rt among number
  | ok u =>
    obtain ⟨new, number, -, tasksOf⟩ := outcome.lists rfl
    rw [and_iff_left rfl]
    constructor
    · intro after a p old
      obtain ⟨rt, among, same⟩ := after a p ((outcome.live a p).mpr (.inl old))
      rw [tasksOf] at among
      split at among
      · rename_i own
        rcases List.mem_append.mp among with there | last
        · exact ⟨rt, own ▸ there, same⟩
        · have before := sound.below a p old
          rw [List.mem_singleton.mp last] at same
          omega
      · exact ⟨rt, among, same⟩
    · intro before a p there
      rcases (outcome.live a p).mp there with old | ⟨rfl, rfl⟩
      · obtain ⟨rt, among, same⟩ := before a p old
        refine ⟨rt, ?_, same⟩
        rw [tasksOf]
        split
        · rename_i own
          exact List.mem_append_left _ (own ▸ among)
        · exact among
      · refine ⟨new, ?_, number⟩
        rw [tasksOf, if_pos rfl]
        exact List.mem_append_right _ List.mem_cons_self

end RestartOutcome

end Restart

/-- A call leaves a sound executor sound. -/
theorem sound_serve (sound : x.Sound) (call : Call Text) :
    (x.serve format drivers call).Sound := by
  -- Each call leaves processes that are listed once, and with numbers that are drawn.
  unfold serve answer
  cases call with
  | start answers alloc =>
    dsimp only
    by_cases begins : ∃ group, x.findGroup alloc = .ok group ∧ answers.createDir = .ok ()
    · obtain ⟨group, found, made⟩ := begins
      exact (startAllocation_spec found made).sound sound
    · have fails (group : TaskGroup) (found : x.findGroup alloc = .ok group) :
          answers.createDir ≠ .ok () := fun made => begins ⟨group, found, made⟩
      obtain ⟨e, unchanged⟩ := startAllocation_of_not_begun fails
      rw [unchanged]
      exact sound
  | stop answers allocId => exact stopAllocation_sound sound
  | restart answers allocId name =>
    dsimp only
    cases found : x.findTask allocId name with
    | error e =>
      unfold restartTask
      rw [found]
      exact sound
    | ok task =>
      have dropped : (x.dropTask drivers answers.stop allocId name).Sound :=
        dropTask_spec.sound sound
      by_cases restarts : Restarts drivers answers task
      · exact (restartTask_of_restarts format found restarts).1.sound dropped
      · obtain ⟨e, same⟩ := restartTask_of_not_restarts format found restarts
        rw [same]
        exact dropped
  | others store => exact sound.congr (fun _ => rfl) (fun _ _ old => old) sound.below

/-- A start tracks what it runs exactly if it is unbroken. -/
theorem tracks_start_iff {answers : StartAnswers Text} {alloc : Allocation} (sound : x.Sound)
    (tracked : x.Tracked) :
    x.Tracks format drivers (.start answers alloc) ↔ x.Unbroken drivers (.start answers alloc) := by
  have parts : x.Tracks format drivers (.start answers alloc) ↔
      (x.startAllocation format drivers answers alloc).2.Tracked ∧
        ∀ e, (x.startAllocation format drivers answers alloc).1 = .error e →
          (x.startAllocation format drivers answers alloc).2.Idle alloc.id := by
    constructor
    · intro tracks
      exact ⟨tracks.tracked, fun e failed => tracks.start answers alloc e rfl failed⟩
    · rintro ⟨after, idle⟩
      refine ⟨after, fun _ _ e same failed => ?_, fun _ _ _ _ same => by cases same⟩
      cases same
      exact idle e failed
  rw [parts]
  by_cases begins : ∃ group, x.findGroup alloc = .ok group ∧ answers.createDir = .ok ()
  · obtain ⟨group, found, made⟩ := begins
    rw [(startAllocation_spec found made).tracks_iff sound tracked]
    refine and_congr_right fun _ => ⟨fun unbroken group' found' _ first => ?_,
      fun unbroken => unbroken group found made⟩
    cases found.symm.trans found'
    exact unbroken first
  · -- Nothing is begun, so what was there before is all there is.
    have fails (group : TaskGroup) (found : x.findGroup alloc = .ok group) :
        answers.createDir ≠ .ok () := fun made => begins ⟨group, found, made⟩
    obtain ⟨e, unchanged⟩ : ∃ e, x.startAllocation format drivers answers alloc = (.error e, x) :=
      startAllocation_of_not_begun fails
    rw [unchanged]
    constructor
    · rintro ⟨-, idle⟩
      exact ⟨idle e rfl, fun group found made => absurd made (fails group found)⟩
    · rintro ⟨idle, -⟩
      exact ⟨tracked, fun _ _ => idle⟩

/-- A stop tracks what runs exactly if it is unbroken. -/
theorem tracks_stop_iff {answers : StopAnswers Text} (sound : x.Sound) (tracked : x.Tracked) :
    x.Tracks format drivers (.stop answers allocId) ↔
      x.Unbroken drivers (.stop answers allocId) := by
  -- What is said of starts and restarts is of no concern to a stop.
  refine Iff.trans ?_ (stopAllocation_tracked_iff format sound tracked)
  constructor
  · intro tracks
    exact tracks.tracked
  · intro after
    exact ⟨after, fun _ _ _ same => (by cases same), fun _ _ _ _ same => by cases same⟩

/-- A restart tracks what runs exactly if it is unbroken. -/
theorem tracks_restart_iff {answers : RestartAnswers Text} {name : String} (sound : x.Sound)
    (tracked : x.Tracked) :
    x.Tracks format drivers (.restart answers allocId name) ↔
      x.Unbroken drivers (.restart answers allocId name) := by
  have parts : x.Tracks format drivers (.restart answers allocId name) ↔
      (x.restartTask format drivers answers allocId name).2.Tracked ∧
        ∀ e, (x.restartTask format drivers answers allocId name).1 = .error e →
          x.Known allocId name →
            (x.restartTask format drivers answers allocId name).2.Known allocId name := by
    constructor
    · intro tracks
      exact ⟨tracks.tracked, fun e failed => tracks.restart answers allocId name e rfl failed⟩
    · rintro ⟨after, known⟩
      refine ⟨after, fun _ _ _ same => (by cases same), fun _ _ _ e same failed => ?_⟩
      cases same
      exact known e failed
  rw [parts]
  cases found : x.findTask allocId name with
  | error e =>
    unfold restartTask
    rw [found]
    refine iff_of_true ⟨tracked, fun _ _ known => known⟩ fun task found' => ?_
    rw [found] at found'
    cases found'
  | ok task =>
    have dropped := @dropTask_spec Text drivers x allocId answers.stop name
    have only : x.Unbroken drivers (.restart answers allocId name) ↔
        Drops drivers answers.stop name (x.tasksOf allocId) ∧
        (x.Known allocId name → Restarts drivers answers task) ∧
        (Restarts drivers answers task → x.Recorded answers.fault allocId) := by
      refine ⟨fun all => all task found, fun all task' found' => ?_⟩
      cases found.symm.trans found'
      exact all
    rw [only, ← dropped.tracked_iff sound tracked]
    by_cases restarts : Restarts drivers answers task
    · obtain ⟨outcome, succeeds⟩ := restartTask_of_restarts format found restarts
      rw [outcome.tracked_iff (dropped.sound sound), succeeds, and_assoc]
      refine and_congr_right fun _ => ⟨fun both => ?_, fun both => ?_⟩
      · exact ⟨fun _ => restarts, fun _ => both.1⟩
      refine ⟨both.2 restarts, fun e failed => ?_⟩
      rw [succeeds.mpr (both.2 restarts)] at failed
      cases failed
    · obtain ⟨e, same⟩ := restartTask_of_not_restarts format found restarts
      rw [same]
      refine and_congr_right fun _ =>
        ⟨fun known => ⟨fun there => ?_, fun again => ?_⟩, fun both => ?_⟩
      · -- No task of the name is listed once it has been dropped.
        obtain ⟨rt, among, named⟩ := known e rfl there
        rw [dropped.tasksOf, if_pos rfl] at among
        simp [named] at among
      · exact absurd again restarts
      · exact fun _ _ there => absurd (both.1 there) restarts

/-- A call leaves everything tracked exactly when it is unbroken. -/
theorem tracks_iff_unbroken (sound : x.Sound) (tracked : x.Tracked) (call : Call Text) :
    x.Tracks format drivers call ↔ x.Unbroken drivers call := by
  -- The other calls touch neither the tasks nor what runs.
  cases call with
  | start answers alloc => exact tracks_start_iff sound tracked
  | stop answers allocId => exact tracks_stop_iff sound tracked
  | restart answers allocId name => exact tracks_restart_iff sound tracked
  | others store =>
    refine iff_of_true ⟨tracked, fun _ _ _ same => (by cases same), fun _ _ _ _ same => ?_⟩ trivial
    cases same

/-- The executor tracks exactly what it runs in the runs in which no call is broken off. -/
theorem tracks_iff_unbroken_run (store : StateStore Text) (calls : List (Call Text)) :
    EachStep (serve format drivers) (Tracks format drivers) (Executor.new store) calls ↔
      EachStep (serve format drivers) (Unbroken drivers) (Executor.new store) calls := by
  -- The run keeps the table sound, and every process tracked.
  refine eachStep_congr (fun x => x.Sound ∧ x.Tracked) ⟨sound_new store, tracked_new store⟩ ?_ ?_
  · rintro x call ⟨sound, -⟩ tracks
    exact ⟨sound_serve sound call, tracks.tracked⟩
  · rintro x call ⟨sound, tracked⟩
    exact tracks_iff_unbroken sound tracked call

/-- A task that runs a command. -/
def sleepTask (name : String) : Task :=
  { name, driver := .exec, config := .exec "sleep" ["60"] none, env := ∅, resources := ⟨0, 0⟩
    healthChecks := [], volumeClaims := [] }

/-- A group of two tasks. -/
def pairGroup : TaskGroup :=
  { name := "web", count := 1, tasks := [sleepTask "server", sleepTask "proxy"]
    restartPolicy := { mode := .onFailure, attempts := 3, intervalSecs := 300, delaySecs := 15 }
    resources := ⟨0, 0⟩, network := none, secrets := [], volumes := [], serviceName := none }

/-- A job with the group of two tasks. -/
def pairJob : Job :=
  { id := "web", version := 0, jobType := .service, status := .running, submittedAt := ⟨0⟩
    groups := [pairGroup], constraints := [], «meta» := ∅, specHash := none }

/-- A store with the job. -/
def pairStore : StateStore StateSnapshot :=
  ⟨{ StateSnapshot.default with jobs := Std.ExtTreeMap.insert ∅ "web" pairJob }, emptyDirectory⟩

/-- The first of two tasks is started, and the second one is not. -/
def secondFails : StartAnswers StateSnapshot :=
  { createDir := .ok ()
    start := fun place =>
      if place = 0 then .ok ⟨.exec, some 4711, none, ⟨0⟩⟩ else .error "No such file or directory"
    fault := fun _ => none
    last := none }

/-- The process of the first task is left when the second one fails to start, and nothing lists
it. -/
theorem first_task_left_behind :
    ¬ EachStep (serve plainFormat fun _ => true) (Tracks plainFormat fun _ => true)
      (Executor.new pairStore)
      [.start secondFails (.new 1 ⟨0⟩ "web" "web" "n1" ["server", "proxy"])] := by
  intro each
  have first := (eachStep_cons_iff.mp each).1
  rw [tracks_iff_unbroken (sound_new _) (tracked_new _)] at first
  have found : (Executor.new pairStore).findGroup
      (.new 1 ⟨0⟩ "web" "web" "n1" ["server", "proxy"]) = .ok pairGroup := by
    simp [findGroup, Executor.new, pairStore, Allocation.new, pairJob, pairGroup]
  -- The first task is started, so the second one would have to be.
  have all := (first.2 pairGroup found rfl ⟨_, rfl, rfl, _, rfl⟩).1
  obtain ⟨-, ⟨handle, started⟩, -⟩ := all 1 (sleepTask "proxy") rfl
  cases started

end Executor

end Tatara.Engine
