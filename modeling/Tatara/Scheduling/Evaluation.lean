import Mathlib.Algebra.GroupWithZero.Nat
import Mathlib.Data.List.Forall2
import Tatara.Scheduling.Placement

/-! One round of the evaluator: what it stores for the jobs that are pending. -/

namespace Tatara.Scheduling

open Tatara.Domain Tatara.Rust
open Tatara.Program (Runs runs_bind_iff runs_pure_iff runs_call_iff runs_lift_iff runs_liftBind_iff
  runs_try_iff runs_try_ok runs_mapM exists_run Quiet Completes)

/-- `list_jobs`. -/
def listJobs : Task (List Job) := Program.call Call.listJobs

/-- `update_job_status`. -/
def updateJobStatus (jobId : String) (status : JobStatus) : Task (Except String Unit) :=
  Program.call (Call.updateJobStatus jobId status)

/-- The loop of `evaluate`, with the allocations that have been stored so far. -/
def evaluateJobs (strategy : SchedulingStrategy) (nodes : List Node) :
    List Job → List Allocation → Handler (List Allocation)
  | [], newAllocations => return newAllocations
  | job :: jobs, newAllocations => do
    if job.status ≠ .pending then evaluateJobs strategy nodes jobs newAllocations
    else
      let allocs ← liftM (evaluateJob strategy job nodes)
      allocs.forM fun alloc => attempt (putAllocation alloc)
      let newAllocations := newAllocations ++ allocs
      -- These are the allocations of all the jobs so far, and not those of this one.
      if newAllocations ≠ [] then attempt (updateJobStatus job.id .running)
      evaluateJobs strategy nodes jobs newAllocations

/-- `evaluate`. -/
def evaluate (strategy : SchedulingStrategy) : Handler (List Allocation) := do
  let jobs ← liftM listJobs
  let nodes ← liftM listNodes
  evaluateJobs strategy nodes jobs []

/-- The store answers with these jobs and nodes. -/
def Lists (jobs : List Job) (nodes : List Node) : Program.Exchange Answer → Prop
  | ⟨.listJobs, answer⟩ => answer = jobs
  | ⟨.listNodes, answer⟩ => answer = nodes
  | _ => True

/-- The job that a call sets running. -/
def setRunning : Program.Exchange Answer → Option String
  | ⟨.updateJobStatus jobId .running, _⟩ => some jobId
  | _ => none

/-- An instance of a task group on a node. -/
structure Instance where
  job : Job
  group : TaskGroup
  node : Node

/-- The instances of a group, with the nodes as if nothing had been placed on them yet. -/
def groupInstances (strategy : SchedulingStrategy) (nodes : List Node) (job : Job)
    (group : TaskGroup) : List Instance :=
  let ready := readyNodes nodes
  (placements strategy job group ready (List.range (desiredCount job group ready).toNat)
    (ready.map fun n => (n, n.availableResources))).map (⟨job, group, ·⟩)

/-- The instances of a job. -/
def jobInstances (strategy : SchedulingStrategy) (nodes : List Node) (job : Job) :
    List Instance :=
  job.groups.flatMap (groupInstances strategy nodes job)

/-- The jobs that the evaluator looks at. -/
def pendingJobs (jobs : List Job) : List Job := jobs.filter (·.status = .pending)

/-- The instances of all pending jobs. -/
def plannedInstances (strategy : SchedulingStrategy) (nodes : List Node) (jobs : List Job) :
    List Instance :=
  (pendingJobs jobs).flatMap (jobInstances strategy nodes)

/-- An allocation stands for an instance. -/
def StandsFor (alloc : Allocation) (placed : Instance) : Prop :=
  alloc.jobId = placed.job.id ∧ alloc.groupName = placed.group.name ∧ alloc.nodeId = placed.node.id

section

variable {strategy : SchedulingStrategy} {job : Job} {group : TaskGroup} {ready nodes : List Node}

/-- An allocation that is made stands for its instance. -/
theorem standsFor_of_runs_allocate {node : Node} {trace : List (Program.Exchange Answer)}
    {alloc : Allocation} (runs : Runs (allocate job.id group node.id) trace alloc) :
    StandsFor alloc ⟨job, group, node⟩ := by
  obtain ⟨_, _, _, _, rest, rfl⟩ := runs_bind_iff.mp runs
  obtain ⟨_, _, _, _, final, rfl⟩ := runs_bind_iff.mp rest
  obtain ⟨_, rfl⟩ := runs_pure_iff.mp final
  exact ⟨rfl, rfl, rfl⟩

/-- The allocations of a loop over instances stand for the placements. -/
theorem standsFor_of_runs_placeInstances {indices : List Nat}
    {available : List (Node × Resources)} {trace : List (Program.Exchange Answer)}
    {allocations : List Allocation}
    (runs : Runs (placeInstances strategy job group ready indices available) trace allocations) :
    List.Forall₂ StandsFor allocations
      ((placements strategy job group ready indices available).map (⟨job, group, ·⟩)) := by
  induction indices generalizing available trace allocations with
  | nil =>
    obtain ⟨-, rfl⟩ := runs_pure_iff.mp runs
    exact .nil
  | cons i rest ih =>
    -- The first instance finds no node, or it is the first that an allocation is made for.
    cases placed : placeInstance strategy job group ready available i with
    | none =>
      simp only [placeInstances, placements, placed] at runs ⊢
      exact ih runs
    | some found =>
      simp only [placeInstances, placements, placed] at runs ⊢
      obtain ⟨_, alloc, _, allocated, later, rfl⟩ := runs_bind_iff.mp runs
      obtain ⟨_, others, _, looped, final, rfl⟩ := runs_bind_iff.mp later
      obtain ⟨-, rfl⟩ := runs_pure_iff.mp final
      exact .cons (standsFor_of_runs_allocate allocated) (ih looped)

/-- With no node that takes work there is nothing to place an instance on. -/
theorem groupInstances_of_isEmpty (empty : (readyNodes nodes).isEmpty = true) :
    groupInstances strategy nodes job group = [] := by
  -- There is nothing to choose from, instance by instance.
  rw [List.isEmpty_iff] at empty
  have nowhere (indices : List Nat) : placements strategy job group [] indices [] = [] := by
    induction indices with
    | nil => rfl
    | cons i rest ih =>
      have unplaced : placeInstance strategy job group [] [] i = none := by
        cases kind : job.jobType <;> simp [placeInstance, kind, pickNode]
      simpa only [placements, unplaced] using ih
  simp [groupInstances, empty, nowhere]

/-- The allocations of a job stand for its instances, in this order, whatever the answers are. -/
theorem standsFor_of_runs_evaluateJob {trace : List (Program.Exchange Answer)}
    {allocations : List Allocation}
    (runs : Runs (evaluateJob strategy job nodes) trace allocations) :
    List.Forall₂ StandsFor allocations (jobInstances strategy nodes job) := by
  simp only [evaluateJob] at runs
  split at runs
  · -- With no node that takes work there is nothing to pick from.
    rename_i empty
    obtain ⟨-, rfl⟩ := runs_pure_iff.mp runs
    have none : jobInstances strategy nodes job = [] :=
      List.flatMap_eq_nil_iff.mpr fun _ _ => groupInstances_of_isEmpty empty
    rw [none]
    exact .nil
  · obtain ⟨_, perGroup, _, looped, final, rfl⟩ := runs_bind_iff.mp runs
    obtain ⟨-, rfl⟩ := runs_pure_iff.mp final
    have matched := runs_mapM looped
    clear looped final runs
    rw [jobInstances]
    generalize job.groups = groups at matched ⊢
    induction matched with
    | nil => exact .nil
    | cons group _ ih =>
      obtain ⟨_, evaluated⟩ := group
      exact List.rel_append (standsFor_of_runs_placeInstances evaluated) ih

/-- Placing asks for nothing to be stored, and sets no job running. -/
theorem quiet_evaluateJob {μ : Type} {mark : Program.Exchange Answer → Option μ}
    (identifiers : ∀ answer, mark ⟨.newUuid, answer⟩ = none)
    (clock : ∀ answer, mark ⟨.now, answer⟩ = none) :
    Quiet mark (evaluateJob strategy job nodes) := by
  have allocated (jobId nodeId : String) (group : TaskGroup) :
      Quiet mark (allocate jobId group nodeId) :=
    (Quiet.call identifiers).bind fun _ => (Quiet.call clock).bind fun _ => Quiet.pure _
  have placed (group : TaskGroup) (ready : List Node) (indices : List Nat)
      (available : List (Node × Resources)) :
      Quiet mark (placeInstances strategy job group ready indices available) := by
    induction indices generalizing available with
    | nil => exact Quiet.pure _
    | cons i rest ih =>
      unfold placeInstances
      split
      · exact ih _
      · exact (allocated _ _ _).bind fun _ => (ih _).bind fun _ => Quiet.pure _
  -- The groups are placed one after the other, where there is a node at all.
  unfold evaluateJob
  dsimp only
  split
  · exact Quiet.pure _
  · exact (Quiet.mapM _ fun _ => placed _ _ _ _).bind fun _ => Quiet.pure _

/-- The store takes the allocations one after the other, up to the first that it refuses. -/
theorem created_of_runs_store {allocs : List Allocation} {trace : List (Program.Exchange Answer)}
    {outcome : Except String Unit}
    (runs : Runs (allocs.forM fun alloc => attempt (putAllocation alloc)).run trace outcome) :
    trace.filterMap created <+: allocs ∧ trace.filterMap setRunning = [] ∧
      (outcome = .ok () → trace.filterMap created = allocs) := by
  induction allocs generalizing trace outcome with
  | nil =>
    obtain ⟨rfl, -⟩ := runs_pure_iff.mp runs
    simp
  | cons alloc allocs ih =>
    rcases runs_try_iff.mp runs with ⟨error, failed, rfl⟩ | ⟨front, _, back, stored, rest, rfl⟩
    · -- What is refused is not stored, and nothing is asked for after it.
      obtain rfl := runs_call_iff.mp failed
      simp [created, setRunning]
    · obtain rfl := runs_call_iff.mp stored
      obtain ⟨taken, quiet, whole⟩ := ih rest
      exact ⟨List.cons_prefix_cons.mpr ⟨rfl, taken⟩, quiet,
        fun through => congrArg (alloc :: ·) (whole through)⟩

/-- A turn of the loop on a pending job: its allocations are stored, and the job is set running
where anything has been stored so far; unless a call fails. -/
theorem runs_evaluateJobs_pending {jobs : List Job} {earlier : List Allocation}
    {trace : List (Program.Exchange Answer)} {outcome : Except String (List Allocation)}
    (pending : job.status = .pending)
    (runs : Runs (evaluateJobs strategy nodes (job :: jobs) earlier).run trace outcome) :
    ∃ allocs, List.Forall₂ StandsFor allocs (jobInstances strategy nodes job) ∧
      ((trace.filterMap created <+: allocs ∧ ∃ error, outcome = .error error) ∨
        ∃ back, Runs (evaluateJobs strategy nodes jobs (earlier ++ allocs)).run back outcome ∧
          trace.filterMap created = allocs ++ back.filterMap created ∧
          trace.filterMap setRunning =
            (if earlier ++ allocs = [] then [] else [job.id]) ++ back.filterMap setRunning) := by
  rw [evaluateJobs] at runs
  simp only [pending, ne_eq, not_true_eq_false, if_false] at runs
  obtain ⟨front, allocs, last, evaluated, rest, rfl⟩ := runs_liftBind_iff.mp runs
  have noneCreated : front.filterMap created = [] :=
    quiet_evaluateJob (fun _ => rfl) (fun _ => rfl) _ _ evaluated
  have noneSet : front.filterMap setRunning = [] :=
    quiet_evaluateJob (fun _ => rfl) (fun _ => rfl) _ _ evaluated
  refine ⟨allocs, standsFor_of_runs_evaluateJob evaluated, ?_⟩
  simp only [List.filterMap_append, noneCreated, noneSet, List.nil_append]
  rcases runs_try_iff.mp rest with ⟨error, failed, rfl⟩ | ⟨stores, _, later, stored, settling, rfl⟩
  · exact .inl ⟨(created_of_runs_store failed).1, error, rfl⟩
  · obtain ⟨-, unset, whole⟩ := created_of_runs_store stored
    simp only [List.filterMap_append, whole rfl, unset, List.nil_append]
    by_cases empty : earlier ++ allocs = []
    · rw [if_neg (not_not_intro empty)] at settling
      exact .inr ⟨later, settling, rfl, by rw [if_pos empty, List.nil_append]⟩
    · rw [if_pos empty] at settling
      rw [if_neg empty]
      -- The status may be refused as well.
      rcases runs_try_iff.mp settling with ⟨error, failed, rfl⟩ | ⟨update, _, back, set, goes, rfl⟩
      · obtain rfl := runs_call_iff.mp failed
        have unstored : allocs ++ [] <+: allocs := by simp
        exact .inl ⟨unstored, error, rfl⟩
      · obtain rfl := runs_call_iff.mp set
        exact .inr ⟨back, goes, rfl, rfl⟩

/-- A job that does not wait is skipped. -/
theorem runs_evaluateJobs_skip {jobs : List Job} {earlier : List Allocation}
    {trace : List (Program.Exchange Answer)} {outcome : Except String (List Allocation)}
    (other : job.status ≠ .pending)
    (runs : Runs (evaluateJobs strategy nodes (job :: jobs) earlier).run trace outcome) :
    Runs (evaluateJobs strategy nodes jobs earlier).run trace outcome := by
  rw [evaluateJobs] at runs
  simpa only [other, ne_eq, not_false_eq_true, if_true] using runs

/-- The planned instances of jobs are those of the first one, if it waits, and those of the others.
-/
theorem plannedInstances_cons (jobs : List Job) :
    plannedInstances strategy nodes (job :: jobs) =
      (if job.status = .pending then jobInstances strategy nodes job else []) ++
        plannedInstances strategy nodes jobs := by
  by_cases pending : job.status = .pending <;> simp [plannedInstances, pendingJobs, pending]

/-- What is stored stands for the first of the planned instances, and for all of them where no call
fails. -/
theorem created_of_runs_evaluateJobs {jobs : List Job} {earlier : List Allocation}
    {trace : List (Program.Exchange Answer)} {outcome : Except String (List Allocation)}
    (runs : Runs (evaluateJobs strategy nodes jobs earlier).run trace outcome) :
    ∃ placed, placed <+: plannedInstances strategy nodes jobs ∧
      List.Forall₂ StandsFor (trace.filterMap created) placed ∧
      ∀ all, outcome = .ok all → placed = plannedInstances strategy nodes jobs := by
  induction jobs generalizing earlier trace outcome with
  | nil =>
    obtain ⟨rfl, -⟩ := runs_pure_iff.mp runs
    exact ⟨[], List.nil_prefix, .nil, fun _ _ => rfl⟩
  | cons job jobs ih =>
    rw [plannedInstances_cons]
    by_cases pending : job.status = .pending
    · rw [if_pos pending]
      obtain ⟨allocs, stands, ⟨stored, error, rfl⟩ | ⟨back, rest, stored, -⟩⟩ :=
        runs_evaluateJobs_pending pending runs
      · -- A part of the allocations of this job is all there is.
        rw [List.prefix_iff_eq_take.mp stored]
        refine ⟨_, ?_, List.forall₂_take _ stands, nofun⟩
        exact (List.take_prefix _ _).trans (List.prefix_append _ _)
      · obtain ⟨placed, first, standing, all⟩ := ih rest
        refine ⟨jobInstances strategy nodes job ++ placed, ?_, ?_, fun result through => ?_⟩
        · exact (List.prefix_append_right_inj _).mpr first
        · rw [stored]
          exact List.rel_append stands standing
        · rw [all result through]
    · rw [if_neg pending, List.nil_append]
      exact ih (runs_evaluateJobs_skip pending runs)

/-- `evaluate` reads the jobs and the nodes once, and goes by them. -/
theorem runs_evaluate {jobs : List Job} {trace : List (Program.Exchange Answer)}
    {outcome : Except String (List Allocation)} (runs : Runs (evaluate strategy).run trace outcome)
    (listed : ∀ event ∈ trace, Lists jobs nodes event) :
    ∃ back, Runs (evaluateJobs strategy nodes jobs []).run back outcome ∧
      trace = ⟨.listJobs, jobs⟩ :: ⟨.listNodes, nodes⟩ :: back := by
  obtain ⟨_, readJobs, _, asked, rest, rfl⟩ := runs_liftBind_iff.mp runs
  obtain rfl := runs_call_iff.mp asked
  obtain ⟨_, readNodes, back, asked, looping, rfl⟩ := runs_liftBind_iff.mp rest
  obtain rfl := runs_call_iff.mp asked
  -- The two lists are what the store has answered.
  obtain rfl : readJobs = jobs := listed ⟨.listJobs, readJobs⟩ (by simp)
  obtain rfl : readNodes = nodes := listed ⟨.listNodes, readNodes⟩ (by simp)
  exact ⟨back, looping, rfl⟩

/-- Every call can be answered, with these jobs and nodes. -/
theorem lists_answerable (jobs : List Job) (nodes : List Node) (c : Call) :
    ∃ answer, Lists jobs nodes ⟨c, answer⟩ := by
  -- The lists are answered as given, and everything else with success.
  cases c with
  | newUuid => exact ⟨(0 : Uuid), trivial⟩
  | now => exact ⟨(⟨0⟩ : DateTime), trivial⟩
  | listAllocationsForJob jobId => exact ⟨([] : List Allocation), trivial⟩
  | listNodes => exact ⟨nodes, rfl⟩
  | listJobs => exact ⟨jobs, rfl⟩
  | evalExpr expr => exact ⟨(.error "" : Except String JobSpec), trivial⟩
  | putAllocation | startAllocation | stopAllocation | updateJob | updateJobStatus =>
    exact ⟨(.ok () : Except String Unit), trivial⟩

/-- The loop over the jobs can be answered to its end. -/
theorem completes_evaluateJobs {jobs listed : List Job} (earlier : List Allocation) :
    Completes (Lists listed nodes) (evaluateJobs strategy nodes jobs earlier) := by
  induction jobs generalizing earlier with
  | nil => exact .pure _
  | cons job jobs ih =>
    rw [evaluateJobs]
    split
    · exact ih _
    · -- Every call of the turn is answered, the ones that may fail with success.
      refine .bind (.lift (lists_answerable _ _) _) fun allocs => ?_
      refine .bind (.forM _ fun alloc => ⟨[⟨.putAllocation alloc, .ok ()⟩], (),
        .ask _ _ _ (.done _), by simp [Lists]⟩) fun _ => ?_
      dsimp only
      split
      · exact .bind ⟨[⟨.updateJobStatus job.id .running, .ok ()⟩], (), .ask _ _ _ (.done _),
          by simp [Lists]⟩ fun _ => ih _
      · exact ih _

/-- A call of `evaluate` may go through. -/
theorem completes_evaluate (jobs : List Job) :
    Completes (Lists jobs nodes) (evaluate strategy) := by
  -- The two lists are asked for first, and then the loop is answered.
  obtain ⟨back, all, looping, listed⟩ := @completes_evaluateJobs strategy nodes jobs jobs []
  refine ⟨⟨.listJobs, jobs⟩ :: ⟨.listNodes, nodes⟩ :: back, all, ?_, ?_⟩
  · exact runs_liftBind_iff.mpr ⟨[⟨.listJobs, jobs⟩], jobs, _, runs_call_iff.mpr rfl,
      runs_liftBind_iff.mpr ⟨[⟨.listNodes, nodes⟩], nodes, back, runs_call_iff.mpr rfl, looping,
        rfl⟩, rfl⟩
  · exact List.forall_mem_cons.mpr ⟨rfl, List.forall_mem_cons.mpr ⟨rfl, listed⟩⟩

/-- What one call of `evaluate` stores stands for the first of the planned instances, and for all
of them where no call fails. -/
theorem created_of_runs_evaluate {jobs : List Job} {trace : List (Program.Exchange Answer)}
    {outcome : Except String (List Allocation)} (runs : Runs (evaluate strategy).run trace outcome)
    (listed : ∀ event ∈ trace, Lists jobs nodes event) :
    ∃ placed, placed <+: plannedInstances strategy nodes jobs ∧
      List.Forall₂ StandsFor (trace.filterMap created) placed ∧
      ∀ all, outcome = .ok all → placed = plannedInstances strategy nodes jobs := by
  obtain ⟨back, looping, rfl⟩ := runs_evaluate runs listed
  -- Neither of the two lists stores anything.
  have stored := created_of_runs_evaluateJobs looping
  exact stored

end

end Tatara.Scheduling
