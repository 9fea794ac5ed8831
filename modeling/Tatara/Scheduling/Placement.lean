import Tatara.Lib.Program
import Tatara.Scheduling.Reconciler

/-! Which nodes allocations are created on, and when these satisfy the constraints of the job. -/

namespace Tatara.Scheduling

open Tatara.Domain Tatara.Rust
open Tatara.Program (Runs runs_bind_iff runs_pure_iff runs_mapM exists_run MarksOnly Completes
  marksOnly_iff_runs marksOnly_call_iff marksOnly_bind_iff marksOnly_try_iff marksOnly_lift_iff
  marksOnly_forM_iff marksOnly_read_iff
  marksOnly_seq_iff)

/-- A node with this identifier takes work and satisfies the constraints. -/
def Suitable (nodes : List Node) (constraints : List Constraint) (nodeId : String) : Prop :=
  ∃ node ∈ nodes, node.id = nodeId ∧ node.isReady ∧ constraintsMatch node constraints

instance (nodes : List Node) (constraints : List Constraint) (nodeId : String) :
    Decidable (Suitable nodes constraints nodeId) :=
  inferInstanceAs (Decidable (∃ node ∈ nodes, _))

/-- What the passes read: the allocations of the job, the nodes, and what its flake says now. -/
structure Reads where
  allocations : List Allocation
  nodes : List Node
  evaluated : Except String JobSpec

namespace Reads

/-- A call is answered with what is there to read; the other answers are open. -/
def Answers (reads : Reads) : Program.Exchange Answer → Prop
  | ⟨.listAllocationsForJob _, answer⟩ => answer = reads.allocations
  | ⟨.listNodes, answer⟩ => answer = reads.nodes
  | ⟨.evalExpr _, answer⟩ => answer = reads.evaluated
  | _ => True

/-- Every call may be answered. -/
theorem answerable (reads : Reads) (c : Call) : ∃ answer, reads.Answers ⟨c, answer⟩ := by
  -- The reads have their answers, and whatever is written may succeed.
  cases c with
  | newUuid => exact ⟨(0 : Uuid), trivial⟩
  | now => exact ⟨(⟨0⟩ : DateTime), trivial⟩
  | listAllocationsForJob jobId => exact ⟨reads.allocations, rfl⟩
  | listNodes => exact ⟨reads.nodes, rfl⟩
  | evalExpr expr => exact ⟨reads.evaluated, rfl⟩
  | listJobs => exact ⟨([] : List Job), trivial⟩
  | putAllocation | startAllocation | stopAllocation | updateJob | updateJobStatus =>
    exact ⟨(.ok () : Except String Unit), trivial⟩

end Reads

/-- The allocation that a call puts into the store. -/
def created : Program.Exchange Answer → Option Allocation
  | ⟨.putAllocation alloc, _⟩ => some alloc
  | _ => none

/-! The evaluator. -/

section

variable (strategy : SchedulingStrategy) (job : Job) (group : TaskGroup) (ready : List Node)

/-- The nodes that instances of a group go to. -/
def placements : List Nat → List (Node × Resources) → List Node
  | [], _ => []
  | i :: rest, available =>
    match placeInstance strategy job group ready available i with
    | none => placements rest available
    | some (node, available) => node :: placements rest available

/-- The nodes that the allocations of a job go to. -/
def evaluatedNodes (nodes : List Node) : List Node :=
  let ready := readyNodes nodes
  if ready.isEmpty then []
  else
    job.groups.flatMap fun group =>
      placements strategy job group ready (List.range (desiredCount job group ready).toNat)
        (ready.map fun n => (n, n.availableResources))

end

section

variable {strategy : SchedulingStrategy} {job : Job} {group : TaskGroup} {ready nodes : List Node}

/-- An allocation is made for the node that was chosen. -/
theorem nodeId_of_runs_allocate {jobId nodeId : String} {trace : List (Program.Exchange Answer)}
    {alloc : Allocation} (runs : Runs (allocate jobId group nodeId) trace alloc) :
    alloc.nodeId = nodeId := by
  -- Neither of the two calls has a say in where the allocation goes.
  obtain ⟨_, _, _, _, rest, rfl⟩ := runs_bind_iff.mp runs
  obtain ⟨_, _, _, _, final, rfl⟩ := runs_bind_iff.mp rest
  obtain ⟨_, rfl⟩ := runs_pure_iff.mp final
  rfl

/-- The allocations of a group are on the nodes that are placed one after the other. -/
theorem nodeIds_of_runs_placeInstances {indices : List Nat} {available : List (Node × Resources)}
    {trace : List (Program.Exchange Answer)} {allocations : List Allocation}
    (runs : Runs (placeInstances strategy job group ready indices available) trace allocations) :
    allocations.map (·.nodeId) =
      (placements strategy job group ready indices available).map (·.id) := by
  -- Each turn of the loop either finds a node and allocates, or goes on without.
  induction indices generalizing available trace allocations with
  | nil =>
    obtain ⟨-, rfl⟩ := runs_pure_iff.mp runs
    rfl
  | cons i rest ih =>
    cases placed : placeInstance strategy job group ready available i with
    | none =>
      simp only [placeInstances, placements, placed] at runs ⊢
      exact ih runs
    | some found =>
      simp only [placeInstances, placements, placed] at runs ⊢
      obtain ⟨_, alloc, _, allocated, later, rfl⟩ := runs_bind_iff.mp runs
      obtain ⟨_, others, _, looped, final, rfl⟩ := runs_bind_iff.mp later
      obtain ⟨-, rfl⟩ := runs_pure_iff.mp final
      rw [List.map_cons, List.map_cons, ih looped, nodeId_of_runs_allocate allocated]

/-- The allocations of a job go to these nodes, in this order, whatever the answers are. -/
theorem nodeIds_of_runs_evaluateJob {trace : List (Program.Exchange Answer)}
    {allocations : List Allocation}
    (runs : Runs (evaluateJob strategy job nodes) trace allocations) :
    allocations.map (·.nodeId) = (evaluatedNodes strategy job nodes).map (·.id) := by
  simp only [evaluateJob] at runs
  simp only [evaluatedNodes]
  split
  · rename_i empty
    rw [if_pos empty] at runs
    obtain ⟨-, rfl⟩ := runs_pure_iff.mp runs
    rfl
  · rename_i nonempty
    rw [if_neg nonempty] at runs
    obtain ⟨_, perGroup, _, looped, final, rfl⟩ := runs_bind_iff.mp runs
    obtain ⟨-, rfl⟩ := runs_pure_iff.mp final
    -- The groups are gone through one by one.
    have matched := runs_mapM looped
    clear looped final runs
    generalize job.groups = groups at matched ⊢
    induction matched with
    | nil => rfl
    | cons group _ ih =>
      obtain ⟨_, evaluated⟩ := group
      have first := nodeIds_of_runs_placeInstances evaluated
      rw [List.flatten_cons, List.map_append, List.flatMap_cons, List.map_append, ih, first]

/-- Of a job that is not a system job every node has been picked, and so it is suitable. -/
theorem suitable_of_mem_placements (ordinary : job.jobType ≠ .system) {indices : List Nat}
    {available : List (Node × Resources)} (tracked : available.map Prod.fst = readyNodes nodes)
    {node : Node} (placed : node ∈ placements strategy job group ready indices available) :
    Suitable nodes job.constraints node.id := by
  induction indices generalizing available with
  | nil => cases placed
  | cons i rest ih =>
    cases instance_ : placeInstance strategy job group ready available i with
    | none =>
      simp only [placements, instance_] at placed
      exact ih tracked placed
    | some found =>
      simp only [placements, instance_] at placed
      obtain ⟨chosen, idx, left, picked, rfl, named⟩ : ∃ chosen idx left,
          pickNode available group.resources job.constraints strategy = some (chosen, idx) ∧
            found = (chosen, left) ∧ left.map Prod.fst = available.map Prod.fst := by
        cases kind : job.jobType with
        | system => exact absurd kind ordinary
        | service | batch =>
          simp only [placeInstance, kind, Option.map_eq_some_iff] at instance_
          obtain ⟨⟨chosen, idx⟩, picked, rfl⟩ := instance_
          refine ⟨chosen, idx, _, picked, rfl, List.ext_getElem? fun j => ?_⟩
          -- Taking resources off a candidate leaves its node as it is.
          simp only [List.getElem?_map, List.getElem?_modify]
          cases available[j]? <;> split <;> rfl
      obtain ⟨_, present, matched⟩ := pickNode_spec picked
      rcases List.mem_cons.mp placed with rfl | later
      · -- The candidates are the nodes that take work.
        have among : node ∈ readyNodes nodes :=
          tracked ▸ List.mem_map.mpr ⟨_, List.mem_of_getElem? present, rfl⟩
        obtain ⟨listed, takesWork⟩ := List.mem_filter.mp among
        exact ⟨node, listed, rfl, takesWork, matched⟩
      · exact ih (named.trans tracked) later

/-- A system job goes to the nodes in the order in which they are listed. -/
theorem placements_system (system : job.jobType = .system) {available : List (Node × Resources)}
    (n : Nat) : placements strategy job group ready (List.range n) available = ready.take n := by
  -- A system job takes the nodes in their order, whatever is left on them.
  have through (indices : List Nat) :
      placements strategy job group ready indices available = indices.filterMap (ready[·]?) := by
    induction indices with
    | nil => rfl
    | cons i rest ih =>
      cases found : ready[i]? with
      | none => simp [placements, placeInstance, system, found, ih]
      | some node => simp [placements, placeInstance, system, found, ih]
  rw [through]
  induction n with
  | zero => simp
  | succ n ih =>
    rw [List.range_succ, List.filterMap_append, ih, List.take_add_one]
    cases found : ready[n]? <;> simp [found]

/-- The allocations of the evaluator are on nodes that satisfy the constraints. -/
def EvaluationRespects (strategy : SchedulingStrategy) (job : Job) (nodes : List Node) : Prop :=
  ∀ trace allocations, Runs (evaluateJob strategy job nodes) trace allocations →
    ∀ a ∈ allocations, Suitable nodes job.constraints a.nodeId

/-- The job goes to every node only if it may. -/
def EveryNodeSuits (job : Job) (nodes : List Node) : Prop :=
  job.jobType ≠ .system ∨ job.groups = [] ∨
    ∀ node ∈ (readyNodes nodes).take (UInt32.ofNat (readyNodes nodes).length).toNat,
      Suitable nodes job.constraints node.id

/-- An evaluation respects the constraints where the nodes that it chooses do. -/
theorem evaluationRespects_iff_evaluatedNodes :
    EvaluationRespects strategy job nodes ↔
      ∀ node ∈ evaluatedNodes strategy job nodes, Suitable nodes job.constraints node.id := by
  constructor
  · intro respects node among
    -- Any run will do, as all of them go to the same nodes.
    obtain ⟨trace, allocations, runs, -⟩ := exists_run
      (Reads.answerable ⟨[], [], .error ""⟩) (evaluateJob strategy job nodes)
    have listed : node.id ∈ allocations.map (·.nodeId) :=
      nodeIds_of_runs_evaluateJob runs ▸ List.mem_map_of_mem among
    obtain ⟨a, present, same⟩ := List.mem_map.mp listed
    exact same ▸ respects trace allocations runs a present
  · intro suits trace allocations runs a present
    have listed : a.nodeId ∈ (evaluatedNodes strategy job nodes).map (·.id) :=
      nodeIds_of_runs_evaluateJob runs ▸ List.mem_map_of_mem present
    obtain ⟨node, among, same⟩ := List.mem_map.mp listed
    exact same ▸ suits node among

/-- Only a system job goes to nodes that it may not go to. -/
theorem evaluationRespects_iff :
    EvaluationRespects strategy job nodes ↔ EveryNodeSuits job nodes := by
  rw [evaluationRespects_iff_evaluatedNodes]
  simp only [evaluatedNodes, EveryNodeSuits]
  by_cases system : job.jobType = .system
  · -- Each group goes to the same nodes, so it only matters that there is one.
    have count (group : TaskGroup) : desiredCount job group (readyNodes nodes) =
        UInt32.ofNat (readyNodes nodes).length := by
      simp only [desiredCount, system]
    split
    · rename_i empty
      rw [List.isEmpty_iff] at empty
      simp [empty]
    · simp only [count, placements_system system, system, ne_eq, not_true_eq_false, false_or]
      constructor
      · intro suits
        refine or_iff_not_imp_left.mpr fun some node taken => ?_
        obtain ⟨group, among⟩ := List.exists_mem_of_ne_nil _ some
        exact suits node (List.mem_flatMap.mpr ⟨group, among, taken⟩)
      · intro either node placed
        obtain ⟨group, among, taken⟩ := List.mem_flatMap.mp placed
        rcases either with none | suits
        · rw [none] at among
          cases among
        · exact suits node taken
  · refine iff_of_true (fun node among => ?_) (.inl system)
    split at among
    · cases among
    · obtain ⟨group, _, placed⟩ := List.mem_flatMap.mp among
      exact suitable_of_mem_placements system (by simp [Function.comp_def]) placed

end

/-! The count pass. -/

/-- The replacements of the count pass are on nodes that satisfy the constraints. -/
def CountRespects (job : Job) (nodes : List Node) (reads : Reads) : Prop :=
  ∀ trace outcome, Runs (reconcileCount job nodes).run trace outcome →
    (∀ event ∈ trace, reads.Answers event) →
      ∀ a ∈ trace.filterMap created, Suitable nodes job.constraints a.nodeId

/-- Where a group lacks instances, the first of its least loaded nodes is one that it may go to. -/
def LeastLoadedSuits (job : Job) (nodes : List Node) (allocations : List Allocation) : Prop :=
  job.status = .running → ∀ group ∈ job.groups,
    activeCount allocations group < desiredCount job group (readyNodes nodes) →
      ∀ node, IsFirstLeastBy (load allocations group) (readyNodes nodes) node →
        Suitable nodes job.constraints node.id

section

variable {reads : Reads} {allowed : Allocation → Prop} {jobId nodeId : String} {version : UInt64}
  {group : TaskGroup} {secs : Nat}

/-- A call that stores no allocation creates none. -/
theorem marksOnly_uncreated {c : Call} (other : ∀ answer, created ⟨c, answer⟩ = none) :
    MarksOnly reads.Answers created allowed (Program.call c : Task (Answer c)) := by
  -- The call is the only one to look at.
  rw [marksOnly_call_iff]
  intro answer _ a marked
  rw [other answer] at marked
  cases marked

/-- To make an allocation stores none. -/
theorem marksOnly_allocate :
    MarksOnly reads.Answers created allowed (allocate jobId group nodeId) := by
  -- The identifier and the clock have nothing to do with the store.
  simp only [allocate, marksOnly_bind_iff]
  exact ⟨marksOnly_uncreated fun _ => rfl, fun _ _ _ _ =>
    ⟨marksOnly_uncreated fun _ => rfl, fun _ _ _ _ => trivial⟩⟩

/-- To swallow an error stores nothing. -/
theorem marksOnly_bestEffort {task : Task (Except String Unit)}
    (unmarked : MarksOnly reads.Answers created allowed task) :
    MarksOnly reads.Answers created allowed (bestEffort task).run :=
  marksOnly_lift_iff.mpr (marksOnly_bind_iff.mpr ⟨unmarked, fun _ _ _ _ => trivial⟩)

/-- What swallows its errors comes to its end. -/
theorem completes_bestEffort (task : Task (Except String Unit)) :
    Completes reads.Answers (bestEffort task) :=
  .lift reads.answerable _

/-- To stop allocations stores none. -/
theorem marksOnly_stopAllocations (allocations : List Allocation) :
    MarksOnly reads.Answers created allowed (stopAllocations secs allocations).run := by
  rw [stopAllocations, marksOnly_forM_iff fun _ => completes_bestEffort _]
  intro a _
  exact marksOnly_bestEffort (marksOnly_uncreated fun _ => rfl)

/-- The store may accept an allocation. -/
theorem completes_putAllocation (alloc : Allocation) :
    Completes reads.Answers (attempt (putAllocation alloc)) :=
  ⟨[⟨Call.putAllocation alloc, .ok ()⟩], (), .ask _ _ _ (.done _), by simp [Reads.Answers]⟩

/-- The creation of an allocation comes to its end. -/
theorem completes_createAllocation :
    Completes reads.Answers (createAllocation jobId version group nodeId) :=
  .bind (.lift reads.answerable _) fun _ =>
    .bind (completes_putAllocation _) fun _ => completes_bestEffort _

/-- The one allocation that is created is on the node that is asked for. -/
theorem marksOnly_createAllocation_iff {suits : String → Prop} :
    MarksOnly reads.Answers created (fun a => suits a.nodeId)
      (createAllocation jobId version group nodeId).run ↔ suits nodeId := by
  -- The one allocation that is created is for the node that it is asked for.
  rw [createAllocation, marksOnly_try_iff, marksOnly_lift_iff]
  constructor
  · intro marks
    obtain ⟨trace, alloc, runs, fits⟩ := exists_run reads.answerable (allocate jobId group nodeId)
    have later := marks.2 trace alloc (Program.runs_lift_iff.mpr ⟨alloc, runs, rfl⟩) fits
    rw [marksOnly_try_iff] at later
    have stored := marksOnly_call_iff.mp later.1 (.ok ()) trivial _ rfl
    have same : alloc.nodeId = nodeId := nodeId_of_runs_allocate runs
    exact same ▸ stored
  · intro suitable
    refine ⟨marksOnly_allocate, fun trace alloc lifted _ => ?_⟩
    obtain ⟨_, runs, same⟩ := Program.runs_lift_iff.mp lifted
    cases same
    have same : alloc.nodeId = nodeId := nodeId_of_runs_allocate runs
    rw [marksOnly_try_iff]
    refine ⟨marksOnly_call_iff.mpr fun _ _ a marked => ?_, fun _ _ _ _ => ?_⟩
    · cases marked
      exact same ▸ suitable
    · exact marksOnly_bestEffort (marksOnly_uncreated fun _ => rfl)

/-- A turn of the count pass creates allocations where a group lacks instances. -/
theorem marksOnly_reconcileGroup_iff {suits : String → Prop} {allocations : List Allocation}
    {job : Job} {ready : List Node} :
    MarksOnly reads.Answers created (fun a => suits a.nodeId)
      (reconcileGroup job allocations ready group).run ↔
      (activeCount allocations group < desiredCount job group ready →
        ∀ node, IsFirstLeastBy (load allocations group) ready node → suits node.id) := by
  simp only [reconcileGroup]
  split
  · rename_i lacking
    have some_turn : 0 < (desiredCount job group ready - activeCount allocations group).toNat := by
      rw [UInt32.toNat_sub_of_le _ _ (UInt32.le_of_lt lacking)]
      exact Nat.sub_pos_of_lt (UInt32.lt_iff_toNat_lt.mp lacking)
    simp only [← firstLeastBy_eq_some_iff]
    -- Every turn of the loop does the same, and there is at least one.
    cases firstLeastBy (load allocations group) ready with
    | none =>
      rw [marksOnly_forM_iff fun _ => .pure ()]
      exact iff_of_true (fun _ _ => trivial) (by simp)
    | some node =>
      rw [marksOnly_forM_iff fun _ => completes_createAllocation]
      simp only [marksOnly_createAllocation_iff]
      constructor
      · intro turns _ _ same
        cases same
        exact turns 0 (List.mem_range.mpr some_turn)
      · intro suitable _ _
        exact suitable lacking node rfl
  · rename_i enough
    refine iff_of_true ?_ fun lacking => absurd lacking enough
    split
    · exact marksOnly_stopAllocations _
    · trivial

/-- The stopping of allocations comes to its end. -/
theorem completes_stopAllocations (allocations : List Allocation) :
    Completes reads.Answers (stopAllocations secs allocations) :=
  .forM _ fun _ => completes_bestEffort _

/-- A group is reconciled to the end. -/
theorem completes_reconcileGroup {job : Job} {allocations : List Allocation} {ready : List Node} :
    Completes reads.Answers (reconcileGroup job allocations ready group) := by
  -- No branch fails, as each of its steps swallows its errors.
  simp only [reconcileGroup]
  split
  · refine .forM _ fun _ => ?_
    split
    · exact .pure ()
    · exact completes_createAllocation
  · split
    · exact completes_stopAllocations _
    · exact .pure ()

/-- What follows a list of allocations follows the one that is read. -/
theorem marksOnly_list_iff {α : Type} {f : List Allocation → Handler α} :
    MarksOnly reads.Answers created allowed
        ((liftM (listAllocationsForJob jobId) : Handler (List Allocation)) >>= f).run ↔
      MarksOnly reads.Answers created allowed (f reads.allocations).run :=
  marksOnly_read_iff (fun _ => Iff.rfl) rfl

/-- The count pass does not look at the constraints of the job. -/
theorem countRespects_iff {job : Job} {nodes : List Node} :
    CountRespects job nodes reads ↔ LeastLoadedSuits job nodes reads.allocations := by
  rw [CountRespects, ← marksOnly_iff_runs reads.answerable]
  simp only [reconcileCount, LeastLoadedSuits]
  by_cases runs : job.status = .running
  · simp only [runs, ne_eq, not_true_eq_false, if_false, forall_const]
    rw [marksOnly_list_iff]
    split
    · -- No node takes work, so none is the least loaded one.
      rename_i empty
      rw [List.isEmpty_iff] at empty
      refine iff_of_true trivial fun _ _ _ node first => ?_
      obtain ⟨_, _, impossible, _⟩ := first
      simp [empty] at impossible
    · rw [marksOnly_forM_iff fun _ => completes_reconcileGroup]
      simp only [marksOnly_reconcileGroup_iff]
  · simp only [runs, ne_eq, not_false_eq_true, if_true, false_imp_iff]
    exact iff_of_true trivial trivial

end

/-! The rolling update. -/

/-- The replacements of the rolling update are on nodes that satisfy the constraints of the job,
which by then are those of the new specification. -/
def DriftRespects (contentHash : JobSpec → String) (job : Job) (reads : Reads) : Prop :=
  ∀ trace outcome, Runs (reconcileDrift contentHash job).run trace outcome →
    (∀ event ∈ trace, reads.Answers event) →
      ∀ a ∈ trace.filterMap created,
        ∀ spec, reads.evaluated = .ok spec → Suitable reads.nodes spec.constraints a.nodeId

/-- An allocation may stay on its node if that one still takes work; else the first node that does
is one that it may go to. -/
def ReplacementSuits (suits : String → Prop) (spec : JobSpec) (ready : List Node)
    (old : Allocation) : Prop :=
  (∃ group ∈ spec.groups, group.name = old.groupName) →
    ((∃ node ∈ ready, node.id = old.nodeId) → suits old.nodeId) ∧
      ((∀ node ∈ ready, node.id ≠ old.nodeId) → ∀ node ∈ ready.head?, suits node.id)

/-- Where the specification has changed, every replacement goes to a node that it may go to. -/
def ReplacementsSuit (contentHash : JobSpec → String) (job : Job) (reads : Reads) : Prop :=
  flakeRefOf job ≠ none → ∀ spec, reads.evaluated = .ok spec →
    contentHash spec ≠ job.specHash.getD "" →
      ∀ old ∈ outdated reads.allocations (job.version + 1),
        ReplacementSuits (Suitable reads.nodes spec.constraints) spec (readyNodes reads.nodes) old

section

variable {reads : Reads} {allowed : Allocation → Prop} {suits : String → Prop} {jobId : String}
  {version : UInt64} {spec : JobSpec} {ready : List Node} {old : Allocation}

/-- The replacement of an allocation comes to its end. -/
theorem completes_replaceAllocation :
    Completes reads.Answers (replaceAllocation jobId version spec ready old) := by
  -- It either does nothing or creates an allocation.
  simp only [replaceAllocation]
  split
  · exact .pure ()
  · split
    · exact .pure ()
    · exact completes_createAllocation

/-- A replacement is created where it should, or not at all. -/
theorem marksOnly_replaceAllocation_iff :
    MarksOnly reads.Answers created (fun a => suits a.nodeId)
      (replaceAllocation jobId version spec ready old).run ↔
      ReplacementSuits suits spec ready old := by
  simp only [replaceAllocation, ReplacementSuits]
  split
  · rename_i missing
    refine iff_of_true trivial fun known => ?_
    obtain ⟨group, among, same⟩ := known
    simpa [same] using List.find?_eq_none.mp missing group among
  · rename_i group found
    have known : ∃ group ∈ spec.groups, group.name = old.groupName :=
      ⟨group, List.mem_of_find?_eq_some found, by simpa using List.find?_some found⟩
    simp only [known, forall_const, replacementNode, List.any_eq_true, decide_eq_true_eq]
    -- The node of the old allocation comes first, if it still takes work.
    by_cases stays : ∃ node ∈ ready, node.id = old.nodeId
    · have present : ¬ ∀ node ∈ ready, node.id ≠ old.nodeId := by simpa using stays
      rw [if_pos stays]
      exact marksOnly_createAllocation_iff.trans
        ⟨fun suitable => ⟨fun _ => suitable, fun absent => absurd absent present⟩,
          fun both => both.1 stays⟩
    · have absent : ∀ node ∈ ready, node.id ≠ old.nodeId := by simpa using stays
      rw [if_neg stays]
      cases first : ready.head? with
      | none => exact iff_of_true trivial ⟨fun some => absurd some stays, by simp⟩
      | some node =>
        refine marksOnly_createAllocation_iff.trans
          ⟨fun suitable => ⟨fun some => absurd some stays, fun _ _ same => ?_⟩,
            fun both => both.2 absent node rfl⟩
        cases same
        exact suitable

/-- The store may accept an update. -/
theorem completes_updateJob (update : JobUpdate) :
    Completes reads.Answers (attempt (updateJob jobId update)) :=
  ⟨[⟨Call.updateJob jobId update, .ok ()⟩], (), .ask _ _ _ (.done _), by simp [Reads.Answers]⟩

/-- To update a job stores no allocation. -/
theorem marksOnly_updateJob (update : JobUpdate) :
    MarksOnly reads.Answers created allowed (attempt (updateJob jobId update)).run :=
  marksOnly_uncreated fun _ => rfl

/-- A rolling update creates what replaces the outdated allocations. -/
theorem marksOnly_rollingUpdate_iff {job : Job} {hash : String} :
    MarksOnly reads.Answers created (fun a => suits a.nodeId) (rollingUpdate job spec hash).run ↔
      ∀ old ∈ outdated reads.allocations (job.version + 1),
        ReplacementSuits suits spec (readyNodes reads.nodes) old := by
  simp only [rollingUpdate]
  -- The job is written and two lists are read before anything is created.
  rw [marksOnly_seq_iff (completes_updateJob _), and_iff_right (marksOnly_updateJob _),
    marksOnly_list_iff, listNodes, marksOnly_read_iff (a := reads.nodes) (fun _ => Iff.rfl) rfl,
    marksOnly_seq_iff (.forM _ fun _ => completes_replaceAllocation),
    and_iff_left (marksOnly_stopAllocations _),
    marksOnly_forM_iff fun _ => completes_replaceAllocation]
  simp only [marksOnly_replaceAllocation_iff]

/-- The rolling update does not look at the constraints of the job. -/
theorem driftRespects_iff {contentHash : JobSpec → String} {job : Job} :
    DriftRespects contentHash job reads ↔ ReplacementsSuit contentHash job reads := by
  rw [DriftRespects, ReplacementsSuit, ← marksOnly_iff_runs reads.answerable]
  simp only [reconcileDrift]
  cases flake : flakeRefOf job with
  | none => exact iff_of_true trivial fun some => absurd rfl some
  | some flakeRef =>
    dsimp only
    rw [evalExpr, marksOnly_read_iff (a := reads.evaluated) (fun _ => Iff.rfl) rfl]
    cases evaluated : reads.evaluated with
    | error error => exact iff_of_true trivial fun _ _ impossible => by cases impossible
    | ok spec =>
      -- From here on there is just this specification.
      simp only [Except.ok.injEq, forall_eq', ne_eq, reduceCtorEq, not_false_eq_true, forall_const]
      split
      · rename_i unchanged
        exact iff_of_true trivial fun changed => absurd unchanged changed
      · rename_i changed
        simp [marksOnly_rollingUpdate_iff, changed]

end

/-! All three paths. -/

/-- Every allocation that is created is on a node that satisfies the constraints of its job. -/
structure PlacementRespects (contentHash : JobSpec → String) (strategy : SchedulingStrategy)
    (job : Job) (nodes : List Node) (reads : Reads) : Prop where
  evaluation : EvaluationRespects strategy job nodes
  count : CountRespects job nodes reads
  drift : DriftRespects contentHash job reads

/-- The nodes that are taken without a look at the constraints happen to satisfy them. -/
structure UncheckedSuit (contentHash : JobSpec → String) (job : Job) (nodes : List Node)
    (reads : Reads) : Prop where
  everyNode : EveryNodeSuits job nodes
  leastLoaded : LeastLoadedSuits job nodes reads.allocations
  replacements : ReplacementsSuit contentHash job reads

/-- Only the evaluator, and only for a job that is not a system job, looks at the constraints. -/
theorem placementRespects_iff (contentHash : JobSpec → String) (strategy : SchedulingStrategy)
    (job : Job) (nodes : List Node) (reads : Reads) :
    PlacementRespects contentHash strategy job nodes reads ↔
      UncheckedSuit contentHash job nodes reads := by
  -- Each of the three paths has a condition of its own.
  constructor
  · intro respects
    exact ⟨evaluationRespects_iff.mp respects.evaluation, countRespects_iff.mp respects.count,
      driftRespects_iff.mp respects.drift⟩
  · intro suit
    exact ⟨evaluationRespects_iff.mpr suit.everyNode, countRespects_iff.mpr suit.leastLoaded,
      driftRespects_iff.mpr suit.replacements⟩

/-- A group of one instance with no task. -/
def singleGroup : TaskGroup :=
  { name := "web", count := 1, tasks := []
    restartPolicy := { mode := .onFailure, attempts := 3, intervalSecs := 300, delaySecs := 15 }
    resources := ⟨0, 0⟩, network := none, secrets := [], volumes := [], serviceName := none }

/-- A running job that wants a node with Linux. -/
def linuxJob : Job :=
  { id := "web", version := 0, jobType := .service, status := .running, submittedAt := ⟨0⟩
    groups := [singleGroup], constraints := [⟨"os", "=", "linux"⟩], «meta» := ∅, specHash := none }

/-- A node that takes work and does not run Linux. -/
def darwinNode : Node :=
  { id := "mac", address := "127.0.0.1:4647", status := .ready, eligible := true
    totalResources := ⟨4000, 8192⟩, availableResources := ⟨4000, 8192⟩
    attributes := {("os", "darwin")}, drivers := [.exec], lastHeartbeat := ⟨0⟩, allocations := [] }

/-- The count pass puts the missing instance on the node although that one does not run Linux. -/
theorem not_placementRespects_darwin :
    ¬ PlacementRespects (fun spec => spec.id) .binPack linuxJob [darwinNode]
      ⟨[], [darwinNode], .error "no such flake"⟩ := by
  intro respects
  have suits := countRespects_iff.mp respects.count
  -- The only node there is has the least load of all.
  have first : IsFirstLeastBy (load [] singleGroup) (readyNodes [darwinNode]) darwinNode :=
    ⟨[], [], rfl, by simp, by simp⟩
  obtain ⟨node, among, -, -, matched⟩ :=
    suits rfl singleGroup (by simp [linuxJob]) (by decide) darwinNode first
  rw [List.mem_singleton.mp among] at matched
  simp [constraintsMatch, constraintMatches, attributeOf, linuxJob, darwinNode] at matched

end Tatara.Scheduling
