import Tatara.Scheduling.Overcommit

/-! Which jobs one round of the evaluator sets running, and which of them it has placed. -/

namespace Tatara.Scheduling

open Tatara.Domain Tatara.Rust
open Tatara.Program (Runs runs_pure_iff)

/-- A group of a job has an instance that can be placed. -/
def GroupPlaceable (nodes : List Node) (job : Job) (group : TaskGroup) : Prop :=
  -- The nodes are counted in 32 bits.
  if job.jobType = .system then UInt32.ofNat (readyNodes nodes).length ≠ 0
  else group.count ≠ 0 ∧ ∃ node ∈ readyNodes nodes,
    Fitting group.resources job.constraints (node, node.availableResources)

instance (nodes : List Node) (job : Job) (group : TaskGroup) :
    Decidable (GroupPlaceable nodes job group) :=
  inferInstanceAs (Decidable (if job.jobType = .system then _ else _))

/-- A job is pending and has a group with an instance that can be placed. -/
def Placeable (nodes : List Node) (job : Job) : Prop :=
  job.status = .pending ∧ ∃ group ∈ job.groups, GroupPlaceable nodes job group

instance (nodes : List Node) (job : Job) : Decidable (Placeable nodes job) :=
  inferInstanceAs (Decidable (_ ∧ _))

/-- A call of `evaluate` that goes through sets a pending job running exactly where it has stored an
allocation for it. -/
def StatusesFollow (strategy : SchedulingStrategy) (jobs : List Job) (nodes : List Node) : Prop :=
  ∀ trace all, Runs (evaluate strategy).run trace (.ok all) →
    (∀ event ∈ trace, Lists jobs nodes event) →
      ∀ job ∈ jobs, job.status = .pending →
        (job.id ∈ trace.filterMap setRunning ↔
          ∃ alloc ∈ trace.filterMap created, alloc.jobId = job.id)

/-- A pending job that comes after one that can be placed can be placed itself, or another one
under the same identifier. -/
def PlaceableBehind (jobs : List Job) (nodes : List Node) : Prop :=
  ∀ front job back, jobs = front ++ job :: back → job.status = .pending →
    (∃ other ∈ front, Placeable nodes other) →
      ∃ other ∈ jobs, other.id = job.id ∧ Placeable nodes other

section

variable {strategy : SchedulingStrategy} {job : Job} {group : TaskGroup} {nodes ready : List Node}

/-- Where no candidate fits, none is found for any of the instances. -/
theorem placements_eq_nil (ordinary : job.jobType ≠ .system) {available : List (Node × Resources)}
    (unfit : ∀ candidate ∈ available, ¬ Fitting group.resources job.constraints candidate)
    (indices : List Nat) : placements strategy job group ready indices available = [] := by
  -- The table of what is left does not change, as nothing is taken from it.
  have unplaced (i : Nat) : placeInstance strategy job group ready available i = none := by
    have unpicked : pickNode available group.resources job.constraints strategy = none :=
      pickNode_eq_none_iff.mpr unfit
    cases kind : job.jobType with
    | system => exact absurd kind ordinary
    | service | batch => simp [placeInstance, kind, unpicked]
  induction indices with
  | nil => rfl
  | cons i rest ih => simpa only [placements, unplaced] using ih

/-- Where a candidate fits, the first instance is placed. -/
theorem placements_ne_nil (ordinary : job.jobType ≠ .system) {available : List (Node × Resources)}
    {candidate : Node × Resources} (among : candidate ∈ available)
    (fits : Fitting group.resources job.constraints candidate) (i : Nat) (rest : List Nat) :
    placements strategy job group ready (i :: rest) available ≠ [] := by
  -- The first instance finds a candidate that fits.
  have picked : pickNode available group.resources job.constraints strategy ≠ none := fun none =>
    pickNode_eq_none_iff.mp none candidate among fits
  obtain ⟨⟨node, idx⟩, found⟩ := Option.ne_none_iff_exists'.mp picked
  cases kind : job.jobType with
  | system => exact absurd kind ordinary
  | service | batch => simp [placements, placeInstance, kind, found]

/-- A group has instances exactly if it can be placed. -/
theorem groupInstances_ne_nil_iff :
    groupInstances strategy nodes job group ≠ [] ↔ GroupPlaceable nodes job group := by
  rw [groupInstances, Ne, List.map_eq_nil_iff, GroupPlaceable]
  split
  · rename_i system
    rw [placements_system system, desiredCount, system]
    simp only [List.take_eq_nil_iff]
    -- Without nodes the count is zero as well.
    constructor
    · intro some zero
      exact some (.inl (by rw [zero]; rfl))
    · intro some either
      rcases either with zero | empty
      · exact some (UInt32.toNat_inj.mp zero)
      · exact some (by rw [empty]; rfl)
  · rename_i ordinary
    have count : desiredCount job group (readyNodes nodes) = group.count := by
      unfold desiredCount
      split
      · rename_i kind
        exact absurd kind ordinary
      · rfl
    rw [count]
    constructor
    · intro some
      refine ⟨fun zero => some (by rw [zero]; rfl), ?_⟩
      by_contra unfit
      push Not at unfit
      refine some (placements_eq_nil ordinary ?_ _)
      exact List.forall_mem_map.mpr fun node among => unfit node among
    · intro placeable
      obtain ⟨count, node, among, fits⟩ := placeable
      obtain ⟨n, positive⟩ : ∃ n, group.count.toNat = n + 1 :=
        Nat.exists_eq_succ_of_ne_zero fun zero => count (UInt32.toNat_inj.mp zero)
      rw [positive, List.range_succ_eq_map]
      exact placements_ne_nil ordinary (List.mem_map_of_mem among) fits _ _

/-- What is planned has an instance of each job that can be placed, and of no other. -/
theorem exists_plannedInstances_iff (jobs : List Job) (jobId : String) :
    (∃ i ∈ plannedInstances strategy nodes jobs, i.job.id = jobId) ↔
      ∃ job ∈ jobs, job.id = jobId ∧ Placeable nodes job := by
  have own {job : Job} {i : Instance} (among : i ∈ jobInstances strategy nodes job) :
      i.job = job := by
    obtain ⟨group, -, there⟩ := List.mem_flatMap.mp among
    obtain ⟨node, -, rfl⟩ := List.mem_map.mp there
    rfl
  -- An instance belongs to a group with a place, and such a group has an instance.
  constructor
  · intro some
    obtain ⟨i, planned, rfl⟩ := some
    obtain ⟨job, pending, among⟩ := List.mem_flatMap.mp planned
    obtain ⟨group, listed, there⟩ := List.mem_flatMap.mp among
    obtain ⟨known, waits⟩ := List.mem_filter.mp pending
    exact ⟨job, known, by rw [own among], by simpa using waits, group, listed,
      groupInstances_ne_nil_iff.mp (List.ne_nil_of_mem there)⟩
  · intro some
    obtain ⟨job, known, rfl, waits, group, listed, placeable⟩ := some
    obtain ⟨i, there⟩ := List.exists_mem_of_ne_nil _
      ((@groupInstances_ne_nil_iff strategy _ _ _).mpr placeable)
    have among : i ∈ jobInstances strategy nodes job := List.mem_flatMap.mpr ⟨group, listed, there⟩
    refine ⟨i, List.mem_flatMap.mpr ⟨job, ?_, among⟩, by rw [own among]⟩
    exact List.mem_filter.mpr ⟨known, by simpa using waits⟩

/-- Something is planned exactly if some job that waits can be placed. -/
theorem plannedInstances_ne_nil_iff (jobs : List Job) :
    plannedInstances strategy nodes jobs ≠ [] ↔ ∃ job ∈ jobs, Placeable nodes job := by
  -- An instance belongs to a job, and a job that can be placed has one.
  constructor
  · intro some
    obtain ⟨i, planned⟩ := List.exists_mem_of_ne_nil _ some
    obtain ⟨job, known, -, placeable⟩ := (exists_plannedInstances_iff jobs _).mp ⟨i, planned, rfl⟩
    exact ⟨job, known, placeable⟩
  · rintro ⟨job, known, placeable⟩
    obtain ⟨i, planned, -⟩ :=
      (@exists_plannedInstances_iff strategy nodes jobs _).mpr ⟨job, known, rfl, placeable⟩
    exact List.ne_nil_of_mem planned

/-- A pending job is set running where anything has been placed for it or for a job before it. -/
theorem mem_setRunning_iff_of_runs_evaluateJobs {jobs : List Job} {earlier all : List Allocation}
    {trace : List (Program.Exchange Answer)}
    (runs : Runs (evaluateJobs strategy nodes jobs earlier).run trace (.ok all)) (jobId : String) :
    jobId ∈ trace.filterMap setRunning ↔
      ∃ front job back, jobs = front ++ job :: back ∧ job.status = .pending ∧ job.id = jobId ∧
        (earlier ≠ [] ∨ plannedInstances strategy nodes (front ++ [job]) ≠ []) := by
  induction jobs generalizing earlier trace with
  | nil =>
    obtain ⟨rfl, -⟩ := runs_pure_iff.mp runs
    simp
  | cons first jobs ih =>
    -- The job is the first one, or one of the others.
    have parts : (∃ front job back, first :: jobs = front ++ job :: back ∧
        job.status = .pending ∧ job.id = jobId ∧
          (earlier ≠ [] ∨ plannedInstances strategy nodes (front ++ [job]) ≠ [])) ↔
        (first.status = .pending ∧ first.id = jobId ∧
          (earlier ≠ [] ∨ plannedInstances strategy nodes [first] ≠ [])) ∨
        ∃ front job back, jobs = front ++ job :: back ∧ job.status = .pending ∧ job.id = jobId ∧
          (earlier ≠ [] ∨ plannedInstances strategy nodes (first :: (front ++ [job])) ≠ []) := by
      constructor
      · rintro ⟨front, job, back, whole, rest⟩
        cases front with
        | nil =>
          cases whole
          exact .inl rest
        | cons other front =>
          cases whole
          exact .inr ⟨front, job, back, rfl, rest⟩
      · rintro (rest | ⟨front, job, back, rfl, rest⟩)
        · exact ⟨[], first, jobs, rfl, rest⟩
        · exact ⟨first :: front, job, back, rfl, rest⟩
    rw [parts]
    by_cases pending : first.status = .pending
    · obtain ⟨allocs, stands, ⟨-, error, failed⟩ | ⟨back, rest, -, set⟩⟩ :=
        runs_evaluateJobs_pending pending runs
      · cases failed
      · -- There are as many allocations as instances of the job.
        have none : allocs = [] ↔ jobInstances strategy nodes first = [] := by
          rw [← List.length_eq_zero_iff, stands.length_eq, List.length_eq_zero_iff]
        have begun (others : List Instance) : (earlier ++ allocs ≠ [] ∨ others ≠ []) ↔
            (earlier ≠ [] ∨ jobInstances strategy nodes first ++ others ≠ []) := by
          rw [Ne, Ne, Ne, Ne, List.append_eq_nil_iff, List.append_eq_nil_iff, none]
          simp only [not_and_or, or_assoc]
        have here : jobId ∈ (if earlier ++ allocs = [] then [] else [first.id]) ↔
            first.id = jobId ∧ (earlier ≠ [] ∨ jobInstances strategy nodes first ≠ []) := by
          have begins := begun []
          rw [List.append_nil] at begins
          rw [← begins]
          split
          · rename_i empty
            simp [empty]
          · rename_i some
            simp [some, eq_comm]
        rw [set, List.mem_append, ih rest, here]
        simp only [plannedInstances_cons, begun, pending, true_and]
        simp [plannedInstances, pendingJobs]
    · rw [ih (runs_evaluateJobs_skip pending runs)]
      simp only [plannedInstances_cons, pending, false_and, false_or, if_false, List.nil_append]

/-- A call that goes through stores an allocation for each job that can be placed. -/
theorem exists_created_iff {jobs : List Job} {trace : List (Program.Exchange Answer)}
    {all : List Allocation} (runs : Runs (evaluate strategy).run trace (.ok all))
    (answered : ∀ event ∈ trace, Lists jobs nodes event) (jobId : String) :
    (∃ alloc ∈ trace.filterMap created, alloc.jobId = jobId) ↔
      ∃ job ∈ jobs, job.id = jobId ∧ Placeable nodes job := by
  -- The allocations of the call stand for the planned instances, in their order.
  obtain ⟨placed, -, stands, planned⟩ := created_of_runs_evaluate runs answered
  have ids : (trace.filterMap created).map (·.jobId) = placed.map (·.job.id) := by
    rw [← List.forall₂_eq_eq_eq, List.forall₂_map_left_iff, List.forall₂_map_right_iff]
    exact stands.imp fun _ _ same => same.1
  rw [← @exists_plannedInstances_iff strategy, ← planned all rfl, ← List.mem_map, ← List.mem_map,
    ids]

/-- A call that goes through sets a pending job running where one up to it can be placed. -/
theorem mem_setRunning_iff {jobs : List Job} {trace : List (Program.Exchange Answer)}
    {all : List Allocation} (runs : Runs (evaluate strategy).run trace (.ok all))
    (answered : ∀ event ∈ trace, Lists jobs nodes event) (jobId : String) :
    jobId ∈ trace.filterMap setRunning ↔
      ∃ front job back, jobs = front ++ job :: back ∧ job.status = .pending ∧ job.id = jobId ∧
        ∃ other ∈ front ++ [job], Placeable nodes other := by
  -- What is planned up to a job is asked of the jobs up to it.
  obtain ⟨back, looping, rfl⟩ := runs_evaluate runs answered
  have set := mem_setRunning_iff_of_runs_evaluateJobs looping jobId
  simp only [plannedInstances_ne_nil_iff, ne_eq, not_true_eq_false, false_or] at set
  exact set

/-- The statuses follow the placements exactly where each job behind one that can be placed can be
placed as well. -/
theorem statusesFollow_iff (strategy : SchedulingStrategy) (jobs : List Job) (nodes : List Node) :
    StatusesFollow strategy jobs nodes ↔ PlaceableBehind jobs nodes := by
  constructor
  · intro follow front job back whole pending before
    obtain ⟨trace, all, runs, answered⟩ := @completes_evaluate strategy nodes jobs
    have known : job ∈ jobs := by simp [whole]
    have own := follow trace all runs answered job known pending
    rw [mem_setRunning_iff runs answered, exists_created_iff runs answered] at own
    obtain ⟨other, there, placeable⟩ := before
    exact own.mp ⟨front, job, back, whole, pending, rfl, other, List.mem_append_left _ there,
      placeable⟩
  · intro behind trace all runs answered job known pending
    rw [mem_setRunning_iff runs answered, exists_created_iff runs answered]
    constructor
    · intro set
      obtain ⟨front, same, back, whole, waits, named, other, there, placeable⟩ := set
      -- What has been placed is the job itself, or one before it.
      rcases List.mem_append.mp there with before | last
      · rw [← named]
        exact behind front same back whole waits ⟨other, before, placeable⟩
      · obtain rfl := List.mem_singleton.mp last
        exact ⟨other, by simp [whole], named, placeable⟩
    · intro placed
      obtain ⟨other, there, named, placeable⟩ := placed
      obtain ⟨front, back, whole⟩ := List.append_of_mem there
      exact ⟨front, other, back, whole, placeable.1, named, other, by simp, placeable⟩

end

/-- A job that asks for more than a node has. -/
def oversizedJob : Job := { twoGroups 5000 with id := "big" }

/-- A job of which nothing is placed is set running, behind one that is placed. -/
theorem not_statusesFollow :
    Placeable [darwinNode] (twoGroups 2000) ∧ ¬ Placeable [darwinNode] oversizedJob ∧
      ¬ StatusesFollow .binPack [twoGroups 2000, oversizedJob] [darwinNode] := by
  have placeable : Placeable [darwinNode] (twoGroups 2000) := by decide
  have unplaceable : ¬ Placeable [darwinNode] oversizedJob := by decide
  refine ⟨placeable, unplaceable, fun follow => ?_⟩
  obtain ⟨trace, all, runs, answered⟩ :=
    @completes_evaluate .binPack [darwinNode] [twoGroups 2000, oversizedJob]
  have own := follow trace all runs answered oversizedJob (by simp) rfl
  rw [mem_setRunning_iff runs answered, exists_created_iff runs answered] at own
  obtain ⟨other, there, named, placed⟩ := own.mp
    ⟨[twoGroups 2000], oversizedJob, [], rfl, rfl, rfl, twoGroups 2000, by simp, placeable⟩
  -- The only job of that name is the one that cannot be placed.
  rcases List.mem_cons.mp there with rfl | last
  · simp [twoGroups, linuxJob, oversizedJob] at named
  · obtain rfl := List.mem_singleton.mp last
    exact unplaceable placed

end Tatara.Scheduling
