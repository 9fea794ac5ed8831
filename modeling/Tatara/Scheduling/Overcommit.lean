import Mathlib.Data.List.Nodup
import Tatara.Scheduling.Evaluation

/-! Whether the instances that one round of the evaluator places on a node fit on it. -/

namespace Tatara.Scheduling

open Tatara.Domain Tatara.Rust
open Tatara.Program (Runs)

/-- There is room for so many instances. -/
def HasRoom (k : Nat) (required available : Resources) : Prop :=
  k * required.cpuMhz.toNat ≤ available.cpuMhz.toNat ∧
    k * required.memoryMb.toNat ≤ available.memoryMb.toNat

/-- The check of the resources asks for room for one. -/
theorem resourcesSufficient_iff {available required : Resources} :
    resourcesSufficient available required = true ↔ HasRoom 1 required available := by
  have zero (n m : UInt64) : (n = 0 ∨ n ≤ m) ↔ n.toNat ≤ m.toNat := by
    rw [UInt64.le_iff_toNat_le]
    refine ⟨fun either => ?_, .inr⟩
    rcases either with rfl | le
    · exact Nat.zero_le _
    · exact le
  -- A request for nothing is met by whatever is left.
  unfold resourcesSufficient HasRoom
  split
  · rename_i nothing
    simp [nothing.1, nothing.2]
  · simp [zero]

/-- What is taken off is really there, so that the difference does not stop at zero. -/
theorem toNat_saturatingSub {a b : UInt64} (le : b.toNat ≤ a.toNat) :
    (saturatingSub a b).toNat = a.toNat - b.toNat := by
  -- The subtraction does not stop at zero, so that it is the one on numbers.
  have notLess : ¬ a < b := by
    rw [UInt64.lt_iff_toNat_lt]
    omega
  rw [saturatingSub, if_neg notLess, UInt64.toNat_sub_of_le _ _ (UInt64.le_iff_toNat_le.mpr le)]

/-- Where one instance has been placed, there is room for one more than in what is left. -/
theorem HasRoom.succ {k : Nat} {required available : Resources}
    (enough : HasRoom 1 required available)
    (rest : HasRoom k required (Resources.without available required)) :
    HasRoom (k + 1) required available := by
  -- Cpu and memory are counted alike, each for itself.
  obtain ⟨cpu, mem⟩ := enough
  obtain ⟨cpus, mems⟩ := rest
  rw [Nat.one_mul] at cpu mem
  rw [Resources.without] at cpus mems
  rw [toNat_saturatingSub cpu] at cpus
  rw [toNat_saturatingSub mem] at mems
  exact ⟨by rw [Nat.succ_mul]; omega, by rw [Nat.succ_mul]; omega⟩

/-- What instances take of a node. -/
def takenOf (amount : Resources → UInt64) (node : Node) (placed : List Instance) : Nat :=
  ((placed.filter fun i => i.node.id = node.id).map fun i => (amount i.group.resources).toNat).sum

/-- The node has what the instances on it take. -/
def FitOn (node : Node) (placed : List Instance) : Prop :=
  takenOf (·.cpuMhz) node placed ≤ node.availableResources.cpuMhz.toNat ∧
    takenOf (·.memoryMb) node placed ≤ node.availableResources.memoryMb.toNat

/-- Whatever the store says to a round of the evaluator, what is placed on a node fits on it. -/
def NoOvercommit (strategy : SchedulingStrategy) (jobs : List Job) (nodes : List Node) : Prop :=
  ∀ trace outcome, Runs (evaluate strategy).run trace outcome →
    (∀ event ∈ trace, Lists jobs nodes event) →
      ∃ placed, placed <+: plannedInstances strategy nodes jobs ∧
        List.Forall₂ StandsFor (trace.filterMap created) placed ∧ ∀ node ∈ nodes, FitOn node placed

/-- The groups of the pending jobs. -/
def pendingGroups (jobs : List Job) : List (Job × TaskGroup) :=
  (pendingJobs jobs).flatMap fun job => job.groups.map (job, ·)

/-- How many instances of a group go to a node that nothing else is placed on. -/
def share (strategy : SchedulingStrategy) (nodes : List Node) (node : Node)
    (entry : Job × TaskGroup) : Nat :=
  (groupInstances strategy nodes entry.1 entry.2).countP fun i => i.node.id = node.id

/-- What the shares of some groups take of a node. -/
def sharesOf (amount : Resources → UInt64) (strategy : SchedulingStrategy) (nodes : List Node)
    (node : Node) (entries : List (Job × TaskGroup)) : Nat :=
  (entries.map fun entry =>
    share strategy nodes node entry * (amount entry.2.resources).toNat).sum

/-- A node that several groups have a share of has room for all of these. -/
def RoomForShares (strategy : SchedulingStrategy) (jobs : List Job) (nodes : List Node) : Prop :=
  ∀ node ∈ nodes,
    1 < (pendingGroups jobs).countP (fun entry => 0 < share strategy nodes node entry) →
      sharesOf (·.cpuMhz) strategy nodes node (pendingGroups jobs) ≤
          node.availableResources.cpuMhz.toNat ∧
        sharesOf (·.memoryMb) strategy nodes node (pendingGroups jobs) ≤
          node.availableResources.memoryMb.toNat

section

variable {strategy : SchedulingStrategy} {job : Job} {group : TaskGroup} {nodes ready : List Node}

/-- What is taken is added up. -/
theorem takenOf_append (amount : Resources → UInt64) (node : Node) (front back : List Instance) :
    takenOf amount node (front ++ back) =
      takenOf amount node front + takenOf amount node back := by
  simp [takenOf]

/-- The instances of a group all take the same. -/
theorem takenOf_groupInstances (amount : Resources → UInt64) (node : Node) :
    takenOf amount node (groupInstances strategy nodes job group) =
      share strategy nodes node (job, group) * (amount group.resources).toNat := by
  -- Every instance carries its group.
  have alike : ∀ i ∈ groupInstances strategy nodes job group, i.group = group := by
    unfold groupInstances
    exact List.forall_mem_map.mpr fun _ _ => rfl
  have same : (((groupInstances strategy nodes job group).filter fun i => i.node.id = node.id).map
      fun i => (amount i.group.resources).toNat) =
      ((groupInstances strategy nodes job group).filter fun i => i.node.id = node.id).map
        fun _ => (amount group.resources).toNat :=
    List.map_congr_left fun i kept => by rw [alike i (List.mem_of_mem_filter kept)]
  rw [takenOf, same, List.map_const', List.sum_replicate_nat, share, List.countP_eq_length_filter]

/-- The planned instances are those of the groups of the jobs that wait. -/
theorem plannedInstances_eq (jobs : List Job) :
    plannedInstances strategy nodes jobs = (pendingGroups jobs).flatMap fun entry =>
      groupInstances strategy nodes entry.1 entry.2 := by
  rw [plannedInstances, pendingGroups, List.flatMap_assoc]
  exact List.flatMap_congr fun job _ => by rw [jobInstances, List.flatMap_map]

/-- What all of the planned instances take are the shares of the groups. -/
theorem takenOf_plannedInstances (amount : Resources → UInt64) (node : Node) (jobs : List Job) :
    takenOf amount node (plannedInstances strategy nodes jobs) =
      sharesOf amount strategy nodes node (pendingGroups jobs) := by
  -- Group by group.
  rw [plannedInstances_eq, sharesOf]
  induction pendingGroups jobs with
  | nil => rfl
  | cons entry entries ih =>
    rw [List.flatMap_cons, takenOf_append, takenOf_groupInstances, ih]
    rfl

/-- A part of the instances takes no more than all of them. -/
theorem takenOf_mono (amount : Resources → UInt64) (node : Node)
    {placed all : List Instance} (part : placed <+: all) :
    takenOf amount node placed ≤ takenOf amount node all := by
  obtain ⟨others, rfl⟩ := part
  rw [takenOf_append]
  exact Nat.le_add_right _ _

/-- An instance of a job that is not a system job takes what it requires off its node. -/
theorem placeInstance_ordinary (ordinary : job.jobType ≠ .system)
    {available left : List (Node × Resources)} {i : Nat} {node : Node}
    (placed : placeInstance strategy job group ready available i = some (node, left)) :
    ∃ idx resources, available[idx]? = some (node, resources) ∧
      resourcesSufficient resources group.resources = true ∧
      left = available.modify idx fun (n, left) => (n, Resources.without left group.resources) := by
  -- Only a system job goes by the number of the instance, and all others ask for a node.
  obtain ⟨idx, picked, rfl⟩ : ∃ idx,
      pickNode available group.resources job.constraints strategy = some (node, idx) ∧
        left = available.modify idx fun (n, left) =>
          (n, Resources.without left group.resources) := by
    cases kind : job.jobType with
    | system => exact absurd kind ordinary
    | service | batch =>
      simp only [placeInstance, kind, Option.map_eq_some_iff] at placed
      obtain ⟨⟨chosen, idx⟩, picked, same⟩ := placed
      cases same
      exact ⟨idx, picked, rfl⟩
  obtain ⟨resources, present, fits⟩ := fitting_of_pickNode picked
  exact ⟨idx, resources, present, fits.1, rfl⟩

/-- A group alone never takes more of a node than is left there. -/
theorem hasRoom_placements (ordinary : job.jobType ≠ .system) {indices : List Nat}
    {available : List (Node × Resources)} (distinct : (available.map (·.1.id)).Nodup) {j : Nat}
    {node : Node} {left : Resources} (there : available[j]? = some (node, left)) :
    HasRoom ((placements strategy job group ready indices available).countP (·.id = node.id))
      group.resources left := by
  induction indices generalizing available left with
  | nil => simp [placements, HasRoom]
  | cons i rest ih =>
    cases placed : placeInstance strategy job group ready available i with
    | none =>
      simp only [placements, placed]
      exact ih distinct there
    | some found =>
      obtain ⟨chosen, remaining⟩ := found
      obtain ⟨idx, resources, present, enough, rfl⟩ := placeInstance_ordinary ordinary placed
      simp only [placements, placed, List.countP_cons]
      -- The nodes stay where they are in the table.
      have ids : (available.modify idx fun (n, left) =>
          (n, Resources.without left group.resources)).map (·.1.id) =
            available.map (·.1.id) :=
        List.ext_getElem? fun k => by
          simp only [List.getElem?_map, List.getElem?_modify]
          cases available[k]? <;> split <;> rfl
      have distinctLeft : ((available.modify idx fun (n, left) =>
          (n, Resources.without left group.resources)).map (·.1.id)).Nodup := ids.symm ▸ distinct
      by_cases same : idx = j
      · subst same
        cases present.symm.trans there
        have reduced : (available.modify idx fun (n, left) =>
            (n, Resources.without left group.resources))[idx]? =
              some (node, Resources.without left group.resources) := by
          rw [List.getElem?_modify_eq, there]
          rfl
        rw [if_pos (decide_eq_true rfl)]
        exact (resourcesSufficient_iff.mp enough).succ (ih distinctLeft reduced)
      · -- Another place in the table is that of another node.
        have other : chosen.id ≠ node.id := by
          intro alike
          obtain ⟨inside, -⟩ := List.getElem?_eq_some_iff.mp present
          refine same ((List.getElem?_inj (by simpa using inside) distinct).mp ?_)
          rw [List.getElem?_map, List.getElem?_map, present, there]
          exact congrArg some alike
        have untouched : (available.modify idx fun (n, left) =>
            (n, Resources.without left group.resources))[j]? = some (node, left) := by
          rw [List.getElem?_modify_ne _ _ same, there]
        rw [if_neg (by simpa using other)]
        exact ih distinctLeft untouched

/-- A group alone fits on every node, and has no share of one that takes no work. -/
theorem hasRoom_share (ordinary : job.jobType ≠ .system) (distinct : (nodes.map (·.id)).Nodup)
    {node : Node} (listed : node ∈ nodes) :
    HasRoom (share strategy nodes node (job, group)) group.resources node.availableResources := by
  have table : ((readyNodes nodes).map fun n => (n, n.availableResources)).map (·.1.id) =
      (readyNodes nodes).map (·.id) := by
    rw [List.map_map]
    rfl
  have distinctReady : ((readyNodes nodes).map (·.id)).Nodup :=
    distinct.sublist (List.filter_sublist.map _)
  have counted : share strategy nodes node (job, group) =
      (placements strategy job group (readyNodes nodes)
        (List.range (desiredCount job group (readyNodes nodes)).toNat)
        ((readyNodes nodes).map fun n => (n, n.availableResources))).countP (·.id = node.id) := by
    rw [share, groupInstances, List.countP_map]
    rfl
  rw [counted]
  cases works : node.isReady with
  | true =>
    obtain ⟨j, there⟩ := List.mem_iff_getElem?.mp (List.mem_filter.mpr ⟨listed, works⟩)
    refine hasRoom_placements ordinary (table ▸ distinctReady) (j := j) ?_
    rw [List.getElem?_map, readyNodes, there]
    rfl
  | false =>
    -- All instances are on nodes that take work, and this one is none of them.
    have nowhere : (placements strategy job group (readyNodes nodes)
        (List.range (desiredCount job group (readyNodes nodes)).toNat)
        ((readyNodes nodes).map fun n => (n, n.availableResources))).countP
          (·.id = node.id) = 0 := by
      refine List.countP_eq_zero.mpr fun placed among same => ?_
      have tracked : ((readyNodes nodes).map fun n => (n, n.availableResources)).map Prod.fst =
          readyNodes nodes := by simp [Function.comp_def]
      obtain ⟨other, there, named, ready, -⟩ := suitable_of_mem_placements ordinary tracked among
      have alike : other = node :=
        List.inj_on_of_nodup_map distinct there listed (named.trans (by simpa using same))
      rw [alike, works] at ready
      cases ready
    rw [nowhere]
    simp [HasRoom]

/-- Of terms of which at most one is not zero, the sum is no more than that one. -/
theorem sum_le_of_countP_le_one {α : Type} {items : List α} {f g : α → Nat} {bound : Nat}
    (one : items.countP (fun a => 0 < f a) ≤ 1) (each : ∀ a ∈ items, f a * g a ≤ bound) :
    (items.map fun a => f a * g a).sum ≤ bound := by
  induction items generalizing bound with
  | nil => exact Nat.zero_le _
  | cons a items ih =>
    obtain ⟨first, others⟩ := List.forall_mem_cons.mp each
    rw [List.countP_cons] at one
    rw [List.map_cons, List.sum_cons]
    by_cases counts : 0 < f a
    · rw [if_pos (decide_eq_true counts)] at one
      -- This is the one term that counts, so that the others add nothing.
      have zeros : items.countP (fun a => 0 < f a) = 0 := by omega
      have none := List.countP_eq_zero.mp zeros
      have nothing : (items.map fun a => f a * g a).sum ≤ 0 := by
        refine ih (by omega) fun b there => ?_
        have zero : f b = 0 := by simpa using none b there
        rw [zero, Nat.zero_mul]
      omega
    · have zero : f a = 0 := by omega
      rw [if_neg (by simpa using counts)] at one
      have rest := ih one others
      rw [zero, Nat.zero_mul, Nat.zero_add]
      exact rest

/-- In a round in which no call fails, everything that is planned is placed. -/
theorem NoOvercommit.fitOn_planned {jobs : List Job} (fits : NoOvercommit strategy jobs nodes)
    {node : Node} (listed : node ∈ nodes) : FitOn node (plannedInstances strategy nodes jobs) := by
  -- There is such a round, and it places no less than what is planned.
  obtain ⟨trace, all, runs, answered⟩ := @completes_evaluate strategy nodes jobs
  obtain ⟨whole, -, standing, planned⟩ := created_of_runs_evaluate runs answered
  obtain ⟨placed, first, stands, fit⟩ := fits trace _ runs answered
  have complete : placed = plannedInstances strategy nodes jobs := by
    refine first.eq_of_length ?_
    rw [← stands.length_eq, standing.length_eq, planned all rfl]
  exact complete ▸ fit node listed

/-- What is placed fits exactly where the nodes that several groups go to have room for them all. -/
theorem noOvercommit_iff (strategy : SchedulingStrategy) {jobs : List Job} {nodes : List Node}
    (ordinary : ∀ job ∈ jobs, job.status = .pending → job.jobType ≠ .system)
    (distinct : (nodes.map (·.id)).Nodup) :
    NoOvercommit strategy jobs nodes ↔ RoomForShares strategy jobs nodes := by
  constructor
  · intro fits node listed _
    have room := fits.fitOn_planned listed
    rw [FitOn, takenOf_plannedInstances, takenOf_plannedInstances] at room
    exact room
  · intro room trace outcome runs answered
    obtain ⟨placed, first, stands, -⟩ := created_of_runs_evaluate runs answered
    refine ⟨placed, first, stands, fun node listed => ?_⟩
    have shares : sharesOf (·.cpuMhz) strategy nodes node (pendingGroups jobs) ≤
          node.availableResources.cpuMhz.toNat ∧
        sharesOf (·.memoryMb) strategy nodes node (pendingGroups jobs) ≤
          node.availableResources.memoryMb.toNat := by
      by_cases several : 1 < (pendingGroups jobs).countP
          (fun entry => 0 < share strategy nodes node entry)
      · exact room node listed several
      · -- A group that has the node for itself keeps within what is left there.
        have alone : ∀ entry ∈ pendingGroups jobs, HasRoom (share strategy nodes node entry)
            entry.2.resources node.availableResources := by
          intro entry among
          obtain ⟨job, pending, there⟩ := List.mem_flatMap.mp among
          obtain ⟨group, -, rfl⟩ := List.mem_map.mp there
          obtain ⟨known, waits⟩ := List.mem_filter.mp pending
          exact hasRoom_share (ordinary job known (by simpa using waits)) distinct listed
        exact ⟨sum_le_of_countP_le_one (Nat.le_of_not_lt several) fun e among => (alone e among).1,
          sum_le_of_countP_le_one (Nat.le_of_not_lt several) fun e among => (alone e among).2⟩
    rw [← takenOf_plannedInstances, ← takenOf_plannedInstances] at shares
    exact ⟨(takenOf_mono _ node first).trans shares.1,
      (takenOf_mono _ node first).trans shares.2⟩

end

/-- A pending job of two groups, each of which asks for so much of a node. -/
def twoGroups (cpuMhz : UInt64) : Job :=
  { linuxJob with
    status := .pending, constraints := []
    groups := ["web", "api"].map fun name =>
      { singleGroup with name := name, resources := ⟨cpuMhz, 0⟩ } }

/-- Two groups that fit on a node side by side are placed there. -/
theorem noOvercommit_twoGroups :
    NoOvercommit .binPack [twoGroups 2000] [darwinNode] := by
  refine (noOvercommit_iff .binPack (by simp [twoGroups, linuxJob]) (by simp)).mpr ?_
  refine List.forall_mem_singleton.mpr fun _ => ?_
  decide +kernel

/-- Two groups each of which would fill the node are placed there as well. -/
theorem not_noOvercommit :
    (plannedInstances .binPack [darwinNode] [twoGroups 4000]).map
        (fun i => (i.group.name, i.node.id, i.group.resources.cpuMhz)) =
      [("web", "mac", 4000), ("api", "mac", 4000)] ∧
      darwinNode.availableResources.cpuMhz = 4000 ∧
      ¬ NoOvercommit .binPack [twoGroups 4000] [darwinNode] := by
  -- Both groups are placed, each by a look at the whole node.
  refine ⟨by decide +kernel, rfl, fun fits => ?_⟩
  have fit := fits.fitOn_planned (List.mem_singleton_self darwinNode)
  revert fit
  unfold FitOn
  decide +kernel

end Tatara.Scheduling
