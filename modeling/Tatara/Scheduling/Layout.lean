import Tatara.Scheduling.CountPass

/-! Whether the count pass brings the groups of a job to their counts, and a system job to every
node. -/

namespace Tatara.Scheduling

open Tatara.Domain Tatara.Rust
open Tatara.Program (Runs runs_bind_iff runs_pure_iff runs_call_iff runs_liftBind_iff)

/-- How many allocations of a group there are to be. -/
def desiredNumber (job : Job) (group : TaskGroup) (ready : List Node) : Nat :=
  match job.jobType with
  | .system => ready.length
  | _ => group.count.toNat

/-- Every group has as many active allocations as it is to have, and a system job that had no two
of a group on one node has one on every node that takes work. -/
structure LayoutRestored (job : Job) (ready : List Node) (before after : List Allocation) :
    Prop where
  counts : ∀ group ∈ job.groups, activeOf after group = desiredNumber job group ready
  everyNode : job.jobType = .system → ∀ group ∈ job.groups,
    (∀ nodeId, heldOn before group nodeId ≤ 1) → ∀ node ∈ ready, heldOn after group node.id = 1

/-- All active allocations of a group are on nodes that take work, and one such node has none. -/
def OneNodeLacks (allocations : List Allocation) (ready : List Node) (group : TaskGroup) : Prop :=
  (∀ a ∈ allocations, a.groupName = group.name → isActive a = true →
    a.nodeId ∈ ready.map (·.id)) ∧
    ready.countP (fun n => heldOn allocations group n.id = 0) = 1

/-- Every node that takes work has an active allocation of the group, and the newest ones, as many
as there are too many of, are on other nodes. -/
def SurplusElsewhere (allocations : List Allocation) (ready : List Node) (group : TaskGroup) :
    Prop :=
  (∀ node ∈ ready, heldOn allocations group node.id ≠ 0) ∧
    ∀ a ∈ (newestFirst allocations group).take (activeOf allocations group - ready.length),
      a.nodeId ∉ ready.map (·.id)

/-- The counts are told apart by 32 bits, and a system job lacks one node or has enough without
its newest allocations. -/
structure LayoutReachable (job : Job) (ready : List Node) (allocations : List Allocation) :
    Prop where
  counted : ∀ group ∈ job.groups,
    activeOf allocations group / 2 ^ 32 = desiredNumber job group ready / 2 ^ 32
  everyNode : job.jobType = .system → ∀ group ∈ job.groups,
    (∀ nodeId, heldOn allocations group nodeId ≤ 1) →
      OneNodeLacks allocations ready group ∨ SurplusElsewhere allocations ready group

section

variable {listed after : List Allocation} {job : Job} {group : TaskGroup} {ready : List Node}
  {desired : UInt32}

theorem toNat_activeCount : (activeCount listed group).toNat = activeOf listed group % 2 ^ 32 := by
  rw [activeCount_eq, UInt32.toNat_ofNat']

/-- The desired count is kept in a `u32`. -/
theorem toNat_desiredCount :
    (desiredCount job group ready).toNat = desiredNumber job group ready % 2 ^ 32 := by
  -- Only a system job counts its nodes.
  cases kind : job.jobType with
  | system => simp [desiredCount, desiredNumber, kind]
  | service | batch =>
    simp only [desiredCount, desiredNumber, kind]
    exact (Nat.mod_eq_of_lt group.count.toNat_lt).symm

/-- The newest allocations first are all the active ones. -/
theorem length_newestFirst : (newestFirst listed group).length = activeOf listed group := by
  rw [newestFirst, List.length_mergeSort, ← List.countP_eq_length_filter]
  exact List.countP_congr fun a _ => by simp

/-- What a step does to the counts: some more on the least loaded node, or the newest ones less, or
nothing. -/
theorem counts_of_groupStep
    (step : GroupStep desired listed ready group (ofGroup group listed) (ofGroup group after))
    (distinct : (listed.map (·.id)).Nodup) :
    let active := activeCount listed group
    (active < desired ∧ ∃ node, IsFirstLeastBy (load listed group) ready node ∧
      ∀ suits, activeOn suits after group = activeOn suits listed group +
        if suits node.id then desired.toNat - active.toNat else 0) ∨
    (desired < active ∧ ∀ suits, activeOn suits after group +
      ((newestFirst listed group).take (active.toNat - desired.toNat)).countP
        (fun a => suits a.nodeId) = activeOn suits listed group) ∨
    (active = desired ∧ ∀ suits, activeOn suits after group = activeOn suits listed group) := by
  unfold GroupStep at step
  dsimp only at step ⊢
  split at step
  · rename_i lacking
    obtain ⟨node, first, news, count, alike, same⟩ := step
    rw [UInt32.toNat_sub_of_le _ _ (UInt32.le_of_lt lacking)] at count
    refine .inl ⟨lacking, node, first, fun suits => ?_⟩
    rw [← activeOn_ofGroup, same, activeOn_append, activeOn_ofGroup]
    -- The new allocations are all on the one node.
    have placed : activeOn suits news group = if suits node.id then news.length else 0 := by
      have each : activeOn suits news group = news.countP fun _ => suits node.id := by
        refine List.countP_congr fun a among => ?_
        obtain ⟨named, there, active⟩ := alike a among
        simp [named, there, active]
      rw [each]
      split
      · rename_i suited
        simp [suited]
      · rename_i unsuited
        simp [unsuited]
    rw [placed, count]
  · rename_i enough
    split at step
    · rename_i surplus
      rw [UInt32.toNat_sub_of_le _ _ (UInt32.le_of_lt surplus)] at step
      refine .inr (.inl ⟨surplus, fun suits => ?_⟩)
      rw [← activeOn_ofGroup, step, ← ofGroup_map_stoppedIn, activeOn_ofGroup]
      exact activeOn_map_stoppedIn suits distinct (List.take_sublist _ _)
    · rename_i none
      refine .inr (.inr ⟨?_, fun suits => ?_⟩)
      · exact UInt32.le_antisymm (UInt32.not_lt.mp none) (UInt32.not_lt.mp enough)
      · rw [← activeOn_ofGroup, step, activeOn_ofGroup]

/-- The group comes to its count exactly where the two numbers do not differ by a multiple of what
the counter holds. -/
theorem activeOf_after_iff
    (step : GroupStep (desiredCount job group ready) listed ready group (ofGroup group listed)
      (ofGroup group after)) (distinct : (listed.map (·.id)).Nodup) :
    activeOf after group = desiredNumber job group ready ↔
      activeOf listed group / 2 ^ 32 = desiredNumber job group ready / 2 ^ 32 := by
  have counts := counts_of_groupStep step distinct
  dsimp only at counts
  have active : (activeCount listed group).toNat = activeOf listed group % 2 ^ 32 :=
    toNat_activeCount
  have desired : (desiredCount job group ready).toNat = desiredNumber job group ready % 2 ^ 32 :=
    toNat_desiredCount
  rcases counts with ⟨lacking, node, -, more⟩ | ⟨surplus, less⟩ | ⟨exact_, same⟩
  · have total := more fun _ => true
    rw [if_pos rfl] at total
    rw [UInt32.lt_iff_toNat_lt] at lacking
    simp only [activeOf] at active ⊢
    omega
  · have total := less fun _ => true
    rw [UInt32.lt_iff_toNat_lt] at surplus
    -- As many are stopped as there are too many of.
    have taken : ((newestFirst listed group).take ((activeCount listed group).toNat -
        (desiredCount job group ready).toNat)).countP (fun _ => true) =
          (activeCount listed group).toNat - (desiredCount job group ready).toNat := by
      rw [List.countP_true, List.length_take, length_newestFirst]
      omega
    rw [taken] at total
    simp only [activeOf] at active ⊢
    omega
  · have total := same fun _ => true
    have numbers := congrArg UInt32.toNat exact_
    simp only [activeOf] at active ⊢
    omega

/-- What is on the one kind of node and what is on the other add up. -/
theorem activeOn_or {p q : String → Bool} (apart : ∀ nodeId, p nodeId = true → q nodeId = false) :
    activeOn (fun nodeId => p nodeId || q nodeId) listed group =
      activeOn p listed group + activeOn q listed group := by
  unfold activeOn
  induction listed with
  | nil => rfl
  | cons a listed ih =>
    rw [List.countP_cons, List.countP_cons, List.countP_cons, ih]
    -- The allocation is counted on the right at most once.
    have here := apart a.nodeId
    cases first : p a.nodeId with
    | true =>
      have second := here first
      simp only [first, second, Bool.or_false, Bool.and_true, Bool.and_false,
        Bool.false_eq_true, if_false]
      omega
    | false =>
      simp only [first, Bool.false_or, Bool.and_false, Bool.false_eq_true, if_false]
      omega

/-- The active allocations are those with the property and those without it. -/
theorem activeOn_not (p : String → Bool) :
    activeOn p listed group + activeOn (fun nodeId => !p nodeId) listed group =
      activeOf listed group := by
  rw [← activeOn_or fun nodeId held => by rw [held]; rfl]
  simp [activeOf]

/-- No allocation is counted exactly if none of the active ones has the property. -/
theorem activeOn_eq_zero_iff {p : String → Bool} :
    activeOn p listed group = 0 ↔ ∀ a ∈ listed, a.groupName = group.name → isActive a = true →
      p a.nodeId = false := by
  rw [activeOn, List.countP_eq_zero]
  refine forall_congr' fun a => imp_congr_right fun _ => ?_
  simp

/-- The nodes that take work hold together what is active on them. -/
theorem sum_heldOn (distinct : (ready.map (·.id)).Nodup) :
    (ready.map fun n => heldOn listed group n.id).sum =
      activeOn (fun nodeId => nodeId ∈ ready.map (·.id)) listed group := by
  induction ready with
  | nil => simp [activeOn]
  | cons node ready ih =>
    obtain ⟨new, others⟩ := List.nodup_cons.mp distinct
    rw [List.map_cons, List.sum_cons, ih others, heldOn]
    -- No allocation is both on the first node and on one of the others.
    rw [← activeOn_or fun nodeId first => by
      rw [of_decide_eq_true first]
      exact decide_eq_false new]
    exact List.countP_congr fun a _ => by simp

/-- Where no number is more than one, the sum and the zeros make up the length. -/
theorem sum_add_countP {α : Type} {f : α → Nat} {items : List α} (single : ∀ a ∈ items, f a ≤ 1) :
    (items.map f).sum + items.countP (fun a => f a = 0) = items.length := by
  induction items with
  | nil => rfl
  | cons a items ih =>
    obtain ⟨first, others⟩ := List.forall_mem_cons.mp single
    have rest := ih others
    rw [List.map_cons, List.sum_cons, List.countP_cons, List.length_cons]
    -- The first element counts as a zero, or else it adds one to the sum.
    by_cases zero : f a = 0
    · rw [if_pos (decide_eq_true zero)]
      omega
    · rw [if_neg (by simpa using zero)]
      omega

/-- The active allocations of a group with no two on one node: so many nodes that take work have
one, and the rest is elsewhere. -/
theorem activeOf_of_single (distinct : (ready.map (·.id)).Nodup)
    (single : ∀ nodeId, heldOn listed group nodeId ≤ 1) :
    activeOf listed group + ready.countP (fun n => heldOn listed group n.id = 0) =
      ready.length + activeOn (fun nodeId => !decide (nodeId ∈ ready.map (·.id))) listed group := by
  -- Each node is either lacking or has just one.
  have lacking := sum_add_countP fun n (_ : n ∈ ready) => single n.id
  have parts := @activeOn_not listed group fun nodeId => decide (nodeId ∈ ready.map (·.id))
  rw [sum_heldOn distinct] at lacking
  omega

/-- Where the property holds of one element, it holds of no other one if it holds of one only. -/
theorem countP_eq_one_iff_of_mem {α β : Type} {key : α → β} {p : α → Bool} {items : List α} {a : α}
    (distinct : (items.map key).Nodup) (among : a ∈ items) (holds : p a = true) :
    items.countP p = 1 ↔ ∀ b ∈ items, key b ≠ key a → p b = false := by
  obtain ⟨before, after, rfl⟩ := List.append_of_mem among
  rw [List.countP_append, List.countP_cons_of_pos holds]
  -- The element stands between two parts, in neither of which there is another one of its key.
  rw [List.map_append, List.map_cons, List.nodup_append, List.nodup_cons] at distinct
  obtain ⟨-, ⟨notAfter, -⟩, apart⟩ := distinct
  constructor
  · intro once b there different
    have front : before.countP p = 0 := by omega
    have back : after.countP p = 0 := by omega
    rw [List.countP_eq_zero] at front back
    rcases List.mem_append.mp there with earlier | rest
    · exact Bool.eq_false_iff.mpr (front b earlier)
    · rcases List.mem_cons.mp rest with same | later
      · exact absurd (congrArg key same) different
      · exact Bool.eq_false_iff.mpr (back b later)
  · intro others
    have front : before.countP p = 0 := List.countP_eq_zero.mpr fun b earlier => by
      have different := apart _ (List.mem_map_of_mem earlier) _ List.mem_cons_self
      rw [others b (List.mem_append_left _ earlier) different]
      exact Bool.false_ne_true
    have back : after.countP p = 0 := List.countP_eq_zero.mpr fun b later => by
      have different : key b ≠ key a := fun same =>
        notAfter (same ▸ List.mem_map_of_mem later)
      rw [others b (List.mem_append_right _ (List.mem_cons_of_mem _ later)) different]
      exact Bool.false_ne_true
    omega

/-- No active allocation is elsewhere than on these nodes. -/
theorem activeOn_elsewhere_eq_zero_iff :
    activeOn (fun nodeId => !decide (nodeId ∈ ready.map (·.id))) listed group = 0 ↔
      ∀ a ∈ listed, a.groupName = group.name → isActive a = true →
        a.nodeId ∈ ready.map (·.id) := by
  rw [activeOn_eq_zero_iff]
  refine forall_congr' fun a => imp_congr_right fun _ => imp_congr_right fun _ =>
    imp_congr_right fun _ => ?_
  simp

section

variable (nodes : (ready.map (·.id)).Nodup) (single : ∀ nodeId, heldOn listed group nodeId ≤ 1)
include nodes single

/-- Where only one node lacks, there is one allocation less than nodes. -/
theorem OneNodeLacks.activeOf_add_one (lacks : OneNodeLacks listed ready group) :
    activeOf listed group + 1 = ready.length := by
  -- The number of lacking nodes is one, and nothing is elsewhere.
  obtain ⟨inside, once⟩ := lacks
  have balance := activeOf_of_single nodes single
  rw [once, activeOn_elsewhere_eq_zero_iff.mpr inside] at balance
  exact balance

/-- Where no node lacks, there are at least as many allocations as nodes. -/
theorem SurplusElsewhere.length_le (surplus : SurplusElsewhere listed ready group) :
    ready.length ≤ activeOf listed group := by
  -- The number of lacking nodes is zero.
  have balance := activeOf_of_single nodes single
  have noneLacks : (ready.countP fun n => heldOn listed group n.id = 0) = 0 :=
    List.countP_eq_zero.mpr fun n among empty => surplus.1 n among (of_decide_eq_true empty)
  rw [noneLacks] at balance
  omega

/-- Everything that is missing goes to one node, so that only one may lack it. -/
theorem everyNode_iff_of_lacking {first : Node}
    (lacking : activeOf listed group < ready.length)
    (least : IsFirstLeastBy (load listed group) ready first)
    (more : ∀ nodeId, heldOn after group nodeId = heldOn listed group nodeId +
      if first.id = nodeId then ready.length - activeOf listed group else 0) :
    (∀ node ∈ ready, heldOn after group node.id = 1) ↔ OneNodeLacks listed ready group := by
  let lacks (n : Node) : Bool := heldOn listed group n.id = 0
  have balance : activeOf listed group + ready.countP lacks = ready.length +
      activeOn (fun nodeId => !decide (nodeId ∈ ready.map (·.id))) listed group :=
    activeOf_of_single nodes single
  obtain ⟨among, atMost⟩ := least.isLeastBy
  -- Some node is without an allocation, and so the least loaded one is.
  have empty : heldOn listed group first.id = 0 := by
    have some : 0 < ready.countP lacks := by omega
    obtain ⟨n, there, without⟩ := List.countP_pos_iff.mp some
    have below := atMost n there
    rw [load_eq, load_eq, of_decide_eq_true without] at below
    exact Nat.le_zero.mp below
  have alone : ready.countP lacks = 1 ↔ ∀ node ∈ ready, node.id ≠ first.id → lacks node = false :=
    countP_eq_one_iff_of_mem nodes among (decide_eq_true empty)
  constructor
  · intro all
    -- The first node gets all that is missing, which is one then, and the others get nothing.
    have here := all first among
    rw [more, if_pos rfl, empty] at here
    have others : ∀ node ∈ ready, node.id ≠ first.id → lacks node = false := by
      intro node there different
      have one := all node there
      rw [more, if_neg different.symm, Nat.add_zero] at one
      exact decide_eq_false (one ▸ Nat.one_ne_zero)
    have once := alone.mpr others
    refine ⟨activeOn_elsewhere_eq_zero_iff.mp ?_, once⟩
    omega
  · intro oneLacks node there
    have total := oneLacks.activeOf_add_one nodes single
    rw [more]
    by_cases same : first.id = node.id
    · rw [if_pos same, ← same, empty]
      omega
    · rw [if_neg same]
      have some : heldOn listed group node.id ≠ 0 :=
        of_decide_eq_false (alone.mp oneLacks.2 node there (Ne.symm same))
      have atMostOne := single node.id
      omega

omit nodes in
/-- What is stopped must not be missed by a node. -/
theorem everyNode_iff_of_enough
    (fewer : ∀ nodeId, heldOn after group nodeId +
      ((newestFirst listed group).take (activeOf listed group - ready.length)).countP
        (fun a => a.nodeId = nodeId) = heldOn listed group nodeId) :
    (∀ node ∈ ready, heldOn after group node.id = 1) ↔ SurplusElsewhere listed ready group := by
  constructor
  · intro all
    refine ⟨fun node there => ?_, fun a chosen there => ?_⟩
    · have one := all node there
      have total := fewer node.id
      omega
    · obtain ⟨node, among, same⟩ := List.mem_map.mp there
      have one := all node among
      have total := fewer node.id
      have atMostOne := single node.id
      -- A node from which one is taken would hold none.
      have some : 0 < ((newestFirst listed group).take
          (activeOf listed group - ready.length)).countP fun a => a.nodeId = node.id :=
        List.countP_pos_iff.mpr ⟨a, chosen, decide_eq_true same.symm⟩
      omega
  · intro surplus node there
    obtain ⟨full, elsewhere⟩ := surplus
    have none : (((newestFirst listed group).take
        (activeOf listed group - ready.length)).countP fun a => a.nodeId = node.id) = 0 :=
      List.countP_eq_zero.mpr fun a chosen same =>
        elsewhere a chosen (of_decide_eq_true same ▸ List.mem_map_of_mem there)
    have total := fewer node.id
    have some := full node there
    have atMostOne := single node.id
    omega

/-- A system job comes to have one allocation on every node exactly where one node lacks it, or no
node misses what is stopped. -/
theorem everyNode_after_iff (system : job.jobType = .system)
    (step : GroupStep (desiredCount job group ready) listed ready group (ofGroup group listed)
      (ofGroup group after)) (distinct : (listed.map (·.id)).Nodup)
    (counted : activeOf listed group / 2 ^ 32 = desiredNumber job group ready / 2 ^ 32) :
    (∀ node ∈ ready, heldOn after group node.id = 1) ↔
      OneNodeLacks listed ready group ∨ SurplusElsewhere listed ready group := by
  have counts := counts_of_groupStep step distinct
  dsimp only at counts
  have active : (activeCount listed group).toNat = activeOf listed group % 2 ^ 32 :=
    toNat_activeCount
  have desired : (desiredCount job group ready).toNat = desiredNumber job group ready % 2 ^ 32 :=
    toNat_desiredCount
  have wanted : desiredNumber job group ready = ready.length := by
    simp [desiredNumber, system]
  rw [wanted] at desired counted
  -- The first case goes with too few allocations, and the others go with enough.
  have few : OneNodeLacks listed ready group → activeOf listed group < ready.length :=
    fun lacks => Nat.lt_of_succ_le (lacks.activeOf_add_one nodes single).le
  have many : SurplusElsewhere listed ready group → ready.length ≤ activeOf listed group :=
    fun surplus => surplus.length_le nodes single
  rcases counts with ⟨lacking, first, least, more⟩ | ⟨surplus, less⟩ | ⟨exact_, same⟩
  · rw [UInt32.lt_iff_toNat_lt] at lacking
    have below : activeOf listed group < ready.length := by omega
    have missing : (desiredCount job group ready).toNat - (activeCount listed group).toNat =
        ready.length - activeOf listed group := by omega
    rw [everyNode_iff_of_lacking nodes single below least fun nodeId => by
      have total := more (· = nodeId)
      simp only [decide_eq_true_eq] at total
      exact missing ▸ total]
    exact (or_iff_left fun enough => (many enough).not_gt below).symm
  · rw [UInt32.lt_iff_toNat_lt] at surplus
    have above : ready.length < activeOf listed group := by omega
    have excess : (activeCount listed group).toNat - (desiredCount job group ready).toNat =
        activeOf listed group - ready.length := by omega
    rw [everyNode_iff_of_enough single fun nodeId => by
      rw [← excess]
      exact less (· = nodeId)]
    exact (or_iff_right fun lacks => (few lacks).not_gt above).symm
  · have numbers := congrArg UInt32.toNat exact_
    have equal : activeOf listed group = ready.length := by omega
    rw [everyNode_iff_of_enough single fun nodeId => by
      rw [equal, Nat.sub_self, List.take_zero, List.countP_nil]
      exact same (· = nodeId)]
    exact (or_iff_right fun lacks => (few lacks).ne equal).symm

end

end

/-- The pass lists the allocations of the job and makes a step for each group. -/
theorem groupSteps_of_runs {job : Job} {nodes : List Node} {allocations : List Allocation}
    {trace : List (Program.Exchange Answer)} (running : job.status = .running)
    (groups : (job.groups.map (·.name)).Nodup) (some : readyNodes nodes ≠ [])
    (runs : Runs (reconcileCount job nodes).run trace (.ok ()))
    (answered : ∀ event ∈ trace, Cooperates allocations event)
    (fresh : (allocations.map (·.id) ++ trace.filterMap newId).Nodup) :
    ∀ group ∈ job.groups,
      GroupStep (desiredCount job group (readyNodes nodes)) allocations (readyNodes nodes) group
        (ofGroup group allocations) (ofGroup group (settledAfter allocations trace)) := by
  simp only [reconcileCount, running, ne_eq, not_true_eq_false, if_false] at runs
  obtain ⟨_, listed, rest, asked, through, rfl⟩ := runs_liftBind_iff.mp runs
  obtain rfl := runs_call_iff.mp asked
  obtain rfl : listed = allocations :=
    answered ⟨.listAllocationsForJob job.id, listed⟩ (by simp)
  rw [if_neg (by simpa using some)] at through
  -- To list changes nothing, so that the groups begin with what is listed.
  obtain ⟨-, -, steps, -⟩ := leaves_reconcileGroups some groups listed rest through
    (fun event among => answered event (by simp [among])) fresh fun a among => ⟨a, among, rfl, rfl⟩
  exact steps

/-- The pass restores the layout exactly where what a system job lacks is on one node, what it has
too much of is on no node that takes work, and no group is off by what the counter holds. -/
theorem layoutRestored_iff {job : Job} {nodes : List Node} {allocations : List Allocation}
    {trace : List (Program.Exchange Answer)} (running : job.status = .running)
    (groups : (job.groups.map (·.name)).Nodup) (ids : (nodes.map (·.id)).Nodup)
    (some : readyNodes nodes ≠ [])
    (runs : Runs (reconcileCount job nodes).run trace (.ok ()))
    (answered : ∀ event ∈ trace, Cooperates allocations event)
    (fresh : (allocations.map (·.id) ++ trace.filterMap newId).Nodup) :
    LayoutRestored job (readyNodes nodes) allocations (settledAfter allocations trace) ↔
      LayoutReachable job (readyNodes nodes) allocations := by
  have steps := groupSteps_of_runs running groups some runs answered fresh
  have distinct : (allocations.map (·.id)).Nodup := (List.nodup_append.mp fresh).1
  have apart : ((readyNodes nodes).map (·.id)).Nodup :=
    ids.sublist (List.filter_sublist.map _)
  -- The condition on the counts is needed for each group before the nodes can be looked at.
  constructor
  · intro restored
    have counted : ∀ group ∈ job.groups, activeOf allocations group / 2 ^ 32 =
        desiredNumber job group (readyNodes nodes) / 2 ^ 32 := fun group among =>
      (activeOf_after_iff (steps group among) distinct).mp (restored.counts group among)
    refine ⟨counted, fun system group among single => ?_⟩
    exact (everyNode_after_iff apart single system (steps group among) distinct
      (counted group among)).mp (restored.everyNode system group among single)
  · intro reachable
    refine ⟨fun group among => ?_, fun system group among single => ?_⟩
    · exact (activeOf_after_iff (steps group among) distinct).mpr (reachable.counted group among)
    · exact (everyNode_after_iff apart single system (steps group among) distinct
        (reachable.counted group among)).mpr (reachable.everyNode system group among single)

/-- A running system job of one group. -/
def agentJob : Job := { linuxJob with jobType := .system }

/-- The calls that create an allocation for it. -/
def agentCalls (id : Uuid) : List (Program.Exchange Answer) :=
  let alloc := (Allocation.new id ⟨0⟩ "web" "web" "mac" []).withJobVersion 0
  [⟨.newUuid, id⟩, ⟨.now, ⟨0⟩⟩, ⟨.putAllocation alloc, .ok ()⟩, ⟨.startAllocation alloc, .ok ()⟩]

/-- On a single node there is one allocation then. -/
theorem layoutRestored_oneNode :
    ∃ trace, Runs (reconcileCount agentJob [darwinNode]).run trace (.ok ()) ∧
      LayoutRestored agentJob (readyNodes [darwinNode]) [] (settledAfter [] trace) := by
  -- The calls of the pass: the listing, and what is called for the one new allocation.
  have runs : Runs (reconcileCount agentJob [darwinNode]).run
      (⟨.listAllocationsForJob "web", []⟩ :: agentCalls 1) (.ok ()) :=
    .ask _ _ _ (.ask _ _ _ (.ask _ _ _ (.ask _ _ _ (.ask _ _ _ (.done _)))))
  have fresh : ([] ++ [1] : List Uuid).Nodup := by decide
  have answered : ∀ event ∈ ⟨.listAllocationsForJob "web", []⟩ :: agentCalls 1,
      Cooperates [] event := by simp [agentCalls, Cooperates]
  refine ⟨_, runs, (layoutRestored_iff rfl (by simp [agentJob, linuxJob]) (by simp)
    (by simp [readyNodes, Node.isReady, darwinNode]) runs answered fresh).mpr ?_⟩
  refine ⟨by decide, fun _ group among _ => .inl ?_⟩
  obtain rfl := List.mem_singleton.mp among
  exact ⟨by simp, by decide⟩

/-- A second node that takes work. -/
def otherNode : Node := { darwinNode with id := "mini" }

/-- On two nodes both of the allocations are on the first one. -/
theorem not_layoutRestored_twoNodes :
    ∃ trace, Runs (reconcileCount agentJob [darwinNode, otherNode]).run trace (.ok ()) ∧
      (∀ event ∈ trace, Cooperates [] event) ∧ (trace.filterMap newId).Nodup ∧
        ¬ LayoutRestored agentJob (readyNodes [darwinNode, otherNode]) []
          (settledAfter [] trace) := by
  have fresh : ([1, 2] : List Uuid).Nodup := by decide
  -- Both turns of the loop find the first node, as neither sees what the other one has created.
  refine ⟨⟨.listAllocationsForJob "web", []⟩ :: (agentCalls 1 ++ agentCalls 2), ?_,
    by simp [agentCalls, Cooperates], fresh, ?_⟩
  · exact .ask _ _ _ (.ask _ _ _ (.ask _ _ _ (.ask _ _ _ (.ask _ _ _ (.ask _ _ _ (.ask _ _ _
      (.ask _ _ _ (.ask _ _ _ (.done _)))))))))
  · intro restored
    have other := restored.everyNode rfl singleGroup (by simp [agentJob, linuxJob])
      (by simp [heldOn, activeOn]) otherNode
      (by simp [readyNodes, Node.isReady, darwinNode, otherNode])
    exact absurd other (by decide)

end Tatara.Scheduling
