import Mathlib.Algebra.GroupWithZero.Nat
import Mathlib.Data.List.Nodup
import Tatara.Scheduling.Placement

/-! What the count pass makes of the allocations of a job, where everything that it asks for is
done. -/

namespace Tatara.Scheduling

open Tatara.Domain Tatara.Rust
open Tatara.Program (Runs runs_bind_iff runs_pure_iff runs_call_iff runs_lift_iff runs_liftBind_iff
  runs_try_iff runs_try_ok)

/-- The allocations after a call: what is put is pending, what is started runs, and what is stopped
is complete. -/
def settled (allocations : List Allocation) : Program.Exchange Answer → List Allocation
  | ⟨.putAllocation alloc, .ok ()⟩ => (allocations.filter (·.id ≠ alloc.id)) ++ [alloc]
  | ⟨.startAllocation alloc, .ok ()⟩ =>
    allocations.map fun a => if a.id = alloc.id then { a with state := .running } else a
  | ⟨.stopAllocation allocId _, .ok ()⟩ =>
    allocations.map fun a => if a.id = allocId then { a with state := .complete } else a
  | _ => allocations

/-- The allocations after some calls. -/
def settledAfter (allocations : List Allocation) (trace : List (Program.Exchange Answer)) :
    List Allocation :=
  trace.foldl settled allocations

/-- The store lists these allocations, and whatever is asked for is done. -/
def Cooperates (allocations : List Allocation) : Program.Exchange Answer → Prop
  | ⟨.listAllocationsForJob _, answer⟩ => answer = allocations
  | ⟨.putAllocation _, answer⟩ | ⟨.startAllocation _, answer⟩ | ⟨.stopAllocation _ _, answer⟩ =>
    answer = .ok ()
  | _ => True

/-- The identifier that a call has made. -/
def newId : Program.Exchange Answer → Option Uuid
  | ⟨.newUuid, id⟩ => some id
  | _ => none

/-- Each allocation that was listed is still there under its identifier, in its group. -/
def Tracks (listed allocations : List Allocation) : Prop :=
  ∀ a ∈ listed, ∃ b ∈ allocations, b.id = a.id ∧ b.groupName = a.groupName

/-- The allocations are told apart by their identifiers, and those that were listed are among
them. -/
structure Known (listed allocations : List Allocation) : Prop where
  distinct : (allocations.map (·.id)).Nodup
  tracks : Tracks listed allocations

/-- Where its calls are answered well and its identifiers are new, a part of the pass that goes
through leaves the allocations in this relation to what they were. -/
def Leaves (listed : List Allocation) (x : Handler Unit)
    (becomes : List Allocation → List Allocation → Prop) : Prop :=
  ∀ (allocations : List Allocation) (trace : List (Program.Exchange Answer)),
    Runs x.run trace (.ok ()) → (∀ event ∈ trace, Cooperates listed event) →
    (allocations.map (·.id) ++ trace.filterMap newId).Nodup → Tracks listed allocations →
      (settledAfter allocations trace).map (·.id) =
          allocations.map (·.id) ++ trace.filterMap newId ∧
        Tracks listed (settledAfter allocations trace) ∧
          becomes allocations (settledAfter allocations trace)

/-- The allocation as it is once it has been stopped. -/
def stoppedIn (ids : List Uuid) (a : Allocation) : Allocation :=
  if a.id ∈ ids then { a with state := .complete } else a

/-- To be stopped leaves the identifier. -/
@[simp] theorem stoppedIn_id (ids : List Uuid) (a : Allocation) :
    (stoppedIn ids a).id = a.id := by
  unfold stoppedIn
  split <;> rfl

/-- To be stopped leaves the group. -/
@[simp] theorem stoppedIn_groupName (ids : List Uuid) (a : Allocation) :
    (stoppedIn ids a).groupName = a.groupName := by
  unfold stoppedIn
  split <;> rfl

/-- To be stopped leaves the node. -/
@[simp] theorem stoppedIn_nodeId (ids : List Uuid) (a : Allocation) :
    (stoppedIn ids a).nodeId = a.nodeId := by
  unfold stoppedIn
  split <;> rfl

/-- Only an allocation that has not been stopped is still active. -/
theorem isActive_stoppedIn (ids : List Uuid) (a : Allocation) :
    isActive (stoppedIn ids a) = (isActive a && decide (a.id ∉ ids)) := by
  unfold stoppedIn
  by_cases stopped : a.id ∈ ids <;> simp [stopped, isActive]

section

variable {listed : List Allocation} {x y : Handler Unit}
  {becomes further : List Allocation → List Allocation → Prop}

/-- What a task leaves may be said with less. -/
theorem Leaves.mono (leaves : Leaves listed x becomes)
    (weaker : ∀ before after, Known listed before → becomes before after → further before after) :
    Leaves listed x further := by
  intro allocations trace runs answered fresh tracks
  obtain ⟨ids, tracking, became⟩ := leaves allocations trace runs answered fresh tracks
  exact ⟨ids, tracking, weaker _ _ ⟨(List.nodup_append.mp fresh).1, tracks⟩ became⟩

/-- A task without calls leaves everything. -/
theorem Leaves.pure : Leaves listed (pure ()) fun before after => after = before := by
  intro allocations trace runs _ _ tracks
  obtain ⟨rfl, -⟩ := runs_pure_iff.mp runs
  -- Without a call the allocations stay as they are.
  exact ⟨(List.append_nil _).symm, tracks, rfl⟩

/-- One part after the other: the second one goes on with what the first one has left. -/
theorem Leaves.andThen (first : Leaves listed x becomes) (second : Leaves listed y further) :
    Leaves listed (x >>= fun _ => y) fun before after =>
      ∃ between, Known listed between ∧ becomes before between ∧ further between after := by
  intro allocations trace runs answered fresh tracks
  obtain ⟨front, _, back, firstRuns, secondRuns, rfl⟩ := runs_try_ok runs
  rw [List.filterMap_append, ← List.append_assoc] at fresh
  -- The identifiers that the first part has made belong to allocations that are there by now.
  obtain ⟨ids, tracking, became⟩ := first allocations front firstRuns
    (fun event among => answered event (List.mem_append_left _ among))
    (List.nodup_append.mp fresh).1 tracks
  have distinct : ((settledAfter allocations front).map (·.id) ++ back.filterMap newId).Nodup := by
    rw [ids]
    exact fresh
  have goesOn := second (settledAfter allocations front) back secondRuns
    (fun event among => answered event (List.mem_append_right _ among)) distinct tracking
  have whole : settledAfter allocations (front ++ back) =
      settledAfter (settledAfter allocations front) back := List.foldl_append
  rw [whole, List.filterMap_append, ← List.append_assoc, ← ids]
  exact ⟨goesOn.1, goesOn.2.1, _, ⟨(List.nodup_append.mp distinct).1, tracking⟩, became, goesOn.2.2⟩

/-- What swallows errors has run. -/
theorem runs_bestEffort {task : Task (Except String Unit)} {trace : List (Program.Exchange Answer)}
    {outcome : Except String Unit} (runs : Runs (bestEffort task).run trace outcome) :
    ∃ answer, Runs task trace answer := by
  obtain ⟨_, ran, -⟩ := runs_lift_iff.mp runs
  obtain ⟨_, answer, _, called, final, rfl⟩ := runs_bind_iff.mp ran
  obtain ⟨rfl, -⟩ := runs_pure_iff.mp final
  exact ⟨answer, by simpa using called⟩

/-- A new allocation runs in the end, next to the others. -/
theorem leaves_createAllocation (jobId : String) (version : UInt64) (group : TaskGroup)
    (nodeId : String) :
    Leaves listed (createAllocation jobId version group nodeId) fun before after =>
      ∃ a, a.groupName = group.name ∧ a.nodeId = nodeId ∧ isActive a = true ∧
        after = before ++ [a] := by
  intro allocations trace runs answered fresh tracks
  -- The calls are for an identifier, for the time, and to put and start the allocation.
  obtain ⟨_, alloc, _, allocated, rest, rfl⟩ := runs_liftBind_iff.mp runs
  obtain ⟨_, id, _, asked, more, rfl⟩ := runs_bind_iff.mp allocated
  obtain rfl := runs_call_iff.mp asked
  obtain ⟨_, createdAt, _, clock, final, rfl⟩ := runs_bind_iff.mp more
  obtain rfl := runs_call_iff.mp clock
  obtain ⟨rfl, rfl⟩ := runs_pure_iff.mp final
  obtain ⟨_, _, last, stored, starting, rfl⟩ := runs_try_ok rest
  obtain rfl := runs_call_iff.mp stored
  obtain ⟨answer, started⟩ := runs_bestEffort starting
  obtain rfl := runs_call_iff.mp started
  let put : Allocation := (Allocation.new id createdAt jobId group.name nodeId
    (group.tasks.map (·.name))).withJobVersion version
  obtain rfl : answer = .ok () := answered ⟨.startAllocation put, answer⟩ (by simp [put])
  have unused : ∀ a ∈ allocations, a.id ≠ id := by
    intro a among same
    have apart := (List.nodup_append.mp fresh).2.2 _ (List.mem_map_of_mem among) id
      (by simp [newId])
    exact apart same
  -- No other allocation has the new identifier, so that none of them is replaced or started.
  have kept : allocations.filter (·.id ≠ put.id) = allocations :=
    List.filter_eq_self.mpr fun a among => decide_eq_true (unused a among)
  have others : (allocations.map fun a =>
      if a.id = put.id then { a with state := .running } else a) = allocations :=
    (List.map_congr_left fun a among => if_neg (unused a among)).trans (List.map_id _)
  have after : settledAfter allocations [⟨Call.newUuid, id⟩, ⟨Call.now, createdAt⟩,
      ⟨Call.putAllocation put, .ok ()⟩, ⟨Call.startAllocation put, .ok ()⟩] =
        allocations ++ [{ put with state := .running }] := by
    simp only [settledAfter, List.foldl_cons, List.foldl_nil, settled, kept, List.map_append,
      others, List.map_cons, List.map_nil, if_true]
  refine ⟨?_, ?_, { put with state := .running }, rfl, rfl, rfl, after⟩
  · exact (congrArg (List.map (·.id)) after).trans List.map_append
  · intro a among
    obtain ⟨b, there, same⟩ := tracks a among
    refine ⟨b, ?_, same⟩
    exact (congrArg (b ∈ ·) after).mpr (List.mem_append_left _ there)

/-- Stopping leaves the others as they are. -/
theorem leaves_stopAllocations (secs : Nat) (chosen : List Allocation) :
    Leaves listed (stopAllocations secs chosen) fun before after =>
      after = before.map (stoppedIn (chosen.map (·.id))) := by
  induction chosen with
  | nil =>
    refine Leaves.pure.mono fun before after _ same => ?_
    rw [same]
    exact ((List.map_congr_left fun b _ => if_neg (by simp)).trans (List.map_id _)).symm
  | cons a chosen ih =>
    have first : Leaves listed (bestEffort (stopAllocation a.id secs)) fun before after =>
        after = before.map (stoppedIn [a.id]) := by
      intro allocations trace runs answered fresh tracks
      obtain ⟨answer, stopped⟩ := runs_bestEffort runs
      obtain rfl := runs_call_iff.mp stopped
      obtain rfl : answer = .ok () := answered ⟨.stopAllocation a.id secs, answer⟩ (by simp)
      have after : settledAfter allocations [⟨Call.stopAllocation a.id secs, .ok ()⟩] =
          allocations.map (stoppedIn [a.id]) :=
        List.map_congr_left fun b _ => by simp [stoppedIn]
      refine ⟨?_, ?_, after⟩
      · rw [after, List.map_map]
        exact (List.map_congr_left fun b _ => stoppedIn_id _ b).trans (List.append_nil _).symm
      · intro b among
        obtain ⟨c, there, same⟩ := tracks b among
        rw [after]
        exact ⟨_, List.mem_map_of_mem there, by simpa using same⟩
    refine (first.andThen ih).mono fun before after _ parts => ?_
    obtain ⟨between, -, rfl, rfl⟩ := parts
    -- To be stopped is to be the first one or one of the others.
    rw [List.map_map]
    refine List.map_congr_left fun b _ => ?_
    by_cases here : b.id = a.id <;> by_cases later : b.id ∈ chosen.map (·.id) <;>
      simp_all [stoppedIn]

/-- The same new allocation, some number of times. -/
theorem leaves_createAllocations (jobId : String) (version : UInt64) (group : TaskGroup)
    (nodeId : String) (turns : List Nat) :
    Leaves listed (turns.forM fun _ => createAllocation jobId version group nodeId)
      fun before after => ∃ news : List Allocation, news.length = turns.length ∧
        (∀ a ∈ news, a.groupName = group.name ∧ a.nodeId = nodeId ∧ isActive a = true) ∧
          after = before ++ news := by
  induction turns with
  | nil => exact Leaves.pure.mono fun before after _ same => ⟨[], rfl, by simp, by simp [same]⟩
  | cons turn turns ih =>
    refine ((leaves_createAllocation jobId version group nodeId).andThen ih).mono ?_
    intro before after _ parts
    -- The first turn adds one, and the others add theirs behind it.
    obtain ⟨_, -, ⟨a, named, placed, active, rfl⟩, news, count, alike, rfl⟩ := parts
    exact ⟨a :: news, by simp [count], List.forall_mem_cons.mpr ⟨⟨named, placed, active⟩, alike⟩,
      by simp⟩

end

/-- The active allocations of a group, the newest one first. -/
def newestFirst (allocations : List Allocation) (group : TaskGroup) : List Allocation :=
  (allocations.filter fun a => a.groupName = group.name && isActive a).mergeSort
    fun a b => b.createdAt.nanos ≤ a.createdAt.nanos

/-- What a turn of the count pass makes of allocations, by what was listed. -/
def GroupStep (desired : UInt32) (listed : List Allocation) (ready : List Node) (group : TaskGroup)
    (before after : List Allocation) : Prop :=
  let active := activeCount listed group
  if active < desired then
    ∃ node, IsFirstLeastBy (load listed group) ready node ∧
      ∃ news : List Allocation, news.length = (desired - active).toNat ∧
        (∀ a ∈ news, a.groupName = group.name ∧ a.nodeId = node.id ∧ isActive a = true) ∧
          after = before ++ news
  else if desired < active then
    after = before.map
      (stoppedIn (((newestFirst listed group).take (active - desired).toNat).map (·.id)))
  else after = before

/-- The allocations of a group. -/
def ofGroup (group : TaskGroup) (allocations : List Allocation) : List Allocation :=
  allocations.filter fun a => a.groupName = group.name

section

variable {listed : List Allocation} {job : Job} {group other : TaskGroup} {ready : List Node}
  {desired : UInt32}

/-- A turn of the pass makes this step, where there is a node that takes work. -/
theorem leaves_reconcileGroup (some : ready ≠ []) :
    Leaves listed (reconcileGroup job listed ready group)
      (GroupStep (desiredCount job group ready) listed ready group) := by
  unfold reconcileGroup GroupStep
  dsimp only
  split
  · -- The least loaded node is the same in every turn.
    obtain ⟨first, others, rfl⟩ := List.exists_cons_of_ne_nil some
    cases found : firstLeastBy (load listed group) (first :: others) with
    | none => cases found
    | some node =>
      refine (leaves_createAllocations job.id job.version group node.id _).mono ?_
      intro before after _ became
      rw [List.length_range] at became
      exact ⟨node, firstLeastBy_eq_some_iff.mp found, became⟩
  · split
    · exact leaves_stopAllocations 10 _
    · exact Leaves.pure

/-- What is stopped belongs to the group. -/
theorem groupName_of_mem_newestFirst {a : Allocation} {n : Nat}
    (chosen : a ∈ (newestFirst listed group).take n) :
    a ∈ listed ∧ a.groupName = group.name ∧ isActive a = true := by
  -- What is taken is sorted, and what is sorted has been filtered.
  have sorted : a ∈ newestFirst listed group := List.mem_of_mem_take chosen
  rw [newestFirst, List.mem_mergeSort] at sorted
  simpa using List.mem_filter.mp sorted

/-- To be stopped leaves the groups. -/
theorem ofGroup_map_stoppedIn (ids : List Uuid) (allocations : List Allocation) :
    ofGroup group (allocations.map (stoppedIn ids)) =
      (ofGroup group allocations).map (stoppedIn ids) := by
  rw [ofGroup, List.filter_map]
  exact congrArg (List.map _) (List.filter_congr fun a _ => by simp)

/-- A step is one of the allocations of its group. -/
theorem GroupStep.ofGroup {before after : List Allocation}
    (step : GroupStep desired listed ready group before after) :
    GroupStep desired listed ready group (ofGroup group before) (ofGroup group after) := by
  unfold GroupStep at step ⊢
  dsimp only at step ⊢
  split at step
  · rename_i lacking
    obtain ⟨node, first, news, count, alike, rfl⟩ := step
    -- What is new belongs to the group, and so none of it is left out.
    have own : Scheduling.ofGroup group news = news :=
      List.filter_eq_self.mpr fun a among => decide_eq_true (alike a among).1
    rw [if_pos lacking]
    refine ⟨node, first, news, count, alike, ?_⟩
    rw [Scheduling.ofGroup, List.filter_append]
    exact congrArg (_ ++ ·) own
  · rename_i enough
    rw [if_neg enough]
    split at step
    · rename_i surplus
      rw [if_pos surplus, step, ofGroup_map_stoppedIn]
    · rename_i exact_
      rw [if_neg exact_, step]

/-- A step leaves the other groups alone. -/
theorem GroupStep.ofOther {before after : List Allocation}
    (step : GroupStep desired listed ready group before after)
    (known : Known listed before) (different : other.name ≠ group.name) :
    Scheduling.ofGroup other after = Scheduling.ofGroup other before := by
  unfold GroupStep at step
  dsimp only at step
  split at step
  · obtain ⟨node, first, news, count, alike, rfl⟩ := step
    have none : Scheduling.ofGroup other news = [] :=
      List.filter_eq_nil_iff.mpr fun a among => by
        simpa [(alike a among).1] using different.symm
    rw [Scheduling.ofGroup, List.filter_append]
    exact (congrArg (_ ++ ·) none).trans (List.append_nil _)
  · split at step
    · rw [step, ofGroup_map_stoppedIn]
      refine (List.map_congr_left fun b among => if_neg fun stopped => ?_).trans (List.map_id _)
      -- Under the identifier of what is stopped there is an allocation of the group itself.
      obtain ⟨there, named⟩ := List.mem_filter.mp among
      obtain ⟨a, chosen, same⟩ := List.mem_map.mp stopped
      obtain ⟨listing, own, -⟩ := groupName_of_mem_newestFirst chosen
      obtain ⟨c, present, id, group⟩ := known.tracks a listing
      have alike : c = b := List.inj_on_of_nodup_map known.distinct present there (id.trans same)
      rw [alike, own] at group
      exact different ((by simpa using named : b.groupName = other.name) ▸ group)
    · rw [step]

/-- The pass makes a step for each of the groups, by what was listed of it, and leaves the others
alone. -/
theorem leaves_reconcileGroups (some : ready ≠ []) {groups : List TaskGroup}
    (distinct : (groups.map (·.name)).Nodup) :
    Leaves listed (groups.forM (reconcileGroup job listed ready)) fun before after =>
      (∀ group ∈ groups, GroupStep (desiredCount job group ready) listed ready group
        (ofGroup group before) (ofGroup group after)) ∧
      ∀ other : TaskGroup, other.name ∉ groups.map (·.name) →
        ofGroup other after = ofGroup other before := by
  induction groups with
  | nil => exact Leaves.pure.mono fun before after _ same => by simp [same]
  | cons group groups ih =>
    obtain ⟨new, others⟩ := List.nodup_cons.mp distinct
    refine ((leaves_reconcileGroup some).andThen (ih others)).mono ?_
    intro before after known parts
    obtain ⟨between, knownThen, step, steps, kept⟩ := parts
    refine ⟨List.forall_mem_cons.mpr ⟨?_, fun other among => ?_⟩, fun other absent => ?_⟩
    · -- The later turns leave the first group alone.
      rw [kept group new]
      exact step.ofGroup
    · have different : other.name ≠ group.name := fun same =>
        new (List.mem_map.mpr ⟨other, among, same⟩)
      rw [← step.ofOther known different]
      exact steps other among
    · rw [List.map_cons, List.mem_cons, not_or] at absent
      rw [kept other absent.2, step.ofOther known absent.1]

end

/-- How many active allocations a group has on nodes of which this holds. -/
def activeOn (suits : String → Bool) (allocations : List Allocation) (group : TaskGroup) : Nat :=
  allocations.countP fun a => a.groupName = group.name && isActive a && suits a.nodeId

/-- How many active allocations a group has. -/
def activeOf (allocations : List Allocation) (group : TaskGroup) : Nat :=
  activeOn (fun _ => true) allocations group

/-- How many active allocations of a group a node holds. -/
def heldOn (allocations : List Allocation) (group : TaskGroup) (nodeId : String) : Nat :=
  activeOn (· = nodeId) allocations group

section

variable {listed : List Allocation} {group : TaskGroup} {ready : List Node} {desired : UInt32}

theorem activeCount_eq : activeCount listed group = UInt32.ofNat (activeOf listed group) := by
  simp [activeCount, activeOf, activeOn]

/-- What has not come to an end runs or is about to. -/
theorem isTerminal_eq (a : Allocation) : a.isTerminal = !isActive a := by
  cases state : a.state <;> simp [Allocation.isTerminal, isActive, state]

/-- The load of a node is the number of allocations that it holds. -/
theorem load_eq (n : Node) : load listed group n = heldOn listed group n.id := by
  refine List.countP_congr fun a _ => ?_
  simp only [isTerminal_eq, Bool.not_not, Bool.and_eq_true, decide_eq_true_eq]
  tauto

/-- The other groups have no say in what is active in one. -/
theorem activeOn_ofGroup (suits : String → Bool) (allocations : List Allocation) :
    activeOn suits (ofGroup group allocations) group = activeOn suits allocations group := by
  rw [activeOn, ofGroup, List.countP_filter]
  exact List.countP_congr fun a _ => by simp +contextual

/-- The active allocations of two lists are counted separately. -/
theorem activeOn_append (suits : String → Bool) (front back : List Allocation) :
    activeOn suits (front ++ back) group = activeOn suits front group + activeOn suits back group :=
  List.countP_append

/-- What has been stopped is not counted any more. -/
theorem activeOn_map_stoppedIn (suits : String → Bool) {chosen : List Allocation}
    (distinct : (listed.map (·.id)).Nodup) (part : chosen.Sublist (newestFirst listed group)) :
    activeOn suits (listed.map (stoppedIn (chosen.map (·.id)))) group +
      chosen.countP (fun a => suits a.nodeId) = activeOn suits listed group := by
  let own (a : Allocation) : Bool := a.groupName = group.name && isActive a
  let hit (a : Allocation) : Bool := a.id ∈ chosen.map (·.id)
  have unique : listed.Nodup := distinct.of_map
  have sorted : (newestFirst listed group).Perm (listed.filter own) := List.mergeSort_perm _ _
  -- Of the active ones of the group, those under an identifier of what is chosen are just that.
  have same : (listed.filter fun a => own a && hit a).Perm chosen := by
    have chosenUnique : chosen.Nodup := (sorted.nodup_iff.mpr (unique.filter _)).sublist part
    refine (List.perm_ext_iff_of_nodup (unique.filter _) chosenUnique).mpr fun a => ?_
    rw [List.mem_filter]
    constructor
    · intro among
      obtain ⟨known, both⟩ := among
      have under : a.id ∈ chosen.map (·.id) := of_decide_eq_true (Bool.and_eq_true_iff.mp both).2
      obtain ⟨c, there, id⟩ := List.mem_map.mp under
      have listing := (List.mem_filter.mp (sorted.mem_iff.mp (part.mem there))).1
      have alike : c = a := List.inj_on_of_nodup_map distinct listing known id
      exact alike ▸ there
    · intro there
      obtain ⟨known, kept⟩ := List.mem_filter.mp (sorted.mem_iff.mp (part.mem there))
      refine ⟨known, ?_⟩
      rw [kept, Bool.true_and]
      exact decide_eq_true (List.mem_map_of_mem there)
  have stopped : (listed.filter hit).countP (fun a => own a && suits a.nodeId) =
      chosen.countP fun a => suits a.nodeId := by
    rw [← same.countP_eq, List.countP_filter, List.countP_filter]
    exact List.countP_congr fun a _ => by simp only [Bool.and_eq_true]; tauto
  have left : activeOn suits (listed.map (stoppedIn (chosen.map (·.id)))) group =
      (listed.filter fun a => !hit a).countP fun a => own a && suits a.nodeId := by
    rw [activeOn, List.countP_map, List.countP_filter]
    refine List.countP_congr fun a _ => ?_
    simp only [Function.comp_apply, stoppedIn_groupName, stoppedIn_nodeId, isActive_stoppedIn,
      Bool.and_eq_true, own, hit, Bool.not_eq_true', decide_eq_true_eq, decide_eq_false_iff_not]
    tauto
  rw [left, ← stopped, Nat.add_comm]
  exact (List.countP_eq_countP_filter_add listed (fun a => own a && suits a.nodeId) hit).symm

end

end Tatara.Scheduling
