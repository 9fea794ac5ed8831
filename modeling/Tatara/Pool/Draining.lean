import Mathlib.Data.List.Perm.Subperm
import Tatara.Pool.InUse

/-! What becomes of the members of a pool that is being deleted. -/

namespace Tatara.Pool

open Tatara.Crd Tatara.Rust Program

/-- The Process that a call creates. -/
def Event.created : Event → Option Process
  | ⟨.createProcess p, _⟩ => some p
  | _ => none

theorem overlooks_created : Overlooks Event.created := ⟨fun _ => rfl, fun _ _ _ _ => rfl⟩

theorem deleteProcess_uncreated (ns name : String) : Quiet Event.created (deleteProcess ns name) :=
  Quiet.bind (Quiet.call fun _ => rfl) fun _ => Quiet.pure ()

/-- What holds of the names of the Processes holds of the names in their snapshots. -/
theorem forall_names_iff {owned : List Process} {snapshots : List PoolMemberSnapshot}
    (taken : List.Forall₂ IsSnapshot owned snapshots) {P : String → Prop} :
    (∀ p ∈ owned, P p.metadata.name) ↔ ∀ m ∈ snapshots, P m.processName := by
  -- The two lists have the same names in the same places.
  have names := map_name_snapshots taken
  constructor
  · intro all m present
    obtain ⟨p, there, same⟩ := List.mem_map.mp (names ▸ List.mem_map_of_mem present)
    exact same ▸ all p there
  · intro all p present
    obtain ⟨m, there, same⟩ := List.mem_map.mp (names.symm ▸ List.mem_map_of_mem present)
    exact same ▸ all m there

namespace PoolConvergenceCtx

variable {ctx : PoolConvergenceCtx}

/-- What has exited is not healthy. -/
theorem isHealthy_of_isFailed {m : PoolMemberSnapshot} (failed : m.isFailed = true) :
    m.isHealthy = false := by
  -- The phases that have failed are none of the healthy ones.
  revert failed
  unfold PoolMemberSnapshot.isFailed PoolMemberSnapshot.isHealthy
  cases m.phase <;> decide

/-- What is reaped has failed, and the policy replaces what has failed. -/
theorem mem_failed_of_reaped {m : PoolMemberSnapshot} (among : m ∈ ctx.reaped) :
    m ∈ ctx.failed ∧ ctx.replacementPolicy.replacesFailed = true := by
  -- Nothing is reaped under the other policies.
  unfold reaped at among
  split at among
  · exact ⟨among, ‹_›⟩
  · cases among

/-- A pool with a desired count keeps some of its healthy members: where all members are deleted,
all of them have exited, and the policy replaces those. -/
theorem reaped_of_deletes (distinct : (ctx.members.map (·.processName)).Nodup)
    (counted : 0 < ctx.desired)
    (all : ∀ m ∈ ctx.members, m.processName ∈ convergenceDeletes ctx) :
    ∀ m ∈ ctx.members, m ∈ ctx.reaped := by
  have eq_of_name {a b : PoolMemberSnapshot} (here : a ∈ ctx.members) (there : b ∈ ctx.members)
      (same : a.processName = b.processName) : a = b :=
    List.inj_on_of_nodup_map distinct here there same
  have healthy_sub : ctx.healthy ⊆ ctx.members := List.filter_subset_self _
  have excess_sub : ctx.excess ⊆ ctx.healthy := fun m among =>
    (List.mergeSort_perm _ _).mem_iff.mp (List.take_subset _ _ among)
  have reaped_failed : ∀ m ∈ ctx.reaped, m ∈ ctx.members ∧ m.isFailed = true := fun m among => by
    have failed := mem_failed_of_reaped among
    exact ⟨List.mem_of_mem_filter failed.1, (List.mem_filter.mp failed.1).2⟩
  -- By its name each member is one of those that are reaped or too many.
  have either : ∀ m ∈ ctx.members, m ∈ ctx.reaped ∨ m ∈ ctx.excess := by
    intro m present
    have deleted := all m present
    unfold convergenceDeletes at deleted
    split at deleted
    · cases deleted
    · obtain ⟨other, among, same⟩ := List.mem_map.mp deleted
      rcases List.mem_append.mp among with reaped | excess
      · rw [← eq_of_name (reaped_failed other reaped).1 present same]
        exact .inl reaped
      · rw [← eq_of_name (healthy_sub (excess_sub excess)) present same]
        exact .inr excess
  -- If one were too many, all healthy ones would be, but the desired count of them stays.
  have short : ctx.excess.length ≤ ctx.healthy.length - ctx.desired := List.length_take_le _ _
  have unhealthy : ctx.healthy = [] := by
    by_contra some
    have positive := List.length_pos_iff.mpr some
    have sub : ctx.healthy ⊆ ctx.excess := by
      intro m among
      rcases either m (healthy_sub among) with reaped | excess
      · have well : m.isHealthy = true := (List.mem_filter.mp among).2
        rw [isHealthy_of_isFailed (reaped_failed m reaped).2] at well
        cases well
      · exact excess
    have nodup : ctx.healthy.Nodup := (List.Nodup.of_map _ distinct).filter _
    have long := (List.subperm_of_subset nodup sub).length_le
    omega
  intro m present
  rcases either m present with reaped | excess
  · exact reaped
  · have among := excess_sub excess
    rw [unhealthy] at among
    cases among

end PoolConvergenceCtx

section

variable [Slugs]

/-- The first slot on whose name is not taken by one of these Processes. -/
def firstSlot (pool : EphemeralPool) (occupied : List String) : Option Nat :=
  findSlot
    (fun slot => memberProcessName pool.metadata.name pool.ownedUidOrNameOrEmpty slot ∈ occupied)
    (u32Max / 2 - 0 + 1) 0

/-- Reaping members creates none. -/
theorem reapFailed_created (pool : EphemeralPool) (ns : String) (occupied : List String)
    (reaped : List PoolMemberSnapshot) {marks : List Process} {actions : List ConvergenceAction}
    (rest : Shows Event.created marks
      (applyConvergenceActions pool ns pool.metadata.name occupied 0 actions).run) :
    Shows Event.created marks
      (applyConvergenceActions pool ns pool.metadata.name occupied 0
        (reaped.map (fun m => .reapFailed m.processName) ++ actions)).run := by
  -- Each of the actions in front is one call, and none that creates.
  induction reaped with
  | nil => exact rest
  | cons m reaped ih =>
    show Shows _ ([] ++ marks) _
    exact Shows.liftBind (deleteProcess_uncreated ns m.processName).shows fun _ => ih

/-- Where the names of all slots are taken, nothing is created. -/
theorem createMember_uncreated {pool : EphemeralPool} {ns : String} {occupied : List String}
    (full : firstSlot pool occupied = none) (actions : List ConvergenceAction) :
    Quiet Event.created (applyConvergenceActions pool ns pool.metadata.name occupied 0
      (.createMember :: actions)).run := by
  -- Without a slot the loop ends before the call.
  unfold firstSlot at full
  rw [applyConvergenceActions]
  dsimp only
  rw [full]
  exact Quiet.pure _

/-- Where the name of a slot is free, a member is created there. -/
theorem createMember_created {pool : EphemeralPool} {ns : String} {occupied : List String}
    {slot : Nat} (free : firstSlot pool occupied = some slot) {actions : List ConvergenceAction}
    {trace : List Event} {outcome : Except String Unit}
    (runs : Runs (applyConvergenceActions pool ns pool.metadata.name occupied 0
      (.createMember :: actions)).run trace outcome) :
    trace.filterMap Event.created ≠ [] := by
  -- The first call is the creation, whatever its answer is.
  unfold firstSlot at free
  rw [applyConvergenceActions] at runs
  dsimp only at runs
  rw [free] at runs
  obtain ⟨front, answer, back, asked, -, rfl⟩ := runs_liftBind_iff.mp runs
  rw [runs_call_iff.mp asked]
  simp [Event.created]

/-- Behind the members that are reaped, the first action is the one that creates. -/
theorem reapFailed_then_created {pool : EphemeralPool} {ns : String} {occupied : List String}
    {slot : Nat} (free : firstSlot pool occupied = some slot) {actions : List ConvergenceAction}
    (reaped : List PoolMemberSnapshot) {trace : List Event} {outcome : Except String Unit}
    (runs : Runs (applyConvergenceActions pool ns pool.metadata.name occupied 0
      (reaped.map (fun m => .reapFailed m.processName) ++ .createMember :: actions)).run trace
        outcome) :
    trace.filterMap Event.created ≠ [] := by
  -- The actions in front are calls too, and what is created behind them stays in the trace.
  induction reaped generalizing trace with
  | nil => exact createMember_created free runs
  | cons m reaped ih =>
    obtain ⟨front, -, back, -, rest, rfl⟩ := runs_liftBind_iff.mp runs
    rw [List.filterMap_append]
    exact fun none => ih rest (List.append_eq_nil_iff.mp none).2

variable [Crates] {pool : EphemeralPool} {ns : String} {processes : List Process}
  {trace : List Event} {outcome : Except String Unit}

/-- Every run of a reconcile on these Processes creates no member, and asks for the deletion of
each one that the pool has. -/
def OnlyDrains (pool : EphemeralPool) (ns : String) (processes : List Process) : Prop :=
  ∀ trace outcome,
    Runs (reconcile pool).run (⟨.listProcesses ns, .ok processes⟩ :: trace) outcome →
      trace.filterMap Event.created = [] ∧
        ∀ p ∈ ownedBy pool processes, p.metadata.name ∈ trace.filterMap Event.deleted

omit [Slugs] [Crates] in
/-- All members have exited, and the policy replaces those. -/
def AllReaped (pool : EphemeralPool) (processes : List Process) : Prop :=
  pool.spec.replacementPolicy.replacesFailed = true ∧
    ∀ p ∈ ownedBy pool processes, p.observedPhaseOrPending.hasExited = true

omit [Crates] in
/-- The members have taken the names of all slots. -/
def SlotsTaken (pool : EphemeralPool) (processes : List Process) : Prop :=
  firstSlot pool ((ownedBy pool processes).map (·.metadata.name)) = none

/-- A pool that is sized by its allocations drains once it is being deleted. -/
theorem drains_of_sized (deleted : pool.isBeingDeleted = true) (sized : pool.spec.desired = 0)
    (runs : Runs (reconcileOwned pool ns processes).run trace outcome) :
    trace.filterMap Event.created = [] ∧
      ∀ p ∈ ownedBy pool processes, p.metadata.name ∈ trace.filterMap Event.deleted := by
  obtain ⟨members, now, applied, rows, carried, shown⟩ := runs_of_sized sized runs
  -- The check of the deletion comes first in this decision.
  have drain : decidePoolReconcile pool members now = .drain := if_pos deleted
  rw [drain] at carried
  rw [shown overlooks_created, shown overlooks_deleted]
  constructor
  · have quiet : Quiet Event.created (applyDecision pool ns pool.metadata.name members .drain) :=
      Quiet.each members fun m => deleteProcess_uncreated ns m.processName
    exact quiet _ _ carried
  · rw [applyDecision_shows _ _ _ _ _ _ _ carried, decisionDeletes]
    intro p owned
    rw [map_name_rows rows]
    exact List.mem_map_of_mem owned

omit [Slugs] [Crates] in
/-- All members are reaped exactly if all Processes have exited and the policy replaces those. -/
theorem allReaped_iff {snapshots : List PoolMemberSnapshot}
    (taken : List.Forall₂ IsSnapshot (ownedBy pool processes) snapshots)
    (some : ownedBy pool processes ≠ []) :
    (∀ m ∈ snapshots, m ∈ (PoolConvergenceCtx.observe pool snapshots).reaped) ↔
      AllReaped pool processes := by
  have phases := map_phase_snapshots taken
  -- The phases of the members are those of the Processes.
  have exited : (∀ m ∈ snapshots, m.phase.hasExited = true) ↔
      ∀ p ∈ ownedBy pool processes, p.observedPhaseOrPending.hasExited = true := by
    have exits := congrArg (List.all · (·.hasExited)) phases
    simpa using Bool.eq_iff_iff.mp exits
  have inhabited : snapshots ≠ [] := by
    rintro rfl
    exact some (List.map_eq_nil_iff.mp phases.symm)
  obtain ⟨first, present⟩ := List.exists_mem_of_ne_nil _ inhabited
  rw [AllReaped, ← exited, PoolConvergenceCtx.reaped]
  cases replaces : pool.spec.replacementPolicy.replacesFailed with
  | true =>
    simp only [PoolConvergenceCtx.observe, replaces, if_true, true_and, PoolConvergenceCtx.failed,
      PoolMemberSnapshot.isFailed, List.mem_filter]
    exact forall₂_congr fun m present => and_iff_right present
  | false =>
    simp only [PoolConvergenceCtx.observe, replaces, Bool.false_eq_true, if_false, false_and,
      iff_false]
    exact fun all => absurd (all first present) List.not_mem_nil

omit [Slugs] [Crates] in
/-- No policy both pauses on what has failed and replaces it. -/
theorem goes_of_reaped {ctx : PoolConvergenceCtx} (reaped : ∀ m ∈ ctx.members, m ∈ ctx.reaped) :
    ¬ (ctx.replacementPolicy.pausesOnFailure = true ∧ ctx.failed ≠ []) := by
  -- The policies that replace are not those that pause.
  rintro ⟨pauses, some⟩
  obtain ⟨m, among⟩ := List.exists_mem_of_ne_nil _ some
  have replaces :=
    (PoolConvergenceCtx.mem_failed_of_reaped (reaped m (List.mem_of_mem_filter among))).2
  revert pauses replaces
  cases ctx.replacementPolicy <;> decide

omit [Slugs] [Crates] in
/-- What a pool with a desired count asks for where all that it has is reaped. -/
theorem decide_of_reaped {ctx : PoolConvergenceCtx} (counted : 0 < ctx.desired)
    (reaped : ∀ m ∈ ctx.members, m ∈ ctx.reaped) :
    ctx.decide = ctx.reaped.map (fun m => .reapFailed m.processName) ++
      .createMember :: List.replicate (ctx.desired - 1) .createMember := by
  -- Nothing that has failed is healthy, so that all of the desired count is missing.
  have unhealthy : ctx.healthy = [] := by
    refine List.filter_eq_nil_iff.mpr fun m present => ?_
    have failed := (PoolConvergenceCtx.mem_failed_of_reaped (reaped m present)).1
    rw [PoolConvergenceCtx.isHealthy_of_isFailed (List.mem_filter.mp failed).2]
    exact Bool.false_ne_true
  have first : List.replicate ctx.desired ConvergenceAction.createMember =
      .createMember :: List.replicate (ctx.desired - 1) .createMember := by
    rw [← List.replicate_succ, Nat.sub_add_cancel counted]
  simp only [PoolConvergenceCtx.decide, if_neg (goes_of_reaped reaped), unhealthy,
    List.length_nil, if_pos counted, Nat.sub_zero, first]

omit [Crates] in
/-- A pool without members has a free slot. -/
theorem slotsTaken_ne_nil (taken : SlotsTaken pool processes) : ownedBy pool processes ≠ [] := by
  intro none
  rw [SlotsTaken, none, firstSlot, findSlot] at taken
  simp at taken

/-- A pool with a desired count does more than to drain, unless it has nothing but failed members
to reap and not a single slot left for another one. -/
theorem OnlyDrains.sized_or_full (placed : pool.metadata.ns = some ns)
    (named : ((ownedBy pool processes).map (·.metadata.name)).Nodup)
    (drains : OnlyDrains pool ns processes) :
    pool.spec.desired = 0 ∨ (AllReaped pool processes ∧ SlotsTaken pool processes) := by
  by_cases sized : pool.spec.desired = 0
  · exact .inl sized
  right
  have counted := Nat.pos_of_ne_zero sized
  -- A run in which every request succeeds.
  have runs := runs_play (succeeds processes) (reconcileOwned pool ns processes).run
  obtain ⟨uncreated, all⟩ := drains _ _ ((runs_reconcile_iff placed).mpr runs)
  obtain ⟨members, snapshots, applied, result, rows, taken, carried, shown⟩ :=
    runs_of_desired counted runs
  rw [shown overlooks_created] at uncreated
  rw [shown overlooks_deleted, applyConvergenceActions_shows _ _ _ _ _ _ _ carried,
    forall_names_iff taken] at all
  rw [← map_name_snapshots taken] at named
  have reaped := @PoolConvergenceCtx.reaped_of_deletes (.observe pool snapshots) named counted all
  rw [PoolMember.processNamesSet, map_name_rows rows, decide_of_reaped counted reaped] at carried
  have full : SlotsTaken pool processes := by
    cases free : firstSlot pool ((ownedBy pool processes).map (·.metadata.name)) with
    | none => exact free
    | some slot => exact absurd uncreated (reapFailed_then_created free _ carried)
  exact ⟨(allReaped_iff taken (slotsTaken_ne_nil full)).mp reaped, full⟩

/-- A pool that goes away only drains if it has no desired count, or if all slots are to be reaped.
-/
theorem onlyDrains_of_sized_or_full (placed : pool.metadata.ns = some ns)
    (deleted : pool.isBeingDeleted = true)
    (condition : pool.spec.desired = 0 ∨ (AllReaped pool processes ∧ SlotsTaken pool processes)) :
    OnlyDrains pool ns processes := by
  intro trace outcome runs
  rw [runs_reconcile_iff placed] at runs
  by_cases sized : pool.spec.desired = 0
  · exact drains_of_sized deleted sized runs
  obtain ⟨all, full⟩ := condition.resolve_left sized
  have counted := Nat.pos_of_ne_zero sized
  obtain ⟨members, snapshots, applied, result, rows, taken, carried, shown⟩ :=
    runs_of_desired counted runs
  have reaped := (allReaped_iff taken (slotsTaken_ne_nil full)).mpr all
  have decided := @decide_of_reaped (.observe pool snapshots) counted reaped
  rw [shown overlooks_created, shown overlooks_deleted,
    applyConvergenceActions_shows _ _ _ _ _ _ _ carried, forall_names_iff taken]
  constructor
  · rw [PoolMember.processNamesSet, map_name_rows rows, decided] at carried
    exact reapFailed_created pool ns _ _ (createMember_uncreated full _).shows _ _ carried
  · -- Every member is among those that are reaped.
    intro m present
    rw [convergenceDeletes, if_neg (goes_of_reaped reaped)]
    exact List.mem_map_of_mem (List.mem_append_left _ (reaped m present))

/-- A pool that is being deleted only drains exactly if it is sized by its allocations, or else has
nothing but failed members to reap and not a single slot left for another one. -/
theorem onlyDrains_iff (pool : EphemeralPool) (ns : String) (processes : List Process)
    (placed : pool.metadata.ns = some ns) (deleted : pool.isBeingDeleted = true)
    (named : ((ownedBy pool processes).map (·.metadata.name)).Nodup) :
    OnlyDrains pool ns processes ↔
      pool.spec.desired = 0 ∨ (AllReaped pool processes ∧ SlotsTaken pool processes) :=
  ⟨OnlyDrains.sized_or_full placed named, onlyDrains_of_sized_or_full placed deleted⟩

end

/-- A pool that is to keep so many healthy members, and is being deleted. -/
def leavingPool (desired : Nat) : EphemeralPool :=
  { countedPool desired with metadata.deletionTimestamp := some ⟨0⟩ }

/-- A pool without a desired count lets both of its members go. -/
theorem onlyDrains_sized :
    let _ := plainCrates
    let _ := plainSlugs
    OnlyDrains (leavingPool 0) "pools" (elders allocatedLifetime { permanent := some () }) := by
  let _ := plainCrates
  let _ := plainSlugs
  have named : ((ownedBy (leavingPool 0) (elders allocatedLifetime { permanent := some () })).map
      (·.metadata.name)).Nodup := by decide
  exact (onlyDrains_iff (leavingPool 0) "pools" _ rfl rfl named).mpr (.inl rfl)

/-- A pool with a desired count that has no members gets one although it is being deleted. -/
theorem not_onlyDrains :
    let _ := plainCrates
    let _ := plainSlugs
    ¬ OnlyDrains (leavingPool 1) "pools" [] := by
  intro _ _ drains
  rcases OnlyDrains.sized_or_full rfl (by decide) drains with zero | ⟨-, full⟩
  · cases zero
  · -- All slots are free.
    exact slotsTaken_ne_nil full rfl

end Tatara.Pool
