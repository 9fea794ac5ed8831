import Tatara.Lib.StableSort
import Tatara.Pool.Controller

/-! Which members a reconcile of a pool deletes, and when it spares the ones in use. -/

namespace Tatara.Pool

open Tatara.Crd Tatara.Rust Program

/-- The Process that a call deletes. -/
def Event.deleted : Event → Option String
  | ⟨.deleteProcess _ name, _⟩ => some name
  | _ => none

/-- Deleting shows as just that. -/
theorem deleteProcess_shows (ns name : String) :
    Shows Event.deleted [name] (deleteProcess ns name) :=
  Shows.bind (Shows.call fun _ => rfl) fun _ => Quiet.pure ()

/-- A mark that tells nothing of how the controller looks at its members and writes its status. -/
structure Overlooks {μ : Type} (mark : Event → Option μ) : Prop where
  now : ∀ now, mark ⟨.now, now⟩ = none
  status : ∀ ns name status answer, mark ⟨.mergePoolStatus ns name status, answer⟩ = none

theorem overlooks_deleted : Overlooks Event.deleted := ⟨fun _ => rfl, fun _ _ _ _ => rfl⟩

namespace Overlooks

variable {μ : Type} {mark : Event → Option μ}

theorem memberRow_quiet (overlooks : Overlooks mark) (p : Process) : Quiet mark (memberRow p) :=
  Quiet.bind (Quiet.call overlooks.now) fun _ => Quiet.pure _

theorem snapshot_quiet (overlooks : Overlooks mark) (p : Process) : Quiet mark (snapshot p) :=
  Quiet.bind (Quiet.call overlooks.now) fun _ => Quiet.pure _

/-- The status is written with the time, and nothing else is called. -/
theorem mergeObservedStatus_quiet (overlooks : Overlooks mark) (pool : EphemeralPool) (ns : String)
    (members : List PoolMember) : Quiet mark (mergeObservedStatus pool ns members) :=
  Quiet.bind (Quiet.call overlooks.now) fun _ =>
    Quiet.bind (Quiet.call (overlooks.status _ _ _)) fun _ => Quiet.pure _

end Overlooks

/-- The names of what a pool that is sized by its allocations deletes. -/
def decisionDeletes (members : List PoolMember) : PoolDecision → List String
  | .noOp | .spawn _ => []
  | .reapExcess count => ((inState .free members).take count).map (·.processName)
  | .replaceMembers processNames => processNames
  | .drain => members.map (·.processName)

/-- The names of what a pool with a desired count deletes. -/
def convergenceDeletes (ctx : PoolConvergenceCtx) : List String :=
  if ctx.replacementPolicy.pausesOnFailure ∧ ctx.failed ≠ [] then []
  else (ctx.reaped ++ ctx.excess).map (·.processName)

/-- The Processes of a pool among others. -/
def ownedBy (pool : EphemeralPool) (processes : List Process) : List Process :=
  processes.filter (processBelongsToPool pool.metadata.name)

/-- A row of a Process, for some reading of the clock. -/
def IsRow (p : Process) (m : PoolMember) : Prop :=
  ∃ now, m = .unallocated p.metadata.name (processToMemberState p) (p.observedPhaseSinceOr now)

/-- A snapshot of a Process, for some reading of the clock. -/
def IsSnapshot (p : Process) (m : PoolMemberSnapshot) : Prop :=
  ∃ now, m =
    { processName := p.metadata.name
      phase := p.observedPhaseOrPending
      createdAt := p.createdAtOr now }

/-- Each element of the one list is related to one of the other. -/
theorem exists_of_forall₂ {α β : Type} {R : α → β → Prop} {l : List α} {m : List β}
    (related : List.Forall₂ R l m) {y : β} (present : y ∈ m) : ∃ x ∈ l, R x y := by
  -- The pairs are gone through until the one with the element.
  induction related with
  | nil => cases present
  | cons first rest ih =>
    rcases List.mem_cons.mp present with rfl | later
    · exact ⟨_, List.mem_cons_self, first⟩
    · obtain ⟨x, among, holds⟩ := ih later
      exact ⟨x, List.mem_cons_of_mem _ among, holds⟩

/-- Lists that are related element by element have the same values where the elements do. -/
theorem map_eq_of_forall₂ {α β γ : Type} {R : α → β → Prop} {f : α → γ} {g : β → γ}
    (agree : ∀ a b, R a b → g b = f a) {l : List α} {m : List β} (related : List.Forall₂ R l m) :
    m.map g = l.map f := by
  induction related with
  | nil => rfl
  | cons first rest ih => rw [List.map_cons, List.map_cons, agree _ _ first, ih]

/-- Rows have the names of their Processes. -/
theorem map_name_rows {owned : List Process} {members : List PoolMember}
    (rows : List.Forall₂ IsRow owned members) :
    members.map (·.processName) = owned.map (·.metadata.name) :=
  map_eq_of_forall₂ (fun _ _ ⟨_, same⟩ => congrArg PoolMember.processName same) rows

/-- Snapshots have the names of their Processes. -/
theorem map_name_snapshots {owned : List Process} {snapshots : List PoolMemberSnapshot}
    (taken : List.Forall₂ IsSnapshot owned snapshots) :
    snapshots.map (·.processName) = owned.map (·.metadata.name) :=
  map_eq_of_forall₂ (fun _ _ ⟨_, same⟩ => congrArg PoolMemberSnapshot.processName same) taken

/-- Snapshots have the phases of their Processes. -/
theorem map_phase_snapshots {owned : List Process} {snapshots : List PoolMemberSnapshot}
    (taken : List.Forall₂ IsSnapshot owned snapshots) :
    snapshots.map (·.phase) = owned.map (·.observedPhaseOrPending) :=
  map_eq_of_forall₂ (fun _ _ ⟨_, same⟩ => congrArg PoolMemberSnapshot.phase same) taken

/-- What `memberRow` returns is a row of the Process. -/
theorem isRow_of_runs {p : Process} {m : PoolMember} {trace : List Event}
    (runs : Runs (memberRow p) trace m) :
    IsRow p m := by
  obtain ⟨-, now, back, -, ended, -⟩ := runs_bind_iff.mp runs
  exact ⟨now, (runs_pure_iff.mp ended).2⟩

/-- What `snapshot` returns is a snapshot of the Process. -/
theorem isSnapshot_of_runs {p : Process} {m : PoolMemberSnapshot} {trace : List Event}
    (runs : Runs (snapshot p) trace m) : IsSnapshot p m := by
  obtain ⟨-, now, back, -, ended, -⟩ := runs_bind_iff.mp runs
  exact ⟨now, (runs_pure_iff.mp ended).2⟩

section

variable [Slugs]

/-- Spawning deletes nothing. -/
theorem spawnMembers_quiet (pool : EphemeralPool) (poolName : String) (occupied : List String)
    (slots slot count : Nat) :
    Quiet Event.deleted (spawnMembers pool poolName occupied slots slot count) := by
  -- The loop ends with its slots or its count, or else goes on to the next slot.
  fun_induction spawnMembers pool poolName occupied slots slot count with
  | case1 slot count => exact Quiet.pure ()
  | case2 slots slot _ => exact Quiet.pure ()
  | case3 slots slot count name taken ih => exact ih
  | case4 slots slot count name free p ih =>
    refine Quiet.bind (Quiet.call fun _ => rfl) fun created => ?_
    -- Whatever becomes of the create, the loop goes on or ends.
    cases created with
    | ok _ => exact ih
    | error e =>
      cases e with
      | conflict => exact ih
      | other _ => exact Quiet.pure ()

/-- A decision deletes what it names. -/
theorem applyDecision_shows (pool : EphemeralPool) (ns poolName : String)
    (members : List PoolMember) (decision : PoolDecision) :
    Shows Event.deleted (decisionDeletes members decision)
      (applyDecision pool ns poolName members decision) := by
  -- A decision that names members deletes these, and the others delete none.
  cases decision with
  | noOp => exact (Quiet.pure ()).shows
  | spawn count => exact (spawnMembers_quiet _ _ _ _ _ _).shows
  | reapExcess count => exact Shows.forM _ fun m => deleteProcess_shows ns m.processName
  | replaceMembers processNames =>
    have shown := Shows.forM processNames fun name => deleteProcess_shows ns name
    rwa [List.map_id'] at shown
  | drain => exact Shows.forM _ fun m => deleteProcess_shows ns m.processName

/-- Creating members deletes nothing. -/
theorem createMembers_quiet (pool : EphemeralPool) (ns poolName : String) (occupied : List String)
    (count nextSlot : Nat) :
    Quiet Event.deleted (applyConvergenceActions pool ns poolName occupied nextSlot
      (List.replicate count .createMember)).run := by
  induction count generalizing nextSlot with
  | zero => exact Quiet.pure _
  | succ count ih =>
    rw [List.replicate_succ, applyConvergenceActions]
    split
    · -- The slots are used up.
      exact Quiet.pure _
    · refine Quiet.tryBind (Quiet.lift (Quiet.call fun _ => rfl)) fun created => ?_
      cases created with
      | ok _ => exact ih _
      | error e =>
        cases e with
        | conflict => exact ih _
        | other _ => exact Quiet.pure _

/-- Actions that delete show the names of what they delete before what follows them. -/
theorem reapFailed_shows (pool : EphemeralPool) (ns poolName : String) (occupied : List String)
    (nextSlot : Nat) (reaped : List PoolMemberSnapshot) {more : List String}
    {actions : List ConvergenceAction}
    (rest : Shows Event.deleted more
      (applyConvergenceActions pool ns poolName occupied nextSlot actions).run) :
    Shows Event.deleted (reaped.map (·.processName) ++ more)
      (applyConvergenceActions pool ns poolName occupied nextSlot
        (reaped.map (fun m => .reapFailed m.processName) ++ actions)).run := by
  -- Each of them is one delete in front of the rest.
  induction reaped with
  | nil => exact rest
  | cons m reaped ih =>
    show Shows _ ([m.processName] ++ (reaped.map (·.processName) ++ more)) _
    exact Shows.liftBind (deleteProcess_shows ns m.processName) fun _ => ih

/-- To signal the members in excess deletes just these. -/
theorem signalSigterm_shows (pool : EphemeralPool) (ns poolName : String) (occupied : List String)
    (nextSlot : Nat) (excess : List PoolMemberSnapshot) :
    Shows Event.deleted (excess.map (·.processName))
      (applyConvergenceActions pool ns poolName occupied nextSlot
        (excess.map fun m => .signalSigterm m.processName)).run := by
  induction excess with
  | nil => exact Quiet.pure _
  | cons m excess ih => exact Shows.liftBind (deleteProcess_shows ns m.processName) fun _ => ih

/-- The actions of a pool with a desired count delete the failed and the excess members. -/
theorem applyConvergenceActions_shows (pool : EphemeralPool) (ns poolName : String)
    (occupied : List String) (ctx : PoolConvergenceCtx) :
    Shows Event.deleted (convergenceDeletes ctx)
      (applyConvergenceActions pool ns poolName occupied 0 ctx.decide).run := by
  rw [convergenceDeletes, PoolConvergenceCtx.decide]
  split
  · -- A pool that pauses does nothing else.
    exact Quiet.pure _
  · rw [List.map_append]
    dsimp only
    split
    · rename_i few
      -- A pool that is short of members has none too many.
      have none : ctx.excess = [] := by
        simp [PoolConvergenceCtx.excess, Nat.sub_eq_zero_of_le few.le]
      rw [none]
      exact reapFailed_shows _ _ _ _ _ _ (createMembers_quiet _ _ _ _ _ _).shows
    · split
      · exact reapFailed_shows _ _ _ _ _ _ (signalSigterm_shows _ _ _ _ _ _)
      · rename_i enough exact
        -- At the desired count there is only what has failed to delete.
        have none : ctx.excess = [] := by
          simp [PoolConvergenceCtx.excess, Nat.sub_eq_zero_of_le (Nat.le_of_not_lt exact)]
        rw [none]
        have ended : Shows Event.deleted []
            (applyConvergenceActions pool ns poolName occupied 0 []).run := (Quiet.pure _).shows
        have shown := reapFailed_shows pool ns poolName occupied 0 ctx.reaped ended
        rwa [List.append_nil (List.map (fun m => ConvergenceAction.reapFailed _) _)] at shown

variable [Crates] {pool : EphemeralPool} {ns : String} {processes : List Process}
  {trace : List Event} {outcome : Except String Unit}

/-- Behind the listing a reconcile is about the Processes that were listed. -/
theorem runs_reconcile_iff (placed : pool.metadata.ns = some ns) :
    Runs (reconcile pool).run (⟨.listProcesses ns, .ok processes⟩ :: trace) outcome ↔
      Runs (reconcileOwned pool ns processes).run trace outcome := by
  rw [reconcile, placed]
  dsimp only
  rw [runs_liftBind_iff]
  constructor
  · intro runs
    -- The answer of the listing is the first event of the run.
    obtain ⟨front, answer, back, listed, rest, whole⟩ := runs
    rw [runs_call_iff.mp listed] at whole
    cases whole
    exact rest
  · intro rest
    exact ⟨_, .ok processes, trace, runs_call_iff.mpr rfl, rest, rfl⟩

/-- What a run of a pool with a desired count shows, it shows while it carries out what the
snapshots of its Processes call for. -/
theorem runs_of_desired (counted : 0 < pool.spec.desired)
    (runs : Runs (reconcileOwned pool ns processes).run trace outcome) :
    ∃ members snapshots applied result, List.Forall₂ IsRow (ownedBy pool processes) members ∧
      List.Forall₂ IsSnapshot (ownedBy pool processes) snapshots ∧
      Runs (applyConvergenceActions pool ns pool.metadata.name
        (PoolMember.processNamesSet members) 0
        (PoolConvergenceCtx.observe pool snapshots).decide).run applied result ∧
      ∀ {μ : Type} {mark : Event → Option μ}, Overlooks mark →
        trace.filterMap mark = applied.filterMap mark := by
  rw [reconcileOwned] at runs
  obtain ⟨first, members, _, rows, decides, rfl⟩ := runs_liftBind_iff.mp runs
  rw [if_pos counted] at decides
  obtain ⟨second, snapshots, _, taken, clocked, rfl⟩ := runs_liftBind_iff.mp decides
  obtain ⟨third, now, back, looked, rest, rfl⟩ := runs_liftBind_iff.mp clocked
  -- Up to here the controller has only looked, and afterwards it only writes the status.
  have before {μ : Type} {mark : Event → Option μ} (overlooks : Overlooks mark) :
      (first ++ (second ++ (third ++ back))).filterMap mark = back.filterMap mark := by
    have quietRows := Quiet.mapM _ overlooks.memberRow_quiet _ _ rows
    have quietSnapshots := Quiet.mapM _ overlooks.snapshot_quiet _ _ taken
    have quietClock : third.filterMap mark = [] := Quiet.call overlooks.now _ _ looked
    simp only [List.filterMap_append, quietRows, quietSnapshots, quietClock, List.nil_append]
  have isRows := (runs_mapM rows).imp fun _ _ ⟨_, runs⟩ => isRow_of_runs runs
  have isTaken := (runs_mapM taken).imp fun _ _ ⟨_, runs⟩ => isSnapshot_of_runs runs
  rcases runs_try_iff.mp rest with ⟨error, failed, -⟩ | ⟨fourth, _, last, applied, patched, rfl⟩
  · -- An action that fails ends the reconcile, with all requests sent that come before it.
    exact ⟨members, snapshots, back, _, isRows, isTaken, failed, before⟩
  · refine ⟨members, snapshots, fourth, _, isRows, isTaken, applied, fun overlooks => ?_⟩
    have quietStatus := Quiet.lift (overlooks.mergeObservedStatus_quiet pool ns members) _ _ patched
    rw [before overlooks, List.filterMap_append, quietStatus, List.append_nil]

/-- A pool with a desired count deletes what the snapshots of its Processes call for. -/
theorem deletes_of_desired (counted : 0 < pool.spec.desired)
    (runs : Runs (reconcileOwned pool ns processes).run trace outcome) :
    ∃ snapshots, List.Forall₂ IsSnapshot (ownedBy pool processes) snapshots ∧
      trace.filterMap Event.deleted = convergenceDeletes (.observe pool snapshots) := by
  -- Of all calls only those of the actions show as deletions.
  obtain ⟨members, snapshots, applied, result, -, taken, carried, shown⟩ :=
    runs_of_desired counted runs
  have shows := applyConvergenceActions_shows pool ns pool.metadata.name
    (PoolMember.processNamesSet members) (.observe pool snapshots)
  exact ⟨snapshots, taken, (shown overlooks_deleted).trans (shows _ _ carried)⟩

/-- What a run of a pool that is sized by its allocations shows, it shows while it carries out its
decision. -/
theorem runs_of_sized (sized : pool.spec.desired = 0)
    (runs : Runs (reconcileOwned pool ns processes).run trace outcome) :
    ∃ members now applied, List.Forall₂ IsRow (ownedBy pool processes) members ∧
      Runs (applyDecision pool ns pool.metadata.name members
        (decidePoolReconcile pool members now)) applied () ∧
      ∀ {μ : Type} {mark : Event → Option μ}, Overlooks mark →
        trace.filterMap mark = applied.filterMap mark := by
  rw [reconcileOwned] at runs
  obtain ⟨first, members, _, rows, decides, rfl⟩ := runs_liftBind_iff.mp runs
  rw [if_neg (by omega)] at decides
  obtain ⟨second, now, _, looked, rest, rfl⟩ := runs_liftBind_iff.mp decides
  obtain ⟨third, _, back, applied, patched, rfl⟩ := runs_liftBind_iff.mp rest
  refine ⟨members, now, third, (runs_mapM rows).imp fun _ _ ⟨_, runs⟩ => isRow_of_runs runs,
    applied, fun overlooks => ?_⟩
  -- Everything but the decision is quiet.
  have quietRows := Quiet.mapM _ overlooks.memberRow_quiet _ _ rows
  have quietClock : second.filterMap _ = [] := Quiet.call overlooks.now _ _ looked
  have quietStatus := Quiet.lift (overlooks.mergeObservedStatus_quiet pool ns members) _ _ patched
  simp only [List.filterMap_append, quietRows, quietClock, quietStatus, List.nil_append,
    List.append_nil]

/-- A pool that is sized by its allocations deletes what its decision names. -/
theorem deletes_of_sized (sized : pool.spec.desired = 0)
    (runs : Runs (reconcileOwned pool ns processes).run trace outcome) :
    ∃ members now, List.Forall₂ IsRow (ownedBy pool processes) members ∧
      trace.filterMap Event.deleted =
        decisionDeletes members (decidePoolReconcile pool members now) := by
  -- Of all calls only those of the decision show as deletions.
  obtain ⟨members, now, applied, rows, carried, shown⟩ := runs_of_sized sized runs
  have shows := applyDecision_shows pool ns pool.metadata.name members
    (decidePoolReconcile pool members now) _ _ carried
  exact ⟨members, now, rows, (shown overlooks_deleted).trans shows⟩

end

/-- What the API server sees to: the Processes of a namespace have names of their own, and a stamp
of when they were created. -/
structure Listed (processes : List Process) : Prop where
  named : (processes.map (·.metadata.name)).Nodup
  stamped : ∀ p ∈ processes, p.metadata.creationTimestamp.isSome

/-- The healthy Processes of a pool. -/
def healthyOf (pool : EphemeralPool) (processes : List Process) : List Process :=
  (ownedBy pool processes).filter fun p => p.observedPhaseOrPending.isRunning

/-- When a Process was created, in nanoseconds. -/
def createdNanos (p : Process) : Int := (p.createdAtOr ⟨0⟩).nanos

/-- A pool that has members in use to spare: it goes by its allocations, it is paused, or enough
healthy members are older than any one in use to make up for all that are too many. -/
def Spares (pool : EphemeralPool) (processes : List Process) : Prop :=
  pool.spec.desired = 0 ∨
    (pool.spec.replacementPolicy.pausesOnFailure = true ∧
      ∃ p ∈ ownedBy pool processes, p.observedPhaseOrPending.hasExited = true) ∨
    ∀ x ∈ (healthyOf pool processes).zipIdx, processToMemberState x.1 = .allocated →
      (healthyOf pool processes).length - pool.spec.desired ≤
        StableSort.ahead createdNanos (healthyOf pool processes) x

/-- A member in use counts as healthy. -/
theorem isRunning_of_allocated {p : Process} (used : processToMemberState p = .allocated) :
    p.observedPhaseOrPending.isRunning = true := by
  unfold processToMemberState at used
  -- Only an attested Process can be allocated.
  split at used <;> simp_all [Process.observedPhaseOrPending, ProcessPhase.isRunning]

/-- Processes with names of their own are the same where their names are. -/
theorem Listed.eq_of_name {processes : List Process} (listed : Listed processes) {p q : Process}
    (here : p ∈ processes) (there : q ∈ processes) (same : p.metadata.name = q.metadata.name) :
    p = q :=
  List.inj_on_of_nodup_map listed.named here there same

/-- What a pool that stays deletes by its allocations is not in use. -/
theorem state_of_mem_decisionDeletes [Crates] {pool : EphemeralPool} {members : List PoolMember}
    {now : DateTime} {name : String} (kept : pool.isBeingDeleted = false)
    (deleted : name ∈ decisionDeletes members (decidePoolReconcile pool members now)) :
    ∃ m ∈ members, m.processName = name ∧ m.state ≠ .allocated := by
  -- Every decision names members that are in one state, which is another one.
  have found (state : MemberState) (chosen : List PoolMember) (other : state ≠ .allocated)
      (among : chosen ⊆ inState state members) (named : name ∈ chosen.map (·.processName)) :
      ∃ m ∈ members, m.processName = name ∧ m.state ≠ .allocated := by
    obtain ⟨m, chosen, same⟩ := List.mem_map.mp named
    obtain ⟨present, entered⟩ := List.mem_filter.mp (among chosen)
    exact ⟨m, present, same, by simpa [of_decide_eq_true entered] using other⟩
  rw [decidePoolReconcile, kept, bucket_eq] at deleted
  simp only [Bool.false_eq_true, if_false] at deleted
  split at deleted
  · exact found .failed _ (by simp) (List.Subset.refl _) deleted
  · -- Behind the failed members come the stale ones and the sizes, and both name free members.
    split at deleted
    · exact found .free (staleFree pool members now) (by simp) List.filter_sublist.subset deleted
    · generalize decided : decideSize _ _ = decision at deleted
      rcases decideSize_cases pool.spec _ with none | ⟨count, spawned⟩ | ⟨count, reaped⟩
      · cases decided.symm.trans none ▸ deleted
      · cases decided.symm.trans spawned ▸ deleted
      · rw [decided.symm.trans reaped] at deleted
        exact found .free _ (by simp) (List.take_subset _ _) deleted

/-- A decision by the allocations names no member that is in use. -/
theorem not_deleted_of_sized [Crates] {pool : EphemeralPool} {processes : List Process}
    {members : List PoolMember} {now : DateTime} (listed : Listed processes)
    (kept : pool.isBeingDeleted = false)
    (rows : List.Forall₂ IsRow (ownedBy pool processes) members) {p : Process}
    (owned : p ∈ ownedBy pool processes) (used : processToMemberState p = .allocated) :
    p.metadata.name ∉ decisionDeletes members (decidePoolReconcile pool members now) := by
  intro deleted
  obtain ⟨m, present, same, idle⟩ := state_of_mem_decisionDeletes kept deleted
  -- The row is that of a Process with the same name, so of the one in use.
  obtain ⟨q, ownedToo, now, rfl⟩ := exists_of_forall₂ rows present
  have here := List.mem_of_mem_filter owned
  have there := List.mem_of_mem_filter ownedToo
  cases listed.eq_of_name there here same
  exact idle used

/-- What the decision on the desired count knows of a Process that is stamped. -/
def snapshotOf (p : Process) : PoolMemberSnapshot :=
  { processName := p.metadata.name
    phase := p.observedPhaseOrPending
    createdAt := p.createdAtOr ⟨0⟩ }

/-- The snapshots of Processes that are stamped do not depend on the clock. -/
theorem snapshots_eq {owned : List Process} {snapshots : List PoolMemberSnapshot}
    (stamped : ∀ p ∈ owned, p.metadata.creationTimestamp.isSome)
    (taken : List.Forall₂ IsSnapshot owned snapshots) : snapshots = owned.map snapshotOf := by
  -- A snapshot reads the clock only for a Process without a time stamp.
  induction taken with
  | nil => rfl
  | cons first rest ih =>
    obtain ⟨now, rfl⟩ := first
    obtain ⟨created, known⟩ := Option.isSome_iff_exists.mp (stamped _ List.mem_cons_self)
    rw [List.map_cons, ih fun p later => stamped p (List.mem_cons_of_mem _ later)]
    simp [snapshotOf, Process.createdAtOr, known]

section

variable {pool : EphemeralPool} {processes : List Process}

/-- The healthy members are those that the snapshots show as healthy. -/
theorem healthy_observe :
    (PoolConvergenceCtx.observe pool ((ownedBy pool processes).map snapshotOf)).healthy =
      (healthyOf pool processes).map snapshotOf :=
  List.filter_map

/-- A pool pauses on the members that have exited. -/
theorem failed_observe_ne_nil :
    (PoolConvergenceCtx.observe pool ((ownedBy pool processes).map snapshotOf)).failed ≠ [] ↔
      ∃ p ∈ ownedBy pool processes, p.observedPhaseOrPending.hasExited = true := by
  simp [PoolConvergenceCtx.failed, PoolConvergenceCtx.observe, snapshotOf,
    PoolMemberSnapshot.isFailed, List.filter_eq_nil_iff]

/-- The excess members are the healthy ones with too few ahead of them. -/
theorem mem_excess_iff {m : PoolMemberSnapshot} :
    m ∈ (PoolConvergenceCtx.observe pool ((ownedBy pool processes).map snapshotOf)).excess ↔
      ∃ x ∈ (healthyOf pool processes).zipIdx, snapshotOf x.1 = m ∧
        StableSort.ahead createdNanos (healthyOf pool processes) x <
          (healthyOf pool processes).length - pool.spec.desired := by
  -- Being ahead is the same for Processes and their snapshots.
  have same (x : Process × Nat) :
      StableSort.ahead (fun m : PoolMemberSnapshot => m.createdAt.nanos)
          ((healthyOf pool processes).map snapshotOf) (snapshotOf x.1, x.2) =
        StableSort.ahead createdNanos (healthyOf pool processes) x := by
    rw [StableSort.ahead, StableSort.ahead, List.zipIdx_map, List.countP_map]
    rfl
  -- The excess is the front of a stable sort by the time of creation.
  rw [PoolConvergenceCtx.excess, healthy_observe, StableSort.mem_take_mergeSort_iff
    fun m : PoolMemberSnapshot => m.createdAt.nanos]
  simp only [List.zipIdx_map, List.mem_map, Prod.map, List.length_map]
  constructor
  · intro front
    obtain ⟨place, ⟨x, present, equal⟩, few⟩ := front
    cases equal
    exact ⟨x, present, rfl, same x ▸ few⟩
  · intro front
    obtain ⟨x, present, rfl, few⟩ := front
    exact ⟨x.2, ⟨x, present, rfl⟩, (same x).symm ▸ few⟩

/-- A member in use is deleted by the desired count exactly where too few are ahead of it and the
pool is not paused. -/
theorem mem_convergenceDeletes_iff (listed : Listed processes) {p : Process}
    (owned : p ∈ ownedBy pool processes) (used : processToMemberState p = .allocated) :
    p.metadata.name ∈
        convergenceDeletes (.observe pool ((ownedBy pool processes).map snapshotOf)) ↔
      ¬ (pool.spec.replacementPolicy.pausesOnFailure = true ∧
        ∃ q ∈ ownedBy pool processes, q.observedPhaseOrPending.hasExited = true) ∧
      ∃ place, (p, place) ∈ (healthyOf pool processes).zipIdx ∧
        StableSort.ahead createdNanos (healthyOf pool processes) (p, place) <
          (healthyOf pool processes).length - pool.spec.desired := by
  -- Among the Processes of the pool only the one in use has its name.
  have only {q : Process} (also : q ∈ ownedBy pool processes)
      (same : q.metadata.name = p.metadata.name) : q = p :=
    listed.eq_of_name (List.mem_of_mem_filter also) (List.mem_of_mem_filter owned) same
  have healthy := isRunning_of_allocated used
  -- It is not among the failed ones, so only the excess can have it.
  have unreaped : p.metadata.name ∉ (PoolConvergenceCtx.observe pool
      ((ownedBy pool processes).map snapshotOf)).reaped.map (·.processName) := by
    intro reaped
    obtain ⟨m, among, same⟩ := List.mem_map.mp reaped
    rw [PoolConvergenceCtx.reaped] at among
    split at among
    · obtain ⟨present, exited⟩ := List.mem_filter.mp among
      obtain ⟨q, also, rfl⟩ := List.mem_map.mp present
      cases only also same
      revert exited healthy
      simp only [PoolMemberSnapshot.isFailed, snapshotOf]
      cases p.observedPhaseOrPending <;> decide
    · cases among
  rw [convergenceDeletes, ← failed_observe_ne_nil]
  split
  · -- A pool that pauses deletes nothing.
    rename_i pauses
    exact iff_of_false (by simp) fun spared => spared.1 pauses
  · rename_i goes
    rw [List.map_append, List.mem_append, or_iff_right unreaped, List.mem_map]
    constructor
    · intro named
      obtain ⟨m, excess, same⟩ := named
      obtain ⟨⟨q, place⟩, present, rfl, few⟩ := mem_excess_iff.mp excess
      have also : q ∈ ownedBy pool processes :=
        List.mem_of_mem_filter (List.fst_mem_of_mem_zipIdx present)
      cases only also same
      exact ⟨goes, place, present, few⟩
    · intro front
      obtain ⟨-, place, present, few⟩ := front
      exact ⟨snapshotOf p, mem_excess_iff.mpr ⟨(p, place), present, rfl, few⟩, rfl⟩

end

section

variable [Slugs] [Crates]

/-- Surroundings in which every request succeeds. -/
def succeeds (processes : List Process) : ∀ c, Answer c
  | .now => ⟨0⟩
  | .listProcesses _ => .ok processes
  | .createProcess _ => .ok ()
  | .deleteProcess _ _ => .ok ()
  | .mergePoolStatus _ _ _ => .ok ()

/-- No run of a reconcile on these Processes deletes a member that is in use. -/
def SparesInUse (pool : EphemeralPool) (ns : String) (processes : List Process) : Prop :=
  ∀ trace outcome,
    Runs (reconcile pool).run (⟨.listProcesses ns, .ok processes⟩ :: trace) outcome →
      ∀ p ∈ ownedBy pool processes, processToMemberState p = .allocated →
        p.metadata.name ∉ trace.filterMap Event.deleted

/-- What a run deletes by the desired count is the same for all of them. -/
theorem Listed.deletes_eq {pool : EphemeralPool} {ns : String} {processes : List Process}
    (listed : Listed processes) (counted : 0 < pool.spec.desired) {trace : List Event}
    {outcome : Except String Unit}
    (runs : Runs (reconcileOwned pool ns processes).run trace outcome) :
    trace.filterMap Event.deleted =
      convergenceDeletes (.observe pool ((ownedBy pool processes).map snapshotOf)) := by
  -- With their stamps all Processes have just one snapshot.
  have stamped : ∀ p ∈ ownedBy pool processes, p.metadata.creationTimestamp.isSome :=
    fun p owned => listed.stamped p (List.mem_of_mem_filter owned)
  obtain ⟨snapshots, taken, deleted⟩ := deletes_of_desired counted runs
  rw [deleted, snapshots_eq stamped taken]

/-- A pool that spares the members in use has enough others to delete. -/
theorem Listed.spares {pool : EphemeralPool} {ns : String} {processes : List Process}
    (listed : Listed processes) (placed : pool.metadata.ns = some ns)
    (spares : SparesInUse pool ns processes) : Spares pool processes := by
  by_cases sized : pool.spec.desired = 0
  · exact .inl sized
  refine .inr (or_iff_not_imp_left.mpr fun goes => ?_)
  intro x present used
  obtain ⟨p, place⟩ := x
  have owned : p ∈ ownedBy pool processes :=
    List.mem_of_mem_filter (List.fst_mem_of_mem_zipIdx present)
  by_contra few
  -- A run in which every request succeeds deletes the member all the same.
  have runs := runs_play (succeeds processes) (reconcileOwned pool ns processes).run
  have spared := spares _ _ ((runs_reconcile_iff placed).mpr runs) p owned used
  rw [listed.deletes_eq (Nat.pos_of_ne_zero sized) runs,
    mem_convergenceDeletes_iff listed owned used] at spared
  exact spared ⟨goes, place, present, Nat.lt_of_not_ge few⟩

/-- A pool with enough others to delete spares the members in use. -/
theorem Listed.sparesInUse {pool : EphemeralPool} {ns : String} {processes : List Process}
    (listed : Listed processes) (placed : pool.metadata.ns = some ns)
    (kept : pool.isBeingDeleted = false) (spares : Spares pool processes) :
    SparesInUse pool ns processes := by
  intro trace outcome runs p owned used deleted
  rw [runs_reconcile_iff placed] at runs
  -- The desired count tells which of the two decisions is made.
  by_cases sized : pool.spec.desired = 0
  · obtain ⟨members, now, rows, same⟩ := deletes_of_sized sized runs
    exact not_deleted_of_sized listed kept rows owned used (same ▸ deleted)
  · rw [listed.deletes_eq (Nat.pos_of_ne_zero sized) runs,
      mem_convergenceDeletes_iff listed owned used] at deleted
    obtain ⟨goes, place, present, few⟩ := deleted
    rcases spares with zero | paused | older
    · exact sized zero
    · exact goes paused
    · exact absurd (older (p, place) present used) (Nat.not_le_of_lt few)

/-- A pool that is not being deleted keeps its hands off the members in use exactly where it goes
by its allocations, is paused, or has older healthy members for all that are too many. -/
theorem sparesInUse_iff (pool : EphemeralPool) (ns : String) (processes : List Process)
    (placed : pool.metadata.ns = some ns) (kept : pool.isBeingDeleted = false)
    (listed : Listed processes) : SparesInUse pool ns processes ↔ Spares pool processes :=
  ⟨listed.spares placed, listed.sparesInUse placed kept⟩

end

/-- Slugs that only count the slots. -/
@[reducible] def plainSlugs : Slugs where
  slotSlug _ slot := String.ofList (renderNat slot)

/-- A pool that is to keep so many healthy members. -/
def countedPool (desired : Nat) : EphemeralPool :=
  { sizedPool 0 0 0 with spec.desired := desired }

/-- An attested member of the pool with this lifetime. -/
def attestedMember (name : String) (created : Int) (lifetime : Lifetime) : Process :=
  { metadata :=
      { name
        ns := some "pools"
        annotations := [(annotationPool, "pool")]
        creationTimestamp := some ⟨created⟩ }
    spec := { intent := {}, lifetime, rest := .null }
    status := some { phase := .attested } }

/-- The lifetime of a member that is allocated. -/
def allocatedLifetime : Lifetime :=
  { permanent := some ()
    ephemeral := some { ttl := "1h", teardownPolicy := .always, exports := [] } }

/-- Two members, the first of which is the older one. -/
def elders (first second : Lifetime) : List Process :=
  [attestedMember "pool-0" 0 first, attestedMember "pool-1" 1 second]

/-- The two members have different names and stamps. -/
theorem listed_elders (first second : Lifetime) : Listed (elders first second) where
  named := by simp [elders, attestedMember]
  stamped := by simp [elders, attestedMember]

theorem healthyOf_elders (desired : Nat) (first second : Lifetime) :
    healthyOf (countedPool desired) (elders first second) = elders first second := rfl

/-- A pool with one member too many spares the younger one, which is in use. -/
theorem sparesInUse_iff_younger :
    let _ := plainCrates
    let _ := plainSlugs
    SparesInUse (countedPool 1) "pools" (elders { permanent := some () } allocatedLifetime) := by
  let _ := plainCrates
  let _ := plainSlugs
  refine (sparesInUse_iff (countedPool 1) "pools" _ rfl rfl (listed_elders _ _)).mpr ?_
  refine .inr (.inr ?_)
  intro x present used
  rw [healthyOf_elders] at present
  -- The older member is not in use, and it is ahead of the other one.
  obtain rfl | rfl : x = (attestedMember "pool-0" 0 { permanent := some () }, 0) ∨
      x = (attestedMember "pool-1" 1 allocatedLifetime, 1) := by
    simpa [elders] using present
  · cases used
  · decide

/-- A pool with one member too many deletes the older one although it is in use. -/
theorem not_sparesInUse_older :
    let _ := plainCrates
    let _ := plainSlugs
    ¬ SparesInUse (countedPool 1) "pools"
      (elders allocatedLifetime { permanent := some () }) := by
  intro _ _ spared
  have spares := (listed_elders _ _).spares rfl spared
  rcases spares with zero | ⟨paused, -⟩ | older
  · cases zero
  · cases paused
  · -- Nobody is older than the one in use, and one of the two is too many.
    have few := older (attestedMember "pool-0" 0 allocatedLifetime, 0) (by
      rw [healthyOf_elders]
      simp [elders]) rfl
    exact absurd few (by decide)

end Tatara.Pool
