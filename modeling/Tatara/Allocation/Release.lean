import Tatara.Allocation.Controller

/-! What becomes of an allocation that gives its member back, or has given it back. -/

namespace Tatara.Allocation

open Tatara.Crd Tatara.Rust Program

/-- The status that a call asks the API server to merge into that of the allocation. -/
def statusPatch : Event → Option AllocationStatus
  | ⟨.mergeAllocationStatus _ _ status, _⟩ => some status
  | _ => none

/-- One reconcile: the copy of the allocation that it works on, its calls, and how it ends. -/
structure Round where
  read : EphemeralAllocation
  events : List Event
  outcome : Except String Unit

namespace Round

/-- The statuses that a reconcile asks for. -/
def patches (round : Round) : List AllocationStatus := round.events.filterMap statusPatch

/-- What a reconcile decides, if it gets to see the pools. -/
def decision (round : Round) : Option AllocationDecision :=
  match round.events with
  | ⟨.listPools _, .ok pools⟩ :: ⟨.now, now⟩ :: _ =>
    some (decideAllocationReconcile round.read pools (poolMembers pools) now)
  | _ => none

end Round

/-- What others change in an allocation: neither its status nor what it is called, and a deletion
is not taken back. -/
def Amends (before after : EphemeralAllocation) : Prop :=
  after.status = before.status ∧ after.metadata.name = before.metadata.name ∧
    after.metadata.ns = before.metadata.ns ∧
      (before.isBeingDeleted = true → after.isBeingDeleted = true)

/-- The reconciles of one allocation, the last one first, and the versions that it has gone
through, the newest one first. -/
inductive Reaches [Crates] (start : EphemeralAllocation) :
    List Round → List EphemeralAllocation → Prop where
  | start : Reaches start [] [start]
  | amended {rounds : List Round} {current next : EphemeralAllocation}
      {earlier : List EphemeralAllocation} (before : Reaches start rounds (current :: earlier))
      (amends : Amends current next) : Reaches start rounds (next :: current :: earlier)
  -- A reconcile may work on any version so far, and some of its patches may get lost.
  | reconciled {rounds : List Round} {current : EphemeralAllocation}
      {earlier : List EphemeralAllocation} (before : Reaches start rounds (current :: earlier))
      (round : Round) (known : round.read ∈ current :: earlier)
      (runs : Runs (reconcile round.read).run round.events round.outcome)
      (landed : List AllocationStatus) (asked : landed.Sublist round.patches) :
      Reaches start (round :: rounds)
        (landed.foldl (fun alloc status => mergedAllocation status alloc) current ::
          current :: earlier)

/-- The allocation is on its way out, or at the end of it. -/
def Closing (alloc : EphemeralAllocation) : Prop :=
  alloc.observedPhaseOrPending = .releasing ∨ alloc.observedPhaseOrPending.isTerminal = true

/-- An allocation is releasing only while it is being deleted; one in no namespace does not
matter, as it is never reconciled. -/
def Orderly (alloc : EphemeralAllocation) : Prop :=
  alloc.observedPhaseOrPending = .releasing →
    alloc.isBeingDeleted = true ∨ alloc.metadata.ns = none

/-- No reconcile binds the allocation, and it never waits for a member. -/
def NeverRebound (rounds : List Round) (versions : List EphemeralAllocation) : Prop :=
  (∀ round ∈ rounds, ∀ pool member, round.decision ≠ some (.bind pool member)) ∧
    ∀ alloc ∈ versions, alloc.observedPhaseOrPending.needsPoolRouting = false

/-- A deletion that is under way is not held up: a member is released, or there is none. -/
theorem decide_of_closing {alloc : EphemeralAllocation} {pools : List EphemeralPool}
    {members : EphemeralPool → List PoolMember} {now : DateTime} (closing : Closing alloc)
    (deleted : alloc.observedPhaseOrPending = .releasing → alloc.isBeingDeleted = true) :
    decideAllocationReconcile alloc pools members now = .noOp ∨
      ∃ member pool, decideAllocationReconcile alloc pools members now = .release member pool := by
  rcases closing with releasing | terminal
  · have deleted := deleted releasing
    simp only [decideAllocationReconcile, AllocationConvergenceCtx.decide,
      AllocationConvergenceCtx.observe, releasing, deleted]
    -- Without a member or a pool on record there is nothing to release.
    split
    · exact .inl rfl
    · simp only [if_true]
      split
      · exact .inr ⟨_, _, rfl⟩
      · exact .inl rfl
  · simp [decideAllocationReconcile, AllocationConvergenceCtx.decide,
      AllocationConvergenceCtx.observe, terminal]

/-- A release that nobody asked a deletion for falls through to the phases that wait. -/
theorem decide_of_releasing {alloc : EphemeralAllocation} {pools : List EphemeralPool}
    {members : EphemeralPool → List PoolMember} {now : DateTime}
    (releasing : alloc.observedPhaseOrPending = .releasing)
    (kept : alloc.isBeingDeleted = false) :
    decideAllocationReconcile alloc pools members now = .noMatchingPool := by
  simp [decideAllocationReconcile, AllocationConvergenceCtx.decide,
    AllocationConvergenceCtx.observe, releasing, kept, AllocationPhase.isTerminal,
    AllocationPhase.needsPoolRouting]

/-- A reconcile in no namespace fails before it asks for anything. -/
theorem runs_reconcile_of_none [Crates] {alloc : EphemeralAllocation} {events : List Event}
    {outcome : Except String Unit} (nowhere : alloc.metadata.ns = none)
    (runs : Runs (reconcile alloc).run events outcome) : events = [] := by
  simp only [reconcile, nowhere] at runs
  exact (runs_pure_iff.mp runs).1

/-- A reconcile lists the pools, and where it gets to see them it goes by its decision. -/
theorem runs_reconcile_iff [Crates] {alloc : EphemeralAllocation} {ns : String}
    {events : List Event} {outcome : Except String Unit} (space : alloc.metadata.ns = some ns) :
    Runs (reconcile alloc).run events outcome ↔
      (∃ error, events = [⟨.listPools ns, .error error⟩] ∧
        outcome = .error ("list Pools in " ++ ns ++ ": " ++ error)) ∨
      ∃ pools now rest, events = ⟨.listPools ns, .ok pools⟩ :: ⟨.now, now⟩ :: rest ∧
        Runs (applyDecision alloc ns pools
          (decideAllocationReconcile alloc pools (poolMembers pools) now)) rest () ∧
          outcome = .ok () := by
  simp only [reconcile, space, runs_liftBind_iff, runs_call_iff, utcNow]
  constructor
  · intro parts
    -- A listing that fails is the end of it.
    obtain ⟨_, listing, back, rfl, rest, rfl⟩ := parts
    cases listing with
    | error error =>
      obtain ⟨rfl, rfl⟩ := runs_pure_iff.mp rest
      exact .inl ⟨error, rfl, rfl⟩
    | ok pools =>
      simp only [runs_liftBind_iff, runs_call_iff, runs_lift_iff] at rest
      obtain ⟨_, now, last, rfl, ⟨⟨⟩, applied, rfl⟩, rfl⟩ := rest
      exact .inr ⟨pools, now, last, rfl, applied, rfl⟩
  · intro either
    rcases either with ⟨error, rfl, rfl⟩ | ⟨pools, now, rest, rfl, applied, rfl⟩
    · exact ⟨_, .error error, [], rfl, runs_pure_iff.mpr ⟨rfl, rfl⟩, rfl⟩
    · refine ⟨_, .ok pools, ⟨.now, now⟩ :: rest, rfl, ?_, rfl⟩
      simp only [runs_liftBind_iff, runs_call_iff, runs_lift_iff]
      exact ⟨_, now, rest, rfl, ⟨(), applied, trivial⟩, rfl⟩

/-- The one status that a release asks for is that of an allocation that is released. -/
theorem shows_release (alloc : EphemeralAllocation) (ns member : String) (pool : AllocationRef) :
    Shows (fun event => (statusPatch event).map (·.phase)) [.released]
      (release alloc ns member pool) := by
  -- The patch of the Process and the clock say nothing of a status.
  unfold release
  have annotated : Quiet (fun event : Event => (statusPatch event).map (·.phase))
      (Program.call (Call.mergeProcess ns member none [(annotationReturnTrigger, "true")])) :=
    Quiet.call fun _ => rfl
  have clock : Quiet (fun event : Event => (statusPatch event).map (·.phase)) utcNow :=
    Quiet.call fun _ => rfl
  refine annotated.shows.bind fun _ => clock.shows.bind fun now => ?_
  exact (Shows.call fun _ => rfl).bind fun _ => (Quiet.pure ()).shows

section

variable [Crates] {start : EphemeralAllocation}

/-- A reconcile of a closing allocation binds nothing and asks for no phase but the last, as long as
a release goes with a deletion. -/
theorem Round.of_closing {round : Round}
    (runs : Runs (reconcile round.read).run round.events round.outcome)
    (closing : Closing round.read) (orderly : Orderly round.read) :
    (∀ pool member, round.decision ≠ some (.bind pool member)) ∧
      ∀ patch ∈ round.patches, patch.phase = .released := by
  cases space : round.read.metadata.ns with
  | none =>
    have silent := runs_reconcile_of_none space runs
    simp [decision, patches, silent]
  | some ns =>
    have deleted (releasing : round.read.observedPhaseOrPending = .releasing) :
        round.read.isBeingDeleted = true := by
      simpa [space] using orderly releasing
    rcases (runs_reconcile_iff space).mp runs with
      ⟨error, listed, -⟩ | ⟨pools, now, rest, listed, applied, -⟩
    · simp [decision, patches, listed, statusPatch]
    · have decision : decideAllocationReconcile round.read pools (poolMembers pools) now = .noOp ∨
          ∃ member pool, decideAllocationReconcile round.read pools (poolMembers pools) now =
            .release member pool := decide_of_closing closing deleted
      rcases decision with decided | ⟨member, pool, decided⟩
      · -- Nothing is done at all.
        rw [decided] at applied
        obtain ⟨rfl, -⟩ := runs_pure_iff.mp applied
        simp [decision, patches, listed, decided, statusPatch]
      · rw [decided] at applied
        have phases := shows_release _ _ _ _ _ _ applied
        rw [← List.map_filterMap] at phases
        refine ⟨by simp [decision, listed, decided], fun patch asked => ?_⟩
        have among : patch.phase ∈ (rest.filterMap statusPatch).map (·.phase) := by
          refine List.mem_map_of_mem ?_
          simpa [patches, listed, statusPatch] using asked
        rw [phases] at among
        exact List.mem_singleton.mp among

omit [Crates] in
/-- Patches that say released change the phase to this one, or leave it where none of them lands. -/
theorem foldl_mergedAllocation {patches : List AllocationStatus}
    (released : ∀ patch ∈ patches, patch.phase = .released) (alloc : EphemeralAllocation) :
    let after := patches.foldl (fun alloc status => mergedAllocation status alloc) alloc
    after.metadata = alloc.metadata ∧
      (after.observedPhaseOrPending = alloc.observedPhaseOrPending ∨
        after.observedPhaseOrPending = .released) := by
  induction patches generalizing alloc with
  | nil => exact ⟨rfl, .inl rfl⟩
  | cons patch patches ih =>
    obtain ⟨first, others⟩ := List.forall_mem_cons.mp released
    obtain ⟨same, phase⟩ := ih others (mergedAllocation patch alloc)
    -- The first patch alone brings the phase to the last one.
    have merged : (mergedAllocation patch alloc).observedPhaseOrPending = .released := first
    exact ⟨same, .inr (by simpa [merged] using phase)⟩

omit [Crates] in
/-- Who is about to close needs no pool. -/
theorem Closing.needsPoolRouting {alloc : EphemeralAllocation} (closing : Closing alloc) :
    alloc.observedPhaseOrPending.needsPoolRouting = false := by
  -- Releasing needs none, and no terminal phase does.
  rcases closing with releasing | terminal
  · rw [releasing]
    rfl
  · revert terminal
    cases alloc.observedPhaseOrPending <;> decide

omit [Crates] in
/-- Who is about to close stays so. -/
theorem Closing.of_phase {before after : EphemeralAllocation} (closing : Closing before)
    (phase : after.observedPhaseOrPending = before.observedPhaseOrPending ∨
      after.observedPhaseOrPending = .released) : Closing after := by
  -- The phase is the same, or the allocation has been released.
  rcases phase with same | released
  · unfold Closing
    rw [same]
    exact closing
  · exact .inr (by rw [released]; rfl)

omit [Crates] in
/-- A change by others keeps the phase, and with it what is to be expected of the allocation. -/
theorem Amends.phase {before after : EphemeralAllocation} (amends : Amends before after) :
    after.observedPhaseOrPending = before.observedPhaseOrPending := by
  rw [EphemeralAllocation.observedPhaseOrPending, amends.1]
  rfl

/-- Where every reconcile finds an orderly allocation, it stays on its way out. -/
theorem Reaches.closing {rounds : List Round} {versions : List EphemeralAllocation}
    (run : Reaches start rounds versions) (closing : Closing start)
    (orderly : ∀ round ∈ rounds, Orderly round.read) :
    (∀ round ∈ rounds, ∀ pool member, round.decision ≠ some (.bind pool member)) ∧
      ∀ alloc ∈ versions, Closing alloc := by
  -- What is closing in all versions so far is closing in the next one.
  induction run with
  | start => exact ⟨by simp, by simpa using closing⟩
  | amended before amends ih =>
    obtain ⟨unbound, all⟩ := ih orderly
    have current := (List.forall_mem_cons.mp all).1
    exact ⟨unbound, List.forall_mem_cons.mpr ⟨current.of_phase (.inl amends.phase), all⟩⟩
  | reconciled before round known runs landed asked ih =>
    obtain ⟨here, others⟩ := List.forall_mem_cons.mp orderly
    obtain ⟨unbound, all⟩ := ih others
    obtain ⟨binds, released⟩ := Round.of_closing runs (all _ known) here
    have current := (List.forall_mem_cons.mp all).1
    have next := foldl_mergedAllocation (fun patch is => released patch (asked.subset is))
    exact ⟨List.forall_mem_cons.mpr ⟨binds, unbound⟩,
      List.forall_mem_cons.mpr ⟨current.of_phase (next _).2, all⟩⟩

/-- An orderly allocation stays one, whichever of its versions the reconciles work on. -/
theorem Reaches.orderly {rounds : List Round} {versions : List EphemeralAllocation}
    (run : Reaches start rounds versions) (closing : Closing start) (orderly : Orderly start) :
    (∀ round ∈ rounds, Orderly round.read) ∧ ∀ alloc ∈ versions, Orderly alloc := by
  induction run with
  | start => exact ⟨by simp, by simpa using orderly⟩
  | amended before amends ih =>
    obtain ⟨reads, all⟩ := ih
    have current := (List.forall_mem_cons.mp all).1
    refine ⟨reads, List.forall_mem_cons.mpr ⟨fun releasing => ?_, all⟩⟩
    -- A deletion lasts, and so does the absence of a namespace.
    rcases current (amends.phase.symm.trans releasing) with deleted | nowhere
    · exact .inl (amends.2.2.2 deleted)
    · exact .inr (amends.2.2.1.trans nowhere)
  | reconciled before round known runs landed asked ih =>
    obtain ⟨reads, all⟩ := ih
    have closings := (before.closing closing reads).2
    have released := (Round.of_closing runs (closings _ known) (all _ known)).2
    have current := (List.forall_mem_cons.mp all).1
    have next := foldl_mergedAllocation (fun patch is => released patch (asked.subset is))
    refine ⟨List.forall_mem_cons.mpr ⟨all _ known, reads⟩,
      List.forall_mem_cons.mpr ⟨fun releasing => ?_, all⟩⟩
    rcases (next _).2 with same | last
    · rw [EphemeralAllocation.isBeingDeleted, (next _).1]
      exact current (same.symm.trans releasing)
    · simp [last] at releasing

/-- A release without a deletion sends the allocation back to wait as soon as it is reconciled. -/
theorem reaches_noMatchingPool {ns : String} (space : start.metadata.ns = some ns)
    (releasing : start.observedPhaseOrPending = .releasing)
    (kept : start.isBeingDeleted = false) :
    ∃ round next, Reaches start [round] [next, start] ∧
      next.observedPhaseOrPending = .noMatchingPool ∧ next.metadata = start.metadata ∧
        next.spec = start.spec := by
  -- There is no pool in this namespace, and the patch lands.
  let now : DateTime := ⟨0⟩
  let status : AllocationStatus :=
    { AllocationStatus.transition .noMatchingPool "no Pool selector matched this Requestor" now with
      boundPool := none }
  have applied : Runs (postpone start ns none .noMatchingPool
      "no Pool selector matched this Requestor")
      [⟨.now, now⟩, ⟨.mergeAllocationStatus ns start.metadata.name status, .ok ()⟩] () := by
    simp only [postpone, utcNow, runs_bind_iff, runs_call_iff]
    exact ⟨_, now, _, rfl, ⟨_, .ok (), [], rfl, .done (), rfl⟩, rfl⟩
  let round : Round :=
    { read := start, outcome := .ok ()
      events := [⟨.listPools ns, .ok []⟩, ⟨.now, now⟩, ⟨.now, now⟩,
        ⟨.mergeAllocationStatus ns start.metadata.name status, .ok ()⟩] }
  have runs : Runs (reconcile start).run round.events round.outcome := by
    refine (runs_reconcile_iff space).mpr (.inr ⟨[], now, _, rfl, ?_, rfl⟩)
    rw [decide_of_releasing releasing kept]
    exact applied
  exact ⟨round, mergedAllocation status start,
    .reconciled .start round (by simp [round]) runs [status] (.refl _), rfl, rfl, rfl⟩

/-- An allocation that has begun its release is never bound again in the runs whose reconciles find
it orderly; and that it is orderly to begin with is what it takes for all of its runs. -/
theorem neverRebound_iff (closing : Closing start) :
    (∀ rounds versions, Reaches start rounds versions → (∀ round ∈ rounds, Orderly round.read) →
      NeverRebound rounds versions) ∧
    ((∀ rounds versions, Reaches start rounds versions → NeverRebound rounds versions) ↔
      Orderly start) := by
  have sound (rounds : List Round) (versions : List EphemeralAllocation)
      (run : Reaches start rounds versions) (orderly : ∀ round ∈ rounds, Orderly round.read) :
      NeverRebound rounds versions := by
    obtain ⟨unbound, closings⟩ := run.closing closing orderly
    exact ⟨unbound, fun alloc among => (closings alloc among).needsPoolRouting⟩
  refine ⟨sound, ?_, ?_⟩
  · -- One that is not orderly goes back to wait, as there is a run that shows.
    intro never releasing
    by_contra disorderly
    obtain ⟨kept, somewhere⟩ := not_or.mp disorderly
    obtain ⟨ns, space⟩ := Option.ne_none_iff_exists'.mp somewhere
    obtain ⟨round, next, run, waits, -⟩ :=
      reaches_noMatchingPool space releasing (by simpa using kept)
    have settled := (never _ _ run).2 next (by simp)
    rw [waits] at settled
    cases settled
  · intro orderly rounds versions run
    exact sound rounds versions run (run.orderly closing orderly).1

end

/-- A request for any member there is, in a phase and perhaps with a deletion that is under way. -/
def givenBack (phase : AllocationPhase) (deletionTimestamp : Option DateTime) :
    EphemeralAllocation :=
  { metadata := { name := "first", ns := some "pools", deletionTimestamp }
    spec := { requestor := { kind := "manual" } }
    status := some { phase } }

/-- An allocation that is being deleted gives its member back for good. -/
theorem neverRebound_deleted :
    let _ := plainCrates
    Closing (givenBack .releasing (some ⟨0⟩)) ∧
      ∀ rounds versions, Reaches (givenBack .releasing (some ⟨0⟩)) rounds versions →
        NeverRebound rounds versions := by
  intro _
  have closing : Closing (givenBack .releasing (some ⟨0⟩)) := .inl rfl
  exact ⟨closing, (neverRebound_iff closing).2.mpr fun _ => .inl rfl⟩

/-- Surroundings in which there are these pools, and everything that is asked for is done. -/
def answering (pools : List EphemeralPool) : (c : Call) → Answer c
  | .pool .now | .now => (⟨0⟩ : DateTime)
  | .listPools _ => .ok pools
  | .pool (.listProcesses _) => .ok []
  | .pool (.createProcess _) | .pool (.deleteProcess _ _) => .ok ()
  | .pool (.mergePoolStatus _ _ _) | .mergeProcess _ _ _ _ | .mergeAllocationStatus _ _ _ => .ok ()

/-- The reconcile of an allocation in such surroundings. -/
def Round.played [Crates] (read : EphemeralAllocation) (pools : List EphemeralPool) : Round :=
  let (events, outcome) := (reconcile read).run.play (answering pools)
  { read, events, outcome }

/-- The allocation once the patches of such a reconcile have all landed. -/
def playedOut [Crates] (read : EphemeralAllocation) (pools : List EphemeralPool) :
    EphemeralAllocation :=
  (Round.played read pools).patches.foldl (fun alloc status => mergedAllocation status alloc) read

/-- A reconcile in which nothing fails leads on. -/
theorem Reaches.played [Crates] {start current : EphemeralAllocation} {rounds : List Round}
    {earlier : List EphemeralAllocation} (before : Reaches start rounds (current :: earlier))
    (pools : List EphemeralPool) :
    Reaches start (Round.played current pools :: rounds)
      (playedOut current pools :: current :: earlier) :=
  before.reconciled (Round.played current pools) List.mem_cons_self (runs_play _ _) _ (.refl _)

/-- A pool that has one member, and shows it as free. -/
def warmPool : EphemeralPool :=
  { Pool.sizedPool 1 0 0 with
    status := some (.observedFrom (Pool.sizedPool 1 0 0)
      [.unallocated "pool-0" .free ⟨0⟩] ⟨0⟩) }

/-- A release that nobody asked a deletion for ends with the allocation bound to another member. -/
theorem not_neverRebound :
    let _ := plainCrates
    Closing (givenBack .releasing none) ∧
      ∃ rounds versions, Reaches (givenBack .releasing none) rounds versions ∧
        ¬ NeverRebound rounds versions ∧
        rounds.map (·.decision) = [some (.bind ⟨"pool", "pools"⟩ "pool-0"), some .noMatchingPool] ∧
        versions.map (·.observedPhaseOrPending) = [.bound, .noMatchingPool, .releasing] := by
  intro _
  have closing : Closing (givenBack .releasing none) := .inl rfl
  -- The first reconcile does not even look at the pool, and the second one does.
  let waiting := playedOut (givenBack .releasing none) [warmPool]
  have decided : (Round.played waiting [warmPool]).decision =
      some (.bind ⟨"pool", "pools"⟩ "pool-0") := by decide +kernel
  refine ⟨closing, _, _, (Reaches.start.played [warmPool]).played [warmPool], fun never => ?_,
    by decide +kernel, by decide +kernel⟩
  exact never.1 _ List.mem_cons_self _ _ decided

end Tatara.Allocation
