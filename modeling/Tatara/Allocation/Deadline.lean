import Tatara.Allocation.Handover

/-! How long an allocation holds its member, and the most that its pool allows. -/

namespace Tatara.Allocation

open Tatara.Crd Tatara.Rust Program

/-- The pools that a reconcile gets to see. -/
def Round.listing (round : Round) : List EphemeralPool :=
  match round.events with
  | ⟨.listPools _, .ok pools⟩ :: _ => pools
  | _ => []

/-- A reconcile asks for the allocation to be bound to a pool, and for this status of it. -/
def Round.Binds (round : Round) (pool : EphemeralPool) (status : AllocationStatus) : Prop :=
  resolvePool round.read round.listing = some pool ∧ status ∈ round.patches ∧
    status.phase = .bound

section

variable [Crates]

/-- What a time to live amounts to, in nanoseconds. -/
def timeToLive (ttl : String) : Nat :=
  -- A text that does not parse counts as an hour, and so does what is too long.
  let duration := (Crates.parseDuration ttl).getD hour
  if duration ≤ durationMax then duration else hour

theorem expiryOf_eq (ttl : String) (now : DateTime) :
    expiryOf ttl now = ⟨now.nanos + timeToLive ttl⟩ := rfl

/-- A time to live that can be read is as long as it says. -/
theorem timeToLive_eq {ttl : String} {duration : Nat}
    (parsed : Crates.parseDuration ttl = some duration) (short : duration ≤ durationMax) :
    timeToLive ttl = duration := by
  simp [timeToLive, parsed, short]

/-- A status has the allocation expire before it has been bound for longer than the pool allows. -/
def Capped (pool : EphemeralPool) (status : AllocationStatus) : Prop :=
  ∀ cap, Crates.parseDuration pool.spec.maxAllocationTtl = some cap →
    ∃ allocatedAt expiresAt, status.allocatedAt = some allocatedAt ∧
      status.expiresAt = some expiresAt ∧ expiresAt.nanos ≤ allocatedAt.nanos + cap

/-- An allocation is released by whichever reconcile finds it bound for longer than the pool
allows. -/
def ReleasedInTime (pool : EphemeralPool) (alloc : EphemeralAllocation) : Prop :=
  ∀ cap, Crates.parseDuration pool.spec.maxAllocationTtl = some cap →
    ∃ allocatedAt, alloc.status.bind (·.allocatedAt) = some allocatedAt ∧
      ∀ (pools : List EphemeralPool) (members : EphemeralPool → List PoolMember)
        (now : DateTime), allocatedAt.nanos + cap < now.nanos →
        ∃ member ref, decideAllocationReconcile alloc pools members now = .release member ref

/-- Every bind keeps to what its pool allows, and every version that is bound is so by a bind of
the run, and is given up in time. -/
def KeepsCap (rounds : List Round) (versions : List EphemeralAllocation) : Prop :=
  (∀ round ∈ rounds, ∀ pool status, round.Binds pool status → Capped pool status) ∧
    ∀ alloc ∈ versions, alloc.observedPhaseOrPending = .bound →
      ∃ round ∈ rounds, ∃ pool status, round.Binds pool status ∧
        alloc.status.bind (·.allocatedAt) = status.allocatedAt ∧
        alloc.status.bind (·.expiresAt) = status.expiresAt ∧ ReleasedInTime pool alloc

/-- Where a reconcile binds the allocation, the time that is asked for, by the allocation itself or
else by the template of the pool, is no longer than the pool allows. -/
def Round.WithinCap (round : Round) : Prop :=
  ∀ pool status, round.Binds pool status →
    ∀ cap, Crates.parseDuration pool.spec.maxAllocationTtl = some cap →
      timeToLive (ttlOf round.read round.listing
        { name := pool.metadata.name, ns := pool.metadata.ns.getD "" }) ≤ cap

/-- A status that an allocation can be bound by says to what, since when, and until when. -/
structure BoundStatus (ttl : String) (status : AllocationStatus) : Prop where
  phase : status.phase = .bound
  boundPool : ∃ ref, status.boundPool = some ref
  assignedProcess : ∃ ref, status.assignedProcess = some ref
  allocatedAt : ∃ now, status.allocatedAt = some now ∧ status.expiresAt = some (expiryOf ttl now)

omit [Crates] in
/-- A step that reads the clock and records a status asks for that one status. -/
theorem exists_eq_of_runs_record {ns name : String} {record : DateTime → AllocationStatus}
    {events : List Event}
    (runs : Runs (do
      let now ← utcNow
      let _ ← (Program.call (Call.mergeAllocationStatus ns name (record now)) : Task _)
      return () : Task Unit) events ())
    {status : AllocationStatus} (asked : status ∈ events.filterMap statusPatch) :
    ∃ now, status = record now := by
  obtain ⟨_, now, back, clock, recorded, rfl⟩ := runs_bind_iff.mp runs
  obtain rfl := runs_call_iff.mp clock
  obtain ⟨_, answer, done, called, ended, rfl⟩ := runs_bind_iff.mp recorded
  obtain rfl := runs_call_iff.mp called
  obtain ⟨rfl, -⟩ := runs_pure_iff.mp ended
  -- Of the two events only the second one is a patch.
  exact ⟨now, List.mem_singleton.mp asked⟩

/-- A bind asks for such a status, or for none. -/
theorem boundStatus_of_bind {alloc : EphemeralAllocation} {ns memberProcessName : String}
    {pools : List EphemeralPool} {pool : AllocationRef} {events : List Event}
    (runs : Runs (bind alloc ns pools pool memberProcessName) events ())
    {status : AllocationStatus} (asked : status ∈ events.filterMap statusPatch) :
    BoundStatus (ttlOf alloc pools pool) status := by
  unfold bind at runs
  obtain ⟨answer, patched, last, called, after, rfl⟩ := runs_bind_iff.mp runs
  obtain rfl := runs_call_iff.mp called
  cases patched with
  | error error =>
    -- A member that could not be patched is not recorded.
    obtain ⟨rfl, -⟩ := runs_pure_iff.mp after
    simp [statusPatch] at asked
  | ok _ =>
    obtain ⟨now, rfl⟩ := exists_eq_of_runs_record after asked
    exact ⟨rfl, ⟨_, rfl⟩, ⟨_, rfl⟩, now, rfl, rfl⟩

omit [Crates] in
/-- What is put off is not bound. -/
theorem phase_of_postpone {alloc : EphemeralAllocation} {ns message : String}
    {boundPool : Option AllocationRef} {phase : AllocationPhase} {events : List Event}
    (runs : Runs (postpone alloc ns boundPool phase message) events ())
    {status : AllocationStatus} (asked : status ∈ events.filterMap statusPatch) :
    status.phase = phase := by
  obtain ⟨now, rfl⟩ := exists_eq_of_runs_record runs asked
  rfl

/-- Only a bind asks for an allocation to be bound, and it does so to the pool that the allocation
resolves to. -/
theorem Round.binds_of_bound {round : Round}
    (runs : Runs (reconcile round.read).run round.events round.outcome)
    {status : AllocationStatus} (asked : status ∈ round.patches)
    (bound : status.phase = .bound) :
    ∃ pool, round.Binds pool status ∧
      BoundStatus (ttlOf round.read round.listing
        { name := pool.metadata.name, ns := pool.metadata.ns.getD "" }) status := by
  cases space : round.read.metadata.ns with
  | none =>
    have silent := runs_reconcile_of_none space runs
    simp [patches, silent] at asked
  | some ns =>
    rcases (runs_reconcile_iff space).mp runs with
      ⟨error, listed, -⟩ | ⟨pools, now, rest, listed, applied, -⟩
    · simp [patches, listed, statusPatch] at asked
    · have shown : round.listing = pools := by rw [listing, listed]
      have among : status ∈ rest.filterMap statusPatch := by
        simpa [patches, listed, statusPatch] using asked
      cases decided : decideAllocationReconcile round.read pools (poolMembers pools) now with
      | noOp | heartbeatBound =>
        -- Nothing is done, so nothing is asked for.
        rw [decided] at applied
        obtain ⟨rfl, -⟩ := runs_pure_iff.mp applied
        cases among
      | noMatchingPool | wait pool =>
        rw [decided] at applied
        have phase := phase_of_postpone applied among
        rw [bound] at phase
        cases phase
      | release member pool =>
        rw [decided] at applied
        have phases := shows_release _ _ _ _ _ _ applied
        rw [← List.map_filterMap] at phases
        have phase : status.phase ∈ (rest.filterMap statusPatch).map (·.phase) :=
          List.mem_map_of_mem among
        rw [phases, bound] at phase
        simp at phase
      | bind ref member =>
        obtain ⟨-, -, pool, found, rfl, -⟩ := decideAllocationReconcile_bind decided
        rw [decided] at applied
        exact ⟨pool, ⟨by rw [shown, found], asked, bound⟩,
          by simpa only [shown] using boundStatus_of_bind applied among⟩

/-- A bind of a run asks for a status that says until when the allocation is bound. -/
theorem Round.Binds.boundStatus {round : Round} {pool : EphemeralPool} {status : AllocationStatus}
    (binds : round.Binds pool status)
    (runs : Runs (reconcile round.read).run round.events round.outcome) :
    BoundStatus (ttlOf round.read round.listing
      { name := pool.metadata.name, ns := pool.metadata.ns.getD "" }) status := by
  obtain ⟨found, asked, bound⟩ := binds
  obtain ⟨other, ⟨same, -, -⟩, shows⟩ := Round.binds_of_bound runs asked bound
  -- There is one pool that the allocation resolves to.
  rw [found] at same
  cases same
  exact shows

/-- What a bind records keeps to the cap of the pool where the time to live does. -/
theorem BoundStatus.capped_iff {ttl : String} {status : AllocationStatus}
    (shows : BoundStatus ttl status) {pool : EphemeralPool} :
    Capped pool status ↔
      ∀ cap, Crates.parseDuration pool.spec.maxAllocationTtl = some cap →
        timeToLive ttl ≤ cap := by
  obtain ⟨now, since, expires⟩ := shows.allocatedAt
  refine forall_congr' fun cap => imp_congr_right fun _ => ?_
  -- The status has one time since when, and one until when.
  constructor
  · intro capped
    obtain ⟨allocatedAt, expiresAt, sinceThen, untilThen, within⟩ := capped
    rw [since] at sinceThen
    rw [expires, expiryOf_eq] at untilThen
    cases sinceThen
    cases untilThen
    simp only at within
    omega
  · intro within
    refine ⟨now, _, since, expires, ?_⟩
    simp only [expiryOf_eq]
    omega

/-- An allocation that such a status has bound is released from when it expires on. -/
theorem BoundStatus.releasedInTime {ttl : String} {status : AllocationStatus}
    (shows : BoundStatus ttl status) {pool : EphemeralPool} (capped : Capped pool status)
    {alloc : EphemeralAllocation} {old : Option AllocationStatus}
    (recorded : alloc.status = some (status.merge old)) : ReleasedInTime pool alloc := by
  intro cap parsed
  obtain ⟨allocatedAt, expiresAt, since, expires, within⟩ := capped cap parsed
  obtain ⟨ref, boundPool⟩ := shows.boundPool
  obtain ⟨member, assigned⟩ := shows.assignedProcess
  refine ⟨allocatedAt, by simp [recorded, AllocationStatus.merge, since], ?_⟩
  intro pools members now late
  have overdue : expiresAt.nanos ≤ now.nanos := by omega
  -- Whether a deletion is under way makes no difference.
  refine ⟨member.name, ref, ?_⟩
  simp [decideAllocationReconcile, AllocationConvergenceCtx.decide,
    AllocationConvergenceCtx.observe, EphemeralAllocation.observedPhaseOrPending,
    EphemeralAllocation.observedExpiresAt, EphemeralAllocation.observedBoundPool,
    EphemeralAllocation.assignedProcess, recorded, AllocationStatus.merge, shows.phase, expires,
    boundPool, assigned, AllocationPhase.isTerminal, overdue]

omit [Crates] in
/-- Of the patches that land, the last one has its say. -/
theorem foldl_mergedAllocation_status (landed : List AllocationStatus)
    (alloc : EphemeralAllocation) :
    landed = [] ∨ ∃ patch ∈ landed, ∃ old,
      (landed.foldl (fun alloc status => mergedAllocation status alloc) alloc).status =
        some (patch.merge old) := by
  -- Either nothing lands, or something lands last.
  rcases List.eq_nil_or_concat landed with none | ⟨earlier, patch, rfl⟩
  · exact .inl none
  · refine .inr ⟨patch, by simp, (earlier.foldl
      (fun alloc status => mergedAllocation status alloc) alloc).status, ?_⟩
    rw [List.concat_eq_append, List.foldl_append]
    rfl

variable {start : EphemeralAllocation} {rounds : List Round} {versions : List EphemeralAllocation}

/-- An allocation shows what one of these reconciles has recorded of its bind. -/
def BoundBy (rounds : List Round) (alloc : EphemeralAllocation) : Prop :=
  ∃ round ∈ rounds, ∃ pool status old, round.Binds pool status ∧
    alloc.status = some (status.merge old)

omit [Crates] in
/-- What was bound by a round was bound by one of more rounds. -/
theorem BoundBy.cons {alloc : EphemeralAllocation} (by_ : BoundBy rounds alloc) (round : Round) :
    BoundBy (round :: rounds) alloc := by
  obtain ⟨binding, there, shown⟩ := by_
  exact ⟨binding, List.mem_cons_of_mem _ there, shown⟩

/-- The reconciles of a run have all taken place. -/
theorem Reaches.runs (run : Reaches start rounds versions) :
    ∀ round ∈ rounds, Runs (reconcile round.read).run round.events round.outcome := by
  -- By induction on the run.
  induction run with
  | start => exact List.forall_mem_nil _
  | amended _ _ ih => exact ih
  | reconciled _ round _ runs _ _ ih => exact List.forall_mem_cons.mpr ⟨runs, ih⟩

/-- A version that is bound has been so since a bind of the run, and shows what it recorded. -/
theorem Reaches.bound (run : Reaches start rounds versions)
    (unbound : start.observedPhaseOrPending ≠ .bound) :
    ∀ alloc ∈ versions, alloc.observedPhaseOrPending = .bound → BoundBy rounds alloc := by
  induction run with
  | start => exact List.forall_mem_singleton.mpr fun bound => absurd bound unbound
  | amended before amends ih =>
    refine List.forall_mem_cons.mpr ⟨fun bound => ?_, ih⟩
    rw [amends.phase] at bound
    rw [BoundBy, amends.1]
    exact ih _ List.mem_cons_self bound
  | reconciled before round known runs landed asked ih =>
    -- What was bound before stays so by the same bind.
    refine List.forall_mem_cons.mpr
      ⟨fun bound => ?_, fun alloc among bound => (ih alloc among bound).cons round⟩
    rcases foldl_mergedAllocation_status landed _ with rfl | ⟨patch, among, old, last⟩
    · exact (ih _ List.mem_cons_self bound).cons round
    · rw [EphemeralAllocation.observedPhaseOrPending, last] at bound
      obtain ⟨pool, binds, -⟩ := Round.binds_of_bound runs (asked.subset among) bound
      exact ⟨round, List.mem_cons_self, pool, patch, old, binds, last⟩

/-- The allocations of a run keep to the caps of their pools exactly where every bind is asked for
a time within the cap. -/
theorem keepsCap_iff (unbound : start.observedPhaseOrPending ≠ .bound)
    (run : Reaches start rounds versions) :
    KeepsCap rounds versions ↔ ∀ round ∈ rounds, round.WithinCap := by
  -- Either way a bind shows what it was asked for and what the pool allows.
  constructor
  · intro keeps round among pool status binds
    have shows := binds.boundStatus (run.runs round among)
    exact shows.capped_iff.mp (keeps.1 round among pool status binds)
  · intro within
    have capped : ∀ round ∈ rounds, ∀ pool status, round.Binds pool status → Capped pool status :=
      fun round among pool status binds =>
        (binds.boundStatus (run.runs round among)).capped_iff.mpr
          (within round among pool status binds)
    refine ⟨capped, fun alloc among bound => ?_⟩
    -- What is bound in the end was bound by one of the rounds.
    obtain ⟨round, there, pool, status, old, binds, recorded⟩ := run.bound unbound alloc among bound
    have shows := binds.boundStatus (run.runs round there)
    obtain ⟨now, since, expires⟩ := shows.allocatedAt
    refine ⟨round, there, pool, status, binds, ?_, ?_,
      shows.releasedInTime (capped round there pool status binds) recorded⟩
    · simp [recorded, AllocationStatus.merge, since]
    · simp [recorded, AllocationStatus.merge, expires]

end

/-- Durations in hours, which parse as they do in the crate, and no others. -/
@[reducible] def hourCrates : Crates :=
  { plainCrates with
    parseDuration := fun text =>
      if text = "1h" then some hour
      else if text = "4h" then some (4 * hour)
      else if text = "24h" then some (24 * hour)
      else none }

/-- A new request for any member, for so long. -/
def asking (ttl : String) : EphemeralAllocation :=
  { forMinute with spec := { forMinute.spec with ttl := some ttl } }

/-- A request for an hour ends before the four hours are over that a pool allows by default. -/
theorem keepsCap_hour :
    let _ := hourCrates
    KeepsCap [Round.played (asking "1h") [warmPool]]
      [playedOut (asking "1h") [warmPool], asking "1h"] := by
  intro _
  refine (keepsCap_iff (by rintro ⟨⟩) (Reaches.start.played [warmPool])).mpr
    (List.forall_mem_singleton.mpr ?_)
  rintro pool status ⟨found, -, -⟩ cap parsed
  have read : (Round.played (asking "1h") [warmPool]).read = asking "1h" := rfl
  have listed : (Round.played (asking "1h") [warmPool]).listing = [warmPool] := rfl
  rw [read, listed] at found ⊢
  -- There is one pool, and it has the cap that is the default.
  have only : resolvePool (asking "1h") [warmPool] = some warmPool := rfl
  cases only.symm.trans found
  have four : Crates.parseDuration warmPool.spec.maxAllocationTtl = some (4 * hour) := rfl
  cases four.symm.trans parsed
  have one : Crates.parseDuration "1h" = some hour := rfl
  exact (timeToLive_eq one (by decide)).trans_le (by decide)

/-- A request for a day is granted as it is, and is still not over an hour after the cap. -/
theorem not_keepsCap :
    let _ := hourCrates
    Reaches (asking "24h") [Round.played (asking "24h") [warmPool]]
        [playedOut (asking "24h") [warmPool], asking "24h"] ∧
      (Round.played (asking "24h") [warmPool]).patches.map (fun status =>
        (status.phase, status.allocatedAt, status.expiresAt)) =
          [(.bound, some ⟨0⟩, some ⟨24 * hour⟩)] ∧
      decideAllocationReconcile (playedOut (asking "24h") [warmPool]) [warmPool]
        (poolMembers [warmPool]) ⟨5 * hour⟩ = .heartbeatBound ∧
      ¬ KeepsCap [Round.played (asking "24h") [warmPool]]
        [playedOut (asking "24h") [warmPool], asking "24h"] := by
  intro _
  refine ⟨Reaches.start.played [warmPool], by decide +kernel, by decide +kernel, fun keeps => ?_⟩
  have phases : (Round.played (asking "24h") [warmPool]).patches.map (·.phase) = [.bound] := by
    decide +kernel
  obtain ⟨status, asked, bound⟩ : ∃ status ∈ (Round.played (asking "24h") [warmPool]).patches,
      status.phase = .bound := List.mem_map.mp (phases ▸ List.mem_cons_self)
  have binds : (Round.played (asking "24h") [warmPool]).Binds warmPool status := ⟨rfl, asked, bound⟩
  have shows := binds.boundStatus (runs_play _ _)
  -- The deadline is a day away, and four hours are allowed.
  have four : Crates.parseDuration warmPool.spec.maxAllocationTtl = some (4 * hour) := rfl
  have within := shows.capped_iff.mp (keeps.1 _ List.mem_cons_self _ _ binds) _ four
  have read : (Round.played (asking "24h") [warmPool]).read = asking "24h" := rfl
  have listed : (Round.played (asking "24h") [warmPool]).listing = [warmPool] := rfl
  rw [read, listed] at within
  have day : Crates.parseDuration "24h" = some (24 * hour) := rfl
  have granted := timeToLive_eq day (by decide)
  have longer : ¬ 24 * hour ≤ 4 * hour := by decide
  exact longer (granted.symm.trans_le within)

end Tatara.Allocation
