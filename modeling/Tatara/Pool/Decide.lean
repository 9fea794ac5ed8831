import Tatara.Crd.Pool

/-! How a pool decides what to do: one that is sized by its allocations, with the limits it keeps,
and one that is to keep a number of healthy members. -/

namespace Tatara.Pool

open Tatara.Crd Tatara.Rust PoolMember

/-- What a pool is to do about its members. -/
inductive PoolDecision where
  | noOp
  | spawn (count : Nat)
  | reapExcess (count : Nat)
  | replaceMembers (processNames : List String)
  | drain
  deriving DecidableEq, Repr

/-- The members of a pool, bucketed by their state. -/
structure Buckets where
  free : Nat := 0
  allocated : Nat := 0
  spawning : Nat := 0
  returning : Nat := 0
  failedNames : List String := []
  staleFreeNames : List String := []

/-- Whether a free member has been free for longer than the pool allows. -/
def isStale (freeTtl : Nat) (now : DateTime) (m : PoolMember) : Bool :=
  freeTtl ≠ 0 &&
    match elapsedSince now m.enteredStateAt with
    | some elapsed => freeTtl < elapsed
    | none => false

namespace Buckets

/-- The body of the loop that buckets the members. -/
def add (freeTtl : Nat) (now : DateTime) (b : Buckets) (m : PoolMember) : Buckets :=
  match m.state with
  | .free =>
    { b with
      free := b.free + 1
      staleFreeNames :=
        if isStale freeTtl now m then b.staleFreeNames ++ [m.processName] else b.staleFreeNames }
  | .allocated => { b with allocated := b.allocated + 1 }
  | .spawning => { b with spawning := b.spawning + 1 }
  | .returning => { b with returning := b.returning + 1 }
  | .failed => { b with failedNames := b.failedNames ++ [m.processName] }

/-- The sum over every state but that of a failed member. -/
def active (b : Buckets) : Nat := b.free + b.allocated + b.spawning + b.returning

end Buckets

/-- The rules of `decide_pool_reconcile` that compare the members with the sizes in the spec. -/
def decideSize (spec : PoolSpec) (b : Buckets) : PoolDecision :=
  let active := b.active
  if 0 < spec.minSize ∧ active < spec.minSize then .spawn (spec.minSize - active)
  else if 0 < spec.maxSize ∧ spec.maxSize < active then .reapExcess (active - spec.maxSize)
  else
    let want := spec.desiredSize
    let supply := b.free + b.spawning
    if supply < want then .spawn (want - supply)
    -- The subtraction of the source saturates, as the subtraction of naturals does.
    else if want - b.spawning < b.free then
      let excess := b.free - (want - b.spawning)
      if 0 < excess then .reapExcess excess else .noOp
    else .noOp

section

variable [Crates]

/-- The members of a pool, bucketed. -/
def bucket (pool : EphemeralPool) (members : List PoolMember) (now : DateTime) : Buckets :=
  members.foldl (Buckets.add (pool.spec.freeTtlDuration.getD 0) now) {}

/-- `decide_pool_reconcile`. -/
def decidePoolReconcile (pool : EphemeralPool) (members : List PoolMember) (now : DateTime) :
    PoolDecision :=
  if pool.isBeingDeleted then .drain
  else
    let b := bucket pool members now
    if b.failedNames ≠ [] then .replaceMembers b.failedNames
    else if b.staleFreeNames ≠ [] then .replaceMembers b.staleFreeNames
    else decideSize pool.spec b

end

/-- The members that are in a state. -/
def inState (state : MemberState) (members : List PoolMember) : List PoolMember :=
  members.filter fun m => m.state = state

/-- The loop adds to each bucket what the members have for it. -/
theorem foldl_add (freeTtl : Nat) (now : DateTime) (members : List PoolMember) (b : Buckets) :
    members.foldl (Buckets.add freeTtl now) b =
      { free := b.free + countState .free members
        allocated := b.allocated + countState .allocated members
        spawning := b.spawning + countState .spawning members
        returning := b.returning + countState .returning members
        failedNames := b.failedNames ++ (inState .failed members).map (·.processName)
        staleFreeNames := b.staleFreeNames ++
          ((inState .free members).filter (isStale freeTtl now)).map (·.processName) } := by
  induction members generalizing b with
  | nil => simp [countState, inState]
  | cons m members ih =>
    -- The first member goes into one bucket, and the hypothesis adds the others to it.
    rw [List.foldl_cons, ih]
    cases entered : m.state with
    | free =>
      -- A free member is counted, and listed as well when it is stale.
      by_cases old : isStale freeTtl now m <;>
        simp [Buckets.add, countState, inState, entered, old] <;> omega
    | allocated => simp [Buckets.add, countState, inState, entered]; omega
    | spawning => simp [Buckets.add, countState, inState, entered]; omega
    | returning => simp [Buckets.add, countState, inState, entered]; omega
    | failed => simp [Buckets.add, countState, inState, entered]

/-- How many members have not failed. -/
def active (members : List PoolMember) : Nat := members.countP fun m => m.state ≠ .failed

/-- The active members are those of the four states other than that of a failed one. -/
theorem active_eq (members : List PoolMember) :
    active members =
      countState .free members + countState .allocated members + countState .spawning members +
        countState .returning members := by
  induction members with
  | nil => rfl
  | cons m members ih =>
    -- The first member counts once on either side, unless it has failed.
    cases entered : m.state <;> simp [active, countState, entered] at ih ⊢ <;> omega

section

variable [Crates]

/-- The free members that are stale by the time to live of their pool. -/
def staleFree (pool : EphemeralPool) (members : List PoolMember) (now : DateTime) :
    List PoolMember :=
  (inState .free members).filter (isStale (pool.spec.freeTtlDuration.getD 0) now)

/-- The buckets hold the counts of the states, and the names of the failed and the stale. -/
theorem bucket_eq (pool : EphemeralPool) (members : List PoolMember) (now : DateTime) :
    bucket pool members now =
      { free := countState .free members
        allocated := countState .allocated members
        spawning := countState .spawning members
        returning := countState .returning members
        failedNames := (inState .failed members).map (·.processName)
        staleFreeNames := (staleFree pool members now).map (·.processName) } := by
  simp [bucket, foldl_add, staleFree]

/-- A pool that only has its sizes to look at. -/
structure Calm (pool : EphemeralPool) (members : List PoolMember) (now : DateTime) : Prop where
  kept : pool.isBeingDeleted = false
  noneFailed : inState .failed members = []
  noneStale : staleFree pool members now = []

/-- A pool that is calm decides by its sizes. -/
theorem decidePoolReconcile_of_calm {pool : EphemeralPool} {members : List PoolMember}
    {now : DateTime} (calm : Calm pool members now) :
    decidePoolReconcile pool members now = decideSize pool.spec (bucket pool members now) := by
  -- Of the rules only the last one is left.
  have failed : (bucket pool members now).failedNames = [] := by
    simp [bucket_eq, calm.noneFailed]
  have stale : (bucket pool members now).staleFreeNames = [] := by
    simp [bucket_eq, calm.noneStale]
  simp [decidePoolReconcile, calm.kept, failed, stale]

end

/-- A decision by the sizes spawns, reaps, or does nothing. -/
theorem decideSize_cases (spec : PoolSpec) (b : Buckets) :
    decideSize spec b = .noOp ∨ (∃ count, decideSize spec b = .spawn count) ∨
      ∃ count, decideSize spec b = .reapExcess count := by
  simp only [decideSize]
  split_ifs <;> simp

/-- A decision that keeps a pool within its limits: it spawns no more than the ceiling leaves room
for, reaps down to the floor at most, and reaps no more members than are free. -/
def WithinBounds (spec : PoolSpec) (members : List PoolMember) : PoolDecision → Prop
  | .spawn count => 0 < spec.maxSize → active members + count ≤ spec.maxSize
  | .reapExcess count =>
    spec.minSize + count ≤ active members ∧ count ≤ countState .free members
  | _ => True

/-- The sizes of a spec agree over the members of a pool, where these are not below the floor.

Above the ceiling the members that are not free leave room for no reaping beyond the free ones.
Otherwise the desired size fits under the ceiling where it calls for members, and reaches the floor
where it does not. -/
def SizesAgree (spec : PoolSpec) (members : List PoolMember) : Prop :=
  let busy := countState .allocated members + countState .returning members
  let spawning := countState .spawning members
  if 0 < spec.maxSize ∧ spec.maxSize < active members then busy + spawning ≤ spec.maxSize
  else if countState .free members + spawning < spec.desiredSize then
    spec.maxSize = 0 ∨ spec.desiredSize + busy ≤ spec.maxSize
  else spec.minSize ≤ max spec.desiredSize spawning + busy

/-- The rules on sizes keep their bounds exactly below the floor and where the sizes agree. -/
theorem decideSize_withinBounds_iff (spec : PoolSpec) (members : List PoolMember) (b : Buckets)
    (ordered : 0 < spec.maxSize → spec.minSize ≤ spec.maxSize)
    (free : b.free = countState .free members)
    (allocated : b.allocated = countState .allocated members)
    (spawning : b.spawning = countState .spawning members)
    (returning : b.returning = countState .returning members) :
    WithinBounds spec members (decideSize spec b) ↔
      active members < spec.minSize ∨ SizesAgree spec members := by
  have total := active_eq members
  simp only [decideSize, SizesAgree, Buckets.active, free, allocated, spawning, returning]
  -- Each rule fires on one side of a comparison, and its bound is then one more comparison.
  split_ifs <;> simp only [WithinBounds, true_iff] <;> omega

section

variable [Crates]

/-- The decision of a pool keeps its bounds exactly where a rule comes first that has none to keep,
the members are below the floor, or the sizes agree. -/
theorem decidePoolReconcile_withinBounds_iff (pool : EphemeralPool) (members : List PoolMember)
    (now : DateTime) (ordered : 0 < pool.spec.maxSize → pool.spec.minSize ≤ pool.spec.maxSize) :
    WithinBounds pool.spec members (decidePoolReconcile pool members now) ↔
      pool.isBeingDeleted = true ∨ inState .failed members ≠ [] ∨ staleFree pool members now ≠ [] ∨
        active members < pool.spec.minSize ∨ SizesAgree pool.spec members := by
  by_cases deleted : pool.isBeingDeleted = true
  · simp [decidePoolReconcile, deleted, WithinBounds]
  by_cases failed : inState .failed members = []
  · by_cases stale : staleFree pool members now = []
    · -- Only the sizes are left to decide by.
      rw [decidePoolReconcile_of_calm ⟨Bool.eq_false_iff.mpr deleted, failed, stale⟩]
      rw [decideSize_withinBounds_iff pool.spec members _ ordered] <;> simp [bucket_eq, *]
    · simp [decidePoolReconcile, bucket_eq, deleted, failed, stale, WithinBounds]
  · simp [decidePoolReconcile, bucket_eq, deleted, failed, WithinBounds]

end

/-- A pool of these sizes whose members have an empty template. -/
def sizedPool (desiredSize minSize maxSize : Nat) : EphemeralPool :=
  { metadata := { name := "pool", ns := some "pools" }
    spec := { desiredSize, minSize, maxSize, template := { intent := {}, rest := .null } } }

/-- A member that has been in its state since the epoch. -/
def plainMember (processName : String) (state : MemberState) : PoolMember :=
  .unallocated processName state ⟨0⟩

/-- The pool of the documentation keeps its bounds when it spawns its first members. -/
theorem decidePoolReconcile_withinBounds_empty :
    let _ := plainCrates
    WithinBounds (sizedPool 3 1 5).spec [] (decidePoolReconcile (sizedPool 3 1 5) [] ⟨0⟩) := by
  let _ := plainCrates
  refine (decidePoolReconcile_withinBounds_iff (sizedPool 3 1 5) [] ⟨0⟩ ?_).mpr ?_
  · intro _
    decide
  · -- An empty pool is below its floor.
    have below : active [] < (sizedPool 3 1 5).spec.minSize := by decide
    exact .inr (.inr (.inr (.inl below)))

/-- Each of the three bounds is broken: a pool spawns above its ceiling, reaps below its floor, and
asks to reap members that are in use. -/
theorem decidePoolReconcile_breaks_bounds :
    let _ := plainCrates
    (decidePoolReconcile (sizedPool 5 0 2) [] ⟨0⟩ = .spawn 5 ∧
      ¬ WithinBounds (sizedPool 5 0 2).spec [] (.spawn 5)) ∧
    (decidePoolReconcile (sizedPool 0 2 0) [plainMember "a" .free, plainMember "b" .free] ⟨0⟩ =
        .reapExcess 2 ∧
      ¬ WithinBounds (sizedPool 0 2 0).spec [plainMember "a" .free, plainMember "b" .free]
        (.reapExcess 2)) ∧
    (decidePoolReconcile (sizedPool 0 0 1)
        [plainMember "a" .allocated, plainMember "b" .allocated] ⟨0⟩ = .reapExcess 1 ∧
      ¬ WithinBounds (sizedPool 0 0 1).spec
        [plainMember "a" .allocated, plainMember "b" .allocated] (.reapExcess 1)) := by
  refine ⟨⟨rfl, ?_⟩, ⟨rfl, ?_⟩, ⟨rfl, ?_⟩⟩ <;> simp [WithinBounds] <;> decide

/-- One thing that the controller is to do. -/
inductive ConvergenceAction where
  | createMember
  | signalSigterm (processName : String)
  | reapFailed (processName : String)
  | pause (reason : String)
  deriving DecidableEq, Repr

/-- What the decision looks at in a member. -/
structure PoolMemberSnapshot where
  processName : String
  phase : ProcessPhase
  createdAt : DateTime
  deriving DecidableEq, Repr

namespace PoolMemberSnapshot

/-- `is_healthy`. -/
def isHealthy (m : PoolMemberSnapshot) : Bool := m.phase.isRunning

/-- `is_failed`. -/
def isFailed (m : PoolMemberSnapshot) : Bool := m.phase.hasExited

end PoolMemberSnapshot

/-- What the decision depends on. -/
structure PoolConvergenceCtx where
  desired : Nat
  replacementPolicy : ReplacementPolicy
  members : List PoolMemberSnapshot

namespace PoolConvergenceCtx

/-- `observe`. -/
def observe (pool : EphemeralPool) (members : List PoolMemberSnapshot) : PoolConvergenceCtx :=
  { desired := pool.spec.desired
    replacementPolicy := pool.spec.replacementPolicy
    members }

/-- The members that count. -/
def healthy (ctx : PoolConvergenceCtx) : List PoolMemberSnapshot := ctx.members.filter (·.isHealthy)

/-- The members that have exited. -/
def failed (ctx : PoolConvergenceCtx) : List PoolMemberSnapshot := ctx.members.filter (·.isFailed)

/-- The failed members that are to be reaped, as the policy has it. -/
def reaped (ctx : PoolConvergenceCtx) : List PoolMemberSnapshot :=
  if ctx.replacementPolicy.replacesFailed then ctx.failed else []

/-- The healthy members that are too many: the oldest ones, by a sort that is stable. -/
def excess (ctx : PoolConvergenceCtx) : List PoolMemberSnapshot :=
  (ctx.healthy.mergeSort fun a b => a.createdAt.nanos ≤ b.createdAt.nanos).take
    (ctx.healthy.length - ctx.desired)

/-- `PoolConvergence::decide`. -/
def decide (ctx : PoolConvergenceCtx) : List ConvergenceAction :=
  if ctx.replacementPolicy.pausesOnFailure ∧ ctx.failed ≠ [] then
    [.pause (String.ofList (renderNat ctx.failed.length) ++
      " member(s) reached Failed/Zombie/Reaped; policy=" ++ ctx.replacementPolicy.asStr)]
  else
    let actions := ctx.reaped.map fun m => .reapFailed m.processName
    let healthyCount := ctx.healthy.length
    if healthyCount < ctx.desired then
      actions ++ List.replicate (ctx.desired - healthyCount) .createMember
    else if ctx.desired < healthyCount then
      actions ++ ctx.excess.map fun m => .signalSigterm m.processName
    else actions

end PoolConvergenceCtx

/-- `decide_pool_convergence`, which has no use for the clock. -/
def decidePoolConvergence (pool : EphemeralPool) (members : List PoolMemberSnapshot)
    (_now : DateTime) : List ConvergenceAction :=
  (PoolConvergenceCtx.observe pool members).decide

end Tatara.Pool
