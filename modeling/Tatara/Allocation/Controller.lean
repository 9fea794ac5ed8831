import Tatara.Allocation.Decide
import Tatara.Pool.Controller

/-! The controller of the allocations, and what the API server makes of its patches. -/

namespace Tatara.Allocation

open Tatara.Crd Tatara.Rust

/-- What the controllers of the allocations and of the pools ask of their surroundings. -/
inductive Call where
  | pool (call : Pool.Call)
  | now
  | listPools (ns : String)
  | mergeProcess (ns name : String) (lifetime : Option EphemeralLifetime)
      (annotations : List (String × String))
  | mergeAllocationStatus (ns name : String) (status : AllocationStatus)

/-- The answers to calls. -/
@[reducible] def Answer : Call → Type
  | .pool call => Pool.Answer call
  | .now => DateTime
  | .listPools _ => Except String (List EphemeralPool)
  | .mergeProcess _ _ _ _ | .mergeAllocationStatus _ _ _ => Except String Unit

/-- Programs of the controllers. -/
abbrev Task := Program Call Answer

/-- Programs of the controllers that may fail. -/
abbrev Handler := ExceptT String Task

/-- A call of the controllers with its answer. -/
abbrev Event := Program.Exchange Answer

/-- `Utc::now`. -/
def utcNow : Task DateTime := Program.call Call.now

/-- `annotations::REQUESTOR`. -/
def annotationRequestor : String := "tatara.pleme.io/requestor"

/-- `annotations::ALLOCATION`. -/
def annotationAllocation : String := "tatara.pleme.io/allocation"

/-- `annotations::REQUESTOR_KIND`. -/
def annotationRequestorKind : String := "tatara.pleme.io/requestor-kind"

/-- `annotations::RETURN_TRIGGER`. -/
def annotationReturnTrigger : String := "tatara.pleme.io/return-trigger"

/-- A lifetime merged into the one that is there; an empty list of exports is not written. -/
def mergeEphemeral (new : EphemeralLifetime) (old : Option EphemeralLifetime) :
    EphemeralLifetime :=
  -- The other slots are always written.
  match new.exports, old with
  | [], some old => { new with exports := old.exports }
  | _, _ => new

/-- A Process after a merge patch, which leaves the slot of a permanent lifetime as it is. -/
def mergedProcess (lifetime : Option EphemeralLifetime) (annotations : List (String × String))
    (p : Process) : Process :=
  let ephemeral :=
    -- A patch without a lifetime has only annotations.
    match lifetime with
    | none => p.spec.lifetime.ephemeral
    | some new => some (mergeEphemeral new p.spec.lifetime.ephemeral)
  let others := p.metadata.annotations.filter fun entry => entry.1 ∉ annotations.map (·.1)
  { p with spec.lifetime.ephemeral := ephemeral, metadata.annotations := annotations ++ others }

/-- An allocation after a merge patch of its status. -/
def mergedAllocation (status : AllocationStatus) (alloc : EphemeralAllocation) :
    EphemeralAllocation :=
  { alloc with status := some (status.merge alloc.status) }

/-- The map from the names of the pools to their members. -/
def poolMembers (pools : List EphemeralPool) (pool : EphemeralPool) : List PoolMember :=
  -- Of several entries under one name a map keeps the last one.
  match pools.reverse.find? fun p => p.metadata.name = pool.metadata.name with
  | none => []
  | some p => (p.status.map (·.members)).getD []

/-- The most that a `chrono::Duration` holds, in nanoseconds. -/
def durationMax : Nat := 9223372036854775807000000

/-- The nanoseconds of an hour. -/
def hour : Nat := 3600000000000

section

variable [Crates]

/-- When an allocation with this time to live expires that is bound now. -/
def expiryOf (ttl : String) (now : DateTime) : DateTime :=
  -- A text that does not parse counts as an hour, and so does what is too long.
  let duration := (Crates.parseDuration ttl).getD hour
  { nanos := now.nanos + if duration ≤ durationMax then duration else hour }

/-- The time to live of an allocation: its own, or else that of the pool. -/
def ttlOf (alloc : EphemeralAllocation) (pools : List EphemeralPool) (pool : AllocationRef) :
    String :=
  alloc.spec.ttl.getD <|
    -- The lifetime that a template lowers to is ephemeral.
    (((pools.find? fun p => p.metadata.name = pool.name).bind
      (·.spec.template.lifetime.ephemeral)).map (·.ttl)).getD "1h"

/-- The `Bind` arm of `reconcile_inner`. -/
def bind (alloc : EphemeralAllocation) (ns : String) (pools : List EphemeralPool)
    (pool : AllocationRef) (memberProcessName : String) : Task Unit := do
  let name := alloc.metadata.name
  let ttl := ttlOf alloc pools pool
  let lifetime : EphemeralLifetime := { ttl, teardownPolicy := .always, exports := [] }
  -- The patch says nothing of the version of the Process that it is meant for.
  match ← (Program.call (Call.mergeProcess ns memberProcessName (some lifetime)
    [(annotationRequestor, qualifiedProcessRef ns name), (annotationAllocation, name),
      (annotationRequestorKind, alloc.spec.requestor.kind)]) : Task _) with
  | .error _ => return ()
  | .ok _ =>
    let now ← utcNow
    -- Only now does the allocation say which member it has.
    let bound : AllocationStatus :=
      .boundTransition .bound "bound to pool member" now pool { name := memberProcessName, ns }
    let _ ← (Program.call (Call.mergeAllocationStatus ns name
      { bound with allocatedAt := some now, expiresAt := some (expiryOf ttl now) }) : Task _)
    return ()

omit [Crates] in
/-- The `Release` arm of `reconcile_inner`. -/
def release (alloc : EphemeralAllocation) (ns memberProcessName : String) (pool : AllocationRef) :
    Task Unit := do
  -- The outcome of this patch makes no difference.
  let _ ← (Program.call (Call.mergeProcess ns memberProcessName none
    [(annotationReturnTrigger, "true")]) : Task _)
  let now ← utcNow
  let _ ← (Program.call (Call.mergeAllocationStatus ns alloc.metadata.name
    (.boundTransition .released "released; pool reconciler will return the member" now pool
      { name := memberProcessName, ns })) : Task _)
  return ()

omit [Crates] in
/-- A patch of the status that says why there is no member yet. -/
def postpone (alloc : EphemeralAllocation) (ns : String) (boundPool : Option AllocationRef)
    (phase : AllocationPhase) (message : String) : Task Unit := do
  let now ← utcNow
  let _ ← (Program.call (Call.mergeAllocationStatus ns alloc.metadata.name
    { AllocationStatus.transition phase message now with boundPool }) : Task _)
  return ()

/-- What the controller does about a decision. -/
def applyDecision (alloc : EphemeralAllocation) (ns : String) (pools : List EphemeralPool) :
    AllocationDecision → Task Unit
  | .noOp | .heartbeatBound => return ()
  | .noMatchingPool =>
    postpone alloc ns none .noMatchingPool "no Pool selector matched this Requestor"
  | .wait pool => postpone alloc ns (some pool) .queued "pool matched; no Free member available"
  | .bind pool memberProcessName => bind alloc ns pools pool memberProcessName
  | .release memberProcessName pool => release alloc ns memberProcessName pool

/-- `reconcile`; what it returns only says when to look again. -/
def reconcile (alloc : EphemeralAllocation) : Handler Unit := do
  match alloc.metadata.ns with
  | none => throw "EphemeralAllocation has no metadata.namespace"
  | some ns =>
    match ← (liftM (Program.call (Call.listPools ns) : Task _) : Handler _) with
    | .error e => throw ("list Pools in " ++ ns ++ ": " ++ e)
    | .ok pools =>
      -- From here on the statuses of the pools are those of the listing.
      let now ← liftM utcNow
      liftM (applyDecision alloc ns pools
        (decideAllocationReconcile alloc pools (poolMembers pools) now))

end

end Tatara.Allocation
