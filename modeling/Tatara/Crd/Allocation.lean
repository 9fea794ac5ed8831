import Tatara.Crd.Pool

/-! Requests for a member of a pool, and what becomes of them. -/

namespace Tatara.Crd

open Tatara.Rust

/-- The phase of an allocation. -/
inductive AllocationPhase where
  | pending
  | queued
  | bound
  | releasing
  | released
  | noMatchingPool
  | failed
  deriving DecidableEq, Repr

namespace AllocationPhase

/-- `is_terminal`. -/
def isTerminal : AllocationPhase → Bool
  | released | failed => true
  | pending | queued | bound | releasing | noMatchingPool => false

/-- `needs_pool_routing`. -/
def needsPoolRouting : AllocationPhase → Bool
  | pending | queued | noMatchingPool => true
  | bound | releasing | released | failed => false

end AllocationPhase

/-- Who asks for a member, and for what. -/
structure Requestor where
  kind : String
  repo : Option String := none
  branch : Option String := none
  prNumber : Option UInt64 := none
  sha : Option String := none
  prLabels : List String := []
  actor : Option String := none

/-- What is asked of an allocation. -/
structure AllocationSpec where
  poolRef : Option AllocationRef := none
  requestor : Requestor
  ttl : Option String := none
  note : Option String := none

/-- What is recorded of an allocation. -/
structure AllocationStatus where
  phase : AllocationPhase := .pending
  phaseSince : Option DateTime := none
  boundPool : Option AllocationRef := none
  assignedProcess : Option AllocationRef := none
  allocatedAt : Option DateTime := none
  expiresAt : Option DateTime := none
  message : Option String := none

namespace AllocationStatus

/-- `transition`. -/
def transition (phase : AllocationPhase) (message : String) (now : DateTime) : AllocationStatus :=
  { phase, phaseSince := some now, message := some message }

/-- `bound_transition`. -/
def boundTransition (phase : AllocationPhase) (message : String) (now : DateTime)
    (boundPool assignedProcess : AllocationRef) : AllocationStatus :=
  { transition phase message now with
    boundPool := some boundPool, assignedProcess := some assignedProcess }

/-- The status after a merge patch, in which only the phase is always written. -/
def merge (patch : AllocationStatus) (status : Option AllocationStatus) : AllocationStatus :=
  -- What the patch leaves out stays as it is.
  let old := status.getD {}
  { phase := patch.phase
    phaseSince := patch.phaseSince <|> old.phaseSince
    boundPool := patch.boundPool <|> old.boundPool
    assignedProcess := patch.assignedProcess <|> old.assignedProcess
    allocatedAt := patch.allocatedAt <|> old.allocatedAt
    expiresAt := patch.expiresAt <|> old.expiresAt
    message := patch.message <|> old.message }

end AllocationStatus

/-- An allocation, as the API server stores it. -/
structure EphemeralAllocation where
  metadata : ObjectMeta
  spec : AllocationSpec
  status : Option AllocationStatus := none

namespace EphemeralAllocation

/-- `observed_phase_or_pending`. -/
def observedPhaseOrPending (alloc : EphemeralAllocation) : AllocationPhase :=
  (alloc.status.map (·.phase)).getD .pending

/-- `observed_bound_pool`. -/
def observedBoundPool (alloc : EphemeralAllocation) : Option AllocationRef :=
  alloc.status.bind (·.boundPool)

/-- `observed_expires_at`. -/
def observedExpiresAt (alloc : EphemeralAllocation) : Option DateTime :=
  alloc.status.bind (·.expiresAt)

/-- The Process that is assigned to an allocation. -/
def assignedProcess (alloc : EphemeralAllocation) : Option AllocationRef :=
  alloc.status.bind (·.assignedProcess)

/-- `is_being_deleted`. -/
def isBeingDeleted (alloc : EphemeralAllocation) : Bool :=
  alloc.metadata.deletionTimestamp.isSome

end EphemeralAllocation

end Tatara.Crd
