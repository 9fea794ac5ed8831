import Tatara.Crd.Process

/-! Pools of warm Processes: what is asked of them, and the members they have. -/

namespace Tatara.Crd

open Tatara.Rust

/-- The state of a member, as its pool sees it. -/
inductive MemberState where
  | spawning
  | free
  | allocated
  | returning
  | failed
  deriving DecidableEq, Repr

/-- `counts_toward_supply`. -/
def MemberState.countsTowardSupply : MemberState → Bool
  | free | spawning => true
  | allocated | returning | failed => false

/-- A reference to an object of a namespace. -/
structure AllocationRef where
  name : String
  ns : String
  deriving DecidableEq, Repr

/-- A member of a pool. -/
structure PoolMember where
  processName : String
  state : MemberState
  enteredStateAt : DateTime
  allocationRef : Option AllocationRef := none
  deriving DecidableEq, Repr

namespace PoolMember

/-- `unallocated`. -/
def unallocated (processName : String) (state : MemberState) (enteredStateAt : DateTime) :
    PoolMember :=
  { processName, state, enteredStateAt }

/-- `process_names_set`. -/
def processNamesSet (members : List PoolMember) : List String := members.map (·.processName)

/-- How many members are in a state. -/
def countState (state : MemberState) (members : List PoolMember) : Nat :=
  members.countP fun m => m.state = state

end PoolMember

/-- What a pool does about a member that has exited. -/
inductive ReplacementPolicy where
  | replaceImmediate
  | holdFailed
  | pausePool
  deriving DecidableEq, Repr

namespace ReplacementPolicy

/-- `as_str`, which `Display` writes as well. -/
def asStr : ReplacementPolicy → String
  | replaceImmediate => "ReplaceImmediate"
  | holdFailed => "HoldFailed"
  | pausePool => "PausePool"

/-- `replaces_failed`. -/
def replacesFailed : ReplacementPolicy → Bool
  | replaceImmediate => true
  | holdFailed | pausePool => false

/-- `pauses_on_failure`. -/
def pausesOnFailure : ReplacementPolicy → Bool
  | pausePool => true
  | replaceImmediate | holdFailed => false

end ReplacementPolicy

/-- What a request for a member is compared with, where it names no pool. -/
structure MatchKey where
  repo : String
  branch : String
  prLabels : List String
  kind : String

/-- Which requests a pool is for; a list without entries asks for nothing. -/
structure PoolSelector where
  repos : List String := []
  branches : List String := []
  prLabels : List String := []
  kinds : List String := []

/-- `glob_match`: a pattern may end in a star, and an empty one is met by everything. -/
def globMatch (pattern value : String) : Bool :=
  if pattern = "" then true
  else if pattern.toList.getLast? = some '*' then
    pattern.toList.dropLast.isPrefixOf value.toList
  else pattern = value

namespace PoolSelector

/-- `matches`. -/
def matchesKey (selector : PoolSelector) (key : MatchKey) : Bool :=
  -- Repositories and branches go by patterns, and every label that is asked for has to be there.
  (selector.repos.isEmpty || selector.repos.any (globMatch · key.repo)) &&
    (selector.branches.isEmpty || selector.branches.any (globMatch · key.branch)) &&
    selector.prLabels.all (· ∈ key.prLabels) &&
    (selector.kinds.isEmpty || selector.kinds.any (· = key.kind))

/-- `specificity`. -/
def specificity (selector : PoolSelector) : Nat :=
  (if selector.repos.isEmpty then 0 else 8) + (if selector.branches.isEmpty then 0 else 4) +
    selector.prLabels.length * 2 + (if selector.kinds.isEmpty then 0 else 1)

end PoolSelector

/-- What is asked of a pool; `template` is the Process that the template of a member lowers to. -/
structure PoolSpec where
  desiredSize : Nat
  minSize : Nat := 0
  maxSize : Nat := 0
  template : ProcessSpec
  selector : PoolSelector := {}
  freeTtl : String := "24h"
  maxAllocationTtl : String := "4h"
  desired : Nat := 0
  replacementPolicy : ReplacementPolicy := .replaceImmediate

/-- `free_ttl_duration`. -/
def PoolSpec.freeTtlDuration [Crates] (spec : PoolSpec) : Option Nat :=
  Crates.parseDuration spec.freeTtl

/-- The phase of a pool. -/
inductive PoolPhase where
  | initializing
  | steady
  | scalingUp
  | scalingDown
  | degraded
  | draining
  deriving DecidableEq, Repr

/-- What is recorded of a pool. -/
structure PoolStatus where
  phase : PoolPhase
  phaseSince : Option DateTime
  readyCount : Nat
  allocatedCount : Nat
  spawningCount : Nat
  returningCount : Nat
  members : List PoolMember

/-- A pool, as the API server stores it. -/
structure EphemeralPool where
  metadata : ObjectMeta
  spec : PoolSpec
  status : Option PoolStatus := none

namespace EphemeralPool

/-- `is_being_deleted`. -/
def isBeingDeleted (pool : EphemeralPool) : Bool := pool.metadata.deletionTimestamp.isSome

/-- `owned_uid_or_name_or_empty`. -/
def ownedUidOrNameOrEmpty (pool : EphemeralPool) : String :=
  pool.metadata.uid.getD pool.metadata.name

/-- `observed_phase_from`. -/
def observedPhaseFrom (pool : EphemeralPool) (members : List PoolMember) : PoolPhase :=
  let supply := members.countP fun m => m.state.countsTowardSupply
  let want := pool.spec.desiredSize
  if pool.isBeingDeleted then .draining
  else if members.isEmpty then .initializing
  else if 0 < pool.spec.minSize ∧ supply < pool.spec.minSize then .degraded
  else if supply < want then .scalingUp
  else if want < supply then .scalingDown
  else .steady

end EphemeralPool

/-- `observed_from`, at the time that the clock shows. -/
def PoolStatus.observedFrom (pool : EphemeralPool) (members : List PoolMember) (now : DateTime) :
    PoolStatus :=
  { phase := pool.observedPhaseFrom members
    phaseSince := some now
    readyCount := PoolMember.countState .free members
    allocatedCount := PoolMember.countState .allocated members
    spawningCount := PoolMember.countState .spawning members
    returningCount := PoolMember.countState .returning members
    members }

end Tatara.Crd
