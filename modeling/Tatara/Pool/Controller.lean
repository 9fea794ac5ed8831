import Tatara.Lib.Program
import Tatara.Pool.Decide

/-! The controller of the pools, which carries out what is decided by way of the API server. -/

namespace Tatara.Pool

open Tatara.Crd Tatara.Rust

/-- Why a Process was not created. -/
inductive CreateError where
  | conflict
  | other (message : String)
  deriving DecidableEq, Repr

/-- What the controller of the pools asks of its surroundings. -/
inductive Call where
  | now
  | listProcesses (ns : String)
  | createProcess (p : Process)
  | deleteProcess (ns name : String)
  | mergePoolStatus (ns name : String) (status : PoolStatus)

/-- The answers to calls. -/
@[reducible] def Answer : Call → Type
  | .now => DateTime
  | .listProcesses _ => Except String (List Process)
  | .createProcess _ => Except CreateError Unit
  | .deleteProcess _ _ | .mergePoolStatus _ _ _ => Except String Unit

/-- Programs of the controller. -/
abbrev Task := Program Call Answer

/-- Programs of the controller that may fail. -/
abbrev Handler := ExceptT String Task

/-- A call of the controller with its answer. -/
abbrev Event := Program.Exchange Answer

/-- `Utc::now`. -/
def utcNow : Task DateTime := Program.call Call.now

/-- `annotations::POOL`. -/
def annotationPool : String := "tatara.pleme.io/pool"

/-- `annotations::POOL_SLOT`. -/
def annotationPoolSlot : String := "tatara.pleme.io/pool-slot"

/-- `process_belongs_to_pool`. -/
def processBelongsToPool (poolName : String) (p : Process) : Bool :=
  p.annotation annotationPool = some poolName

/-- `process_to_member_state`. -/
def processToMemberState (p : Process) : MemberState :=
  match p.observedPhase with
  | some .attested => if p.spec.lifetime.isEphemeral then .allocated else .free
  | some .failed | some .reaped => .failed
  | some .exiting | some .zombie => .returning
  | _ => .spawning

/-- The row of a Process among the members of its pool. -/
def memberRow (p : Process) : Task PoolMember := do
  let now ← utcNow
  return .unallocated p.metadata.name (processToMemberState p) (p.observedPhaseSinceOr now)

/-- What the decision on the desired count is to know of a Process. -/
def snapshot (p : Process) : Task PoolMemberSnapshot := do
  let now ← utcNow
  return {
    processName := p.metadata.name
    phase := p.observedPhaseOrPending
    createdAt := p.createdAtOr now }

/-- What the names of members are made of beside the name of their pool. -/
class Slugs where
  /-- `slot_slug`. -/
  slotSlug : String → Nat → String

section

variable [Slugs]

/-- `member_process_name`; the names of pools are made of ASCII characters. -/
def memberProcessName (poolName poolUid : String) (slot : Nat) : String :=
  let slug := Slugs.slotSlug poolUid slot
  String.ofList (poolName.toList.take (245 - slug.length)) ++ "-" ++ slug

/-- `build_member_process`. -/
def buildMemberProcess (pool : EphemeralPool) (processName : String) (slot : Nat)
    (poolName : String) : Process :=
  { metadata :=
      { name := processName
        ns := pool.metadata.ns
        annotations :=
          [(annotationPool, poolName), (annotationPoolSlot, String.ofList (renderNat slot))] }
    spec := { pool.spec.template with lifetime := { permanent := some () } } }

/-- `u32::MAX`. -/
def u32Max : Nat := 4294967295

/-- The loop over the slots that spawns members, with so many slots left to look at. -/
def spawnMembers (pool : EphemeralPool) (poolName : String) (occupied : List String) :
    (slots slot count : Nat) → Task Unit
  | 0, _, _ => return ()
  | _, _, 0 => return ()
  | slots + 1, slot, count + 1 => do
    let processName := memberProcessName poolName pool.ownedUidOrNameOrEmpty slot
    if processName ∈ occupied then spawnMembers pool poolName occupied slots (slot + 1) (count + 1)
    else
      let p := buildMemberProcess pool processName slot poolName
      match ← (Program.call (Call.createProcess p) : Task _) with
      | .ok _ => spawnMembers pool poolName occupied slots (slot + 1) count
      -- Someone else has created this Process, which counts as well.
      | .error .conflict => spawnMembers pool poolName occupied slots (slot + 1) count
      | .error (.other _) => return ()

/-- The first slot from a given one on whose name is not taken, as long as half of them last. -/
def findSlot (taken : Nat → Bool) : (fuel slot : Nat) → Option Nat
  | 0, _ => none
  | fuel + 1, slot =>
    if !taken slot then some slot
    else if u32Max / 2 < slot + 1 then none
    else findSlot taken fuel (slot + 1)

/-- A delete whose outcome is of no consequence. -/
def deleteProcess (ns name : String) : Task Unit := do
  let _ ← (Program.call (Call.deleteProcess ns name) : Task _)
  return ()

/-- `apply_convergence_actions`, with the first slot to look at for the next member. -/
def applyConvergenceActions (pool : EphemeralPool) (ns poolName : String)
    (occupied : List String) : (nextSlot : Nat) → List ConvergenceAction → Handler Unit
  | _, [] => return ()
  | nextSlot, .createMember :: actions => do
    let name := memberProcessName poolName pool.ownedUidOrNameOrEmpty
    match findSlot (fun slot => name slot ∈ occupied) (u32Max / 2 - nextSlot + 1) nextSlot with
    | none => throw ("pool " ++ poolName ++ " exhausted slot space")
    | some slot =>
      let p := buildMemberProcess pool (name slot) slot poolName
      match ← (liftM (Program.call (Call.createProcess p) : Task _) : Handler _) with
      | .ok _ => applyConvergenceActions pool ns poolName occupied (slot + 1) actions
      | .error .conflict => applyConvergenceActions pool ns poolName occupied (slot + 1) actions
      -- The next tick has another try.
      | .error (.other _) => return ()
  | nextSlot, .signalSigterm processName :: actions => do
    liftM (deleteProcess ns processName)
    applyConvergenceActions pool ns poolName occupied nextSlot actions
  | nextSlot, .reapFailed processName :: actions => do
    liftM (deleteProcess ns processName)
    applyConvergenceActions pool ns poolName occupied nextSlot actions
  | _, .pause _ :: _ => return ()

/-- What the controller does about a decision of a pool that is sized by its allocations. -/
def applyDecision (pool : EphemeralPool) (ns poolName : String) (members : List PoolMember) :
    PoolDecision → Task Unit
  | .noOp => return ()
  | .spawn count =>
    spawnMembers pool poolName (PoolMember.processNamesSet members) u32Max 0 count
  | .reapExcess count =>
    ((inState .free members).take count).forM fun m => deleteProcess ns m.processName
  | .replaceMembers processNames => processNames.forM fun name => deleteProcess ns name
  | .drain => members.forM fun m => deleteProcess ns m.processName

/-- The status patch at the end of a reconcile. -/
def mergeObservedStatus (pool : EphemeralPool) (ns : String) (members : List PoolMember) :
    Task Unit := do
  let now ← utcNow
  let status := PoolStatus.observedFrom pool members now
  let _ ← (Program.call (Call.mergePoolStatus ns pool.metadata.name status) : Task _)
  return ()

variable [Crates]

/-- `reconcile`, from the listing of the Processes on. -/
def reconcileOwned (pool : EphemeralPool) (ns : String) (processes : List Process) :
    Handler Unit := do
  let poolName := pool.metadata.name
  let owned := processes.filter (processBelongsToPool poolName)
  let members ← liftM (owned.mapM memberRow)
  if 0 < pool.spec.desired then
    let snapshots ← liftM (owned.mapM snapshot)
    let now ← liftM utcNow
    applyConvergenceActions pool ns poolName (PoolMember.processNamesSet members) 0
      (decidePoolConvergence pool snapshots now)
    liftM (mergeObservedStatus pool ns members)
  else
    let now ← liftM utcNow
    liftM (applyDecision pool ns poolName members (decidePoolReconcile pool members now))
    liftM (mergeObservedStatus pool ns members)

/-- `reconcile`; what it returns only says when to look again. -/
def reconcile (pool : EphemeralPool) : Handler Unit := do
  match pool.metadata.ns with
  | none => throw "EphemeralPool has no metadata.namespace"
  | some ns =>
    match ← (liftM (Program.call (Call.listProcesses ns) : Task _) : Handler _) with
    | .error e => throw ("list Processes in " ++ ns ++ ": " ++ e)
    | .ok processes => reconcileOwned pool ns processes

end

end Tatara.Pool
