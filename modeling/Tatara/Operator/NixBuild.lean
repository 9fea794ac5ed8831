import Mathlib.Logic.Function.Basic
import Tatara.Rust.Data

/-! The Nix builds of the operator: what asks builders for them, and what takes the answers in. -/

namespace Tatara.Operator

open Tatara.Rust

/-- Where a build is in its life. -/
inductive NixBuildPhase where
  | pending
  | queued
  | building
  | pushing
  | complete
  | failed
  deriving DecidableEq, Repr

/-- A build in this phase is over. -/
def NixBuildPhase.Over : NixBuildPhase → Prop
  | complete | failed => True
  | pending | queued | building | pushing => False

instance : DecidablePred NixBuildPhase.Over := fun phase =>
  match phase with
  | .complete | .failed => isTrue trivial
  | .pending | .queued | .building | .pushing => isFalse id

/-- `NixBuildStatus`. -/
structure NixBuildStatus where
  phase : NixBuildPhase
  buildId : Option String
  storePath : Option String
  builderNode : Option String
  startedAt : Option DateTime
  completedAt : Option DateTime
  error : Option String
  logRef : Option String

/-- `NixBuildStatus::default`. -/
def NixBuildStatus.default : NixBuildStatus :=
  { phase := .pending, buildId := none, storePath := none, builderNode := none, startedAt := none
    completedAt := none, error := none, logRef := none }

/-- `NixBuildSpec`. -/
structure NixBuildSpec where
  flakeRef : String
  system : String
  atticCache : Option String
  extraArgs : List String
  priority : Int32

/-- Where an object is: its namespace and its name. -/
structure ObjectRef where
  namespace_ : String
  name : String
  deriving DecidableEq, Repr

/-- A build object, with the number that the server has given to this very object. -/
structure NixBuild where
  uid : Nat
  spec : NixBuildSpec
  status : Option NixBuildStatus

/-- The build objects of the server. -/
abbrev NixBuilds := ObjectRef → Option NixBuild

/-- The phase that a build without a status is in is the first one. -/
def NixBuild.phase (build : NixBuild) : NixBuildPhase :=
  match build.status with
  | some status => status.phase
  | none => .pending

/-- What builders are asked. -/
structure BuildRequest where
  buildId : String
  flakeRef : String
  system : String
  atticCache : Option String
  extraArgs : List String
  priority : Int32
  name : String
  namespace_ : String

/-- The request for a build. -/
def NixBuild.request (ref : ObjectRef) (build : NixBuild) (buildId : String) : BuildRequest :=
  { buildId
    flakeRef := build.spec.flakeRef
    system := build.spec.system
    atticCache := build.spec.atticCache
    extraArgs := build.spec.extraArgs
    priority := build.spec.priority
    name := ref.name
    namespace_ := ref.namespace_ }

/-- The status of a build whose request has been published. -/
def queuedStatus (buildId : String) : NixBuildStatus :=
  { NixBuildStatus.default with phase := .queued, buildId := some buildId }

/-- What is read of a completion message. -/
structure Completion where
  buildId : Option String
  name : Option String
  namespace_ : Option String
  storePath : Option String
  error : Option String

namespace Completion

/-- The object that a message is about. -/
def ref (completion : Completion) : ObjectRef :=
  ⟨completion.namespace_.getD "default", completion.name.getD ""⟩

/-- The status that a message leads to. -/
def status (completion : Completion) (now : DateTime) : NixBuildStatus :=
  match completion.error with
  | some err =>
    { NixBuildStatus.default with
      phase := .failed
      buildId := some (completion.buildId.getD "")
      error := some err
      completedAt := some now }
  | none =>
    { NixBuildStatus.default with
      phase := .complete
      buildId := some (completion.buildId.getD "")
      storePath := completion.storePath
      completedAt := some now }

/-- A build that has an answer is over. -/
theorem over_status (completion : Completion) (now : DateTime) :
    (completion.status now).phase.Over := by
  unfold status
  cases completion.error <;> trivial

end Completion

/-- A build object is created without a status, if there is none of its name. -/
def createBuild (builds : NixBuilds) (uid : Nat) (ref : ObjectRef) (spec : NixBuildSpec) :
    NixBuilds :=
  match builds ref with
  | none => Function.update builds ref (some ⟨uid, spec, none⟩)
  | some _ => builds

/-- A build object is deleted. -/
def deleteBuild (builds : NixBuilds) (ref : ObjectRef) : NixBuilds :=
  Function.update builds ref none

/-- A build that is there after a creation was there, or it is the new one. -/
theorem createBuild_eq_some {builds : NixBuilds} {uid : Nat} {ref ref' : ObjectRef}
    {spec : NixBuildSpec} {build : NixBuild}
    (there : createBuild builds uid ref spec ref' = some build) :
    builds ref' = some build ∨ builds ref' = none ∧ build = ⟨uid, spec, none⟩ := by
  -- A name that is taken is left, and the other names are too.
  unfold createBuild at there
  cases held : builds ref with
  | some old =>
    rw [held] at there
    exact .inl there
  | none =>
    rw [held] at there
    dsimp only at there
    by_cases own : ref' = ref
    · rw [own, Function.update_self] at there
      exact .inr ⟨own ▸ held, (Option.some.inj there).symm⟩
    · rw [Function.update_of_ne own] at there
      exact .inl there

/-- A build that is there after a deletion was there. -/
theorem deleteBuild_eq_some {builds : NixBuilds} {ref ref' : ObjectRef} {build : NixBuild}
    (there : deleteBuild builds ref ref' = some build) : builds ref' = some build := by
  -- Only the object of the name goes.
  unfold deleteBuild at there
  by_cases own : ref' = ref
  · rw [own, Function.update_self] at there
    cases there
  · rwa [Function.update_of_ne own] at there

/-- How a patch of a status fails: it does not come to the server, or its answer does not come
back. -/
inductive PatchFault where
  | unsent
  | unanswered
  deriving DecidableEq, Repr

/-- What the server is asked to do is done. -/
def Lands (fault : Option PatchFault) : Prop := fault ≠ some .unsent

instance : DecidablePred Lands := fun _ => inferInstanceAs (Decidable (_ ≠ _))

theorem lands_none : Lands none := nofun

/-- A status patch of an object. A status is written with all its fields, so a merge leaves nothing
of the old one. -/
def patchStatus (fault : Option PatchFault) (builds : NixBuilds) (ref : ObjectRef)
    (status : NixBuildStatus) : NixBuilds :=
  if Lands fault then
    match builds ref with
    | some build => Function.update builds ref (some { build with status := some status })
    | none => builds
  else builds

section

variable {fault : Option PatchFault} {builds : NixBuilds} {ref : ObjectRef}
  {status : NixBuildStatus} {build : NixBuild}

theorem patchStatus_of_not_lands (lost : ¬ Lands fault) :
    patchStatus fault builds ref status = builds := if_neg lost

/-- A patch of a build that is not there changes nothing. -/
theorem patchStatus_of_missing (missing : builds ref = none) :
    patchStatus fault builds ref status = builds := by
  unfold patchStatus
  rw [missing]
  exact ite_self _

/-- A patch that is written changes the status of the one build. -/
theorem patchStatus_of_lands (lands : Lands fault) (there : builds ref = some build) :
    patchStatus fault builds ref status =
      Function.update builds ref (some { build with status := some status }) := by
  unfold patchStatus
  rw [if_pos lands, there]

/-- A patch changes the status of the object that it is for, if it is there and the patch lands. -/
theorem patchStatus_cases :
    patchStatus fault builds ref status = builds ∨
      Lands fault ∧ ∃ build, builds ref = some build ∧
        patchStatus fault builds ref status =
          Function.update builds ref (some { build with status := some status }) := by
  -- A patch needs an object, and has to come to the server.
  by_cases lands : Lands fault
  · cases there : builds ref with
    | none => exact .inl (patchStatus_of_missing there)
    | some build => exact .inr ⟨lands, build, rfl, patchStatus_of_lands lands there⟩
  · exact .inl (patchStatus_of_not_lands lands)

end

end Tatara.Operator
