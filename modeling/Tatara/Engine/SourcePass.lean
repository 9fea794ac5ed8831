import Tatara.Engine.StateStore
import Tatara.Lib.Fallible

/-! The pass of the reconciler that brings the jobs of a source to what its flake has. -/

namespace Tatara.Engine

open Tatara.Domain Tatara.Rust

/-- `FlakeMetadata`. -/
structure FlakeMetadata where
  rev : Option String
  lastModified : UInt64
  url : String

/-- `SourceError`. -/
inductive SourceError where
  | metadataFetchFailed (flakeRef reason : String)
  | evalFailed (flakeRef reason : String)
  | validationFailed (name : String) (errors : List String)
  | jobOperationFailed (sourceName jobName reason : String)
  | timeout (flakeRef : String) (timeoutSecs : UInt64)

/-- The revision of a flake, or else the time at which it was last modified. -/
def FlakeMetadata.currentRev (metadata : FlakeMetadata) : String :=
  metadata.rev.getD (toString metadata.lastModified)

/-- What the surroundings do during one pass over a source: the answers of Nix, the clock, the
orders in which the two maps iterate, and which writes of the state file fail. Each name is written
once at most. -/
structure Round (Text : Type) where
  validated : Except SourceError Unit
  metadata : Except SourceError FlakeMetadata
  flakeJobs : Except SourceError (List (String × JobSpec))
  managedNames : List String
  submittedAt : String → DateTime
  reconciledAt : DateTime
  jobFault : String → Option (PersistFault Text)
  sourceFault : Option (PersistFault Text)

/-- `JobSpec::into_job`, for a hash of the specifications. -/
def intoJob (contentHash : JobSpec → String) (submittedAt : DateTime) (spec : JobSpec) : Job where
  id := spec.id
  version := 1
  jobType := spec.jobType
  status := .pending
  submittedAt := submittedAt
  groups := spec.groups
  constraints := spec.constraints
  «meta» := spec.meta
  specHash := some (contentHash spec)

/-- A job as it is updated to a specification. -/
def updatedTo (contentHash : JobSpec → String) (spec : JobSpec) (job : Job) : Job :=
  { job with
    groups := spec.groups, constraints := spec.constraints, «meta» := spec.meta
    specHash := some (contentHash spec), version := job.version + 1 }

/-- A step of the pass, which changes the store and may fail. -/
abbrev SourceTask (Text : Type) := ExceptT SourceError (StateM (StateStore Text))

/-- An operation of the store, and what it answers. -/
def onStore {Text α : Type} (operation : StateStore Text → α × StateStore Text) :
    SourceTask Text α :=
  ExceptT.mk fun store => (.ok (operation store).1, (operation store).2)

section

variable {Text : Type} (format : SnapshotFormat Text) (contentHash : JobSpec → String)
  (source : Source) (round : Round Text)

/-- The body of the loop over the jobs of the flake, which notes the hashes in a map. -/
def reconcileFlakeJob (newManaged : Std.ExtTreeMap String String) (entry : String × JobSpec) :
    SourceTask Text (Std.ExtTreeMap String String) := do
  let (jobName, spec) := entry
  match source.managedJobs[jobName]? with
  | none =>
    let job := intoJob contentHash (round.submittedAt jobName) spec
    match ← onStore (·.putJob format (round.jobFault jobName) job) with
    | .error e => throw (.jobOperationFailed source.name jobName ("failed to create job: " ++ e))
    | .ok () => return newManaged.insert jobName (contentHash spec)
  | some oldHash =>
    if oldHash ≠ contentHash spec then
      -- Whether there is such a job, and whether it is written, is not asked.
      let _ ← onStore (·.updateJob format (round.jobFault jobName) jobName
        (updatedTo contentHash spec))
      return newManaged.insert jobName (contentHash spec)
    else
      return newManaged

/-- The body of the loop over the jobs that the flake does not have any more. -/
def removeJob (newManaged : Std.ExtTreeMap String String) (jobName : String) :
    SourceTask Text (Std.ExtTreeMap String String) := do
  let _ ← onStore (·.updateJob format (round.jobFault jobName) jobName
    fun job => { job with status := .dead })
  return newManaged.erase jobName

/-- The steps of the pass that follow on a new revision. -/
def applyRevision (currentRev : String) : SourceTask Text Unit := do
  let flakeJobs ← ExceptT.mk (pure round.flakeJobs)
  let newManaged ← flakeJobs.foldlM (reconcileFlakeJob format contentHash source round)
    source.managedJobs
  let removed := round.managedNames.filter fun name => name ∉ flakeJobs.map (·.1)
  let newManaged ← removed.foldlM (removeJob format round) newManaged
  let _ ← onStore (·.updateSource format round.sourceFault source.id fun s =>
    { s with
      lastRev := some currentRev, lastReconciledAt := some round.reconciledAt
      managedJobs := newManaged, status := .ready, lastError := none })

/-- The source is validated the first time. -/
def validateFirst : SourceTask Text Unit :=
  if source.lastRev.isNone then ExceptT.mk (pure round.validated) else pure ()

/-- `reconcile_single_source`. -/
def reconcileSingleSource : SourceTask Text Unit := do
  validateFirst source round
  let metadata ← ExceptT.mk (pure round.metadata)
  if source.lastRev = some metadata.currentRev then return
  applyRevision format contentHash source round metadata.currentRev

end

end Tatara.Engine

/-! What a pass over a source makes of the store. -/

namespace Tatara.Engine

open Tatara.Domain Tatara.Rust
open Tatara.Stateful (Through through_pure_iff through_bind_iff not_through_throw foldl_of_through
  view_eq_of_through exists_through_foldlM)

/-- In this round the flake has a new revision and these jobs, and the maps iterate over what they
have. -/
structure Round.Offers {Text : Type} (round : Round Text) (source : Source)
    (flakeJobs : Std.ExtTreeMap String JobSpec) : Prop where
  newRevision : ∀ metadata, round.metadata = .ok metadata →
    source.lastRev ≠ some metadata.currentRev
  jobs : ∀ entries, round.flakeJobs = .ok entries → entries.Perm flakeJobs.toList
  managed : round.managedNames.Perm source.managedJobs.keys

section

variable (contentHash : JobSpec → String) (source : Source) (submittedAt : String → DateTime)

/-- The hashes after a turn of the loop over the jobs of the flake. -/
def noted (managed : Std.ExtTreeMap String String) (entry : String × JobSpec) :
    Std.ExtTreeMap String String :=
  if source.managedJobs[entry.1]? = some (contentHash entry.2) then managed
  else managed.insert entry.1 (contentHash entry.2)

/-- The jobs after a turn of the loop over the jobs of the flake. -/
def placed (jobs : Std.ExtTreeMap String Job) (entry : String × JobSpec) :
    Std.ExtTreeMap String Job :=
  match source.managedJobs[entry.1]? with
  | none => jobs.insert entry.2.id (intoJob contentHash (submittedAt entry.1) entry.2)
  | some oldHash =>
    if oldHash = contentHash entry.2 then jobs
    else jobs.modify entry.1 (updatedTo contentHash entry.2)

end

/-- The job as it is once it is dead. -/
def killed (job : Job) : Job := { job with status := .dead }

section

variable {Text : Type} {format : SnapshotFormat Text} {contentHash : JobSpec → String}
  {source : Source} {round : Round Text}

/-- An operation on the store goes through with its answer. -/
theorem through_onStore_iff {α : Type} {operation : StateStore Text → α × StateStore Text}
    {before after : StateStore Text} {a : α} :
    Through (onStore operation) before a after ↔ operation before = (a, after) := by
  show ((.ok (operation before).1, (operation before).2) : Except SourceError α × _) =
    (.ok a, after) ↔ _
  rw [Prod.mk.injEq, Except.ok.injEq, Prod.ext_iff]

/-- To ask the surroundings leaves the store as it is. -/
theorem through_answer_iff {α : Type} {answer : Except SourceError α}
    {before after : StateStore Text} {a : α} :
    Through (ExceptT.mk (pure answer) : SourceTask Text α) before a after ↔
      answer = .ok a ∧ after = before := by
  show ((answer, before) : Except SourceError α × _) = (.ok a, after) ↔ _
  rw [Prod.mk.injEq, @eq_comm _ before]

/-- To modify what is not there changes nothing. -/
theorem modify_of_getElem?_eq_none {α : Type} {κ : Type} [Ord κ] [Std.TransOrd κ]
    [Std.LawfulEqOrd κ] {m : Std.ExtTreeMap κ α} {k : κ} {f : α → α} (absent : m[k]? = none) :
    m.modify k f = m := by
  -- Of the entries only one could differ.
  refine Std.ExtTreeMap.ext_getElem? fun other => ?_
  rw [Std.ExtTreeMap.getElem?_modify]
  split
  · rename_i same
    rw [← Std.LawfulEqOrd.eq_of_compare same, absent]
    rfl
  · rfl

/-- To modify what is there is to put it in again. -/
theorem modify_of_getElem?_eq_some {α : Type} {κ : Type} [Ord κ] [Std.TransOrd κ]
    [Std.LawfulEqOrd κ] {m : Std.ExtTreeMap κ α} {k : κ} {f : α → α} {a : α}
    (there : m[k]? = some a) : m.modify k f = m.insert k (f a) := by
  refine Std.ExtTreeMap.ext_getElem? fun other => ?_
  rw [Std.ExtTreeMap.getElem?_modify, Std.ExtTreeMap.getElem?_insert, there]
  rfl

/-- An update changes the entry in place if there is one, whether or not it can be written. -/
theorem state_updateJob (fault : Option (PersistFault Text)) (store : StateStore Text) (id : String)
    (f : Job → Job) :
    (store.updateJob format fault id f).2.state =
      { store.state with jobs := store.state.jobs.modify id f } := by
  unfold StateStore.updateJob StateStore.modify
  -- Without the entry there is nothing to change.
  cases found : store.state.jobs[id]? with
  | none =>
    rw [modify_of_getElem?_eq_none found]
  | some job =>
    rw [modify_of_getElem?_eq_some found]
    rfl

/-- An update changes the source in place if it is there, whether or not it can be written. -/
theorem state_updateSource (fault : Option (PersistFault Text)) (store : StateStore Text)
    (id : Uuid) (f : Source → Source) :
    (store.updateSource format fault id f).2.state =
      { store.state with sources := store.state.sources.modify id f } := by
  unfold StateStore.updateSource StateStore.modify
  -- Without the entry there is nothing to change.
  cases found : store.state.sources[id]? with
  | none =>
    rw [modify_of_getElem?_eq_none found]
  | some job =>
    rw [modify_of_getElem?_eq_some found]
    rfl

/-- A turn over a job of the flake that goes through. -/
theorem turn_reconcileFlakeJob {managed managed' : Std.ExtTreeMap String String}
    {entry : String × JobSpec} {before after : StateStore Text}
    (through : Through (reconcileFlakeJob format contentHash source round managed entry) before
      managed' after) :
    (managed', after.state) = (noted contentHash source managed entry,
      { before.state with
        jobs := placed contentHash source round.submittedAt before.state.jobs entry }) := by
  obtain ⟨jobName, spec⟩ := entry
  unfold reconcileFlakeJob at through
  dsimp only at through
  unfold noted placed
  dsimp only
  -- The name has not been managed, or the hash has changed, or it is the same.
  split at through
  · rename_i unmanaged
    rw [unmanaged]
    obtain ⟨result, between, stored, rest⟩ := through_bind_iff.mp through
    have stored := through_onStore_iff.mp stored
    split at rest
    · cases not_through_throw rest
    · obtain ⟨rfl, rfl⟩ := through_pure_iff.mp rest
      have state : after.state = _ := congrArg (fun p => p.2.state) stored.symm
      rw [state]
      rfl
  · rename_i oldHash managing
    rw [managing]
    split at through
    · rename_i changed
      obtain ⟨result, between, stored, rest⟩ := through_bind_iff.mp through
      have stored := through_onStore_iff.mp stored
      obtain ⟨rfl, rfl⟩ := through_pure_iff.mp rest
      have state : after.state = _ := congrArg (fun p => p.2.state) stored.symm
      rw [state, state_updateJob]
      simp only [Option.some.injEq, changed, if_false]
    · rename_i unchanged
      rw [not_not] at unchanged
      obtain ⟨rfl, rfl⟩ := through_pure_iff.mp through
      simp only [unchanged, if_true]

/-- A turn over a job that is gone from the flake. -/
theorem turn_removeJob {managed managed' : Std.ExtTreeMap String String} {jobName : String}
    {before after : StateStore Text}
    (through : Through (removeJob format round managed jobName) before managed' after) :
    (managed', after.state) = (managed.erase jobName,
      { before.state with jobs := before.state.jobs.modify jobName killed }) := by
  -- The turn is the one update, whose answer is not looked at.
  obtain ⟨result, between, stored, rest⟩ := through_bind_iff.mp through
  have stored := through_onStore_iff.mp stored
  obtain ⟨rfl, rfl⟩ := through_pure_iff.mp rest
  have state : after.state = _ := congrArg (fun p => p.2.state) stored.symm
  rw [state, state_updateJob]
  rfl

/-- What a pass that goes through makes of a store, where the flake has these entries. -/
theorem state_of_through (newRevision : ∀ metadata, round.metadata = .ok metadata →
      source.lastRev ≠ some metadata.currentRev) {before after : StateStore Text}
    (through : Through (reconcileSingleSource format contentHash source round) before () after) :
    ∃ entries, round.flakeJobs = .ok entries ∧
      let removed := round.managedNames.filter fun name => name ∉ entries.map (·.1)
      let managed := removed.foldl (fun managed name => managed.erase name)
        (entries.foldl (noted contentHash source) source.managedJobs)
      after.state.jobs = removed.foldl (fun jobs name => jobs.modify name killed)
        (entries.foldl (placed contentHash source round.submittedAt) before.state.jobs) ∧
      ∃ revision, after.state.sources = before.state.sources.modify source.id fun s =>
        { s with
          lastRev := some revision, lastReconciledAt := some round.reconciledAt
          managedJobs := managed, status := .ready, lastError := none } := by
  obtain ⟨_, validated, validating, fetching⟩ := through_bind_iff.mp through
  -- The validation leaves the store alone, where there is one.
  have untouched : validated = before := by
    unfold validateFirst at validating
    split at validating
    · exact (through_answer_iff.mp validating).2
    · exact (through_pure_iff.mp validating).2
  subst untouched
  obtain ⟨metadata, fetched, asking, behind⟩ := through_bind_iff.mp fetching
  obtain ⟨found, rfl⟩ := through_answer_iff.mp asking
  rw [if_neg (newRevision metadata found)] at behind
  obtain ⟨entries, evaluated, evaluating, looping⟩ := through_bind_iff.mp behind
  obtain ⟨offered, rfl⟩ := through_answer_iff.mp evaluating
  obtain ⟨managed, placedStore, placing, further⟩ := through_bind_iff.mp looping
  obtain ⟨left, removedStore, removing, last⟩ := through_bind_iff.mp further
  obtain ⟨result, between, storing, ended⟩ := through_bind_iff.mp last
  obtain ⟨-, rfl⟩ := through_pure_iff.mp ended
  have stored : after.state = _ := congrArg (fun p => p.2.state)
    (through_onStore_iff.mp storing).symm
  rw [state_updateSource] at stored
  -- The loops are plain folds of what they change, and leave the sources alone.
  have managed_eq : managed = entries.foldl (noted contentHash source) source.managedJobs :=
    foldl_of_through (fun managed _ => managed) (fun _ _ _ _ _ turn =>
      (Prod.mk.inj (turn_reconcileFlakeJob turn)).1) placing
  have jobs_eq : placedStore.state.jobs =
      entries.foldl (placed contentHash source round.submittedAt) evaluated.state.jobs :=
    foldl_of_through (fun _ store => store.state.jobs) (fun _ _ _ _ _ turn => by
      rw [(Prod.mk.inj (turn_reconcileFlakeJob turn)).2]) placing
  have sources_eq : placedStore.state.sources = evaluated.state.sources :=
    view_eq_of_through (fun _ store => store.state.sources) (fun _ _ _ _ _ turn => by
      rw [(Prod.mk.inj (turn_reconcileFlakeJob turn)).2]) placing
  have left_eq : left = (round.managedNames.filter fun name => name ∉ entries.map (·.1)).foldl
      (fun managed name => managed.erase name) managed :=
    foldl_of_through (fun managed _ => managed) (fun _ _ _ _ _ turn =>
      (Prod.mk.inj (turn_removeJob turn)).1) removing
  have killed_eq : removedStore.state.jobs =
      (round.managedNames.filter fun name => name ∉ entries.map (·.1)).foldl
        (fun jobs name => jobs.modify name killed) placedStore.state.jobs :=
    foldl_of_through (fun _ store => store.state.jobs) (fun _ _ _ _ _ turn => by
      rw [(Prod.mk.inj (turn_removeJob turn)).2]) removing
  have kept_eq : removedStore.state.sources = placedStore.state.sources :=
    view_eq_of_through (fun _ store => store.state.sources) (fun _ _ _ _ _ turn => by
      rw [(Prod.mk.inj (turn_removeJob turn)).2]) removing
  refine ⟨entries, offered, ?_, metadata.currentRev, ?_⟩
  · rw [stored, killed_eq, jobs_eq]
  · rw [stored, kept_eq, sources_eq, left_eq, managed_eq]

/-- An update of a job goes through, whatever comes of it. -/
theorem exists_through_updateJob {α : Type} (fault : Option (PersistFault Text)) (id : String)
    (f : Job → Job) (a : α) (before : StateStore Text) :
    ∃ b after, Through (do
      let _ ← onStore (·.updateJob format fault id f)
      return a : SourceTask Text α) before b after :=
  ⟨a, _, through_bind_iff.mpr ⟨_, _, through_onStore_iff.mpr rfl, through_pure_iff.mpr ⟨rfl, rfl⟩⟩⟩

/-- Where the state file can be written, a turn over a job of the flake goes through. -/
theorem exists_through_reconcileFlakeJob (written : ∀ name, round.jobFault name = none)
    (managed : Std.ExtTreeMap String String) (entry : String × JobSpec)
    (before : StateStore Text) : ∃ managed' after,
      Through (reconcileFlakeJob format contentHash source round managed entry) before managed'
        after := by
  obtain ⟨jobName, spec⟩ := entry
  unfold reconcileFlakeJob
  dsimp only
  -- Only the creation of a job could fail.
  split
  · rw [written jobName]
    let job := intoJob contentHash (round.submittedAt jobName) spec
    exact ⟨managed.insert jobName (contentHash spec), (before.putJob format none job).2,
      through_bind_iff.mpr ⟨.ok (), _, through_onStore_iff.mpr rfl,
        through_pure_iff.mpr ⟨rfl, rfl⟩⟩⟩
  · split
    · exact exists_through_updateJob _ _ _ _ before
    · exact ⟨_, _, through_pure_iff.mpr ⟨rfl, rfl⟩⟩

/-- A round without faults in which the flake has a new revision and these entries. -/
def calmRound (source : Source) (entries : List (String × JobSpec)) : Round Text where
  validated := .ok ()
  metadata := .ok ⟨some (source.lastRev.getD "" ++ "+"), 0, source.flakeRef⟩
  flakeJobs := .ok entries
  managedNames := source.managedJobs.keys
  submittedAt _ := ⟨0⟩
  reconciledAt := ⟨0⟩
  jobFault _ := none
  sourceFault := none

/-- A longer text is another one. -/
theorem lastRev_ne_calmRound (lastRev : Option String) :
    lastRev ≠ some (lastRev.getD "" ++ "+") := by
  -- Without a revision there is nothing that it could be the same as.
  cases lastRev with
  | none => simp
  | some rev =>
    intro same
    have lengths := congrArg String.length (Option.some.inj same)
    rw [Option.getD_some, String.length_append] at lengths
    exact absurd lengths (by simp)

/-- A calm round offers another revision and its own entries. -/
theorem offers_calmRound {entries : List (String × JobSpec)}
    {flakeJobs : Std.ExtTreeMap String JobSpec} (jobs : entries.Perm flakeJobs.toList) :
    (calmRound source entries : Round Text).Offers source flakeJobs where
  newRevision metadata found := by
    obtain rfl := Except.ok.inj found
    exact lastRev_ne_calmRound source.lastRev
  jobs other offered := Except.ok.inj offered ▸ jobs
  managed := .refl _

/-- A revision is applied to the end. -/
theorem exists_through_applyRevision (revision : String) (entries : List (String × JobSpec))
    (before : StateStore Text) :
    ∃ after, Through (applyRevision format contentHash source (calmRound source entries) revision)
      before () after := by
  obtain ⟨managed, placedStore, placing⟩ := exists_through_foldlM
    (@exists_through_reconcileFlakeJob Text format contentHash source (calmRound source entries)
      fun _ => rfl) entries source.managedJobs before
  have turn (managed : Std.ExtTreeMap String String) (name : String) (store : StateStore Text) :
      ∃ managed' after, Through
        (removeJob format (calmRound source entries : Round Text) managed name) store managed'
          after :=
    exists_through_updateJob _ _ _ _ store
  obtain ⟨left, removedStore, removing⟩ := exists_through_foldlM turn
    (source.managedJobs.keys.filter fun name => name ∉ entries.map (·.1)) managed placedStore
  let last := onStore fun store : StateStore Text =>
    store.updateSource format none source.id fun s =>
      { s with
        lastRev := some revision, lastReconciledAt := some ⟨0⟩, managedJobs := left
        status := .ready, lastError := none }
  -- The steps are put together in the order in which they are taken.
  have updating : Through last removedStore _ _ := through_onStore_iff.mpr rfl
  exact ⟨_, through_bind_iff.mpr ⟨entries, before, through_answer_iff.mpr ⟨rfl, rfl⟩,
    through_bind_iff.mpr ⟨managed, placedStore, placing, through_bind_iff.mpr
      ⟨left, removedStore, removing, through_bind_iff.mpr ⟨_, _, updating,
        through_pure_iff.mpr ⟨rfl, rfl⟩⟩⟩⟩⟩⟩

/-- Such a round goes through. -/
theorem exists_through_calmRound (entries : List (String × JobSpec)) (before : StateStore Text) :
    ∃ after, Through (reconcileSingleSource format contentHash source (calmRound source entries))
      before () after := by
  let metadata : FlakeMetadata := ⟨some (source.lastRev.getD "" ++ "+"), 0, source.flakeRef⟩
  obtain ⟨after, applying⟩ := @exists_through_applyRevision Text format contentHash source
    metadata.currentRev entries before
  -- The reference is that of the source, so that there is nothing to refuse.
  have validating : Through (validateFirst source (calmRound source entries)) before ()
      before := by
    unfold validateFirst
    split <;> rfl
  have changed : source.lastRev ≠ some metadata.currentRev := lastRev_ne_calmRound source.lastRev
  refine ⟨after, through_bind_iff.mpr ⟨(), before, validating, through_bind_iff.mpr
    ⟨metadata, before, through_answer_iff.mpr ⟨rfl, rfl⟩, ?_⟩⟩⟩
  rw [if_neg changed]
  exact applying

end

end Tatara.Engine
