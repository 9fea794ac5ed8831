import Tatara.Lib.Machine
import Tatara.Operator.Flakes

/-! The reconciler of flake sources, which makes the builds of their outputs, and in which runs
every output is built for every new commit. -/

namespace Tatara.Operator

open Tatara.Rust Tatara.Steps

/-- What the calls of a reconcile are answered: the poll, the first creation of each output, the
deletion and the second creation behind a conflict, the lookup of each build, and the patch of the
status. -/
structure SourceAnswers where
  latestCommit : Except String String
  create : Nat → Option String
  delete : Nat → Option String
  recreate : Nat → Option String
  get : Nat → Option String
  patch : Option PatchFault
  now : DateTime

/-- The build objects of the server, how many have been created so far, and the status of the
source. -/
structure SourceState where
  builds : NixBuilds
  created : Nat
  status : Option FlakeSourceStatus

/-- `slugify_attr`. -/
def slugifyAttr (attr : String) : String := String.ofList (attr.toList.rtakeWhile (· ≠ '.'))

/-- The state of an output whose build is in a phase. -/
def outputState : NixBuildPhase → OutputState
  | .complete => .cached
  | .failed => .failed
  | .building | .pushing | .queued => .building
  | .pending => .pending

section

variable (ref : ObjectRef) (spec : FlakeSourceSpec)

/-- The name of the build of an output, before it is truncated. -/
def fullBuildName (output : FlakeOutput) : String := ref.name ++ "-" ++ slugifyAttr output.attr

/-- The object of the build of an output. -/
def buildRef (output : FlakeOutput) : ObjectRef :=
  ⟨ref.namespace_, truncateK8sName (fullBuildName ref output)⟩

/-- The spec of the build of an output. -/
def buildSpec (output : FlakeOutput) : NixBuildSpec :=
  { flakeRef := spec.repo ++ "#" ++ output.attr
    system := output.system
    atticCache := some spec.atticCache
    extraArgs := spec.extraArgs ++ output.extraArgs
    priority := 0 }

/-- The build of an output is created. -/
def SourceState.add (s : SourceState) (output : FlakeOutput) : SourceState :=
  { s with
    builds := Function.update s.builds (buildRef ref output)
      (some ⟨s.created, buildSpec spec output, none⟩)
    created := s.created + 1 }

/-- The build of an output is created, and one that is there already is deleted first. -/
def createOutput (answers : SourceAnswers) (place : Nat) (output : FlakeOutput) (s : SourceState) :
    Except String Unit × SourceState :=
  match answers.create place with
  | some e => (.error e, s)
  | none =>
    match s.builds (buildRef ref output) with
    | none => (.ok (), s.add ref spec output)
    | some _ =>
      let t :=
        match answers.delete place with
        | none => { s with builds := deleteBuild s.builds (buildRef ref output) }
        | some _ => s
      match answers.recreate place, t.builds (buildRef ref output) with
      | some e, _ => (.error e, t)
      | none, some _ => (.error "AlreadyExists", t)
      | none, none => (.ok (), t.add ref spec output)

/-- The status of an output whose build has been created. -/
def pendingOutput (output : FlakeOutput) : OutputStatus :=
  ⟨output.attr, .pending, none, some (buildRef ref output).name, none⟩

/-- The builds of the outputs are created one after the other. -/
def createOutputs (answers : SourceAnswers) (place : Nat) :
    List FlakeOutput → SourceState → Except String (List OutputStatus) × SourceState
  | [], s => (.ok [], s)
  | output :: rest, s =>
    match createOutput ref spec answers place output s with
    | (.error e, t) => (.error e, t)
    | (.ok _, t) =>
      match createOutputs answers (place + 1) rest t with
      | (.error e, u) => (.error e, u)
      | (.ok statuses, u) => (.ok (pendingOutput ref output :: statuses), u)

/-- The commit that the status has recorded. -/
def SourceState.lastCommit (s : SourceState) : Option String :=
  match s.status with
  | some status => status.lastCommit
  | none => none

/-- The state of some output is another one than its build is in. -/
def outputsMoved (answers : SourceAnswers) (s : SourceState) (statuses : List OutputStatus) :
    Bool :=
  statuses.zipIdx.any fun (os, place) =>
    match os.buildRef, answers.get place with
    | some name, none =>
      match s.builds ⟨ref.namespace_, name⟩ with
      | some build =>
        match build.status with
        | some status => outputState status.phase != os.state
        | none => false
      | none => false
    | none, _ | some _, some _ => false

/-- The end of a call whose patch has fields that are none of the status, which the server drops. -/
def droppedPatch (answers : SourceAnswers) : Except String Unit :=
  if answers.patch.isNone then .ok () else .error "Kube error"

/-- `reconcile` of a flake source. -/
def reconcileSource (answers : SourceAnswers) (s : SourceState) :
    Except String Unit × SourceState :=
  match answers.latestCommit with
  | .error _ => (droppedPatch answers, s)
  | .ok latest =>
    let isNew := s.lastCommit ≠ some latest
    let isFirst := s.lastCommit = none ∧ spec.buildOnCreate
    if isNew ∨ isFirst then
      match createOutputs ref spec answers 0 spec.outputs s with
      | (.error e, t) => (.error e, t)
      | (.ok outputStatuses, t) =>
        let status : FlakeSourceStatus :=
          { lastPolled := some answers.now
            lastCommit := some latest
            previousCommit := s.lastCommit
            cachedOutputs := 0
            totalOutputs := .ofNat spec.outputs.length
            outputStatuses
            lastError := none }
        (if answers.patch.isNone then .ok () else .error "Kube error",
          { t with status := if Lands answers.patch then some status else t.status })
    else
      match s.status with
      | none => (.ok (), s)
      | some status =>
        if outputsMoved ref answers s status.outputStatuses then (droppedPatch answers, s)
        else (.ok (), s)

end

section

variable (selectedBranch : String → String)

/-- A flake reference selects the attribute behind its first hash sign, on the branch that what
stands before it selects. -/
def Selects (flakeRef attr branch : String) : Prop :=
  flakeRef.toList.dropWhile (· ≠ '#') = '#' :: attr.toList ∧
    selectedBranch (String.ofList (flakeRef.toList.takeWhile (· ≠ '#'))) = branch

/-- The polled commit differs from a recorded one, or none is recorded and the first one is to be
built. -/
def Due (spec : FlakeSourceSpec) (s : SourceState) (latest : String) : Prop :=
  match s.lastCommit with
  | some recorded => recorded ≠ latest
  | none => spec.buildOnCreate

/-- There is one build for each output, which selects it on the watched branch, and the statuses of
the outputs refer to them one to one. -/
structure EveryOutputBuilt (ref : ObjectRef) (spec : FlakeSourceSpec) (s : SourceState) : Prop where
  each : ∃ status, s.status = some status ∧
    status.outputStatuses.length = spec.outputs.length ∧
    ∀ (i : Nat) output os, spec.outputs[i]? = some output → status.outputStatuses[i]? = some os →
      os.attr = output.attr ∧ ∃ name build, os.buildRef = some name ∧
        s.builds ⟨ref.namespace_, name⟩ = some build ∧
        Selects selectedBranch build.spec.flakeRef output.attr spec.branch
  distinct : ∀ status, s.status = some status →
    (status.outputStatuses.map OutputStatus.buildRef).Nodup

/-- A reconcile that succeeds creates builds when it is due and not otherwise, and leaves one for
every output. -/
structure BuildsWhenDue (ref : ObjectRef) (spec : FlakeSourceSpec) (s : SourceState)
    (answers : SourceAnswers) : Prop where
  due : ∀ latest, answers.latestCommit = .ok latest →
    (reconcileSource ref spec answers s).1 = .ok () → Due spec s latest →
      (reconcileSource ref spec answers s).2.created = s.created + spec.outputs.length ∧
        EveryOutputBuilt selectedBranch ref spec (reconcileSource ref spec answers s).2
  notDue : ∀ latest, answers.latestCommit = .ok latest →
    (reconcileSource ref spec answers s).1 = .ok () → ¬ Due spec s latest →
      (reconcileSource ref spec answers s).2.created = s.created

/-- The names of the builds of any two outputs begin otherwise, and what stands before the attribute
has no hash sign and selects the watched branch. -/
structure Buildable (ref : ObjectRef) (spec : FlakeSourceSpec) : Prop where
  apart : spec.outputs.Pairwise fun output output' =>
    ¬ SameStem (fullBuildName ref output) (fullBuildName ref output')
  selects : spec.outputs ≠ [] → '#' ∉ spec.repo.toList ∧ selectedBranch spec.repo = spec.branch

/-- A reconcile that succeeds finds a commit recorded, or is to build the first one, or has nothing
to build; and if it is due, the outputs are buildable. -/
def Suited (ref : ObjectRef) (spec : FlakeSourceSpec) (s : SourceState)
    (answers : SourceAnswers) : Prop :=
  ∀ latest, answers.latestCommit = .ok latest → (reconcileSource ref spec answers s).1 = .ok () →
    (s.lastCommit = none → spec.buildOnCreate ∨ spec.outputs = []) ∧
      (Due spec s latest → Buildable selectedBranch ref spec)

end

variable {selectedBranch : String → String} {ref : ObjectRef} {spec : FlakeSourceSpec}
  {s t : SourceState} {answers : SourceAnswers}

/-- The reference of a build selects its output when nothing in front of the attribute is taken for
it, and the watched branch is the one selected. -/
theorem selects_iff {repo attr branch : String} :
    Selects selectedBranch (repo ++ "#" ++ attr) attr branch ↔
      '#' ∉ repo.toList ∧ selectedBranch repo = branch := by
  have hash : "#".toList = ['#'] := rfl
  unfold Selects
  rw [String.toList_append, String.toList_append, hash, List.append_assoc, List.singleton_append]
  by_cases clean : '#' ∈ repo.toList
  · -- The first hash sign is in what stands in front, so more than the attribute is behind it.
    refine iff_of_false (fun both => ?_) fun both => both.1 clean
    have long := congrArg List.length both.1
    have some_ : repo.toList.dropWhile (· ≠ '#') ≠ [] := by
      intro empty
      have all := List.dropWhile_eq_nil_iff.mp empty '#' clean
      simp at all
    rw [List.dropWhile_append, if_neg (by simpa using some_), List.length_append] at long
    have positive := List.length_pos_iff.mpr some_
    omega
  · have plain (c : Char) (among : c ∈ repo.toList) : decide (c ≠ '#') = true := by
      rw [decide_eq_true_eq]
      rintro rfl
      exact clean among
    rw [List.dropWhile_append_of_pos plain, List.takeWhile_append_of_pos plain]
    simp [clean]

/-- What comes of the creation of the build of an output that succeeds. -/
theorem createOutput_eq_ok {place : Nat} {output : FlakeOutput}
    (ok : (createOutput ref spec answers place output s).1 = .ok ()) :
    (createOutput ref spec answers place output s).2.status = s.status ∧
      (createOutput ref spec answers place output s).2.created = s.created + 1 ∧
      (createOutput ref spec answers place output s).2.builds =
        Function.update s.builds (buildRef ref output)
          (some ⟨s.created, buildSpec spec output, none⟩) := by
  -- It succeeds at once, or after the object of the name has been deleted.
  unfold createOutput at *
  cases first : answers.create place with
  | some e =>
    rw [first] at ok
    cases ok
  | none =>
    rw [first] at ok
    dsimp only at *
    cases there : s.builds (buildRef ref output) with
    | none => exact ⟨rfl, rfl, rfl⟩
    | some build =>
      rw [there] at ok
      dsimp only at *
      cases deleted : answers.delete place with
      | none =>
        rw [deleted] at ok
        dsimp only [deleteBuild] at *
        cases second : answers.recreate place with
        | some e =>
          rw [second] at ok
          cases ok
        | none =>
          rw [Function.update_self]
          refine ⟨rfl, rfl, ?_⟩
          dsimp only [SourceState.add]
          exact Function.update_idem ..
      | some e =>
        rw [deleted] at ok
        dsimp only at *
        rw [there] at ok
        cases second : answers.recreate place <;> rw [second] at ok <;> cases ok

/-- What comes of the creation of the builds of all outputs: each has one, unless another output
has the same name, and no other object is touched. -/
structure CreateSpec (ref : ObjectRef) (spec : FlakeSourceSpec) (outputs : List FlakeOutput)
    (s : SourceState) (statuses : List OutputStatus) (t : SourceState) : Prop where
  statuses : statuses = outputs.map (pendingOutput ref)
  status : t.status = s.status
  created : t.created = s.created + outputs.length
  others : ∀ object, (∀ output ∈ outputs, buildRef ref output ≠ object) →
    t.builds object = s.builds object
  each : (outputs.map (buildRef ref)).Nodup → ∀ output ∈ outputs, ∃ uid,
    t.builds (buildRef ref output) = some ⟨uid, buildSpec spec output, none⟩

/-- The loop over the outputs does what is said of it where it succeeds. -/
theorem createOutputs_spec {place : Nat} {outputs : List FlakeOutput}
    {statuses : List OutputStatus}
    (ok : createOutputs ref spec answers place outputs s = (.ok statuses, t)) :
    CreateSpec ref spec outputs s statuses t := by
  -- By induction on the outputs; a build that is made stays unless its name comes again.
  induction outputs generalizing place s statuses with
  | nil =>
    cases ok
    exact ⟨rfl, rfl, rfl, fun _ _ => rfl, nofun⟩
  | cons output rest ih =>
    rw [createOutputs] at ok
    split at ok
    · cases ok
    · rename_i u s' first
      have made := @createOutput_eq_ok ref spec s answers place output (by rw [first])
      rw [first] at made
      obtain ⟨status, created, builds⟩ := made
      dsimp only at status created builds
      split at ok
      · cases ok
      · rename_i others t' behind
        cases ok
        have spec_ := ih behind
        refine ⟨by rw [spec_.statuses]; rfl, spec_.status.trans status, ?_, fun object other => ?_,
          fun once output' among => ?_⟩
        · rw [spec_.created, created, List.length_cons]
          omega
        · obtain ⟨own, others⟩ := List.forall_mem_cons.mp other
          rw [spec_.others object others, builds, Function.update_of_ne (Ne.symm own)]
        · rw [List.map_cons, List.nodup_cons] at once
          rcases List.mem_cons.mp among with rfl | later
          · refine ⟨s.created, ?_⟩
            have last (output : FlakeOutput) (later : output ∈ rest) :
                buildRef ref output ≠ buildRef ref output' := fun same =>
              once.1 (List.mem_map.mpr ⟨output, later, same⟩)
            rw [spec_.others _ last, builds, Function.update_self]
          · exact spec_.each once.2 output' later

/-- Two outputs have one build object if their names agree up to the cut. -/
theorem buildRef_eq_iff {output output' : FlakeOutput} :
    buildRef ref output = buildRef ref output' ↔
      SameStem (fullBuildName ref output) (fullBuildName ref output') := by
  rw [← truncateK8sName_eq_iff]
  simp [buildRef]

/-- The names that the statuses refer to are distinct when they begin otherwise. -/
theorem nodup_statuses_iff {outputs : List FlakeOutput} :
    ((outputs.map (pendingOutput ref)).map OutputStatus.buildRef).Nodup ↔
      outputs.Pairwise fun output output' =>
        ¬ SameStem (fullBuildName ref output) (fullBuildName ref output') := by
  -- The outputs have one namespace, so that their names alone tell them apart.
  rw [List.map_map, List.Nodup, List.pairwise_map]
  refine List.Pairwise.iff fun output output' => not_congr ?_
  rw [← truncateK8sName_eq_iff]
  simp [pendingOutput, buildRef]

/-- The builds are apart if no two names agree up to the cut. -/
theorem nodup_buildRef_iff {outputs : List FlakeOutput} :
    (outputs.map (buildRef ref)).Nodup ↔ outputs.Pairwise fun output output' =>
      ¬ SameStem (fullBuildName ref output) (fullBuildName ref output') := by
  rw [List.Nodup, List.pairwise_map]
  exact List.Pairwise.iff fun _ _ => not_congr buildRef_eq_iff

/-- After the builds of all outputs have been created, each output has its own exactly when they are
buildable. -/
theorem everyOutputBuilt_iff {statuses : List OutputStatus} {status : FlakeSourceStatus}
    (made : CreateSpec ref spec spec.outputs s statuses t)
    (noted : status.outputStatuses = statuses) :
    EveryOutputBuilt selectedBranch ref spec { t with status := some status } ↔
      Buildable selectedBranch ref spec := by
  -- Every output has its build if no name is that of two, and the branch is the selected one.
  have statuses_ : status.outputStatuses = spec.outputs.map (pendingOutput ref) :=
    noted.trans made.statuses
  constructor
  · rintro ⟨⟨status', same, -, each⟩, distinct⟩
    cases same
    have once := distinct status rfl
    rw [statuses_, nodup_statuses_iff] at once
    refine ⟨once, fun some_ => ?_⟩
    obtain ⟨output, rest, first⟩ := List.exists_cons_of_ne_nil some_
    have at_ : spec.outputs[0]? = some output := by rw [first]; rfl
    obtain ⟨-, name, build, named, there, selects⟩ :=
      each 0 output (pendingOutput ref output) at_ (by rw [statuses_, first]; rfl)
    cases named
    obtain ⟨uid, own⟩ := made.each (nodup_buildRef_iff.mpr once) output (List.mem_of_getElem? at_)
    cases own.symm.trans there
    exact selects_iff.mp selects
  · rintro ⟨apart, selects⟩
    refine ⟨⟨status, rfl, ?_, fun i output os at_ at_' => ?_⟩, fun status' same => ?_⟩
    · rw [statuses_, List.length_map]
    · rw [statuses_, List.getElem?_map, at_] at at_'
      cases at_'
      have among := List.mem_of_getElem? at_
      obtain ⟨uid, own⟩ := made.each (nodup_buildRef_iff.mpr apart) output among
      refine ⟨rfl, _, _, rfl, own, selects_iff.mpr (selects ?_)⟩
      exact List.ne_nil_of_mem among
    · cases same
      rw [statuses_, nodup_statuses_iff]
      exact apart

/-- A reconcile with nothing new leaves the builds. -/
theorem reconcileSource_of_same {latest : String} (polled : answers.latestCommit = .ok latest)
    (same : s.lastCommit = some latest) : (reconcileSource ref spec answers s).2 = s := by
  -- A commit that is recorded already is not built again.
  unfold reconcileSource
  rw [polled]
  dsimp only
  rw [if_neg (by simp [same])]
  split
  · rfl
  · split <;> rfl

/-- A reconcile with a new commit creates the builds of all outputs and notes them. -/
theorem reconcileSource_of_new {latest : String} (polled : answers.latestCommit = .ok latest)
    (new : s.lastCommit ≠ some latest) (ok : (reconcileSource ref spec answers s).1 = .ok ()) :
    ∃ statuses t status, CreateSpec ref spec spec.outputs s statuses t ∧
      status.outputStatuses = statuses ∧
      (reconcileSource ref spec answers s).2 = { t with status := some status } := by
  -- The statuses are written after all builds have been created.
  unfold reconcileSource at *
  rw [polled] at *
  dsimp only at *
  rw [if_pos (.inl new)] at *
  split at ok
  · cases ok
  · rename_i statuses t made
    cases patched : answers.patch with
    | some fault =>
      rw [patched] at ok
      cases ok
    | none =>
      rw [if_pos lands_none]
      exact ⟨statuses, t, _, createOutputs_spec made, rfl, rfl⟩

/-- A reconcile builds what is due exactly when it is suited. -/
theorem buildsWhenDue_iff_suited :
    BuildsWhenDue selectedBranch ref spec s answers ↔ Suited selectedBranch ref spec s answers := by
  constructor
  · rintro ⟨due, notDue⟩ latest polled ok
    refine ⟨fun none => ?_, fun isDue => ?_⟩
    · by_cases first : spec.buildOnCreate = true
      · exact .inl first
      · -- The builds are created all the same, unless there are none.
        have unwanted : ¬ Due spec s latest := by
          unfold Due
          rwa [none]
        have kept := notDue latest polled ok unwanted
        obtain ⟨statuses, t, status, made, -, same⟩ :=
          reconcileSource_of_new polled (by rw [none]; nofun) ok
        rw [same] at kept
        have none_ : t.created = s.created := kept
        have more := made.created
        exact .inr (List.length_eq_zero_iff.mp (by omega))
    · have new : s.lastCommit ≠ some latest := by
        intro same
        unfold Due at isDue
        rw [same] at isDue
        exact isDue rfl
      obtain ⟨statuses, t, status, made, noted, same⟩ := reconcileSource_of_new polled new ok
      have every := (due latest polled ok isDue).2
      rw [same] at every
      exact (everyOutputBuilt_iff made noted).mp every
  · intro suited
    refine ⟨fun latest polled ok isDue => ?_, fun latest polled ok unwanted => ?_⟩
    · have new : s.lastCommit ≠ some latest := by
        intro same
        unfold Due at isDue
        rw [same] at isDue
        exact isDue rfl
      obtain ⟨statuses, t, status, made, noted, same⟩ := reconcileSource_of_new polled new ok
      rw [same]
      have buildable := (suited latest polled ok).2 isDue
      exact ⟨made.created, (everyOutputBuilt_iff made noted).mpr buildable⟩
    · by_cases recorded : s.lastCommit = some latest
      · rw [reconcileSource_of_same polled recorded]
      · obtain ⟨statuses, t, status, made, -, same⟩ := reconcileSource_of_new polled recorded ok
        have none : s.lastCommit = none := by
          cases held : s.lastCommit with
          | none => rfl
          | some commit =>
            refine absurd ?_ unwanted
            unfold Due
            rw [held]
            exact fun same => recorded (same ▸ held)
        have empty : spec.outputs = [] := by
          refine ((suited latest polled ok).1 none).resolve_left fun first => unwanted ?_
          unfold Due
          rwa [none]
        rw [same]
        have more : t.created = s.created + spec.outputs.length := made.created
        rw [empty] at more
        exact more

/-- Every output is built for every new commit in the runs in which each reconcile is suited. -/
theorem buildsWhenDue_iff_suited_run (selectedBranch : String → String) (ref : ObjectRef)
    (spec : FlakeSourceSpec) (start : SourceState) (reconciles : List SourceAnswers) :
    EachStep (fun s answers => (reconcileSource ref spec answers s).2)
        (BuildsWhenDue selectedBranch ref spec) start reconciles ↔
      EachStep (fun s answers => (reconcileSource ref spec answers s).2)
        (Suited selectedBranch ref spec) start reconciles :=
  -- No invariant is needed, as both sides are about the state before the reconcile.
  eachStep_congr (fun _ => True) trivial (fun _ _ _ _ => trivial)
    fun _ _ _ => buildsWhenDue_iff_suited

/-- No call fails. -/
structure SourceAnswers.Calm (answers : SourceAnswers) : Prop where
  create : ∀ place, answers.create place = none
  delete : ∀ place, answers.delete place = none
  recreate : ∀ place, answers.recreate place = none
  patch : answers.patch = none

/-- A build is made where the API server refuses nothing. -/
theorem createOutput_of_calm (calm : answers.Calm) (place : Nat) (output : FlakeOutput) :
    (createOutput ref spec answers place output s).1 = .ok () := by
  -- Where nothing fails, an object in the way is deleted first.
  unfold createOutput
  rw [calm.create, calm.delete, calm.recreate]
  cases s.builds (buildRef ref output) with
  | none => rfl
  | some build =>
    dsimp only [deleteBuild]
    rw [Function.update_self]

/-- All builds are made where the API server refuses nothing. -/
theorem createOutputs_of_calm (calm : answers.Calm) (place : Nat) (outputs : List FlakeOutput) :
    ∃ statuses, (createOutputs ref spec answers place outputs s).1 = .ok statuses := by
  -- By induction on the outputs.
  induction outputs generalizing place s with
  | nil => exact ⟨[], rfl⟩
  | cons output rest ih =>
    have first := @createOutput_of_calm ref spec s answers calm place output
    rw [createOutputs]
    split
    · rename_i e t made
      rw [made] at first
      cases first
    · rename_i u t made
      obtain ⟨others, behind⟩ := @ih t (place + 1)
      split
      · rename_i e t' made'
        rw [made'] at behind
        cases behind
      · exact ⟨_, rfl⟩

/-- A reconcile succeeds when no call fails. -/
theorem reconcileSource_of_calm (calm : answers.Calm) :
    (reconcileSource ref spec answers s).1 = .ok () := by
  -- Where nothing fails there is no error to return.
  have dropped : droppedPatch answers = .ok () := by
    unfold droppedPatch
    rw [calm.patch]
    rfl
  unfold reconcileSource
  cases answers.latestCommit with
  | error e => exact dropped
  | ok latest =>
    dsimp only
    split
    · obtain ⟨statuses, made⟩ := @createOutputs_of_calm ref spec s answers calm 0 spec.outputs
      split
      · rename_i e t failed
        rw [failed] at made
        cases made
      · rw [calm.patch]
        rfl
    · split
      · rfl
      · split
        · exact dropped
        · rfl

/-- A package that is to be built for two systems. -/
def twoSystems : FlakeSourceSpec :=
  { repo := "github:acme/web", branch := "main", pollInterval := "5m", webhookSecretRef := none
    outputs := [⟨"packages.x86_64-linux.web", "x86_64-linux", []⟩,
      ⟨"packages.aarch64-linux.web", "aarch64-linux", []⟩]
    atticCache := "main", buildOnCreate := true, extraArgs := [] }

/-- A first commit, and no failures. -/
def firstCommit : SourceAnswers :=
  { latestCommit := .ok "da39a3ee", create := fun _ => none, delete := fun _ => none
    recreate := fun _ => none, get := fun _ => none, patch := none, now := ⟨0⟩ }

/-- The build for the second system takes the place of the one for the first. -/
theorem second_system_replaces_first :
    ¬ EachStep (fun s answers => (reconcileSource ⟨"builds", "web"⟩ twoSystems answers s).2)
      (BuildsWhenDue (fun _ => "main") ⟨"builds", "web"⟩ twoSystems) ⟨fun _ => none, 0, none⟩
      [firstCommit] := by
  intro each
  have first := each [] firstCommit (List.prefix_refl _)
  rw [buildsWhenDue_iff_suited] at first
  have calm : firstCommit.Calm := ⟨fun _ => rfl, fun _ => rfl, fun _ => rfl, rfl⟩
  have buildable := (first "da39a3ee" rfl (reconcileSource_of_calm calm)).2 rfl
  -- Both names end in the last segment of the attribute path.
  have sameSlug : slugifyAttr "packages.x86_64-linux.web" =
      slugifyAttr "packages.aarch64-linux.web" := by decide +kernel
  have apart := buildable.apart
  rw [twoSystems, List.pairwise_cons] at apart
  refine apart.1 _ List.mem_cons_self (truncateK8sName_eq_iff.mp ?_)
  unfold fullBuildName
  rw [sameSlug]

end Tatara.Operator
