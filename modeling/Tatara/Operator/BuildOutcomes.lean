import Tatara.Lib.Machine
import Tatara.Operator.NixBuild
import Tatara.Rust.Text

/-! Builds that are asked for, answered and patched in any order, and in which runs the outcome of a
build is its own and final. -/

namespace Tatara.Operator

open Tatara.Rust Tatara.Steps

/-- A request that has been published, with the number of its identifier and the object that it was
published for. -/
structure Published where
  number : Nat
  request : BuildRequest
  uid : Nat

/-- The answer of a builder to a request. -/
structure Answered where
  published : Published
  storePath : Option String
  error : Option String

/-- The completion message of an answer. -/
def Answered.completion (answered : Answered) : Completion :=
  { buildId := some answered.published.request.buildId
    name := some answered.published.request.name
    namespace_ := some answered.published.request.namespace_
    storePath := answered.storePath
    error := answered.error }

/-- How publishing a request ends: the stream has it, has it without the publisher knowing, or does
not have it. -/
inductive PublishAnswer where
  | acknowledged
  | unacknowledged
  | lost

/-- The server, the streams of requests and completions, the reconciles that have published a
request and not patched the status yet, and how many identifiers have been drawn. -/
structure Builds where
  objects : NixBuilds
  uids : Nat
  drawn : Nat
  requests : List Published
  patching : List (ObjectRef × String)
  completions : List Answered

/-- A server without objects, and streams without messages. -/
def Builds.empty : Builds := ⟨fun _ => none, 0, 0, [], [], []⟩

/-- What happens: an object is created or deleted, a reconcile publishes a request for the object as
it was handed to it, a reconcile goes on to patch the status, a builder answers a request, or a
completion message is delivered, once more or for the first time. -/
inductive BuildEvent where
  | create (ref : ObjectRef) (spec : NixBuildSpec)
  | delete (ref : ObjectRef)
  | publish (ref : ObjectRef) (build : NixBuild) (answer : PublishAnswer)
  | patch (place : Nat) (fault : Option PatchFault)
  | answer (place : Nat) (storePath error : Option String)
  | deliver (place : Nat) (now : DateTime) (fault : Option PatchFault)

section

variable (newV4 : Nat → String)

/-- The first half of `reconcile`, up to the answer of the stream. -/
def Builds.publish (s : Builds) (ref : ObjectRef) (build : NixBuild) (answer : PublishAnswer) :
    Builds :=
  match build.phase with
  | .pending =>
    let buildId := newV4 s.drawn
    let requests := s.requests ++ [⟨s.drawn, build.request ref buildId, build.uid⟩]
    match answer with
    | .acknowledged =>
      { s with drawn := s.drawn + 1, requests, patching := s.patching ++ [(ref, buildId)] }
    | .unacknowledged => { s with drawn := s.drawn + 1, requests }
    | .lost => { s with drawn := s.drawn + 1 }
  | .queued | .building | .pushing | .complete | .failed => s

/-- The second half of `reconcile`, which patches the status. -/
def Builds.patch (s : Builds) (place : Nat) (fault : Option PatchFault) : Builds :=
  match s.patching[place]? with
  | some (ref, buildId) =>
    { s with
      objects := patchStatus fault s.objects ref (queuedStatus buildId)
      patching := s.patching.eraseIdx place }
  | none => s

/-- A builder answers a request. -/
def Builds.answer (s : Builds) (place : Nat) (storePath error : Option String) : Builds :=
  match s.requests[place]? with
  | some published => { s with completions := s.completions ++ [⟨published, storePath, error⟩] }
  | none => s

/-- The completion subscriber takes a message in. -/
def Builds.deliver (s : Builds) (place : Nat) (now : DateTime) (fault : Option PatchFault) :
    Builds :=
  match s.completions[place]? with
  | some answered =>
    let completion := answered.completion
    { s with objects := patchStatus fault s.objects completion.ref (completion.status now) }
  | none => s

/-- The builds after one event. -/
def Builds.serve (s : Builds) : BuildEvent → Builds
  | .create ref spec =>
    { s with objects := createBuild s.objects s.uids ref spec, uids := s.uids + 1 }
  | .delete ref => { s with objects := deleteBuild s.objects ref }
  | .publish ref build answer => s.publish newV4 ref build answer
  | .patch place fault => s.patch place fault
  | .answer place storePath error => s.answer place storePath error
  | .deliver place now fault => s.deliver place now fault

/-- The status of an object tells what was answered to a request for it. -/
def OwnOutcome (s : Builds) (build : NixBuild) : Prop :=
  ∃ answered ∈ s.completions, answered.published ∈ s.requests ∧
    answered.published.uid = build.uid ∧
    ∃ status, build.status = some status ∧
      status.buildId = some answered.published.request.buildId ∧
      (status.phase = .complete ∧ answered.error = none ∧ status.storePath = answered.storePath ∨
        status.phase = .failed ∧ ∃ err, answered.error = some err ∧ status.error = some err)

/-- After the event every outcome is one's own, and what was over is in the phase it was in. -/
structure Final (s : Builds) (event : BuildEvent) : Prop where
  own : ∀ ref build, (s.serve newV4 event).objects ref = some build → build.phase.Over →
    OwnOutcome (s.serve newV4 event) build
  final : ∀ ref build build', s.objects ref = some build → build.phase.Over →
    (s.serve newV4 event).objects ref = some build' → build'.uid = build.uid →
      build'.phase = build.phase

/-- The patches come to where they belong: the one of a reconcile to a build that is not over, and
the one of a completion to the very object that the request was for, which is not over in another
phase. -/
def Timely (s : Builds) : BuildEvent → Prop
  | .patch place fault =>
    ∀ ref buildId build, s.patching[place]? = some (ref, buildId) → Lands fault →
      s.objects ref = some build → ¬ build.phase.Over
  | .deliver place now fault =>
    ∀ answered build, s.completions[place]? = some answered → Lands fault →
      s.objects answered.completion.ref = some build →
        answered.published.uid = build.uid ∧
        (build.phase.Over → build.phase = (answered.completion.status now).phase)
  | .create .. | .delete .. | .publish .. | .answer .. => True

/-- What holds of all runs: the requests are told apart by their numbers, which their identifiers
are drawn by, and what was answered has been asked for. -/
structure Numbered (s : Builds) : Prop where
  drawn : ∀ published ∈ s.requests, published.number < s.drawn ∧
    published.request.buildId = newV4 published.number
  once : ∀ published ∈ s.requests, ∀ other ∈ s.requests, published.number = other.number →
    published = other
  asked : ∀ answered ∈ s.completions, answered.published ∈ s.requests

end

variable {newV4 : Nat → String} {s t : Builds}

theorem numbered_empty : Numbered newV4 .empty :=
  ⟨nofun, nofun, nofun⟩

/-- One more request with the next number. -/
theorem Numbered.request (numbered : Numbered newV4 s) (ref : ObjectRef) (build : NixBuild)
    (patching : List (ObjectRef × String)) :
    Numbered newV4 { s with
      drawn := s.drawn + 1, patching
      requests := s.requests ++ [⟨s.drawn, build.request ref (newV4 s.drawn), build.uid⟩] } := by
  -- The new request has a number that none before it has.
  refine ⟨fun published among => ?_, fun published among other among' same => ?_,
    fun answered among => List.mem_append_left _ (numbered.asked answered among)⟩
  · rcases List.mem_append.mp among with old | new
    · have before := numbered.drawn published old
      exact ⟨Nat.lt_succ_of_lt before.1, before.2⟩
    · rw [List.mem_singleton.mp new]
      exact ⟨Nat.lt_succ_self _, rfl⟩
  · rcases List.mem_append.mp among with old | new <;>
      rcases List.mem_append.mp among' with old' | new'
    · exact numbered.once published old other old' same
    · have before := (numbered.drawn published old).1
      rw [same, List.mem_singleton.mp new'] at before
      exact absurd before (Nat.lt_irrefl _)
    · have before := (numbered.drawn other old').1
      rw [← same, List.mem_singleton.mp new] at before
      exact absurd before (Nat.lt_irrefl _)
    · rw [List.mem_singleton.mp new, List.mem_singleton.mp new']

/-- The numbering has nothing to do with the objects and with what is to be patched. -/
theorem Numbered.congr (numbered : Numbered newV4 s) (drawn : s.drawn ≤ t.drawn)
    (requests : t.requests = s.requests)
    (completions : ∀ answered ∈ t.completions, answered.published ∈ s.requests) :
    Numbered newV4 t := by
  -- The requests are those of before, and no number is taken back.
  refine ⟨?_, ?_, ?_⟩
  · rw [requests]
    intro published among
    have before := numbered.drawn published among
    exact ⟨Nat.lt_of_lt_of_le before.1 drawn, before.2⟩
  · rw [requests]
    exact numbered.once
  · rw [requests]
    exact completions

/-- A request that is published has a number of its own. -/
theorem numbered_publish (numbered : Numbered newV4 s) (ref : ObjectRef) (build : NixBuild)
    (answer : PublishAnswer) : Numbered newV4 (s.publish newV4 ref build answer) := by
  -- A request is published for a build that is Pending, and only then.
  unfold Builds.publish
  cases build.phase with
  | pending =>
    cases answer with
    | acknowledged => exact numbered.request ref build _
    | unacknowledged => exact numbered.request ref build s.patching
    | lost => exact numbered.congr (Nat.le_succ _) rfl numbered.asked
  | queued | building | pushing | complete | failed => exact numbered

/-- Whatever happens, requests keep their numbers, and answers are to requests. -/
theorem numbered_serve (numbered : Numbered newV4 s) (event : BuildEvent) :
    Numbered newV4 (s.serve newV4 event) := by
  -- A number is drawn where a request is published, and nowhere else.
  have same {t : Builds} (drawn : t.drawn = s.drawn) (requests : t.requests = s.requests)
      (completions : t.completions = s.completions) : Numbered newV4 t :=
    numbered.congr (Nat.le_of_eq drawn.symm) requests (completions ▸ numbered.asked)
  unfold Builds.serve
  cases event with
  | create | delete => exact same rfl rfl rfl
  | publish ref build answer => exact numbered_publish numbered ref build answer
  | patch place fault =>
    dsimp only [Builds.patch]
    cases s.patching[place]? with
    | none => exact numbered
    | some patching => exact same rfl rfl rfl
  | answer place storePath error =>
    dsimp only [Builds.answer]
    cases there : s.requests[place]? with
    | none => exact numbered
    | some published =>
      refine numbered.congr (Nat.le_refl _) rfl fun answered among => ?_
      rcases List.mem_append.mp among with old | new
      · exact numbered.asked answered old
      · rw [List.mem_singleton.mp new]
        exact List.mem_of_getElem? there
  | deliver place now fault =>
    dsimp only [Builds.deliver]
    cases s.completions[place]? with
    | none => exact numbered
    | some answered => exact same rfl rfl rfl

/-- Every outcome is one's own. -/
def AllOwn (s : Builds) : Prop :=
  ∀ ref build, s.objects ref = some build → build.phase.Over → OwnOutcome s build

/-- At the beginning there are no outcomes. -/
theorem allOwn_empty : AllOwn .empty := by
  intro ref build there
  cases there

/-- An outcome stays one's own while requests and answers are added. -/
theorem OwnOutcome.mono {build : NixBuild} (own : OwnOutcome s build)
    (requests : s.requests ⊆ t.requests) (completions : s.completions ⊆ t.completions) :
    OwnOutcome t build := by
  obtain ⟨answered, among, asked, rest⟩ := own
  exact ⟨answered, completions among, requests asked, rest⟩

/-- An event that leaves what is over as it is. -/
theorem final_of_kept {event : BuildEvent} (allOwn : AllOwn s)
    (served : s.serve newV4 event = t) (requests : s.requests ⊆ t.requests)
    (completions : s.completions ⊆ t.completions)
    (kept : ∀ ref build, t.objects ref = some build → s.objects ref = some build ∨
      ¬ build.phase.Over ∧ ∀ old, s.objects ref = some old → ¬ old.phase.Over) :
    Final newV4 s event := by
  -- What is over has been there before, or is no build that was over.
  subst served
  refine ⟨fun ref build there ended => ?_, fun ref build build' before ended there _ => ?_⟩
  · rcases kept ref build there with old | ⟨notOver, -⟩
    · exact (allOwn ref build old ended).mono requests completions
    · exact absurd ended notOver
  · rcases kept ref build' there with old | ⟨-, notOver⟩
    · rw [Option.some.inj (before.symm.trans old)]
    · exact absurd ended (notOver build before)

/-- An event that changes nothing. -/
theorem final_of_unchanged {event : BuildEvent} (allOwn : AllOwn s)
    (served : s.serve newV4 event = s) : Final newV4 s event :=
  final_of_kept allOwn served (List.Subset.refl _) (List.Subset.refl _) fun _ _ there => .inl there

/-- A new build has no outcome. -/
theorem final_create (allOwn : AllOwn s) (ref : ObjectRef) (spec : NixBuildSpec) :
    Final newV4 s (.create ref spec) := by
  have served : s.serve newV4 (.create ref spec) =
      { s with objects := createBuild s.objects s.uids ref spec, uids := s.uids + 1 } := rfl
  refine final_of_kept allOwn served (List.Subset.refl _) (List.Subset.refl _)
    fun ref' build there => ?_
  rcases createBuild_eq_some there with old | ⟨missing, rfl⟩
  · exact .inl old
  · -- The new object has no status.
    refine .inr ⟨id, fun old before => ?_⟩
    rw [missing] at before
    cases before

/-- A build that is deleted has no outcome any more. -/
theorem final_delete (allOwn : AllOwn s) (ref : ObjectRef) : Final newV4 s (.delete ref) := by
  have served : s.serve newV4 (.delete ref) = { s with objects := deleteBuild s.objects ref } := rfl
  exact final_of_kept allOwn served (List.Subset.refl _) (List.Subset.refl _)
    fun _ _ there => .inl (deleteBuild_eq_some there)

/-- Publishing a request leaves the objects. -/
theorem final_publish (allOwn : AllOwn s) (ref : ObjectRef) (build : NixBuild)
    (answer : PublishAnswer) : Final newV4 s (.publish ref build answer) := by
  -- A publication is of no consequence to the objects.
  have frame : (s.publish newV4 ref build answer).objects = s.objects ∧
      s.requests ⊆ (s.publish newV4 ref build answer).requests ∧
      (s.publish newV4 ref build answer).completions = s.completions := by
    unfold Builds.publish
    cases build.phase with
    | pending =>
      cases answer with
      | acknowledged | unacknowledged => exact ⟨rfl, List.subset_append_left _ _, rfl⟩
      | lost => exact ⟨rfl, List.Subset.refl _, rfl⟩
    | queued | building | pushing | complete | failed => exact ⟨rfl, List.Subset.refl _, rfl⟩
  obtain ⟨objects, requests, completions⟩ := frame
  exact final_of_kept allOwn rfl requests (completions ▸ List.Subset.refl _)
    fun _ _ there => .inl (objects ▸ there)

/-- An answer leaves the objects. -/
theorem final_answer (allOwn : AllOwn s) (place : Nat) (storePath error : Option String) :
    Final newV4 s (.answer place storePath error) := by
  -- An answer adds a completion, and nothing else.
  have frame : (s.answer place storePath error).objects = s.objects ∧
      (s.answer place storePath error).requests = s.requests ∧
      s.completions ⊆ (s.answer place storePath error).completions := by
    unfold Builds.answer
    cases s.requests[place]? with
    | none => exact ⟨rfl, rfl, List.Subset.refl _⟩
    | some published => exact ⟨rfl, rfl, List.subset_append_left _ _⟩
  obtain ⟨objects, requests, completions⟩ := frame
  exact final_of_kept allOwn rfl (requests ▸ List.Subset.refl _) completions
    fun _ _ there => .inl (objects ▸ there)

/-- The patch of a reconcile leaves what is over exactly when it lands on a build that is not. -/
theorem final_patch_iff (allOwn : AllOwn s) (place : Nat) (fault : Option PatchFault) :
    Final newV4 s (.patch place fault) ↔ Timely s (.patch place fault) := by
  cases found : s.patching[place]? with
  | none =>
    refine iff_of_true (final_of_unchanged allOwn ?_) fun ref buildId build found' => ?_
    · dsimp only [Builds.serve, Builds.patch]
      rw [found]
    · rw [found] at found'
      cases found'
  | some item =>
    obtain ⟨ref, buildId⟩ := item
    have served : s.serve newV4 (.patch place fault) = { s with
        objects := patchStatus fault s.objects ref (queuedStatus buildId)
        patching := s.patching.eraseIdx place } := by
      dsimp only [Builds.serve, Builds.patch]
      rw [found]
    constructor
    · intro final ref' buildId' build found' lands there ended
      cases found.symm.trans found'
      -- The build would be queued again.
      have after := final.final ref build { build with status := some (queuedStatus buildId) } there
        ended
      rw [served] at after
      dsimp only at after
      rw [patchStatus_of_lands lands there, Function.update_self] at after
      rw [← after rfl rfl] at ended
      exact ended
    · intro timely
      refine final_of_kept allOwn served (List.Subset.refl _) (List.Subset.refl _)
        fun ref' build' there => ?_
      dsimp only at there
      rcases @patchStatus_cases fault s.objects ref (queuedStatus buildId) with same | landed
      · exact .inl (same ▸ there)
      · obtain ⟨lands, build, before, same⟩ := landed
        rw [same] at there
        by_cases own : ref' = ref
        · rw [own, Function.update_self] at there
          cases there
          refine .inr ⟨id, fun old before' => ?_⟩
          rw [own] at before'
          exact timely ref buildId old found lands before'
        · rw [Function.update_of_ne own] at there
          exact .inl there

/-- What a completion patches is the outcome of an object for which the request was published. -/
theorem ownOutcome_status_iff (fresh : Function.Injective newV4) (numbered : Numbered newV4 s)
    {answered : Answered} (among : answered ∈ s.completions) (build : NixBuild) (now : DateTime) :
    OwnOutcome s { build with status := some (answered.completion.status now) } ↔
      answered.published.uid = build.uid := by
  have asked := numbered.asked answered among
  constructor
  · rintro ⟨other, among', asked', same, status, written, buildId, -⟩
    cases written
    -- The identifier in the status tells which request it was.
    have own : (answered.completion.status now).buildId =
        some answered.published.request.buildId := by
      unfold Completion.status
      cases answered.completion.error <;> rfl
    have sameId := Option.some.inj (own.symm.trans buildId)
    rw [(numbered.drawn _ asked).2, (numbered.drawn _ asked').2] at sameId
    rw [numbered.once _ asked _ asked' (fresh sameId)]
    exact same
  · intro same
    refine ⟨answered, among, asked, same, _, rfl, ?_⟩
    cases failed : answered.error with
    | none =>
      have status : answered.completion.status now = { NixBuildStatus.default with
          phase := .complete, buildId := some answered.published.request.buildId
          storePath := answered.storePath, completedAt := some now } := by
        simp [Completion.status, Answered.completion, failed]
      rw [status]
      exact ⟨rfl, .inl ⟨rfl, rfl, rfl⟩⟩
    | some err =>
      have status : answered.completion.status now = { NixBuildStatus.default with
          phase := .failed, buildId := some answered.published.request.buildId
          error := some err, completedAt := some now } := by
        simp [Completion.status, Answered.completion, failed]
      rw [status]
      exact ⟨rfl, .inr ⟨rfl, err, rfl, rfl⟩⟩

/-- The patch of a completion leaves the outcomes as they should be exactly when it lands on the
object that was asked for, and that is not over in another phase. -/
theorem final_deliver_iff (fresh : Function.Injective newV4) (numbered : Numbered newV4 s)
    (allOwn : AllOwn s) (place : Nat) (now : DateTime) (fault : Option PatchFault) :
    Final newV4 s (.deliver place now fault) ↔ Timely s (.deliver place now fault) := by
  -- A message that is there patches its object, whatever the object shows.
  cases found : s.completions[place]? with
  | none =>
    refine iff_of_true (final_of_unchanged allOwn ?_) fun answered build found' => ?_
    · dsimp only [Builds.serve, Builds.deliver]
      rw [found]
    · rw [found] at found'
      cases found'
  | some answered =>
    have among := List.mem_of_getElem? found
    have served : s.serve newV4 (.deliver place now fault) = { s with
        objects := patchStatus fault s.objects answered.completion.ref
          (answered.completion.status now) } := by
      dsimp only [Builds.serve, Builds.deliver]
      rw [found]
    have over_ := answered.completion.over_status now
    constructor
    · intro final answered' build found' lands there
      cases found.symm.trans found'
      have after : (s.serve newV4 (.deliver place now fault)).objects answered.completion.ref =
          some { build with status := some (answered.completion.status now) } := by
        rw [served]
        dsimp only
        rw [patchStatus_of_lands lands there, Function.update_self]
      constructor
      · have own := final.own _ _ after over_
        rw [served] at own
        exact (ownOutcome_status_iff fresh numbered among build now).mp own
      · intro ended
        exact (final.final _ build _ there ended after rfl).symm
    · intro timely
      refine ⟨fun ref build there ended => ?_, fun ref build build' before ended there _ => ?_⟩
      all_goals
        rw [served] at *
        dsimp only at there
        rcases @patchStatus_cases fault s.objects answered.completion.ref
          (answered.completion.status now) with same | ⟨lands, old, held, same⟩ <;>
          rw [same] at there
      · exact allOwn ref build there ended
      · by_cases own : ref = answered.completion.ref
        · rw [own, Function.update_self] at there
          cases there
          refine (ownOutcome_status_iff fresh numbered among old now).mpr ?_
          exact (timely answered old found lands held).1
        · rw [Function.update_of_ne own] at there
          exact allOwn ref build there ended
      · rw [Option.some.inj (before.symm.trans there)]
      · by_cases own : ref = answered.completion.ref
        · rw [own, Function.update_self] at there
          cases there
          rw [own] at before
          exact ((timely answered build found lands before).2 ended).symm
        · rw [Function.update_of_ne own, before] at there
          rw [Option.some.inj there]

/-- An event leaves the outcomes as they should be exactly when it is timely. -/
theorem final_iff_timely (fresh : Function.Injective newV4) (numbered : Numbered newV4 s)
    (allOwn : AllOwn s) (event : BuildEvent) : Final newV4 s event ↔ Timely s event := by
  -- Only a patch and a delivery can be untimely.
  cases event with
  | create ref spec => exact iff_of_true (final_create allOwn ref spec) trivial
  | delete ref => exact iff_of_true (final_delete allOwn ref) trivial
  | publish ref build answer => exact iff_of_true (final_publish allOwn ref build answer) trivial
  | patch place fault => exact final_patch_iff allOwn place fault
  | answer place storePath error =>
    exact iff_of_true (final_answer allOwn place storePath error) trivial
  | deliver place now fault => exact final_deliver_iff fresh numbered allOwn place now fault

/-- The outcome of every build is its own and final in the runs in which all patches are timely. -/
theorem outcomes_final_iff_timely (newV4 : Nat → String) (fresh : Function.Injective newV4)
    (events : List BuildEvent) :
    EachStep (Builds.serve newV4) (Final newV4) .empty events ↔
      EachStep (Builds.serve newV4) Timely .empty events := by
  -- Numbers are drawn once, and what is over is the outcome of its own request.
  refine eachStep_congr (fun s => Numbered newV4 s ∧ AllOwn s) ⟨numbered_empty, allOwn_empty⟩ ?_ ?_
  · rintro s event ⟨numbered, -⟩ final
    exact ⟨numbered_serve numbered event, final.own⟩
  · rintro s event ⟨numbered, allOwn⟩
    exact final_iff_timely fresh numbered allOwn event

/-- Identifiers that end in their numbers. -/
def numberedV4 (n : Nat) : String := "00000000-0000-4000-8000-" ++ String.ofList (renderNat n)

/-- No two numbers are written alike. -/
theorem numberedV4_injective : Function.Injective numberedV4 := by
  intro n n' same
  unfold numberedV4 at same
  generalize "00000000-0000-4000-8000-" = front at same
  -- What is written in front of the number is the same for both.
  have texts := congrArg String.toList same
  rw [String.toList_append, String.toList_append, String.toList_ofList, String.toList_ofList]
    at texts
  have digits := List.append_cancel_left texts
  exact Option.some.inj ((parseNat_renderNat n).symm.trans (digits ▸ parseNat_renderNat n'))

/-- The object of a build. -/
def webRef : ObjectRef := ⟨"builds", "web"⟩

/-- What is to be built. -/
def webSpec : NixBuildSpec :=
  { flakeRef := "github:acme/web#web", system := "x86_64-linux", atticCache := none, extraArgs := []
    priority := 0 }

/-- A builder answers, and the answer is delivered, before the reconcile patches the status. -/
def fastBuilder : List BuildEvent :=
  [.create webRef webSpec, .publish webRef ⟨0, webSpec, none⟩ .acknowledged,
    .answer 0 (some "/nix/store/web") none, .deliver 0 ⟨0⟩ none, .patch 0 none]

/-- The builder of the example is fast, and its outcomes are as they should be as far as it is
timely. -/
theorem outcomes_final_fastBuilder :
    EachStep (Builds.serve numberedV4) (Final numberedV4) .empty fastBuilder ↔
      EachStep (Builds.serve numberedV4) Timely .empty fastBuilder :=
  outcomes_final_iff_timely numberedV4 numberedV4_injective fastBuilder

/-- The reconcile takes the finished build back to the queue. -/
theorem fast_build_queued_again :
    ¬ EachStep (Builds.serve numberedV4) (Final numberedV4) .empty fastBuilder := by
  intro each
  have last := each (fastBuilder.take 4) (.patch 0 none) (List.prefix_refl _)
  -- The object is Complete before the patch, and Queued after it.
  have same := last.final webRef
    ⟨0, webSpec, some ((Answered.completion ⟨⟨0, NixBuild.request webRef ⟨0, webSpec, none⟩
      (numberedV4 0), 0⟩, some "/nix/store/web", none⟩).status ⟨0⟩)⟩
    ⟨0, webSpec, some (queuedStatus (numberedV4 0))⟩ rfl trivial rfl rfl
  cases same

end Tatara.Operator
