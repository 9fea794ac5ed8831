import Tatara.Reconciler.Transitions

/-! What a reconcile has verified when it attests a Process. -/

namespace Tatara.Reconciler

open Tatara.Rust Tatara.Crd
open Tatara.Program (Quiet Runs runs_pure_iff runs_try_ok)

/-- Among these calls, the condition was evaluated and found satisfied. -/
def FoundSatisfied (events : List Event) (c : Condition) : Prop :=
  (⟨.request (.evaluate c), .ok .satisfied⟩ : Event) ∈ events

/-- Among these calls, the resource was fetched and found `Ready`. -/
def FoundReady (events : List Event) (r : FluxResourceRef) : Prop :=
  ∃ obj,
    (⟨.request (.getObject r.ns r.apiVersion r.kind r.name), .ok (some obj)⟩ : Event) ∈ events ∧
      readyConditionValue obj = .ready

/-- The calls show that the Process does what was asked of it. -/
structure Verified (p : Process) (events : List Event) : Prop where
  postconditions : ∀ c ∈ p.spec.boundary.postconditions, FoundSatisfied events c
  fluxResources : ∀ r ∈ p.observedFluxResources, FoundReady events r

/-- What was found satisfied is so with more events. -/
theorem FoundSatisfied.mono {events more : List Event} {c : Condition}
    (found : FoundSatisfied events c) (among : events ⊆ more) : FoundSatisfied more c :=
  among found

/-- What was found ready is so with more events. -/
theorem FoundReady.mono {events more : List Event} {r : FluxResourceRef}
    (found : FoundReady events r) (among : events ⊆ more) : FoundReady more r :=
  found.imp fun _ found => ⟨among found.1, found.2⟩

/-- What was verified is so with more events. -/
theorem Verified.mono {p : Process} {events more : List Event} (verified : Verified p events)
    (among : events ⊆ more) : Verified p more :=
  ⟨fun c listed => (verified.postconditions c listed).mono among,
    fun r listed => (verified.fluxResources r listed).mono among⟩

/-- A signal never attests a Process. -/
theorem applySignal_target_ne_attested (phase : ProcessPhase) (signal : ProcessSignal)
    (sighup : SighupStrategy) : (applySignal phase signal sighup).target ≠ some .attested := by
  -- None of the effects names the phase, whatever the guards of the signals say.
  cases signal <;> cases sighup <;> simp only [applySignal, SighupStrategy.sighupTarget] <;>
    first
    | (split <;> simp [SignalEffect.target])
    | simp [SignalEffect.target]

/-- Conditions that are all satisfied were evaluated as such, each of them. -/
theorem evaluateConditions_satisfied {conditions : List Condition} {events : List Event}
    {checked : List CheckedCondition}
    (runs : Runs (evaluateConditions conditions).run events (.ok checked))
    (all : CheckedCondition.allSatisfied checked = true) :
    ∀ c ∈ conditions, FoundSatisfied events c := by
  induction conditions generalizing events checked with
  | nil => simp
  | cons c conditions ih =>
    -- The loop takes a request, a look at the clock, and the rest of the conditions.
    obtain ⟨_, sat, _, evaluated, timed, rfl⟩ := runs_try_ok runs
    obtain ⟨_, now, _, -, looped, rfl⟩ := runs_try_ok timed
    obtain ⟨_, others, _, loop, last, rfl⟩ := runs_try_ok looped
    obtain rfl := runs_request_ok evaluated
    obtain ⟨-, same⟩ := runs_pure_iff.mp last
    obtain rfl := Except.ok.inj same
    -- The first condition decides with its own answer, the others are left to the loop.
    obtain ⟨satisfied, others⟩ : sat.isSatisfied = true ∧ CheckedCondition.allSatisfied others :=
      (Bool.and_eq_true _ _).mp all
    intro d listed
    rcases List.mem_cons.mp listed with rfl | listed
    · -- Only one of the three answers counts as satisfied.
      obtain rfl : sat = .satisfied := by
        cases sat with
        | satisfied => rfl
        | unsatisfied m => cases satisfied
        | unknown m => cases satisfied
      simp [FoundSatisfied]
    · exact (ih loop others d listed).mono fun e found => by simp [found]

/-- Postconditions that hold were evaluated as satisfied, each of them. -/
theorem verifyPostconditions_satisfied {p : Process} {events : List Event}
    (runs : Runs (verifyPostconditions p).run events (.ok true)) :
    ∀ c ∈ p.spec.boundary.postconditions, FoundSatisfied events c := by
  unfold verifyPostconditions at runs
  split at runs
  · rename_i none
    simp [none]
  · -- What was checked is recorded before it decides.
    obtain ⟨front, checked, back, evaluated, rest, rfl⟩ := runs_try_ok runs
    obtain ⟨_, _, _, -, last, rfl⟩ := runs_try_ok rest
    obtain ⟨-, same⟩ := runs_pure_iff.mp last
    have all : CheckedCondition.allSatisfied checked = true := (Except.ok.inj same).symm
    intro c listed
    exact (evaluateConditions_satisfied evaluated all c listed).mono (by simp)

section

variable [Crates]

/-- An object that is fetched has been asked for by its reference. -/
theorem runs_fetchFluxRef_ok {r : FluxResourceRef} {events : List Event} {obj : Option Json}
    (runs : Runs (fetchFluxRef r).run events (.ok obj)) :
    events = [⟨.request (.getObject r.ns r.apiVersion r.kind r.name), .ok obj⟩] := by
  unfold fetchFluxRef at runs
  cases plural : pluralOf r.kind with
  | error e =>
    -- A kind without a plural is never fetched.
    rw [plural] at runs
    obtain ⟨-, failed⟩ := runs_pure_iff.mp runs
    cases failed
  | ok _ =>
    rw [plural] at runs
    exact runs_request_ok runs

omit [Crates] in
/-- A record is ready where the object is there and says so. -/
theorem observe_ready {r : FluxResourceRef} {obj : Option Json} {now : DateTime}
    (ready : (observe r obj now).ready = true) :
    ∃ o, obj = some o ∧ readyConditionValue o = .ready := by
  unfold observe at ready
  cases obj with
  | none => cases ready
  | some o =>
    refine ⟨o, rfl, ?_⟩
    -- The record is ready in one of the three states.
    cases state : readyConditionValue o with
    | ready => rfl
    | notReady m => simp [state] at ready
    | unknown => simp [state] at ready

/-- Resources that are all recorded as `Ready` were found so, each of them. -/
theorem pollRefs_ready {refs updated : List FluxResourceRef} {events : List Event}
    (runs : Runs (pollRefs refs).run events (.ok updated))
    (all : updated.all (·.ready) = true) : ∀ r ∈ refs, FoundReady events r := by
  induction refs generalizing events updated with
  | nil => simp
  | cons r refs ih =>
    -- Each resource is fetched once, and its own record decides.
    obtain ⟨_, obj, _, fetched, timed, rfl⟩ := runs_try_ok runs
    obtain ⟨_, now, _, -, looped, rfl⟩ := runs_try_ok timed
    obtain ⟨_, others, _, loop, last, rfl⟩ := runs_try_ok looped
    obtain rfl := runs_fetchFluxRef_ok fetched
    obtain ⟨-, same⟩ := runs_pure_iff.mp last
    obtain rfl := Except.ok.inj same
    obtain ⟨ready, others⟩ := (Bool.and_eq_true _ _).mp all
    intro s listed
    rcases List.mem_cons.mp listed with rfl | listed
    · obtain ⟨o, rfl, state⟩ := observe_ready ready
      exact ⟨o, by simp, state⟩
    · exact (ih loop others s listed).mono fun e found => by simp [found]

/-- The handler attests a Process that has nothing recorded, or one that it has verified. -/
theorem handleRunning_verified {p : Process} {events : List Event} {outcome : Except String Action}
    (runs : Runs (handleRunning p).run events outcome)
    (attests : .attested ∈ events.filterMap Event.phase) :
    p.observedFluxResources = [] ∨ Verified p events := by
  obtain ⟨_, now, _, -, rest, rfl, later⟩ := utcNow_silent.lift.marked_behind_try runs attests
  cases clock : lifetimeClock p .running now with
  | now reason =>
    -- A lifetime that is over takes the Process to `Exiting` instead.
    rw [clock] at rest
    have writes : Writes (· = .exiting) (transitionToExiting reason.render).run :=
      transitionToExiting_writes _ rfl
    cases writes.allowed_of_mem rest later
  | skip =>
    rw [clock] at rest
    by_cases none : p.observedFluxResources = []
    · exact .inl none
    · -- No phase is written by the poll, by its record, or by the look at the postconditions.
      simp only [none, if_false] at rest
      obtain ⟨_, updated, _, polled, recorded, rfl, afterPoll⟩ :=
        (pollRefs_silent _).marked_behind_try rest later
      obtain ⟨_, _, _, -, decided, rfl, afterRecord⟩ :=
        Quiet.marked_behind_try (request_quiet fun _ => rfl) recorded afterPoll
      cases ready : updated.all (·.ready) with
      | false =>
        rw [ready] at decided
        obtain ⟨rfl, -⟩ := runs_pure_iff.mp decided
        cases afterRecord
      | true =>
        rw [ready] at decided
        obtain ⟨_, verified, _, checked, last, rfl, afterCheck⟩ :=
          (verifyPostconditions_silent p).marked_behind_try decided afterRecord
        cases verified with
        | false =>
          obtain ⟨rfl, -⟩ := runs_pure_iff.mp last
          cases afterCheck
        | true =>
          -- Both of the checks are among the calls of the handler.
          refine .inr ⟨fun c listed => ?_, fun r listed => ?_⟩
          · exact (verifyPostconditions_satisfied checked c listed).mono fun e found => by
              simp [found]
          · exact (pollRefs_ready polled ready r listed).mono fun e found => by simp [found]

/-- The condition that a call evaluates. -/
def Event.evaluated : Event → Option Condition
  | ⟨.request (.evaluate c), _⟩ => some c
  | _ => none

omit [Crates] in
/-- A patch of the phase evaluates nothing. -/
theorem phasePatch_unevaluated {context : String} {phase : ProcessPhase} {action : Action}
    (fill : StatusPatch → StatusPatch) :
    Quiet Event.evaluated (do
      errCtx context do
        let base ← phaseStatusBase phase
        send (.mergeStatus (fill base))
      return action : Handler Action).run := by
  refine Quiet.tryBind (errCtx_quiet ?_) fun _ => Quiet.pure _
  intro events outcome runs
  -- Its two calls are a look at the clock and a patch.
  obtain ⟨now, rfl⟩ := runs_phasePatch fill runs
  rfl

omit [Crates] in
/-- To take a signal evaluates nothing. -/
theorem ingest_unevaluated (p : Process) : Quiet Event.evaluated (ingest p).run := by
  unfold ingest
  split
  · exact Quiet.pure _
  · exact Quiet.tryBind (request_quiet fun _ => rfl) fun _ => Quiet.pure _

/-- A handler that finds nothing recorded evaluates no condition. -/
theorem handleRunning_unevaluated {p : Process} (none : p.observedFluxResources = []) :
    Quiet Event.evaluated (handleRunning p).run := by
  refine Quiet.tryBind (utcNow_quiet fun _ => rfl).lift fun now => ?_
  cases lifetimeClock p .running now with
  | now reason =>
    exact phasePatch_unevaluated fun base => { base with message := some reason.render }
  | skip =>
    -- The shortcut leads to the attestation at once.
    simp only [none, if_true]
    refine Quiet.tryBind (utcNow_quiet fun _ => rfl).lift fun now => ?_
    exact phasePatch_unevaluated fun base => { base with attestation := some _ }

/-- Nothing is recorded of a Process only where nothing is asked for after its work. -/
def Rendered (p : Process) : Prop :=
  p.observedFluxResources = [] → p.spec.boundary.postconditions = []

/-- A reconcile that attests a Process has handed it to the handler of running Processes, and has
evaluated nothing before. -/
theorem attested_by_handler {config : Config} {p : Process} {events : List Event} {action : Action}
    (runs : Runs (reconcile config p) events action)
    (attests : .attested ∈ events.filterMap Event.phase) :
    ∃ front back outcome, events = front ++ back ∧ front.filterMap Event.evaluated = [] ∧
      Runs (handleRunning p).run back outcome ∧ .attested ∈ back.filterMap Event.phase := by
  -- The phase machine has one way into `Attested`.
  have running : p.observedPhaseOrPending = .running :=
    ((reconcile_writes config p).allowed_of_mem runs attests).attested rfl
  rcases written_by runs attests with ⟨-, -, exits⟩ | ⟨signal, -, -, target⟩ |
    ⟨front, back, outcome, rfl, before, handled, behind⟩
  · -- The stamp takes the Process to `Exiting` instead.
    cases exits
  · exact absurd target (applySignal_target_ne_attested _ signal _)
  · rw [running] at handled
    refine ⟨front, back, outcome, rfl, ?_, handled, behind⟩
    -- All that comes before the handler is a look at the annotation.
    rcases before with rfl | ⟨result, ingested⟩
    · rfl
    · exact ingest_unevaluated p front result ingested

/-- A reconcile that attests a Process has verified it, unless there was nothing recorded. -/
theorem reconcile_verified_iff {config : Config} {p : Process} {events : List Event}
    {action : Action} (runs : Runs (reconcile config p) events action)
    (attests : .attested ∈ events.filterMap Event.phase) :
    Verified p events ↔ Rendered p := by
  obtain ⟨front, back, outcome, rfl, unevaluated, handled, behind⟩ :=
    attested_by_handler runs attests
  constructor
  · intro verified unrecorded
    by_contra asked
    obtain ⟨c, listed⟩ := List.exists_mem_of_ne_nil _ asked
    -- With nothing recorded the postcondition was not even evaluated.
    have silent : (front ++ back).filterMap Event.evaluated = [] := by
      rw [List.filterMap_append, unevaluated, handleRunning_unevaluated unrecorded _ _ handled,
        List.append_nil]
    have skipped : some c = none :=
      List.filterMap_eq_nil_iff.mp silent _ (verified.postconditions c listed)
    cases skipped
  · intro rendered
    -- Where nothing is recorded there is nothing to verify, by the condition.
    have verified : Verified p back := by
      rcases handleRunning_verified handled behind with none | verified
      · exact ⟨by simp [rendered none], by simp [none]⟩
      · exact verified
    exact verified.mono (List.subset_append_right front back)

/-- In every run, the reconciles that attest a Process have verified it, unless there was nothing
recorded of it. -/
theorem reaches_verified_iff {config : Config} {rounds : List Round} {p : Process}
    (reaches : Reaches config rounds p) :
    ∀ round ∈ rounds, .attested ∈ round.events.filterMap Event.phase →
      (Verified round.read round.events ↔ Rendered round.read) := by
  induction reaches with
  | fresh fresh => simp
  | outside before kept ih => exact ih
  | reconcile before runs lands ih =>
    intro round listed attests
    -- The rounds before are settled, and the last one is a reconcile.
    rcases List.mem_append.mp listed with earlier | last
    · exact ih round earlier attests
    · obtain rfl := List.mem_singleton.mp last
      exact reconcile_verified_iff runs attests

end

/-- A condition that is evaluated as a query of metrics. -/
def probe : Condition := { kind := .promQL, params := .null }

/-- A Process with that postcondition and an intent for Flux, just created. -/
def probed (mode : EncapsulationMode) : Process :=
  { metadata := { name := "demo", uid := some "1" }
    spec :=
      { intent := { flux := some .null }, boundary := { postconditions := [probe] }
        encapsulates := some { kind := .null, mode }, rest := .null } }

/-- The rounds that bring such a Process up. -/
def earlierRounds [Crates] (mode : EncapsulationMode) : List Round :=
  calmRounds plainConfig ⟨0⟩ 3 (probed mode)

/-- The round that attests it. -/
def attestingRound [Crates] (mode : EncapsulationMode) : Round :=
  calmRound plainConfig ⟨0⟩ (calmLeft plainConfig ⟨0⟩ 3 (probed mode))

/-- The run up to the round that attests. -/
theorem reaches_attestingRound [Crates] (mode : EncapsulationMode) :
    Reaches plainConfig (earlierRounds mode ++ [attestingRound mode]) (attestingRound mode).left :=
  reaches_calm (reaches_calmRounds (.fresh rfl) ⟨0⟩ 3) ⟨0⟩

/-- A Process whose workload is managed is attested, with its postcondition evaluated. -/
theorem reaches_verified_iff_managed :
    let _ := plainCrates
    (attestingRound .manage).read.spec.boundary.postconditions = [probe] ∧
      .attested ∈ (attestingRound .manage).events.filterMap Event.phase ∧
        Verified (attestingRound .manage).read (attestingRound .manage).events := by
  let _ := plainCrates
  have attests : .attested ∈ (attestingRound .manage).events.filterMap Event.phase := by
    decide +kernel
  have recorded : (attestingRound .manage).read.observedFluxResources.length = 1 := by
    decide +kernel
  refine ⟨rfl, attests, ?_⟩
  -- A recorded resource is all that the condition asks for.
  have verified_iff := reaches_verified_iff (reaches_attestingRound .manage)
    (attestingRound .manage) (by simp) attests
  exact verified_iff.mpr fun unrecorded => by simp [unrecorded] at recorded

/-- The Process that only observes its workload, once it has gone through these phases. -/
def observing [Crates] (phase : ProcessPhase) (status : ProcessStatus) : Process :=
  { probed .observe with
    metadata := { name := "demo", uid := some "1", finalizers := some [processFinalizer] }
    status := some
      { status with
        phase, phaseSince := some ⟨0⟩, identity := some (deriveIdentity (probed .observe).spec) } }

/-- What is recorded of it from its second round on. -/
def forked [Crates] : ProcessStatus :=
  { pid := some (allocatePid (deriveIdentity (probed .observe).spec) none 1)
    message := some "dependencies satisfied" }

/-- After three rounds the Process is running. -/
theorem calmLeft_observing [Crates] :
    calmLeft plainConfig ⟨0⟩ 3 (probed .observe) = observing .running forked := by
  -- Each of the three rounds is evaluated from an explicit Process.
  have pending : (calmRound plainConfig ⟨0⟩ (probed .observe)).left = observing .forking {} := rfl
  have forking : (calmRound plainConfig ⟨0⟩ (observing .forking {})).left =
      observing .execing forked := rfl
  have execing : (calmRound plainConfig ⟨0⟩ (observing .execing forked)).left =
      observing .running forked := rfl
  simp only [calmLeft, pending, forking, execing]

/-- A Process that only observes its workload is attested with its postcondition unevaluated. -/
theorem not_reaches_verified :
    ¬ ∃ _ : Crates, ∀ (config : Config) (rounds : List Round) (p : Process),
      Reaches config rounds p → ∀ round ∈ rounds,
        .attested ∈ round.events.filterMap Event.phase → Verified round.read round.events := by
  intro attests
  obtain ⟨_, verifies⟩ := attests
  have reaches := reaches_attestingRound .observe
  unfold attestingRound at reaches
  rw [calmLeft_observing] at reaches
  have verified := verifies _ _ _ reaches (calmRound plainConfig ⟨0⟩ (observing .running forked))
    (by simp) (List.mem_singleton_self _)
  -- The one postcondition is missing among the calls of the round.
  have found := verified.postconditions probe (List.mem_singleton_self _)
  have unevaluated : (calmRound plainConfig ⟨0⟩ (observing .running forked)).events.filterMap
      Event.evaluated = [] := rfl
  exact Option.some_ne_none probe (List.filterMap_eq_nil_iff.mp unevaluated _ found)

end Tatara.Reconciler
