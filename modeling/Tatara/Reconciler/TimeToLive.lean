import Tatara.Reconciler.Deletion
import Tatara.Reconciler.Transitions

/-! In which phases a Process that has outlived its time to live is taken down. -/

namespace Tatara.Reconciler

open Tatara.Rust Tatara.Crd
open Tatara.Program (Runs runs_bind_iff runs_pure_iff)

/-- The stored Process is in the phase that was written last. -/
theorem observedPhase_storedAfter (p : Process) (events : List Event) :
    (storedAfter p events).observedPhaseOrPending =
      (events.filterMap Event.phase).foldl (fun _ phase => phase) p.observedPhaseOrPending :=
  (Lands.all p events).observedPhase

/-- What is stored after some events and then others is stored after all of them. -/
theorem storedAfter_append (p : Process) (front back : List Event) :
    storedAfter p (front ++ back) = storedAfter (storedAfter p front) back :=
  List.foldl_append ..

section

variable [Crates]

/-- The instant at which the time to live is over, in nanoseconds since the epoch. -/
def deadline (p : Process) : Option Int := do
  let e ← p.spec.lifetime.resolvedEphemeral
  let ttl ← Crates.parseDuration e.ttl
  let creation ← p.metadata.creationTimestamp
  some (creation.nanos + ttl)

/-- At the deadline and after it the clock of the lifetime goes off, in every phase that is not on
the way out already. -/
theorem lifetimeClock_overdue {p : Process} {limit : Int} (limited : deadline p = some limit)
    (phase : ProcessPhase) (early : isTerminalOrExit phase = false) {now : DateTime}
    (late : limit ≤ now.nanos) : ∃ reason, lifetimeClock p phase now = .now reason := by
  -- The lifetime, the time to live and the stamp are all there.
  obtain ⟨e, resolved, limited⟩ := Option.bind_eq_some_iff.mp limited
  obtain ⟨ttl, parsed, limited⟩ := Option.bind_eq_some_iff.mp limited
  obtain ⟨creation, stamped, limited⟩ := Option.bind_eq_some_iff.mp limited
  obtain rfl := Option.some.inj limited
  have since : creation.nanos ≤ now.nanos := by omega
  have used : ttl ≤ (now.nanos - creation.nanos).toNat := by omega
  have expired : ttlExpired p e now = some (now.nanos - creation.nanos).toNat := by
    simp only [ttlExpired, stamped, parsed, elapsedSince, since, if_true, Option.bind_eq_bind,
      Option.bind_some, used]
  unfold lifetimeClock
  rw [resolved]
  dsimp only
  -- The policy may tear the Process down before the time to live is looked at.
  split
  · exact ⟨_, rfl⟩
  · rw [early, expired]
    exact ⟨_, rfl⟩

/-- Without a deletion, a signal or a suspension, the handler of the phase has its turn. -/
theorem runs_undisturbed {config : Config} {p : Process} {events : List Event} {action : Action}
    (kept : p.isBeingDeleted = false) (unsignalled : pendingSignal p = none)
    (active : p.spec.suspended = false) (runs : Runs (reconcile config p) events action) :
    ∃ front back outcome, events = front ++ back ∧
      (storedAfter p front).observedPhaseOrPending = p.observedPhaseOrPending ∧
      Runs (handle config p p.observedPhaseOrPending).run back outcome := by
  -- Behind the signals there is nothing but the dispatch.
  have dispatched {events : List Event}
      (runs : Runs (reconcileUnlessSuspended config p) events action) :
      ∃ outcome, Runs (handle config p p.observedPhaseOrPending).run events outcome := by
    simp only [reconcileUnlessSuspended, active, Bool.false_and, Bool.false_eq_true,
      if_false] at runs
    exact runs_dispatch runs
  simp only [reconcile, kept, Bool.false_and, Bool.false_eq_true, if_false] at runs
  split at runs
  · obtain ⟨front, result, back, ingested, rest, rfl⟩ := runs_bind_iff.mp runs
    -- To strip the annotation leaves the phase as it is.
    have same : (storedAfter p front).observedPhaseOrPending = p.observedPhaseOrPending := by
      rw [observedPhase_storedAfter, ingest_silent p front result ingested]
      rfl
    cases result with
    | ok signal =>
      cases signal with
      | some signal =>
        -- A signal that comes out was waiting.
        rw [pendingSignal_of_ingest ingested] at unsignalled
        cases unsignalled
      | none =>
        obtain ⟨outcome, handled⟩ := dispatched rest
        exact ⟨front, back, outcome, rfl, same, handled⟩
    | error e =>
      obtain ⟨outcome, handled⟩ := dispatched rest
      exact ⟨front, back, outcome, rfl, same, handled⟩
  · obtain ⟨outcome, handled⟩ := dispatched runs
    exact ⟨[], events, outcome, rfl, rfl, handled⟩

/-- The Process is on the way out: in `Releasing`, in `Exiting`, or where `Releasing` leads to. -/
def TakesExit (p q : Process) : Prop :=
  q.observedPhaseOrPending = .releasing ∨ q.observedPhaseOrPending = .exiting ∨
    p.observedPhaseOrPending = .releasing ∧ q.observedPhaseOrPending = .zombie

/-- Every reconcile after the deadline puts the Process on the way out, if only its requests are
carried out. -/
def EnforcesTtl (config : Config) (limit : Int) (p : Process) : Prop :=
  ∀ (events : List Event) (action : Action), Runs (reconcile config p) events action →
    (∀ event ∈ events, event.failed = false) →
    (∀ now, (⟨.now, now⟩ : Event) ∈ events → limit ≤ now.nanos) →
    TakesExit p (storedAfter p events)

/-- The phases whose handlers look at the clock, and the one that waits for the exports. -/
def watchedPhases : List ProcessPhase := [.running, .attested, .releasing]

section Handlers

variable {config : Config} {p q : Process} {limit : Int} {events : List Event}
  {outcome : Except String Action} (limited : deadline p = some limit)
  (late : ∀ now, (⟨.now, now⟩ : Event) ∈ events → limit ≤ now.nanos)

include limited late

/-- A running Process past its time is made to exit. -/
theorem handleRunning_overdue (runs : Runs (handleRunning p).run events outcome) :
    (storedAfter q events).observedPhaseOrPending = .exiting := by
  obtain ⟨now, back, rfl, rest⟩ := runs_utcNow_then runs
  -- The clock is looked at before anything else.
  obtain ⟨reason, past⟩ := lifetimeClock_overdue limited .running rfl (late now (by simp))
  rw [past] at rest
  obtain ⟨answer, patched⟩ := runs_task_then rest
  obtain ⟨since, rfl⟩ :=
    runs_phasePatch (fun base => { base with message := some reason.render }) patched
  rfl

/-- An attested Process past its time is made to exit, or first to release its exports. -/
theorem handleAttested_overdue (runs : Runs (handleAttested p).run events outcome)
    (carriedOut : ∀ event ∈ events, event.failed = false) :
    (storedAfter q events).observedPhaseOrPending = .releasing ∨
      (storedAfter q events).observedPhaseOrPending = .exiting := by
  obtain ⟨now, back, rfl, rest⟩ := runs_utcNow_then runs
  obtain ⟨reason, past⟩ := lifetimeClock_overdue limited .attested rfl (late now (by simp))
  rw [past] at rest
  cases exports : hasApplicableExports p .attested with
  | true =>
    -- The exports are released first.
    simp only [exports, if_true] at rest
    refine .inl ?_
    show (storedAfter q back).observedPhaseOrPending = .releasing
    exact runs_transitionToReleasing rest fun event listed => carriedOut event (by simp [listed])
  | false =>
    simp only [exports, Bool.false_eq_true, if_false] at rest
    obtain ⟨answer, patched⟩ := runs_task_then rest
    obtain ⟨since, rfl⟩ :=
      runs_phasePatch (fun base => { base with message := some reason.render }) patched
    exact .inr rfl

end Handlers

/-- A handler leaves the phase as it is, or takes the Process where the phase machine allows. -/
theorem handle_leads {config : Config} {p q : Process} {phase : ProcessPhase} {events : List Event}
    {outcome : Except String Action} (runs : Runs (handle config p phase).run events outcome)
    (found : q.observedPhaseOrPending = phase) :
    (storedAfter q events).observedPhaseOrPending = phase ∨
      phase.canTransitionTo (storedAfter q events).observedPhaseOrPending = true := by
  -- A handler writes one phase at most, and no one else does.
  rw [observedPhase_storedAfter, found]
  rcases handle_writes config p phase events outcome runs with silent | ⟨next, wrote, allowed⟩
  · rw [silent]
    exact .inl rfl
  · rw [wrote]
    exact .inr allowed

/-- In a phase that is not watched the clock is not looked at, and no reconcile leads out. -/
theorem not_enforcesTtl {config : Config} {p : Process} (limit : Int)
    (kept : p.isBeingDeleted = false)
    (early : p.observedPhaseOrPending ∉ [.exiting, .failed, .zombie, .reaped])
    (unwatched : p.observedPhaseOrPending ∉ watchedPhases) (unsignalled : pendingSignal p = none)
    (active : p.spec.suspended = false) : ¬ EnforcesTtl config limit p := by
  intro enforces
  -- At the deadline everything is well, and the Process goes on as if there were none.
  have runs := Program.runs_play (calm p ⟨limit⟩) (reconcile config p)
  have answered := Program.play_answered (calm p ⟨limit⟩) (reconcile config p)
  have takes := enforces _ _ runs (smooth_play (reconcile config p) ⟨limit⟩ p).carriedOut
    fun now among => by
      obtain rfl : now = ⟨limit⟩ := answered _ among
      exact Int.le_refl limit
  obtain ⟨front, back, outcome, parts, found, handled⟩ :=
    runs_undisturbed kept unsignalled active runs
  rw [parts, storedAfter_append] at takes
  have leads := handle_leads handled found
  -- None of the phases that are left leads to the way out.
  unfold TakesExit at takes
  generalize (storedAfter (storedAfter p front) back).observedPhaseOrPending = left at *
  revert early unwatched takes leads
  cases p.observedPhaseOrPending <;> cases left <;>
    simp [watchedPhases, ProcessPhase.canTransitionTo]

/-- The time to live is enforced on a Process that is being deleted, and in the phases that are
watched, and nowhere else. -/
theorem enforcesTtl_iff (config : Config) (p : Process) (limit : Int)
    (limited : deadline p = some limit)
    (early : p.observedPhaseOrPending ∉ [.exiting, .failed, .zombie, .reaped])
    (unsignalled : pendingSignal p = none) (active : p.spec.suspended = false) :
    EnforcesTtl config limit p ↔
      p.isBeingDeleted = true ∨ p.observedPhaseOrPending ∈ watchedPhases := by
  constructor
  · intro enforces
    by_contra neither
    obtain ⟨kept, unwatched⟩ := not_or.mp neither
    exact not_enforcesTtl limit (Bool.not_eq_true _ ▸ kept) early unwatched unsignalled active
      enforces
  · intro watched events action runs carriedOut late
    by_cases stamped : p.isBeingDeleted = true
    · -- A deletion comes before the lifetime.
      refine .inr (.inl (runs_alive stamped ?_ runs))
      revert early
      cases p.observedPhaseOrPending <;> simp [ProcessPhase.isAlive]
    · have kept : p.isBeingDeleted = false := Bool.not_eq_true _ ▸ stamped
      obtain ⟨front, back, outcome, rfl, found, handled⟩ :=
        runs_undisturbed kept unsignalled active runs
      have late' : ∀ now, (⟨.now, now⟩ : Event) ∈ back → limit ≤ now.nanos :=
        fun now among => late now (List.mem_append_right front among)
      unfold TakesExit
      rw [storedAfter_append]
      have phase : p.observedPhaseOrPending = .running ∨ p.observedPhaseOrPending = .attested ∨
          p.observedPhaseOrPending = .releasing := by
        simpa [watchedPhases, kept] using watched
      rcases phase with running | attested | releasing
      · rw [running] at handled
        exact .inr (.inl (handleRunning_overdue limited late' handled))
      · rw [attested] at handled
        rcases handleAttested_overdue limited late' handled
          fun event among => carriedOut event (List.mem_append_right front among) with out | out
        · exact .inl out
        · exact .inr (.inl out)
      · -- Whatever becomes of the exports, the Process stays on the way out.
        have leads := handle_leads handled found
        rw [releasing] at leads ⊢
        revert leads
        cases (storedAfter (storedAfter p front) back).observedPhaseOrPending <;>
          simp [ProcessPhase.canTransitionTo]

end

/-- Durations of an hour, which parse as they do in the crate, and no others. -/
@[reducible] def hourCrates : Crates :=
  { plainCrates with
    parseDuration := fun text => if text = "1h" then some 3600000000000 else none }

/-- A Process that is to live for an hour, in this phase. -/
def shortLived (phase : ProcessPhase) : Process :=
  { metadata := { name := "demo", creationTimestamp := some ⟨0⟩ }
    spec :=
      { intent := { flux := some .null }
        lifetime := { ephemeral := some { ttl := "1h", teardownPolicy := .never, exports := [] } }
        rest := .null }
    status := some { phase } }

/-- A running Process is taken down after its hour. -/
theorem enforcesTtl_iff_running :
    let _ := hourCrates
    EnforcesTtl plainConfig 3600000000000 (shortLived .running) := by
  intro _
  exact (enforcesTtl_iff plainConfig (shortLived .running) 3600000000000 rfl (by decide) rfl
    rfl).mpr (.inr (by decide))

/-- A Process that is still waiting in `Forking` is not. -/
theorem not_enforcesTtl_forking :
    let _ := hourCrates
    deadline (shortLived .forking) = some 3600000000000 ∧
      (shortLived .forking).observedPhaseOrPending ∉ [.exiting, .failed, .zombie, .reaped] ∧
      pendingSignal (shortLived .forking) = none ∧ (shortLived .forking).spec.suspended = false ∧
      ¬ EnforcesTtl plainConfig 3600000000000 (shortLived .forking) := by
  intro _
  refine ⟨rfl, by decide, rfl, rfl, ?_⟩
  exact not_enforcesTtl 3600000000000 rfl (by decide) (by decide) rfl rfl

end Tatara.Reconciler
