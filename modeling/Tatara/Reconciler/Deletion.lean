import Tatara.Lib.Machine
import Tatara.Reconciler.Rounds

/-! How far the deletion of a Process gets. -/

namespace Tatara.Reconciler

open Tatara.Rust Tatara.Crd
open Tatara.Program (Runs runs_bind_iff runs_call_iff runs_pure_iff runs_try_iff)
open Tatara.Progress (Within)

/-- Every request is carried out, and the Process is found to have no children. -/
structure Smooth (p : Process) (events : List Event) : Prop where
  carriedOut : ∀ event ∈ events, event.failed = false
  childless : ∀ processes, (⟨.request .listProcesses, .ok processes⟩ : Event) ∈ events →
    ∀ child ∈ processes, ∀ pid, p.observedPid = some pid → child.declaredParentPid ≠ some pid

/-- The deletion is complete. -/
structure Gone (p : Process) : Prop where
  reaped : p.observedPhaseOrPending = .reaped
  released : processFinalizer ∉ p.metadata.finalizers.getD []

/-- No call takes back a request for deletion. -/
theorem isBeingDeleted_storedAfter (p : Process) (events : List Event) :
    (storedAfter p events).isBeingDeleted = p.isBeingDeleted := by
  induction events generalizing p with
  | nil => rfl
  | cons event events ih =>
    -- No request has an effect on the stamp.
    have kept : (event.effect p).isBeingDeleted = p.isBeingDeleted := by
      obtain ⟨call, answer⟩ := event
      cases call with
      | now => rfl
      | request r => cases r <;> rfl
    exact (ih (event.effect p)).trans kept

/-- What a calm server answers goes smoothly. -/
theorem smooth_play {α : Type} (task : Task α) (now : DateTime) (p : Process) :
    Smooth p (task.play (calm p now)).1 := by
  have answered := Program.play_answered (calm p now) task
  refine ⟨?_, ?_⟩
  · -- Every answer is a reply, whatever is asked.
    intro event listed
    obtain ⟨call, answer⟩ := event
    obtain rfl : answer = calm p now call := answered _ listed
    cases call <;> rfl
  · -- The list of Processes is empty, and so no child is on it.
    intro processes listed
    obtain rfl : processes = [] := Except.ok.inj (answered _ listed)
    simp

/-- A release that is carried out takes the Process to `Releasing`. -/
theorem runs_transitionToReleasing {reason : String} {p : Process} {events : List Event}
    {outcome : Except String Action} (runs : Runs (transitionToReleasing reason).run events outcome)
    (carriedOut : ∀ event ∈ events, event.failed = false) :
    (storedAfter p events).observedPhaseOrPending = .releasing := by
  rcases runs_try_iff.mp runs with ⟨error, labelled, -⟩ | ⟨front, gate, back, labelled, rest, rfl⟩
  · obtain ⟨_, _, -, failed⟩ := runs_request_then labelled carriedOut
    cases (runs_pure_iff.mp failed).2
  · -- The status is read, the annotation written, and then the phase.
    obtain ⟨stored, none, rfl, last⟩ :=
      runs_request_then labelled fun event listed => carriedOut event (by simp [listed])
    obtain ⟨rfl, -⟩ := runs_pure_iff.mp last
    obtain ⟨_, behind, rfl, patching⟩ :=
      runs_request_then rest fun event listed => carriedOut event (by simp [listed])
    obtain ⟨answer, patched⟩ := runs_task_then patching
    obtain ⟨now, rfl⟩ := runs_phasePatch (fun base => { base with message := some _ }) patched
    rfl

section

variable [Crates]

/-- A reconcile with everything going smoothly leaves this Process. -/
def Reconciled (config : Config) (p q : Process) : Prop :=
  ∃ events action, Runs (reconcile config p) events action ∧ Smooth p events ∧
    q = storedAfter p events

/-- The deletion is complete after so many reconciles that go smoothly. -/
abbrev CompletesWithin (config : Config) (n : Nat) (p : Process) : Prop :=
  Within (Reconciled config) Gone n p

/-- A failed Process has exports to release at this instant. -/
def releasesAt (p : Process) (now : DateTime) : Bool :=
  lifetimeClock p .failed now ≠ .skip && hasApplicableExports p .failed

/-- The phase is behind `Exiting`, with no way back to it. -/
def PastExiting (p : Process) : Prop :=
  p.observedPhaseOrPending = .zombie ∨ p.observedPhaseOrPending = .reaped ∨
    p.observedPhaseOrPending = .failed ∧ ∀ now, releasesAt p now = false

/-- A round in which nothing fails is a reconcile. -/
theorem reconciled_calm (config : Config) (now : DateTime) (p : Process) :
    Reconciled config p (calmRound config now p).left :=
  ⟨_, _, Program.runs_play (calm p now) (reconcile config p), smooth_play _ now p, rfl⟩

/-- The deletion takes a Process that counts as alive to `Exiting`, from wherever it is. -/
theorem runs_alive {config : Config} {p : Process} {events : List Event} {action : Action}
    (stamped : p.isBeingDeleted = true) (alive : p.observedPhaseOrPending.isAlive = true)
    (runs : Runs (reconcile config p) events action) :
    (storedAfter p events).observedPhaseOrPending = .exiting := by
  -- The branch is taken before any signal, suspension or handler, in `Exiting` as well.
  simp only [reconcile, stamped, alive, Bool.and_self, if_true] at runs
  obtain ⟨front, answer, back, patched, last, rfl⟩ := runs_bind_iff.mp runs
  obtain ⟨rfl, -⟩ := runs_pure_iff.mp last
  obtain ⟨now, rfl⟩ :=
    runs_phasePatch (fun base => { base with message := some "deletion requested" }) patched
  rfl

/-- A reconcile of a Process that is alive and to be deleted makes it exit. -/
theorem reconciled_alive {config : Config} {p q : Process} (stamped : p.isBeingDeleted = true)
    (alive : p.observedPhaseOrPending.isAlive = true) (reconciled : Reconciled config p q) :
    q.observedPhaseOrPending = .exiting := by
  obtain ⟨events, action, runs, -, rfl⟩ := reconciled
  exact runs_alive stamped alive runs

/-- A Process that is not alive is left to the handler of its phase. -/
theorem runs_dead {config : Config} {p : Process} {phase : ProcessPhase} {events : List Event}
    {action : Action} (found : p.observedPhaseOrPending = phase) (dead : phase.isAlive = false)
    (runs : Runs (reconcile config p) events action) :
    ∃ outcome, Runs (handle config p phase).run events outcome := by
  -- Deletion, signals and suspension are all for Processes that are alive.
  simp only [reconcile, reconcileUnlessSuspended, found, dead, Bool.and_false, Bool.false_eq_true,
    if_false] at runs
  exact found ▸ runs_dispatch runs

/-- A zombie is reaped. -/
theorem reconciled_zombie {config : Config} {p q : Process}
    (zombie : p.observedPhaseOrPending = .zombie) (reconciled : Reconciled config p q) :
    q.observedPhaseOrPending = .reaped ∧ q.metadata = p.metadata := by
  -- A Process past its exit is only handled by its phase.
  obtain ⟨events, action, runs, -, rfl⟩ := reconciled
  obtain ⟨outcome, handled⟩ := runs_dead zombie rfl runs
  obtain ⟨answer, patched⟩ := runs_task_then handled
  obtain ⟨now, rfl⟩ := runs_phasePatch id patched
  exact ⟨rfl, rfl⟩

/-- A Process that is reaped loses its finalizer. -/
theorem reconciled_reaped {config : Config} {p q : Process}
    (reaped : p.observedPhaseOrPending = .reaped)
    (held : processFinalizer ∈ p.metadata.finalizers.getD []) (reconciled : Reconciled config p q) :
    Gone q := by
  obtain ⟨events, action, runs, -, rfl⟩ := reconciled
  obtain ⟨outcome, handled⟩ := runs_dead reaped rfl runs
  obtain ⟨answer, removed⟩ := runs_task_then handled
  -- The finalizer is there, so that the list without it is sent.
  simp only [removeFinalizer, applyFinalizerTransform, removeFinalizerFrom, held,
    if_true] at removed
  obtain ⟨front, result, back, sent, last, rfl⟩ := runs_bind_iff.mp removed
  obtain rfl := runs_call_iff.mp sent
  obtain rfl : back = [] := by
    cases result <;> exact (runs_pure_iff.mp last).1
  refine ⟨reaped, ?_⟩
  show processFinalizer ∉ (p.metadata.finalizers.getD []).filter (· ≠ processFinalizer)
  simp

/-- A failed Process becomes a zombie, unless it has exports to release. -/
theorem runs_handleFailed {p : Process} {events : List Event} {outcome : Except String Action}
    (runs : Runs (handleFailed p).run events outcome) (smooth : Smooth p events) :
    ∃ now, (⟨.now, now⟩ : Event) ∈ events ∧
      if releasesAt p now then (storedAfter p events).observedPhaseOrPending = .releasing
      else (storedAfter p events).observedPhaseOrPending = .zombie ∧
        (storedAfter p events).metadata = p.metadata := by
  obtain ⟨now, back, rfl, rest⟩ := runs_utcNow_then runs
  refine ⟨now, by simp, ?_⟩
  cases clock : lifetimeClock p .failed now with
  | skip =>
    -- Without a lifetime that is over, the failure is final.
    rw [clock] at rest
    rw [if_neg (by simp [releasesAt, clock])]
    obtain ⟨answer, patched⟩ := runs_task_then rest
    obtain ⟨since, rfl⟩ := runs_phasePatch id patched
    exact ⟨rfl, rfl⟩
  | now reason =>
    rw [clock] at rest
    cases exports : hasApplicableExports p .failed with
    | false =>
      rw [if_neg (by simp [releasesAt, exports])]
      simp only [exports, Bool.false_eq_true, if_false] at rest
      obtain ⟨answer, patched⟩ := runs_task_then rest
      obtain ⟨since, rfl⟩ :=
        runs_phasePatch (fun base => { base with message := some reason.render }) patched
      exact ⟨rfl, rfl⟩
    | true =>
      -- The look at the clock leaves the stored Process alone.
      rw [if_pos (by simp [releasesAt, clock, exports])]
      simp only [exports, if_true] at rest
      show (storedAfter p back).observedPhaseOrPending = .releasing
      exact runs_transitionToReleasing rest fun event listed =>
        smooth.carriedOut _ (by simp [listed])

/-- A reconcile of a failed Process makes it a zombie, where it has no exports to release. -/
theorem reconciled_failed {config : Config} {p q : Process}
    (failed : p.observedPhaseOrPending = .failed) (kept : ∀ now, releasesAt p now = false)
    (reconciled : Reconciled config p q) :
    q.observedPhaseOrPending = .zombie ∧ q.metadata = p.metadata := by
  -- As with a zombie, only the handler of the phase matters.
  obtain ⟨events, action, runs, smooth, rfl⟩ := reconciled
  obtain ⟨outcome, handled⟩ := runs_dead failed rfl runs
  obtain ⟨now, -, left⟩ := runs_handleFailed handled smooth
  simpa only [kept now, Bool.false_eq_true, if_false] using left

/-- At an instant when a failed Process has exports to release, a reconcile can release them. -/
theorem reconciled_releasing (config : Config) {p : Process} {now : DateTime}
    (failed : p.observedPhaseOrPending = .failed) (releases : releasesAt p now = true) :
    ∃ q, Reconciled config p q ∧ q.observedPhaseOrPending = .releasing ∧
      q.isBeingDeleted = p.isBeingDeleted := by
  refine ⟨_, reconciled_calm config now p, ?_, isBeingDeleted_storedAfter _ _⟩
  have answered := Program.play_answered (calm p now) (reconcile config p)
  obtain ⟨outcome, handled⟩ :=
    runs_dead failed rfl (Program.runs_play (calm p now) (reconcile config p))
  obtain ⟨looked, listed, left⟩ := runs_handleFailed handled (smooth_play _ now p)
  -- The clock of the server says the one instant at every look.
  obtain rfl : looked = now := answered _ listed
  rw [if_pos releases] at left
  exact left

/-- Where the deletion of a Process is stuck. -/
structure Stuck (p : Process) : Prop where
  stamped : p.isBeingDeleted = true
  alive : p.observedPhaseOrPending.isAlive = true

/-- A deletion that is stuck stays so. -/
theorem Stuck.not_completes {config : Config} {p : Process} (stuck : Stuck p) (n : Nat) :
    ¬ CompletesWithin config n p := by
  refine Within.not_of_evades Stuck ?_ ?_ stuck n
  · -- A Process that is reaped does not count as alive.
    intro p stuck gone
    have alive := stuck.alive
    rw [gone.reaped] at alive
    cases alive
  · -- The stamp stays, and `Exiting` counts as alive.
    intro p stuck
    have reconciled := reconciled_calm config ⟨0⟩ p
    refine ⟨_, reconciled, ?_, ?_⟩
    · exact (isBeingDeleted_storedAfter _ _).trans stuck.stamped
    · rw [reconciled_alive stuck.stamped stuck.alive reconciled]
      rfl

/-- The deletion of a reaped Process completes with the next reconcile. -/
theorem completes_reaped {config : Config} {p : Process}
    (reaped : p.observedPhaseOrPending = .reaped)
    (held : processFinalizer ∈ p.metadata.finalizers.getD []) : CompletesWithin config 1 p :=
  Within.of_steps ⟨_, reconciled_calm config ⟨0⟩ p⟩ fun _ reconciled =>
    reconciled_reaped reaped held reconciled

/-- The deletion of a zombie completes within two reconciles. -/
theorem completes_zombie {config : Config} {p : Process}
    (zombie : p.observedPhaseOrPending = .zombie)
    (held : processFinalizer ∈ p.metadata.finalizers.getD []) : CompletesWithin config 2 p := by
  refine Within.of_steps ⟨_, reconciled_calm config ⟨0⟩ p⟩ fun q reconciled => ?_
  obtain ⟨reaped, same⟩ := reconciled_zombie zombie reconciled
  exact completes_reaped reaped (same ▸ held)

/-- The deletion of a failed Process without exports completes within three reconciles. -/
theorem completes_failed {config : Config} {p : Process}
    (failed : p.observedPhaseOrPending = .failed) (kept : ∀ now, releasesAt p now = false)
    (held : processFinalizer ∈ p.metadata.finalizers.getD []) : CompletesWithin config 3 p := by
  refine Within.of_steps ⟨_, reconciled_calm config ⟨0⟩ p⟩ fun q reconciled => ?_
  obtain ⟨zombie, same⟩ := reconciled_failed failed kept reconciled
  exact completes_zombie zombie (same ▸ held)

/-- A deletion that completes has found the Process past `Exiting`. -/
theorem past_of_completes {config : Config} {p : Process} {n : Nat}
    (stamped : p.isBeingDeleted = true) (completes : CompletesWithin config n p) :
    PastExiting p := by
  cases alive : p.observedPhaseOrPending.isAlive with
  | true => exact absurd completes (Stuck.not_completes ⟨stamped, alive⟩ n)
  | false =>
    cases found : p.observedPhaseOrPending with
    | zombie => exact .inl found
    | reaped => exact .inr (.inl found)
    | failed =>
      refine .inr (.inr ⟨found, fun now => ?_⟩)
      by_contra released
      -- A release leads back to a phase that counts as alive.
      obtain ⟨q, reconciled, releasing, kept⟩ :=
        reconciled_releasing config found (Bool.not_eq_false _ ▸ released)
      have stuck : Stuck q := ⟨kept.trans stamped, by rw [releasing]; rfl⟩
      have missed (gone : Gone p) : False := by
        cases found.symm.trans gone.reaped
      cases n with
      | zero => exact missed completes
      | succ n => exact stuck.not_completes n (completes.of_step missed reconciled)
    | _ =>
      rw [found] at alive
      cases alive

/-- The deletion of a Process completes exactly where it finds the Process past `Exiting`, and then
within three reconciles. -/
theorem completesWithin_iff (config : Config) (p : Process)
    (held : processFinalizer ∈ p.metadata.finalizers.getD []) (stamped : p.isBeingDeleted = true) :
    (CompletesWithin config 3 p ↔ PastExiting p) ∧
      ((∃ n, CompletesWithin config n p) ↔ PastExiting p) := by
  have completes_of_past (past : PastExiting p) : CompletesWithin config 3 p := by
    -- A zombie is two reconciles away from the end, a reaped Process one, and a failed one three.
    rcases past with zombie | reaped | ⟨failed, kept⟩
    · exact (completes_zombie zombie held).succ
    · exact (completes_reaped reaped held).succ.succ
    · exact completes_failed failed kept held
  refine ⟨⟨past_of_completes stamped, completes_of_past⟩, ?_, ?_⟩
  · intro bounded
    obtain ⟨n, completes⟩ := bounded
    exact past_of_completes stamped completes
  · intro past
    exact ⟨3, completes_of_past past⟩

end

/-- A Process of this phase that holds the finalizer and is to be deleted. -/
def terminating (phase : ProcessPhase) : Process :=
  { metadata :=
      { name := "demo", finalizers := some [processFinalizer], deletionTimestamp := some ⟨0⟩ }
    spec := { intent := { flux := some .null }, rest := .null }
    status := some { phase } }

/-- The deletion of a zombie completes within three reconciles. -/
theorem completesWithin_iff_zombie :
    let _ := plainCrates
    CompletesWithin plainConfig 3 (terminating .zombie) := by
  let _ := plainCrates
  have past : PastExiting (terminating .zombie) := .inl rfl
  exact (completesWithin_iff plainConfig (terminating .zombie) (by decide) rfl).1.mpr past

/-- The deletion of a running Process never completes. -/
theorem not_completes_running :
    (processFinalizer ∈ (terminating .running).metadata.finalizers.getD [] ∧
      (terminating .running).isBeingDeleted = true) ∧
        ¬ ∃ (_ : Crates) (n : Nat), CompletesWithin plainConfig n (terminating .running) := by
  refine ⟨⟨by decide, rfl⟩, ?_⟩
  intro bounded
  obtain ⟨_, n, completes⟩ := bounded
  exact Stuck.not_completes ⟨rfl, rfl⟩ n completes

end Tatara.Reconciler
