import Tatara.Reconciler.Runs

/-! Which phases the handlers write, and how often. -/

namespace Tatara.Reconciler

open Tatara.Rust Tatara.Crd
open Tatara.Program (MarksOnce Quiet)

/-- A task writes a phase at most once, and one of these. -/
abbrev Writes {α : Type} (allowed : ProcessPhase → Prop) (task : Task α) : Prop :=
  MarksOnce Event.phase allowed task

/-- A task writes no phase. -/
abbrev Silent {α : Type} (task : Task α) : Prop := Quiet Event.phase task

section

variable {α μ : Type} {mark : Event → Option μ}

/-- A look at the clock is quiet where it is not marked. -/
theorem utcNow_quiet (unmarked : ∀ now, mark ⟨.now, now⟩ = none) : Quiet mark utcNow :=
  -- It is a single call.
  Quiet.call unmarked

/-- So is a request whose answers are not marked. -/
theorem send_quiet {r : Request} (unmarked : ∀ answer, mark ⟨.request r, answer⟩ = none) :
    Quiet mark (send r) :=
  -- It is a single call as well.
  Quiet.call unmarked

/-- The context of an error adds no mark. -/
theorem errCtx_quiet {context : String} {task : Task (Except String α)} (quiet : Quiet mark task) :
    Quiet mark (errCtx context task).run := by
  -- The wrapping only rewrites the text of an error.
  refine Quiet.bind quiet fun result => ?_
  cases result <;> exact Quiet.pure _

/-- A task whose failure is only logged is as quiet as the task. -/
theorem bestEffort_quiet {task : Task (Except String α)} (quiet : Quiet mark task) :
    Quiet mark (bestEffort task).run :=
  -- The result is dropped, and nothing is called for that.
  Quiet.lift (Quiet.bind quiet fun _ => Quiet.pure _)

/-- A request with a context is quiet where its answers are not marked. -/
theorem request_quiet {context : String} {r : Request}
    (unmarked : ∀ answer, mark ⟨.request r, answer⟩ = none) :
    Quiet mark (errCtx context (send r)).run :=
  -- The context does not matter, and the request is one call.
  errCtx_quiet (send_quiet unmarked)

end

variable {α : Type} {allowed : ProcessPhase → Prop}

/-- A look at the clock writes no phase. -/
theorem utcNow_silent : Silent utcNow := utcNow_quiet fun _ => rfl

/-- The context of an error leaves the writes of a task as they are. -/
theorem errCtx_writes {context : String} {task : Task (Except String α)}
    (writes : Writes allowed task) : Writes allowed (errCtx context task).run := by
  -- The text of the error is put together without a call.
  refine MarksOnce.before writes fun result => ?_
  cases result <;> exact Quiet.pure _

/-- Whatever else a patch of the phase fills in, it writes that phase. -/
theorem phasePatch_writes {phase : ProcessPhase} (fill : StatusPatch → StatusPatch)
    (keeps : ∀ base, (fill base).phase = base.phase) (legal : allowed phase) :
    Writes allowed (do
      let base ← phaseStatusBase phase
      send (.mergeStatus (fill base)) : Task (Except String Unit)) := by
  intro events outcome runs
  obtain ⟨now, rfl⟩ := runs_phasePatch fill runs
  -- The look at the clock writes nothing, and the patch carries the phase of its base.
  exact .inr ⟨phase, by simp [List.filterMap_cons, keeps], legal⟩

/-- A transition writes the phase that it is to. -/
theorem transition_writes {phase : ProcessPhase} (legal : allowed phase) :
    Writes allowed (transition phase) :=
  -- Its patch is the plain one.
  phasePatch_writes id (fun _ => rfl) legal

/-- So does one with a message. -/
theorem transitionMsg_writes {phase : ProcessPhase} {message : String} (legal : allowed phase) :
    Writes allowed (transitionMsg phase message) :=
  -- The message is no part of the phase.
  phasePatch_writes (fun base => { base with message := some message }) (fun _ => rfl) legal

/-- A handler that ends with one transition and then only names the next look. -/
theorem transition_then_writes {context : String} {task : Task (Except String Unit)}
    {action : Action} (writes : Writes allowed task) :
    Writes allowed (do
      errCtx context task
      return action : Handler Action).run :=
  -- Behind the transition there is only the action to return.
  MarksOnce.tryBefore (errCtx_writes writes) fun _ => Quiet.pure _

/-- A change of the finalizers writes no phase. -/
theorem finalizerTransform_silent (p : Process) (target : String)
    (transform : List String → String → Option (List String)) :
    Silent (applyFinalizerTransform p target transform) := by
  -- Either nothing has to change, or the patch is one of the finalizers.
  unfold applyFinalizerTransform
  split
  · exact Quiet.pure _
  · refine Quiet.bind (send_quiet fun _ => rfl) fun result => ?_
    cases result <;> exact Quiet.pure _

/-- Making sure of the process table writes no phase. -/
theorem ensureProcessTable_silent : Silent ensureProcessTable := by
  -- The table is created only where a look at it has found none.
  refine Quiet.bind (send_quiet fun _ => rfl) fun result => ?_
  match result with
  | .error _ => exact Quiet.pure _
  | .ok (some _) => exact Quiet.pure _
  | .ok none => exact send_quiet fun _ => rfl

/-- A look at the dependencies writes no phase. -/
theorem checkDependsOn_silent (p : Process) (deps : List DependsOn) :
    Silent (checkDependsOn p deps) := by
  -- By induction on the dependencies, each of which is one request.
  induction deps with
  | nil => exact Quiet.pure _
  | cons dep deps ih =>
    refine Quiet.bind (send_quiet fun _ => rfl) fun _ => ?_
    exact Quiet.bind ih fun _ => Quiet.pure _

/-- The evaluation of conditions writes no phase. -/
theorem evaluateConditions_silent (conditions : List Condition) :
    Silent (evaluateConditions conditions).run := by
  -- By induction on the conditions, each with a request and a look at the clock.
  induction conditions with
  | nil => exact Quiet.pure _
  | cons c conditions ih =>
    refine Quiet.tryBind (request_quiet fun _ => rfl) fun _ => ?_
    refine Quiet.tryBind utcNow_silent.lift fun _ => ?_
    exact Quiet.tryBind ih fun _ => Quiet.pure _

/-- The proof of the preconditions writes no phase. -/
theorem provePreconditions_silent (p : Process) : Silent (provePreconditions p).run := by
  -- Only where there are preconditions, something is evaluated and reported.
  unfold provePreconditions
  split
  · exact Quiet.pure _
  · refine Quiet.tryBind (evaluateConditions_silent _) fun _ => ?_
    exact Quiet.tryBind (bestEffort_quiet (send_quiet fun _ => rfl)) fun _ => Quiet.pure _

/-- The question whether a Process holds a claim writes no phase. -/
theorem processHoldsAnyClaim_silent (p : Process) : Silent (processHoldsAnyClaim p) := by
  -- It takes one request, however it is answered.
  refine Quiet.bind (send_quiet fun _ => rfl) fun result => ?_
  split <;> exact Quiet.pure _

/-- The verification of the postconditions writes no phase. -/
theorem verifyPostconditions_silent (p : Process) : Silent (verifyPostconditions p).run := by
  -- Where there are none, nothing is called at all.
  unfold verifyPostconditions
  split
  · exact Quiet.pure _
  · refine Quiet.tryBind (evaluateConditions_silent _) fun _ => ?_
    exact Quiet.tryBind (request_quiet fun _ => rfl) fun _ => Quiet.pure _

/-- The way to Exiting writes that phase only. -/
theorem transitionToExiting_writes (reason : String) (legal : allowed .exiting) :
    Writes allowed (transitionToExiting reason).run :=
  -- It is one transition with a message.
  transition_then_writes (transitionMsg_writes legal)

/-- The way to Releasing writes that phase only. -/
theorem transitionToReleasing_writes (reason : String) (legal : allowed .releasing) :
    Writes allowed (transitionToReleasing reason).run := by
  refine MarksOnce.tryAfter ?_ fun gate => ?_
  · exact Quiet.tryBind (request_quiet fun _ => rfl) fun _ => Quiet.pure _
  · -- The annotation is written before the phase.
    refine MarksOnce.tryAfter (request_quiet fun _ => rfl) fun _ => ?_
    exact transition_then_writes (transitionMsg_writes legal)

/-- The way out of Releasing writes Zombie or Exiting. -/
theorem advanceOutOfReleasing_writes (gate : ProcessPhase) (reason : String)
    (zombie : allowed .zombie) (exiting : allowed .exiting) :
    Writes allowed (advanceOutOfReleasing gate reason).run := by
  -- Which of the two it is depends on the gate.
  refine transition_then_writes (transitionMsg_writes ?_)
  split
  · exact zombie
  · exact exiting

/-- Draining the children writes no phase. -/
theorem drainChildren_silent (p : Process) : Silent (drainChildren p).run := by
  -- Their deletion is asked for one by one, without regard to failures.
  unfold drainChildren
  split
  · exact Quiet.pure _
  · refine Quiet.tryBind (request_quiet fun _ => rfl) fun processes => ?_
    refine Quiet.tryBind ?_ fun _ => Quiet.pure _
    exact Quiet.forM _ fun child => bestEffort_quiet (send_quiet fun _ => rfl)

/-- What is reaped gets no other phase. -/
theorem handleReaped_silent (p : Process) : Silent (handleReaped p).run :=
  -- Only the finalizer is taken away.
  Quiet.tryBind (errCtx_quiet (finalizerTransform_silent _ _ _)) fun _ => Quiet.pure _

/-- An exit writes Zombie at most. -/
theorem handleExiting_writes (p : Process) (legal : allowed .zombie) :
    Writes allowed (handleExiting p).run := by
  -- The phase is written once no child is left.
  refine MarksOnce.tryAfter (drainChildren_silent p) fun children => ?_
  split
  · exact transition_then_writes (transition_writes legal)
  · exact (Quiet.pure _).marksOnce

/-- The phase that the effect of a signal writes. -/
def SignalEffect.target : SignalEffect → Option ProcessPhase
  | transitionTo phase => some phase
  | forceAttest => some .running
  | remediate => some .reconverging
  | noop | suspend | resume => none

/-- A signal writes the phase that it asks for. -/
theorem consumeEffect_writes {effect : SignalEffect}
    (legal : ∀ phase, effect.target = some phase → allowed phase) :
    Writes allowed (consumeEffect effect).run := by
  -- Each effect is one write at most.
  cases effect with
  | noop => exact (Quiet.pure _).marksOnce
  | transitionTo phase => exact errCtx_writes (transition_writes (legal phase rfl))
  | forceAttest => exact errCtx_writes (transitionMsg_writes (legal .running rfl))
  | suspend => exact (request_quiet fun _ => rfl).marksOnce
  | resume => exact (request_quiet fun _ => rfl).marksOnce
  | remediate => exact errCtx_writes (transitionMsg_writes (legal .reconverging rfl))

/-- Taking in a signal writes no phase. -/
theorem ingest_silent (p : Process) : Silent (ingest p).run := by
  -- The annotation of a signal is removed, if there is one.
  unfold ingest
  split
  · exact Quiet.pure _
  · exact Quiet.tryBind (request_quiet fun _ => rfl) fun _ => Quiet.pure _

section

variable [Crates]

/-- A pending Process is only made to fork. -/
theorem handlePending_writes (p : Process) (legal : allowed .forking) :
    Writes allowed (handlePending p).run := by
  -- The finalizer comes before the one write of a phase.
  refine MarksOnce.tryAfter (errCtx_quiet (finalizerTransform_silent _ _ _)) fun _ => ?_
  exact transition_then_writes
    (phasePatch_writes (fun base => { base with identity := some (deriveIdentity p.spec) })
      (fun _ => rfl) legal)

/-- Handing out a PID writes no phase. -/
theorem assignPid_silent (p : Process) : Silent (assignPid p).run := by
  -- A Process that has one already is left alone.
  unfold assignPid
  split
  · exact Quiet.pure _
  · refine Quiet.tryBind (errCtx_quiet ensureProcessTable_silent) fun _ => ?_
    exact Quiet.tryBind (request_quiet fun _ => rfl) fun _ => request_quiet fun _ => rfl

/-- A Process that forks is only made to execute. -/
theorem handleForking_writes (p : Process) (legal : allowed .execing) :
    Writes allowed (handleForking p).run := by
  refine MarksOnce.tryAfter (checkDependsOn_silent _ _).lift fun unmet => ?_
  split
  · -- The report about what is missing has no phase in it.
    refine Quiet.marksOnce (Quiet.tryBind ?_ fun _ => Quiet.pure _)
    exact bestEffort_quiet (send_quiet fun _ => rfl)
  · -- The patch of the PID comes before the one of the phase, and is none itself.
    refine MarksOnce.tryAfter (assignPid_silent p) fun _ => ?_
    exact transition_then_writes (transitionMsg_writes legal)

/-- Applying a resource writes no phase. -/
theorem applyOwned_silent (p : Process) (ns : String) (coords : RenderedResourceCoords) :
    Silent (applyOwned p ns coords).run := by
  unfold applyOwned
  -- Two of the cases fail before any call.
  split
  · exact Quiet.pure _
  · exact Quiet.pure _
  · exact request_quiet fun _ => rfl

/-- Applying all that has been rendered writes no phase. -/
theorem applyRendered_silent (p : Process) (rendered : List RenderedResourceCoords) :
    Silent (applyRendered p rendered).run := by
  -- Each resource takes a request and a look at the clock.
  induction rendered with
  | nil => exact Quiet.pure _
  | cons coords rest ih =>
    refine Quiet.tryBind (applyOwned_silent _ _ _) fun _ => ?_
    refine Quiet.tryBind utcNow_silent.lift fun _ => ?_
    exact Quiet.tryBind ih fun _ => Quiet.pure _

/-- Applying the routes writes no phase. -/
theorem applyRouting_silent (config : Config) (p : Process) :
    Silent (applyRouting config p).run := by
  unfold applyRouting
  split
  · exact Quiet.pure _
  · -- What the rendering refuses ends the handler without a call.
    refine Quiet.tryBind (processHoldsAnyClaim_silent p).lift fun _ => ?_
    exact Quiet.tryBind (Quiet.pure _) fun routes =>
      Quiet.forM routes fun edge => applyOwned_silent _ _ edge.coords

/-- A Process that executes is only made to run. -/
theorem handleExecing_writes (config : Config) (p : Process) (legal : allowed .running) :
    Writes allowed (handleExecing config p).run := by
  refine MarksOnce.tryAfter (provePreconditions_silent p) fun proved => ?_
  -- Both of the intents that are rendered go the same way.
  have emit (workload : Workload) : Writes allowed (do
      let refs ← applyRendered p (render p workload)
      applyRouting config p
      errCtx "patch status (execing→running)" do
        let base ← phaseStatusBase .running
        send (.mergeStatus { base with fluxResources := some refs })
      return shortRetry : Handler Action).run := by
    refine MarksOnce.tryAfter (applyRendered_silent _ _) fun refs => ?_
    refine MarksOnce.tryAfter (applyRouting_silent _ _) fun _ => ?_
    exact transition_then_writes
      (phasePatch_writes (fun base => { base with fluxResources := some refs })
        (fun _ => rfl) legal)
  split
  · -- Preconditions that do not hold yet leave the phase as it is.
    exact (Quiet.pure _).marksOnce
  · split
    · exact (Quiet.pure _).marksOnce
    · exact emit _
    · exact emit _
    · exact (Quiet.pure _).marksOnce

/-- The way to Attested writes that phase only. -/
theorem advanceToAttested_writes (p : Process) (artifactHash : Option String)
    (legal : allowed .attested) : Writes allowed (advanceToAttested p artifactHash).run := by
  -- The attestation is composed with the time of the clock.
  refine MarksOnce.tryAfter utcNow_silent.lift fun now => ?_
  exact transition_then_writes
    (phasePatch_writes (fun base => { base with attestation := some _ }) (fun _ => rfl) legal)

/-- Fetching a resource writes no phase. -/
theorem fetchFluxRef_silent (r : FluxResourceRef) : Silent (fetchFluxRef r).run := by
  -- A reference of an unknown kind is answered without a call.
  unfold fetchFluxRef
  split
  · exact Quiet.pure _
  · exact request_quiet fun _ => rfl

/-- Polling the resources writes no phase. -/
theorem pollRefs_silent (refs : List FluxResourceRef) : Silent (pollRefs refs).run := by
  -- By induction on the references, each with a request and a look at the clock.
  induction refs with
  | nil => exact Quiet.pure _
  | cons r refs ih =>
    refine Quiet.tryBind (fetchFluxRef_silent r) fun _ => ?_
    refine Quiet.tryBind utcNow_silent.lift fun _ => ?_
    exact Quiet.tryBind ih fun _ => Quiet.pure _

/-- A Process that runs exits or is attested. -/
theorem handleRunning_writes (p : Process) (exiting : allowed .exiting)
    (attested : allowed .attested) : Writes allowed (handleRunning p).run := by
  refine MarksOnce.tryAfter utcNow_silent.lift fun now => ?_
  -- The clock comes first, then the resources, and the postconditions last.
  split
  · exact transitionToExiting_writes _ exiting
  · split
    · exact advanceToAttested_writes p _ attested
    · -- The patch that records the resources has no phase in it.
      refine MarksOnce.tryAfter (pollRefs_silent _) fun updated => ?_
      refine MarksOnce.tryAfter (request_quiet fun _ => rfl) fun _ => ?_
      split
      · refine MarksOnce.tryAfter (verifyPostconditions_silent p) fun verified => ?_
        split
        · exact advanceToAttested_writes p _ attested
        · exact (Quiet.pure _).marksOnce
      · exact (Quiet.pure _).marksOnce

/-- The search for drift writes no phase. -/
theorem anyDrift_silent (refs : List FluxResourceRef) : Silent (anyDrift refs).run := by
  -- By induction on the references, up to the first one that has drifted.
  induction refs with
  | nil => exact Quiet.pure _
  | cons r refs ih =>
    refine Quiet.tryBind (fetchFluxRef_silent r) fun obj => ?_
    split
    · exact ih
    · exact Quiet.pure _

/-- An attested Process is released, exits or converges anew. -/
theorem handleAttested_writes (p : Process) (releasing : allowed .releasing)
    (exiting : allowed .exiting) (reconverging : allowed .reconverging) :
    Writes allowed (handleAttested p).run := by
  refine MarksOnce.tryAfter utcNow_silent.lift fun now => ?_
  split
  · -- A lifetime that is over leads out by way of the exports, where there are some.
    split
    · exact transitionToReleasing_writes _ releasing
    · exact transitionToExiting_writes _ exiting
  · refine MarksOnce.tryAfter (anyDrift_silent _) fun drift => ?_
    split
    · exact transition_then_writes (transitionMsg_writes reconverging)
    · exact (Quiet.pure _).marksOnce

/-- A Process that is released ends as a zombie or exits. -/
theorem handleReleasing_writes (p : Process) (zombie : allowed .zombie)
    (exiting : allowed .exiting) : Writes allowed (handleReleasing p).run := by
  -- The exports are applied without a word on the phase.
  simp only [handleReleasing]
  split
  · exact advanceOutOfReleasing_writes _ _ zombie exiting
  · refine MarksOnce.tryAfter ?_ fun _ => ?_
    · exact Quiet.forM _ fun job => errCtx_quiet (applyOwned_silent _ _ _)
    · refine MarksOnce.tryAfter (request_quiet fun _ => rfl) fun jobs => ?_
      split
      · exact (Quiet.pure _).marksOnce
      · exact advanceOutOfReleasing_writes _ _ zombie exiting

/-- A failed Process is released or becomes a zombie. -/
theorem handleFailed_writes (p : Process) (releasing : allowed .releasing)
    (zombie : allowed .zombie) : Writes allowed (handleFailed p).run := by
  -- It moves only once its lifetime is over.
  refine MarksOnce.tryAfter utcNow_silent.lift fun now => ?_
  split
  · split
    · exact transitionToReleasing_writes _ releasing
    · exact transition_then_writes (transitionMsg_writes zombie)
  · exact transition_then_writes (transition_writes zombie)

/-- The handler of a phase writes at most one phase, and one that the phase machine declares. -/
theorem handle_writes (config : Config) (p : Process) (phase : ProcessPhase) :
    Writes (phase.canTransitionTo · = true) (handle config p phase).run := by
  -- The table of the phase machine decides each case by evaluation.
  cases phase with
  | pending => exact handlePending_writes p rfl
  | forking => exact handleForking_writes p rfl
  | execing => exact handleExecing_writes config p rfl
  | running => exact handleRunning_writes p rfl rfl
  | attested => exact handleAttested_writes p rfl rfl rfl
  | reconverging => exact transition_then_writes (transition_writes rfl)
  | releasing => exact handleReleasing_writes p rfl rfl
  | exiting => exact handleExiting_writes p rfl
  | failed => exact handleFailed_writes p rfl rfl
  | zombie => exact transition_then_writes (transition_writes rfl)
  | reaped => exact (handleReaped_silent p).marksOnce

end

end Tatara.Reconciler
