import Tatara.Reconciler.Rounds

/-! The phases that a run of the controller writes, compared with the declared phase machine. -/

namespace Tatara.Reconciler

open Tatara.Rust Tatara.Crd
open Tatara.Program (MarksOnce Quiet Runs)

/-- A phase that a round has stored, with the Process that the round has read. -/
structure Write where
  read : Process
  phase : ProcessPhase

/-- The phases stored in the course of a run. -/
def writes (rounds : List Round) : List Write :=
  rounds.flatMap fun round => round.written.map fun phase => ⟨round.read, phase⟩

/-- Every stored phase is related to the one stored before it, and the first one to this phase. -/
def Successive (related : Process → ProcessPhase → ProcessPhase → Prop) :
    ProcessPhase → List Write → Prop
  | _, [] => True
  | before, write :: rest =>
    related write.read before write.phase ∧ Successive related write.phase rest

/-- The signal that waits in the annotation of a Process. -/
def pendingSignal (p : Process) : Option ProcessSignal :=
  (p.annotation signalAnnotation).bind ProcessSignal.fromStr

/-- The operator takes a Process out of the declared phase machine, into this phase. -/
inductive Preempts (p : Process) : ProcessPhase → Prop where
  | deletion (stamped : p.isBeingDeleted = true) (alive : p.observedPhaseOrPending.isAlive = true) :
      Preempts p .exiting
  | sigterm (sent : pendingSignal p = some .sigterm)
      (alive : p.observedPhaseOrPending.isAlive = true) : Preempts p .exiting
  | sigkill (sent : pendingSignal p = some .sigkill)
      (alive : p.observedPhaseOrPending.isAlive = true) : Preempts p .reaped
  | sigusr1 (sent : pendingSignal p = some .sigusr1)
      (attested : p.observedPhaseOrPending = .attested) : Preempts p .running

/-- A phase may follow another one: it is the same, the phase machine declares it, or the operator
has pre-empted the phase machine. -/
structure Legal (p : Process) (before after : ProcessPhase) : Prop where
  found : p.observedPhaseOrPending = before
  follows : before = after ∨ before.canTransitionTo after = true ∨ Preempts p after
  attested : after = .attested → before = .running
  exiting : after = .exiting → before = .running ∨ before = .attested ∨ before = .releasing ∨
    Preempts p .exiting
  reaped : after = .reaped → before = .zombie ∨ Preempts p .reaped

namespace Legal

/-- What the phase machine declares is legal. -/
theorem of_declared {p : Process} {after : ProcessPhase}
    (declared : p.observedPhaseOrPending.canTransitionTo after = true) :
    Legal p p.observedPhaseOrPending after := by
  refine ⟨rfl, .inr (.inl declared), ?_, ?_, ?_⟩
  -- The table has one way into `Attested`, three into `Exiting`, and one into `Reaped`.
  all_goals
    intro entered
    subst entered
    revert declared
    cases p.observedPhaseOrPending <;> simp [ProcessPhase.canTransitionTo]

/-- A pre-emption is legal. -/
theorem of_preempts {p : Process} {after : ProcessPhase} (preempts : Preempts p after) :
    Legal p p.observedPhaseOrPending after := by
  refine ⟨rfl, .inr (.inr preempts), ?_, ?_, ?_⟩
  · -- No pre-emption attests a Process.
    intro attested
    subst attested
    cases preempts
  · intro exiting
    exact .inr (.inr (.inr (exiting ▸ preempts)))
  · intro reaped
    exact .inr (reaped ▸ preempts)

/-- To write the phase `Running` to a Process that is `Running` is legal. -/
theorem of_running {p : Process} (running : p.observedPhaseOrPending = .running) :
    Legal p p.observedPhaseOrPending .running :=
  ⟨rfl, .inl running, nofun, nofun, nofun⟩

/-- What a signal does to a Process that is alive is legal. -/
theorem of_signal {p : Process} {signal : ProcessSignal} (sent : pendingSignal p = some signal)
    (alive : p.observedPhaseOrPending.isAlive = true) (phase : ProcessPhase)
    (target : (applySignal p.observedPhaseOrPending signal p.spec.sighupStrategy).target =
      some phase) : Legal p p.observedPhaseOrPending phase := by
  -- A signal to running Processes finds one of two phases, and both lead to the same two phases.
  have runs (running : p.observedPhaseOrPending.isRunning = true) :
      p.observedPhaseOrPending = .running ∨ p.observedPhaseOrPending = .attested := by
    revert running
    cases p.observedPhaseOrPending <;> simp [ProcessPhase.isRunning]
  have reconverging (running : p.observedPhaseOrPending.isRunning = true) :
      Legal p p.observedPhaseOrPending .reconverging := by
    refine of_declared ?_
    rcases runs running with found | found <;> rw [found] <;> rfl
  have exiting (running : p.observedPhaseOrPending.isRunning = true) :
      Legal p p.observedPhaseOrPending .exiting := by
    refine of_declared ?_
    rcases runs running with found | found <;> rw [found] <;> rfl
  cases signal with
  | sighup =>
    -- A hangup to a Process that is not running has no effect.
    by_cases running : p.observedPhaseOrPending.isRunning = true
    · cases strategy : p.spec.sighupStrategy <;>
        simp only [applySignal, strategy, SighupStrategy.sighupTarget, running, if_true,
          SignalEffect.target, Option.some.injEq, reduceCtorEq] at target
      · exact target ▸ reconverging running
      · exact target ▸ exiting running
    · cases strategy : p.spec.sighupStrategy <;>
        simp [applySignal, strategy, SighupStrategy.sighupTarget, running,
          SignalEffect.target] at target
  | sigterm =>
    simp only [applySignal, alive, if_true, SignalEffect.target, Option.some.injEq] at target
    exact target ▸ of_preempts (.sigterm sent alive)
  | sigkill =>
    simp only [applySignal] at target
    split at target
    · obtain rfl := Option.some.inj target
      exact of_preempts (.sigkill sent alive)
    · cases target
  | sigusr1 =>
    simp only [applySignal] at target
    split at target
    · rename_i running
      obtain rfl := Option.some.inj target
      -- The forced attestation sets `Running` again, or takes the Process back to it.
      rcases runs running with found | found
      · exact of_running found
      · exact of_preempts (.sigusr1 sent found)
    · cases target
  | sigusr2 =>
    simp only [applySignal] at target
    split at target
    · rename_i running
      exact Option.some.inj target ▸ reconverging running
    · cases target
  | sigstop => cases target
  | sigcont => cases target

end Legal

section

variable [Crates] {config : Config}

/-- The part of `reconcile` behind the signals writes at most one phase, and a legal one. -/
theorem reconcileUnlessSuspended_writes (config : Config) (p : Process) :
    Writes (Legal p p.observedPhaseOrPending) (reconcileUnlessSuspended config p) := by
  unfold reconcileUnlessSuspended
  split
  · -- A suspended Process is left alone.
    exact (Quiet.pure _).marksOnce
  · refine MarksOnce.before ?_ fun result => ?_
    · exact (handle_writes config p p.observedPhaseOrPending).mono fun _ => Legal.of_declared
    · cases result <;> exact Quiet.pure _

omit [Crates] in
/-- A signal that comes out of the ingestion was waiting in the annotation. -/
theorem pendingSignal_of_ingest {p : Process} {events : List Event} {signal : ProcessSignal}
    (runs : Runs (ingest p).run events (.ok (some signal))) : pendingSignal p = some signal := by
  unfold ingest at runs
  unfold pendingSignal
  cases annotated : p.annotation signalAnnotation with
  | none =>
    rw [annotated] at runs
    obtain ⟨-, none⟩ := Program.runs_pure_iff.mp runs
    cases none
  | some raw =>
    rw [annotated] at runs
    -- The annotation is taken away before the signal in it is parsed.
    rcases Program.runs_try_iff.mp runs with ⟨error, -, failed⟩ | ⟨front, _, back, -, second, -⟩
    · cases failed
    · obtain ⟨-, parsed⟩ := Program.runs_pure_iff.mp second
      exact (Except.ok.inj parsed).symm

/-- A reconcile writes at most one phase, and a legal one. -/
theorem reconcile_writes (config : Config) (p : Process) :
    Writes (Legal p p.observedPhaseOrPending) (reconcile config p) := by
  simp only [reconcile]
  split
  · -- The stamp forces a Process out of every phase that counts as alive.
    rename_i deleted
    obtain ⟨stamped, alive⟩ := (Bool.and_eq_true _ _).mp deleted
    refine MarksOnce.before (transitionMsg_writes ?_) fun _ => Quiet.pure _
    exact Legal.of_preempts (.deletion stamped alive)
  · split
    · rename_i alive
      refine MarksOnce.afterRun (ingest_silent p) fun front result ingested => ?_
      -- With a signal its effect is all there is; without one the handler has its turn.
      match result, ingested with
      | .ok (some signal), ingested =>
        refine MarksOnce.before (consumeEffect_writes ?_) fun _ => Quiet.pure _
        exact Legal.of_signal (pendingSignal_of_ingest ingested) alive
      | .ok none, _ => exact reconcileUnlessSuspended_writes config p
      | .error _, _ => exact reconcileUnlessSuspended_writes config p
    · exact reconcileUnlessSuspended_writes config p

/-- What writes a phase is a deletion, a signal, or the handler of the phase, which comes first or
after a look at the annotation. -/
theorem written_by {config : Config} {p : Process} {events : List Event} {action : Action}
    {phase : ProcessPhase} (runs : Runs (reconcile config p) events action)
    (writes : phase ∈ events.filterMap Event.phase) :
    (p.isBeingDeleted = true ∧ p.observedPhaseOrPending.isAlive = true ∧ phase = .exiting) ∨
      (∃ signal, pendingSignal p = some signal ∧ p.observedPhaseOrPending.isAlive = true ∧
        (applySignal p.observedPhaseOrPending signal p.spec.sighupStrategy).target = some phase) ∨
      ∃ front back outcome, events = front ++ back ∧
        (front = [] ∨ ∃ result, Runs (ingest p).run front result) ∧
        Runs (handle config p p.observedPhaseOrPending).run back outcome ∧
        phase ∈ back.filterMap Event.phase := by
  have dispatched {back : List Event} (rest : Runs (reconcileUnlessSuspended config p) back action)
      (behind : phase ∈ back.filterMap Event.phase) :
      ∃ outcome, Runs (handle config p p.observedPhaseOrPending).run back outcome := by
    unfold reconcileUnlessSuspended at rest
    split at rest
    · -- A suspended Process is left alone.
      obtain ⟨rfl, -⟩ := Program.runs_pure_iff.mp rest
      cases behind
    · exact runs_dispatch rest
  simp only [reconcile] at runs
  split at runs
  · rename_i deleted
    obtain ⟨stamped, alive⟩ := (Bool.and_eq_true _ _).mp deleted
    have exits : Writes (· = .exiting) (transitionMsg .exiting "deletion requested") :=
      transitionMsg_writes rfl
    exact .inl ⟨stamped, alive, (exits.before fun _ => Quiet.pure _).allowed_of_mem runs writes⟩
  · split at runs
    · rename_i alive
      obtain ⟨front, result, back, ingested, rest, rfl, behind⟩ :=
        (ingest_silent p).marked_behind runs writes
      match result, ingested, rest with
      | .ok (some signal), ingested, rest =>
        -- A signal takes the place of the handler.
        have effect : Writes (fun phase => (applySignal p.observedPhaseOrPending signal
            p.spec.sighupStrategy).target = some phase) _ :=
          consumeEffect_writes fun _ target => target
        have target := (effect.before fun _ => Quiet.pure _).allowed_of_mem rest behind
        exact .inr (.inl ⟨signal, pendingSignal_of_ingest ingested, alive, target⟩)
      | .ok none, ingested, rest =>
        obtain ⟨outcome, handled⟩ := dispatched rest behind
        exact .inr (.inr ⟨front, back, outcome, rfl, .inr ⟨_, ingested⟩, handled, behind⟩)
      | .error _, ingested, rest =>
        obtain ⟨outcome, handled⟩ := dispatched rest behind
        exact .inr (.inr ⟨front, back, outcome, rfl, .inr ⟨_, ingested⟩, handled, behind⟩)
    · obtain ⟨outcome, handled⟩ := dispatched runs writes
      exact .inr (.inr ⟨[], events, outcome, rfl, .inl rfl, handled, writes⟩)

end

section

variable {related : Process → ProcessPhase → ProcessPhase → Prop}

/-- The writes of a run with one more round are those from before and those of the round. -/
theorem writes_concat (rounds : List Round) (round : Round) :
    writes (rounds ++ [round]) =
      writes rounds ++ round.written.map fun phase => ⟨round.read, phase⟩ := by
  simp [writes]

/-- What is successive from the beginning on goes on from where a part of it has ended. -/
theorem successive_append {before : ProcessPhase} {front back : List Write} :
    Successive related before (front ++ back) ↔
      Successive related before front ∧
        Successive related (front.foldl (fun _ write => write.phase) before) back := by
  -- The part before is walked through, and its last phase is where the rest starts.
  induction front generalizing before with
  | nil => simp [Successive]
  | cons write front ih => simp only [List.cons_append, Successive, ih, List.foldl_cons, and_assoc]

end

section

variable [Crates] {config : Config}

/-- The stored Process is in the phase that was written last. -/
theorem Reaches.observedPhase {rounds : List Round} {p : Process}
    (reaches : Reaches config rounds p) :
    p.observedPhaseOrPending =
      (writes rounds).foldl (fun _ write => write.phase) .pending := by
  induction reaches with
  | fresh fresh =>
    -- A Process without a status counts as `Pending`.
    simp [Process.observedPhaseOrPending, Process.observedPhase, fresh, writes]
  | outside before kept ih => rw [observedPhase_congr kept, ih]
  | reconcile before runs lands ih =>
    rw [lands.observedPhase, ih, writes_concat, List.foldl_append, List.foldl_map]

/-- Along every run, each phase that is stored may follow the one stored before it. -/
theorem reaches_legal {rounds : List Round} {p : Process} (reaches : Reaches config rounds p) :
    Successive Legal .pending (writes rounds) := by
  induction reaches with
  | fresh fresh => trivial
  | outside before kept ih => exact ih
  | reconcile before runs lands ih =>
    rename_i p q rounds events written action
    rw [writes_concat, successive_append]
    refine ⟨ih, ?_⟩
    -- What was stored last is the phase that the reconcile has read.
    rw [← before.observedPhase]
    -- A round stores nothing, or the one phase that its reconcile writes.
    have kept := lands.written_sublist
    rcases reconcile_writes config p events action runs with silent | ⟨phase, wrote, legal⟩
    · rw [silent, List.sublist_nil] at kept
      subst kept
      trivial
    · rw [wrote] at kept
      rcases List.sublist_cons_iff.mp kept with none | ⟨rest, rfl, none⟩
      · obtain rfl := List.sublist_nil.mp none
        trivial
      · obtain rfl := List.sublist_nil.mp none
        exact ⟨legal, trivial⟩

/-- What is declared alone: a phase stays, or the phase machine leads to the next one. -/
def Declared (_ : Process) (before after : ProcessPhase) : Prop :=
  before = after ∨ before.canTransitionTo after = true

end

/-- A Process with an intent for Flux, just created. -/
def created : Process :=
  { metadata := { name := "demo" }, spec := { intent := { flux := some .null }, rest := .null } }

/-- The first round on that Process. -/
def firstRound [Crates] : Round := calmRound plainConfig ⟨0⟩ created

/-- That Process after its first round, with a deletion requested. -/
def deleted [Crates] : Process :=
  { firstRound.left with
    metadata := { name := "demo", deletionTimestamp := some ⟨1⟩ } }

/-- The second round, on the Process that is to be deleted. -/
def secondRound [Crates] : Round := calmRound plainConfig ⟨1⟩ deleted

/-- The run of a Process that is deleted while it forks. -/
theorem reaches_secondRound [Crates] :
    Reaches plainConfig [firstRound, secondRound] secondRound.left := by
  -- The stamp is set from outside, between the two rounds.
  have fresh : Reaches plainConfig [] created := .fresh rfl
  have stamped : Reaches plainConfig [firstRound] deleted := (reaches_calm fresh ⟨0⟩).outside rfl
  exact reaches_calm stamped ⟨1⟩

/-- A Process is stored as `Forking`, and a deletion then takes it to `Exiting`. -/
theorem reaches_legal_deleted :
    let _ := plainCrates
    (writes [firstRound, secondRound]).map Write.phase = [.forking, .exiting] ∧
      Successive Legal .pending (writes [firstRound, secondRound]) := by
  let _ := plainCrates
  exact ⟨rfl, reaches_legal reaches_secondRound⟩

/-- The declared phase machine alone does not cover the runs of the controller. -/
theorem not_reaches_declared :
    ¬ ∃ _ : Crates, ∀ (config : Config) (rounds : List Round) (p : Process),
      Reaches config rounds p → Successive Declared .pending (writes rounds) := by
  intro declared
  obtain ⟨_, refines⟩ := declared
  -- The table has no way from `Forking` to `Exiting`.
  have successive := refines _ _ _ reaches_secondRound
  have leaves : Declared deleted .forking .exiting := successive.2.1
  exact absurd leaves (by simp [Declared, ProcessPhase.canTransitionTo])

end Tatara.Reconciler
