import Tatara.Reconciler.PhaseMachine

/-! The controller: signals first, then the handler of the phase. -/

namespace Tatara.Reconciler

open Tatara.Rust Tatara.Crd

/-- What a signal asks of the phase machine. -/
inductive SignalEffect where
  | noop
  | transitionTo (phase : ProcessPhase)
  | forceAttest
  | suspend
  | resume
  | remediate
  deriving DecidableEq, Repr

/-- `signals::apply`. -/
def applySignal (phase : ProcessPhase) (signal : ProcessSignal) (sighup : SighupStrategy) :
    SignalEffect :=
  match signal with
  -- What a hangup asks for is a matter of the spec.
  | .sighup =>
    match sighup.sighupTarget with
    | some target => if phase.isRunning then .transitionTo target else .noop
    | none => .noop
  | .sigterm => if phase.isAlive then .transitionTo .exiting else .noop
  | .sigkill => if !phase.isTerminal then .transitionTo .reaped else .noop
  | .sigusr1 => if phase.isRunning then .forceAttest else .noop
  | .sigusr2 => if phase.isRunning then .remediate else .noop
  | .sigstop => .suspend
  | .sigcont => .resume

/-- `annotations::SIGNAL`. -/
def signalAnnotation : String := "tatara.pleme.io/signal"

/-- `ingest`: the annotation is stripped whether or not it names a signal. -/
def ingest (p : Process) : Handler (Option ProcessSignal) := do
  match p.annotation signalAnnotation with
  | none => return none
  | some raw =>
    errCtx "strip signal annotation" (send (.mergeAnnotations signalAnnotation none))
    return ProcessSignal.fromStr raw

/-- `consume_effect`. -/
def consumeEffect : SignalEffect → Handler Unit
  | .noop => return ()
  | .transitionTo phase => errCtx "transition via signal" (transition phase)
  | .forceAttest =>
    errCtx "force attest" (transitionMsg .running "forced re-attestation (SIGUSR1)")
  | .suspend => errCtx "suspend" (send (.mergeSuspended true))
  | .resume => errCtx "resume" (send (.mergeSuspended false))
  | .remediate => errCtx "remediate" (transitionMsg .reconverging "remediate requested (SIGUSR2)")

section

variable [Crates]

/-- The handler of a phase. -/
def handle (config : Config) (p : Process) : ProcessPhase → Handler Action
  | .pending => handlePending p
  | .forking => handleForking p
  | .execing => handleExecing config p
  | .running => handleRunning p
  | .attested => handleAttested p
  | .reconverging => handleReconverging
  | .releasing => handleReleasing p
  | .exiting => handleExiting p
  | .failed => handleFailed p
  | .zombie => handleZombie
  | .reaped => handleReaped p

/-- The last part of `reconcile`: an error of the handler only delays the next look. -/
def dispatch (config : Config) (p : Process) : Task Action := do
  match ← (handle config p p.observedPhaseOrPending).run with
  | .ok action => return action
  | .error _ => return heartbeat

/-- `reconcile`, from the check of the suspension on. -/
def reconcileUnlessSuspended (config : Config) (p : Process) : Task Action :=
  if p.spec.suspended && p.observedPhaseOrPending.isAlive then
    return .requeue config.heartbeatSeconds
  else dispatch config p

/-- `reconcile`. -/
def reconcile (config : Config) (p : Process) : Task Action := do
  let phase := p.observedPhaseOrPending
  -- Deletion comes before everything else, in every phase that counts as alive.
  if p.isBeingDeleted && phase.isAlive then
    let _ ← transitionMsg .exiting "deletion requested"
    return tick
  else if phase.isAlive then
    match ← (ingest p).run with
    | .ok (some signal) =>
      -- The signal is gone whether or not its effect could be applied.
      let _ ← (consumeEffect (applySignal phase signal p.spec.sighupStrategy)).run
      return tick
    | .ok none => reconcileUnlessSuspended config p
    | .error _ => reconcileUnlessSuspended config p
  -- Signals to a Process that is not alive any more stay where they are.
  else reconcileUnlessSuspended config p

end

end Tatara.Reconciler
