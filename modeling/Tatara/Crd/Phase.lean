import Mathlib.Tactic.Common

/-! The phases a Process goes through, and the signals that reach it. -/

namespace Tatara.Crd

/-- The phase a Process is in. -/
inductive ProcessPhase where
  | pending
  | forking
  | execing
  | running
  | attested
  | reconverging
  | releasing
  | exiting
  | failed
  | zombie
  | reaped
  deriving DecidableEq, Repr

instance : Inhabited ProcessPhase := ⟨.pending⟩

namespace ProcessPhase

/-- `as_str`, which `Display` writes as well. -/
def asStr : ProcessPhase → String
  | pending => "Pending"
  | forking => "Forking"
  | execing => "Execing"
  | running => "Running"
  | attested => "Attested"
  | reconverging => "Reconverging"
  | releasing => "Releasing"
  | exiting => "Exiting"
  | failed => "Failed"
  | zombie => "Zombie"
  | reaped => "Reaped"

/-- `is_terminal`. -/
def isTerminal : ProcessPhase → Bool
  | reaped => true
  | _ => false

/-- `is_running`. -/
def isRunning : ProcessPhase → Bool
  | running | attested => true
  | _ => false

/-- `is_alive`, which holds of a Process that is on its way out as well. -/
def isAlive : ProcessPhase → Bool
  | zombie | reaped | failed => false
  | _ => true

/-- `has_exited`. -/
def hasExited (phase : ProcessPhase) : Bool := !phase.isAlive

/-- `released_from_label`: which of the two gates the annotation names. -/
def releasedFromLabel : ProcessPhase → String
  | failed => failed.asStr
  | _ => attested.asStr

/-- `parse_released_from`. -/
def parseReleasedFrom : Option String → ProcessPhase
  | some label => if label = failed.asStr then failed else attested
  | none => attested

/-- `can_transition_to`, the declared phase machine. -/
def canTransitionTo : ProcessPhase → ProcessPhase → Bool
  | pending, forking => true
  | forking, execing => true
  | execing, running => true
  | execing, failed => true
  | running, attested => true
  | running, exiting => true
  | running, failed => true
  | running, reconverging => true
  | attested, reconverging => true
  | attested, releasing => true
  | attested, exiting => true
  | failed, releasing => true
  | failed, zombie => true
  | releasing, exiting => true
  | releasing, zombie => true
  | reconverging, execing => true
  | exiting, zombie => true
  | zombie, reaped => true
  | _, _ => false

end ProcessPhase

/-- The signals that a Process understands. -/
inductive ProcessSignal where
  | sighup
  | sigterm
  | sigkill
  | sigusr1
  | sigusr2
  | sigstop
  | sigcont
  deriving DecidableEq, Repr

namespace ProcessSignal

/-- `ALL`, in the order of the declaration. -/
def all : List ProcessSignal := [sighup, sigterm, sigkill, sigusr1, sigusr2, sigstop, sigcont]

/-- `as_str`. -/
def asStr : ProcessSignal → String
  | sighup => "SIGHUP"
  | sigterm => "SIGTERM"
  | sigkill => "SIGKILL"
  | sigusr1 => "SIGUSR1"
  | sigusr2 => "SIGUSR2"
  | sigstop => "SIGSTOP"
  | sigcont => "SIGCONT"

/-- `short_str`. -/
def shortStr : ProcessSignal → String
  | sighup => "HUP"
  | sigterm => "TERM"
  | sigkill => "KILL"
  | sigusr1 => "USR1"
  | sigusr2 => "USR2"
  | sigstop => "STOP"
  | sigcont => "CONT"

/-- `from_str`, which takes either name in any mixture of ASCII cases. -/
def fromStr (s : String) : Option ProcessSignal :=
  -- `Char.toUpper` converts the ASCII letters and no others.
  let upper := s.map Char.toUpper
  all.find? fun sig => upper = sig.asStr || upper = sig.shortStr

end ProcessSignal

/-- What a hangup does to a running Process. -/
inductive SighupStrategy where
  | reconverge
  | restart
  | noop
  deriving DecidableEq, Repr

/-- `sighup_target`. -/
def SighupStrategy.sighupTarget : SighupStrategy → Option ProcessPhase
  | reconverge => some .reconverging
  | restart => some .exiting
  | noop => none

end Tatara.Crd
