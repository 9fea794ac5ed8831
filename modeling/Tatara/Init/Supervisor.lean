import Mathlib.Data.List.TakeWhile
import Mathlib.Logic.Function.Basic
import Tatara.Rust.Text

/-! The init process, which spawns the services of its configuration and restarts what exits. -/

namespace Tatara.Init

open Tatara.Rust

-- A statement about the characters of a text is decided on these, not on all characters.
attribute [local instance (high)] List.decidableBAll

/-- How a service is restarted. -/
inductive RestartPolicy where
  | never
  | onFailure
  | always
  deriving DecidableEq, Repr

/-- Whether an exit with this status is followed by a restart. -/
def RestartPolicy.shouldRestart : RestartPolicy → Int32 → Bool
  | .always, _ => true
  | .onFailure, status => status != 0
  | .never, _ => false

/-- A service, as it is configured. -/
structure Service where
  name : String
  exec : String := ""
  body : Option String := none
  restart : RestartPolicy := .onFailure
  env : List (String × String) := []
  workdir : Option String := none
  enable : Bool := true
  deriving DecidableEq, Repr

/-- `resolved_exec`. -/
def Service.resolvedExec (svc : Service) : String :=
  match svc.body with
  | some form =>
    let escaped := form.toList.flatMap fun c => if c = '\x27' then "'\\''".toList else [c]
    "/bin/tatara-init --eval '" ++ String.ofList escaped ++ "'"
  | none => svc.exec

/-- `split_exec`, which splits at whitespace. -/
def splitExec (cmd : String) : List String :=
  ((cmd.toList.splitOnP isWhitespace).filter (· ≠ [])).map String.ofList

/-- The form that the main program evaluates for its arguments, behind the first `--eval`. -/
def evalForm (args : List String) : Option String :=
  (args.findIdx? (· = "--eval")).bind fun idx => args[idx + 1]?

/-- The first piece of a list goes up to the first separator. -/
theorem exists_splitOnP {α : Type*} (p : α → Bool) (l : List α) :
    ∃ rest, l.splitOnP p = l.takeWhile (!p ·) :: rest := by
  -- By induction on the list: what is in front of the separator grows by an item.
  induction l with
  | nil => exact ⟨[], List.splitOnP_nil⟩
  | cons c l ih =>
    obtain ⟨rest, pieces⟩ := ih
    rw [List.splitOnP_cons_eq_if_modifyHead]
    by_cases separates : p c = true
    · exact ⟨l.splitOnP p, by simp [separates]⟩
    · exact ⟨rest, by simp [separates, pieces]⟩

/-- What the form of a body is quoted as. -/
def escapedForm (f : String) : List Char :=
  f.toList.flatMap fun c => if c = '\x27' then "'\\''".toList else [c]

/-- A quoted form is no shorter. -/
theorem length_le_escapedForm (f : String) : f.toList.length ≤ (escapedForm f).length := by
  rw [escapedForm]
  -- By induction on the characters, each of which is written as one or more.
  induction f.toList with
  | nil => rfl
  | cons c l ih =>
    rw [List.flatMap_cons, List.length_append, List.length_cons, Nat.add_comm]
    refine Nat.add_le_add ?_ ih
    split <;> simp

/-- A form without whitespace is quoted without whitespace. -/
theorem escapedForm_plain {f : String} (plain : ∀ c ∈ f.toList, isWhitespace c = false) :
    ∀ c ∈ escapedForm f, isWhitespace c = false := by
  intro c inside
  obtain ⟨source, member, among⟩ := List.mem_flatMap.mp inside
  -- Either the character belongs to a quoted quote, or it is itself.
  split at among
  · have quote : ∀ c ∈ "'\\''".toList, isWhitespace c = false := by decide
    exact quote c among
  · rw [List.mem_singleton.mp among]
    exact plain _ member

/-- What is evaluated for a body is the first word of its quoted form. -/
theorem evalForm_resolvedExec (svc : Service) (f : String) :
    evalForm (splitExec { svc with body := some f }.resolvedExec) =
      some (String.ofList
        ('\x27' :: (escapedForm f ++ ['\x27']).takeWhile (!isWhitespace ·))) := by
  have line : (Service.resolvedExec { svc with body := some f }).toList =
      "/bin/tatara-init".toList ++
        ' ' :: ("--eval".toList ++ ' ' :: '\x27' :: (escapedForm f ++ ['\x27'])) := by
    simp [Service.resolvedExec, escapedForm]
  obtain ⟨rest, words⟩ :=
    exists_splitOnP isWhitespace ('\x27' :: (escapedForm f ++ ['\x27']))
  rw [List.takeWhile_cons_of_pos (by decide)] at words
  rw [splitExec, line, List.splitOnP_append_cons_of_forall_mem (by decide) _ (by decide),
    List.splitOnP_append_cons_of_forall_mem (by decide) _ (by decide), words]
  rfl

/-- The quotes around the form of a body stay in its first word, so that what is evaluated is never
that form. -/
theorem evalForm_resolvedExec_ne (svc : Service) (f : String) :
    evalForm (splitExec { svc with body := some f }.resolvedExec) ≠ some f := by
  -- A form that is its own first word has no whitespace, and then its quotes make it longer.
  intro same
  rw [evalForm_resolvedExec, Option.some_inj, ← String.toList_inj, String.toList_ofList] at same
  have plain : ∀ c ∈ f.toList, isWhitespace c = false := by
    intro c inside
    rw [← same] at inside
    rcases List.mem_cons.mp inside with rfl | behind
    · decide
    · simpa using List.all_eq_true.mp List.all_takeWhile c behind
  have whole : (escapedForm f ++ ['\x27']).takeWhile (!isWhitespace ·) =
      escapedForm f ++ ['\x27'] := by
    refine List.takeWhile_eq_self_iff.mpr fun c inside => ?_
    rcases List.mem_append.mp inside with form | quote
    · simpa using escapedForm_plain plain c form
    · rw [List.mem_singleton.mp quote]
      decide
  have lengths := congrArg List.length same
  have longer := length_le_escapedForm f
  rw [whole, List.length_cons, List.length_append] at lengths
  omega

/-- The first word of the form is evaluated, with the quote in front of it. -/
theorem evalForm_greet_ne :
    evalForm (splitExec { name := "greet", body := some "(+ 1 2)" : Service }.resolvedExec) ≠
      some "(+ 1 2)" := by
  decide

/-- `InitConfig`. -/
structure InitConfig where
  services : List Service := []

abbrev Pid := Int32

/-- `SupervisorError`. -/
inductive SupervisorError where
  | spawn (name reason : String)
  deriving DecidableEq, Repr

/-- A child of the init process that has not been reaped, with the service it was spawned for. -/
structure Child where
  pid : Pid
  service : Option Service
  deriving DecidableEq, Repr

/-- A child that has exited, as it is reaped. -/
structure Exit where
  pid : Pid
  status : Int32
  deriving DecidableEq, Repr

/-- The answers to the forks of a run, by their number and the process ids in use. -/
structure Kernel where
  fork : Nat → List Pid → Option Pid
  fresh : ∀ {n used pid}, fork n used = some pid → pid ∉ used
  lastOsError : Nat → String

/-- The children of the init process, and what has become of its services. -/
structure World where
  children : List Child := []
  forks : Nat := 0
  reaped : List Exit := []
  -- How a service ended that has not been spawned since.
  stopped : Service → Option Int32 := fun _ => none

/-- The service that a live child was spawned for. -/
def World.serviceAt? (w : World) (pid : Pid) : Option Service :=
  (w.children.find? (·.pid = pid)).bind (·.service)

/-- `LinuxSupervisor::spawn`. -/
def World.spawn (kernel : Kernel) (w : World) (svc : Service) :
    Except SupervisorError Pid × World :=
  match splitExec svc.resolvedExec with
  | [] => (.error (.spawn svc.name "empty exec line"), w)
  | _ :: _ =>
    match kernel.fork w.forks (w.children.map (·.pid)) with
    | none =>
      (.error (.spawn svc.name (kernel.lastOsError w.forks)), { w with forks := w.forks + 1 })
    | some pid =>
      (.ok pid,
        { w with
          children := ⟨pid, some svc⟩ :: w.children
          forks := w.forks + 1
          stopped := Function.update w.stopped svc none })

/-- `LinuxSupervisor::reap_one`, where only a child can be reaped. -/
def World.reapOne? (w : World) (exit : Exit) : Option World :=
  (w.children.find? (·.pid = exit.pid)).map fun child =>
    { w with
      children := w.children.filter (·.pid ≠ exit.pid)
      reaped := w.reaped ++ [exit]
      stopped :=
        match child.service with
        | some svc => Function.update w.stopped svc (some exit.status)
        | none => w.stopped }

/-- The process ids that a boot returns, by name. -/
abbrev ByName := List (String × Pid)

/-- A name that is there already is overwritten. -/
def ByName.insert (byName : ByName) (name : String) (pid : Pid) : ByName :=
  (name, pid) :: byName.filter (·.1 ≠ name)

/-- The loop of `boot`. -/
def bootFrom (kernel : Kernel) :
    List Service → World → ByName → Except SupervisorError ByName × World
  | [], w, byName => (.ok byName, w)
  | svc :: services, w, byName =>
    if !svc.enable then bootFrom kernel services w byName
    else
      match w.spawn kernel svc with
      -- The children that have been spawned are left running.
      | (.error e, w) => (.error e, w)
      | (.ok pid, w) => bootFrom kernel services w (byName.insert svc.name pid)

/-- `boot`. -/
def boot (kernel : Kernel) (cfg : InitConfig) (w : World) : Except SupervisorError ByName × World :=
  bootFrom kernel cfg.services w []

/-- The names of the services that are tracked, by process id. -/
abbrev Tracking := Pid → Option String

/-- The table that the main loop starts with. -/
def trackingOf (byName : ByName) : Tracking :=
  byName.foldl (fun tracking entry => Function.update tracking entry.2 (some entry.1))
    fun _ => none

/-- `ReapedEvent`. -/
structure ReapedEvent where
  pid : Pid
  name : String
  exitStatus : Int32
  restartedAs : Option Pid
  deriving DecidableEq, Repr

/-- The exit that an event reports. -/
def ReapedEvent.exit (event : ReapedEvent) : Exit := ⟨event.pid, event.exitStatus⟩

/-- The service of a name. -/
def InitConfig.service? (cfg : InitConfig) (name : String) : Option Service :=
  cfg.services.find? (·.name = name)

/-- `run_once`, after some events, while these exits are still to be reaped. -/
def runOnceFrom (kernel : Kernel) (cfg : InitConfig) :
    List Exit → World → Tracking → List ReapedEvent →
      Except SupervisorError (List ReapedEvent) × World × Tracking
  | [], w, tracking, events => (.ok events, w, tracking)
  | exit :: exits, w, tracking, events =>
    match w.reapOne? exit with
    | none => runOnceFrom kernel cfg exits w tracking events
    | some w =>
      let name := tracking exit.pid
      let tracking := Function.update tracking exit.pid none
      let svc := name.bind cfg.service?
      let restart := (svc.map (·.restart)).getD .never
      let event := fun newPid => ⟨exit.pid, name.getD "unknown", exit.status, newPid⟩
      match if restart.shouldRestart exit.status then svc else none with
      | none => runOnceFrom kernel cfg exits w tracking (events ++ [event none])
      | some s =>
        match w.spawn kernel s with
        -- The events so far are lost, and the child is in the table no more.
        | (.error e, w) => (.error e, w, tracking)
        | (.ok newPid, w) =>
          runOnceFrom kernel cfg exits w (Function.update tracking newPid (some s.name))
            (events ++ [event (some newPid)])

/-- `run_once`. -/
def runOnce (kernel : Kernel) (cfg : InitConfig) (exits : List Exit) (w : World)
    (tracking : Tracking) : Except SupervisorError (List ReapedEvent) × World × Tracking :=
  runOnceFrom kernel cfg exits w tracking []

/-! ### The main loop -/

/-- Whether the init process is in its main loop, or the error that it ended with. -/
inductive Phase where
  | looping
  | bootFailed (e : SupervisorError)
  | loopFailed (e : SupervisorError)
  deriving DecidableEq, Repr

/-- The init process, with the events that it has reported. -/
structure InitProcess where
  world : World
  tracking : Tracking
  reported : List ReapedEvent := []
  phase : Phase

/-- The init process after its boot. -/
def start (kernel : Kernel) (cfg : InitConfig) : InitProcess :=
  match boot kernel cfg {} with
  | (.ok byName, w) => { world := w, tracking := trackingOf byName, phase := .looping }
  | (.error e, w) => { world := w, tracking := fun _ => none, phase := .bootFailed e }

/-- What happens to the init process. -/
inductive Happening where
  /-- A process whose parent has exited becomes a child. -/
  | adopted (pid : Pid)
  /-- One pass of the main loop, in which these exits are reaped. -/
  | pass (exits : List Exit)

/-- The init process after what happens, which in its main loop alone is of consequence. -/
def happen (kernel : Kernel) (cfg : InitConfig) (s : InitProcess) (what : Happening) :
    InitProcess :=
  match s.phase with
  | .looping =>
    match what with
    | .adopted pid =>
      if pid ∈ s.world.children.map (·.pid) then s
      else { s with world := { s.world with children := ⟨pid, none⟩ :: s.world.children } }
    | .pass exits =>
      match runOnce kernel cfg exits s.world s.tracking with
      | (.ok events, w, tracking) =>
        { s with world := w, tracking, reported := s.reported ++ events }
      | (.error e, w, tracking) => { s with world := w, tracking, phase := .loopFailed e }
  | .bootFailed _ | .loopFailed _ => s

end Tatara.Init
