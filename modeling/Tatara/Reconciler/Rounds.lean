import Tatara.Reconciler.Writes

/-! Runs of the controller: what reaches the stored Process, round after round. -/

namespace Tatara.Reconciler

open Tatara.Rust Tatara.Crd
open Tatara.Program (Runs)

/-- A round of the controller: the Process that a reconcile has read, the calls that it has made,
and the phases that came to be stored. -/
structure Round where
  read : Process
  events : List Event
  written : List ProcessPhase

/--
The calls of a reconcile take this stored Process to that one, and store these phases in between.

Others may change everything but the status at any time.
A request that is answered with an error may have been carried out all the same.
-/
inductive Lands : Process → List Event → List ProcessPhase → Process → Prop where
  | nil (p : Process) : Lands p [] [] p
  | outside {p q r : Process} {events : List Event} {written : List ProcessPhase}
      (kept : q.status = p.status) (rest : Lands q events written r) : Lands p events written r
  | applied {p r : Process} {event : Event} {events : List Event} {written : List ProcessPhase}
      (rest : Lands (event.effect p) events written r) :
      Lands p (event :: events) (event.phase.toList ++ written) r
  | lost {p r : Process} {event : Event} {events : List Event} {written : List ProcessPhase}
      (failed : event.failed = true) (rest : Lands p events written r) :
      Lands p (event :: events) written r

/-- The controller, started on a Process that has no status yet, can go through these rounds and
leave this Process. -/
inductive Reaches [Crates] (config : Config) : List Round → Process → Prop where
  | fresh {p : Process} (fresh : p.status = none) : Reaches config [] p
  | outside {p q : Process} {rounds : List Round} (before : Reaches config rounds p)
      (kept : q.status = p.status) : Reaches config rounds q
  | reconcile {p q : Process} {rounds : List Round} {events : List Event}
      {written : List ProcessPhase} {action : Action} (before : Reaches config rounds p)
      (runs : Runs (reconcile config p) events action) (lands : Lands p events written q) :
      Reaches config (rounds ++ [⟨p, events, written⟩]) q

/-- The stored Process after calls that are all carried out. -/
def storedAfter (p : Process) (events : List Event) : Process :=
  events.foldl (fun p event => event.effect p) p

/-- Calls that are all carried out, with nobody else at work. -/
theorem Lands.all (p : Process) (events : List Event) :
    Lands p events (events.filterMap Event.phase) (storedAfter p events) := by
  induction events generalizing p with
  | nil => exact .nil p
  | cons event events ih =>
    -- The first call is carried out, and the others find what it has left.
    have first := Lands.applied (ih (event.effect p))
    cases writes : event.phase <;> simpa [List.filterMap_cons, writes, storedAfter] using first

/-- An object whose `Ready` condition is met. -/
def readyObject : Json :=
  .object [("status", .object [("conditions", .array
    [.object [("type", .string "Ready"), ("status", .string "True")]])])]

/-- The reply of an API server that is well, holds no other Process, and has everything ready. -/
def Request.calmReply (p : Process) : (r : Request) → r.Reply
  | .mergeStatus _ => ()
  | .mergeAnnotations _ _ => ()
  | .mergeSuspended _ => ()
  | .mergeFinalizers _ => ()
  | .applyAnnotations _ _ => ()
  | .getStatus => p
  | .getProcess _ _ => none
  | .listProcesses => []
  | .deleteProcess _ _ => ()
  | .getProcessTable => some { nextSequence := 1, claims := none }
  | .createProcessTable => { nextSequence := 1, claims := none }
  | .mergeNextSequence _ => ()
  | .applyClaims _ => ()
  | .evaluate _ => .satisfied
  | .applyObject _ _ => ()
  | .getObject _ _ _ _ => some readyObject
  | .listJobs _ _ => []

/-- The answers of that server, at one instant. -/
def calm (p : Process) (now : DateTime) : (c : Call) → Answer c
  | .now => now
  | .request r => .ok (r.calmReply p)

/-- A round in which that server answers, at one instant, and nobody else is at work. -/
def calmRound [Crates] (config : Config) (now : DateTime) (p : Process) : Round :=
  let events := ((reconcile config p).play (calm p now)).1
  ⟨p, events, events.filterMap Event.phase⟩

/-- The Process that such a round leaves. -/
def Round.left (round : Round) : Process := storedAfter round.read round.events

/-- Such rounds, one after the other. -/
def calmRounds [Crates] (config : Config) (now : DateTime) : Nat → Process → List Round
  | 0, _ => []
  | n + 1, p => calmRound config now p :: calmRounds config now n (calmRound config now p).left

/-- The Process that such rounds leave. -/
def calmLeft [Crates] (config : Config) (now : DateTime) : Nat → Process → Process
  | 0, p => p
  | n + 1, p => calmLeft config now n (calmRound config now p).left

/-- A round in which nothing fails leads on. -/
theorem reaches_calm [Crates] {config : Config} {rounds : List Round} {p : Process}
    (before : Reaches config rounds p) (now : DateTime) :
    Reaches config (rounds ++ [calmRound config now p]) (calmRound config now p).left :=
  before.reconcile (Program.runs_play _ _) (Lands.all _ _)

/-- The controller can go through such rounds from wherever it has come to. -/
theorem reaches_calmRounds [Crates] {config : Config} {rounds : List Round} {p : Process}
    (before : Reaches config rounds p) (now : DateTime) (n : Nat) :
    Reaches config (rounds ++ calmRounds config now n p) (calmLeft config now n p) := by
  -- Each round goes on from the Process that the one before has left.
  induction n generalizing rounds p with
  | zero => simpa [calmRounds, calmLeft] using before
  | succ n ih => simpa [calmRounds, calmLeft] using ih (reaches_calm before now)

/-- The phase of the stored Process changes when one is written, and not otherwise. -/
theorem Event.observedPhase_effect (event : Event) (p : Process) :
    (event.effect p).observedPhaseOrPending = event.phase.getD p.observedPhaseOrPending := by
  obtain ⟨call, answer⟩ := event
  cases call with
  | now => rfl
  | request r =>
    cases r with
    | mergeStatus patch =>
      -- Without a status, the patch starts from the phase that the reconciler assumes.
      cases stored : p.status <;>
        simp [effect, Process.observedPhaseOrPending, Process.observedPhase, StatusPatch.merge,
          stored]
    | _ => rfl

/-- The phase that is observed is a matter of the status alone. -/
theorem observedPhase_congr {p q : Process} (kept : q.status = p.status) :
    q.observedPhaseOrPending = p.observedPhaseOrPending := by
  simp only [Process.observedPhaseOrPending, Process.observedPhase, kept]

namespace Lands

/-- The phase that is stored in the end is the last one written. -/
theorem observedPhase {p q : Process} {events : List Event} {written : List ProcessPhase}
    (lands : Lands p events written q) :
    q.observedPhaseOrPending = written.foldl (fun _ phase => phase) p.observedPhaseOrPending := by
  induction lands with
  | nil p => rfl
  | outside kept rest ih => rw [ih, observedPhase_congr kept]
  | applied rest ih =>
    rename_i p r event events written
    -- A call without a phase adds nothing to what was written.
    rw [ih, Event.observedPhase_effect]
    cases event.phase <;> rfl
  | lost failed rest ih => exact ih

/-- Only what a call writes comes to be stored. -/
theorem written_sublist {p q : Process} {events : List Event} {written : List ProcessPhase}
    (lands : Lands p events written q) : written.Sublist (events.filterMap Event.phase) := by
  induction lands with
  | nil p => exact List.Sublist.slnil
  | outside kept rest ih => exact ih
  | applied rest ih =>
    rename_i p r event events written
    -- What a call that is carried out writes is kept, and a lost one leaves its phase out.
    cases writes : event.phase with
    | none => simpa [writes] using ih
    | some phase => simpa [writes] using ih
  | lost failed rest ih => exact ih.trans ((List.sublist_cons_self _ _).filterMap _)

end Lands

end Tatara.Reconciler
