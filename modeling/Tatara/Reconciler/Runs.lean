import Tatara.Reconciler.Controller

/-! Runs of the pieces that the handlers are made of, taken apart into calls and answers. -/

namespace Tatara.Reconciler

open Tatara.Rust Tatara.Crd
open Tatara.Program (Runs runs_bind_iff runs_call_iff runs_lift_iff runs_pure_iff runs_try_iff
  runs_try_ok)

section

variable {α β : Type} {context : String} {events : List Event}

/-- The wrapping of a task makes the calls of the task, and rewrites its error. -/
theorem runs_errCtx {task : Task (Except String α)} {outcome : Except String α}
    (runs : Runs (errCtx context task).run events outcome) :
    ∃ answer : Except String α,
      Runs task events answer ∧ outcome = answer.mapError (context ++ ": " ++ ·) := by
  obtain ⟨front, answer, back, first, passed, rfl⟩ := runs_bind_iff.mp runs
  -- Nothing is called once the task has ended.
  cases answer with
  | error e =>
    obtain ⟨rfl, rfl⟩ := runs_pure_iff.mp passed
    exact ⟨.error e, by simpa using first, rfl⟩
  | ok a =>
    obtain ⟨rfl, rfl⟩ := runs_pure_iff.mp passed
    exact ⟨.ok a, by simpa using first, rfl⟩

/-- A request that goes through is the one call, and its reply the result. -/
theorem runs_request_ok {r : Request} {reply : r.Reply}
    (runs : Runs (errCtx context (send r)).run events (.ok reply)) :
    events = [⟨.request r, .ok reply⟩] := by
  obtain ⟨answer, sent, same⟩ := runs_errCtx runs
  obtain rfl := runs_call_iff.mp sent
  cases answer with
  | error e => cases same
  | ok a =>
    obtain rfl := Except.ok.inj same
    rfl

/-- A look at the clock is the first call, and the rest goes on with what it says. -/
theorem runs_utcNow_then {f : DateTime → Handler α} {outcome : Except String α}
    (runs : Runs ((liftM utcNow : Handler DateTime) >>= f).run events outcome) :
    ∃ now back, events = ⟨.now, now⟩ :: back ∧ Runs (f now).run back outcome := by
  rcases runs_try_iff.mp runs with ⟨error, looked, -⟩ | ⟨front, now, back, looked, rest, rfl⟩
  · -- The clock does not fail.
    obtain ⟨now, -, failed⟩ := runs_lift_iff.mp looked
    cases failed
  · obtain ⟨_, called, same⟩ := runs_lift_iff.mp looked
    obtain rfl := Except.ok.inj same
    obtain rfl := runs_call_iff.mp called
    exact ⟨now, back, rfl, rest⟩

/-- A request that is carried out is the first call, and the rest goes on with its reply. -/
theorem runs_request_then {r : Request} {f : r.Reply → Handler α} {outcome : Except String α}
    (runs : Runs (errCtx context (send r) >>= f).run events outcome)
    (carriedOut : ∀ event ∈ events, event.failed = false) :
    ∃ reply back, events = ⟨.request r, .ok reply⟩ :: back ∧ Runs (f reply).run back outcome := by
  rcases runs_try_iff.mp runs with ⟨error, wrapped, -⟩ | ⟨front, reply, back, wrapped, rest, rfl⟩
  · -- An error of the handler would be one of the request.
    obtain ⟨answer, sent, failed⟩ := runs_errCtx wrapped
    obtain rfl := runs_call_iff.mp sent
    cases answer with
    | error e => cases carriedOut _ (List.mem_singleton_self _)
    | ok a => cases failed
  · obtain rfl := runs_request_ok wrapped
    exact ⟨reply, back, rfl, rest⟩

/-- A handler that ends with one task and then only names the next look makes the calls of the
task. -/
theorem runs_task_then {task : Task (Except String α)} {action : Action}
    {outcome : Except String Action}
    (runs : Runs (do
      let _ ← errCtx context task
      return action : Handler Action).run events outcome) :
    ∃ answer, Runs task events answer := by
  -- A failure of the task is wrapped, and what it asks for stays the same.
  rcases runs_try_iff.mp runs with ⟨error, wrapped, -⟩ | ⟨front, a, back, wrapped, last, rfl⟩
  · obtain ⟨answer, first, -⟩ := runs_errCtx wrapped
    exact ⟨answer, first⟩
  · obtain ⟨answer, first, -⟩ := runs_errCtx wrapped
    obtain ⟨rfl, -⟩ := runs_pure_iff.mp last
    exact ⟨answer, by simpa using first⟩

/-- A patch of the phase looks at the clock and sends one request, whose answer is the outcome. -/
theorem runs_phasePatch {phase : ProcessPhase} {outcome : Except String Unit}
    (fill : StatusPatch → StatusPatch)
    (runs : Runs (do
      let base ← phaseStatusBase phase
      send (.mergeStatus (fill base)) : Task (Except String Unit)) events outcome) :
    ∃ now, events = [⟨.now, now⟩,
      ⟨.request (.mergeStatus (fill { phase := some phase, phaseSince := some now })),
        outcome⟩] := by
  -- The base of the patch takes the one look at the clock, and the patch is the one request.
  obtain ⟨front, base, back, first, second, rfl⟩ := runs_bind_iff.mp runs
  obtain ⟨clock, now, rest, looked, based, rfl⟩ := runs_bind_iff.mp first
  obtain rfl := runs_call_iff.mp looked
  obtain ⟨rfl, rfl⟩ := runs_pure_iff.mp based
  obtain rfl := runs_call_iff.mp second
  exact ⟨now, rfl⟩

/-- A loop that goes through has gone through each of its turns. -/
theorem runs_forM_ok {β : Type} {each : β → Handler Unit} {items : List β} {events : List Event}
    (runs : Runs (items.forM each).run events (.ok ())) :
    ∀ item ∈ items, ∃ part, Runs (each item).run part (.ok ()) ∧ part ⊆ events := by
  -- Each item has a part of the events to itself.
  induction items generalizing events with
  | nil => simp
  | cons item items ih =>
    obtain ⟨front, _, back, first, rest, rfl⟩ := runs_try_ok runs
    intro other listed
    rcases List.mem_cons.mp listed with rfl | later
    · exact ⟨front, first, List.subset_append_left front back⟩
    · obtain ⟨part, turn, inside⟩ := ih rest other later
      exact ⟨part, turn, List.Subset.trans inside (List.subset_append_right front back)⟩

end

/-- The dispatch makes the calls of the handler of the phase, and no others. -/
theorem runs_dispatch [Crates] {config : Config} {p : Process} {events : List Event}
    {action : Action} (runs : Runs (dispatch config p) events action) :
    ∃ outcome, Runs (handle config p p.observedPhaseOrPending).run events outcome := by
  obtain ⟨front, outcome, back, handled, last, rfl⟩ := runs_bind_iff.mp runs
  -- The outcome only selects the next look.
  obtain rfl : back = [] := by
    cases outcome <;> exact (runs_pure_iff.mp last).1
  exact ⟨outcome, by simpa using handled⟩

end Tatara.Reconciler
