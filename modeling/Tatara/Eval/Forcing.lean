import Tatara.Eval.Begin
import Tatara.Eval.Thunks

/-! Thunks that are forced again and again, and when the forcing of all of them is stable. -/

namespace Tatara.Eval

open Lisp (Sexp Atom)

variable {H : Host}

section runs

/-- What a host asks of an interpreter. -/
inductive Request (H : Host)
  | form (form : Sexp)
  | eval (form : Sexp) (env : Env H)
  | define (name : String) (value : Value H)
  | force (value : Value H)
  | apply (f : Value H) (args : List (Value H))

/-- A request with its answer, and the states before and after it. -/
structure Step (H : Host) where
  before : State H
  request : Request H
  result : Except Failure (Value H)
  after : State H

/-- What the forcing of a thunk has come to by the end of a step: its value, or the failure with
which the step has ended when it ended inside the evaluation of the thunk. -/
def Step.outcome (step : Step H) (cell : Nat) : Option (Except Failure (Value H)) :=
  match step.before.cells[cell]?, step.after.cells[cell]? with
  | _, some (.forced value) => some (.ok value)
  | some .evaluating, some .evaluating => none
  | _, some .evaluating => some step.result
  | _, _ => none

variable [Builtins H]

/-- The answer to a request. -/
def Interp.answer (I : Interp H) : Request H → Evaluation H (Value H)
  | .form form => do
    let env ← Comp.look State.root
    I.eval form env
  | .eval form env => I.eval form env
  | .define name value => do
    define name value
    pure .nil
  | .force value => I.force value
  | .apply f args => I.apply f args

/-- The interpreter answers like this. -/
def Step.Taken (step : Step H) : Prop :=
  ∃ budget, (interp budget).answer step.request step.before = some (step.result, step.after)

/-- Each thunk whose evaluation is begun in the step gets a value. -/
def Step.Quiet (step : Step H) : Prop :=
  ∃ budget, (tracked false budget []).answer step.request step.before =
    some (step.result, step.after)

/-- Requests that are answered one after the other. -/
inductive Run (start : State H) : List (Step H) → State H → Prop
  | nil : Run start [] start
  | snoc {steps : List (Step H)} {mid : State H} (before : Run start steps mid) (step : Step H)
    (chained : step.before = mid) (taken : step.Taken) : Run start (steps ++ [step]) step.after

/-- Forcing a thunk comes to an outcome. -/
def Forces (s : State H) (cell : Nat) (outcome : Except Failure (Value H)) : Prop :=
  ∃ budget after, (interp budget).force (.thunk cell) s = some (outcome, after)

/-- Forcing is stable: it comes to what it has come to in any earlier step, and to nothing else; and
it reports a cycle only for a thunk in whose evaluation it is. -/
structure Stable (earlier : List (Step H)) (s : State H) : Prop where
  again : ∀ step ∈ earlier, ∀ cell outcome, step.outcome cell = some outcome →
    ∀ outcome', Forces s cell outcome' ↔ outcome' = outcome
  cycles : ∀ budget request,
    (interp budget).answer request s = (tracked true budget []).answer request s

end runs

section stability

variable [Builtins H] {start after : State H} {steps earlier : List (Step H)}

/-- Related interpreters give related answers. -/
theorem Interp.Related.answer {C : Congruence (State H) Failure} {I J : Interp H}
    (related : I.Related C J) (respected : Respected C) (request : Request H) :
    C.Rel (I.answer request) (J.answer request) := by
  -- One case for each request that can be made.
  cases request with
  | form form => exact C.bind respected.root fun env => related.eval form env
  | eval form env => exact related.eval form env
  | define name value => exact C.bind (respected.define name value) fun _ => C.pure _
  | force value => exact related.force value
  | apply f args => exact related.apply respected f args

/-- A run goes on behind another one. -/
theorem Run.append {mid : State H} {more : List (Step H)} (first : Run start steps mid)
    (second : Run mid more after) : Run start (steps ++ more) after := by
  -- The steps of the second run are put behind the first one, one after the other.
  induction second with
  | nil => rwa [List.append_nil]
  | snoc _ step chained taken ih =>
    rw [← List.append_assoc]
    exact ih.snoc step chained taken

/-- Top-level forms that are evaluated are a run, of one request for each as far as they go. -/
theorem exists_run_of_evalFormsFrom {budget : Nat} {forms : List Sexp} {last : Value H}
    {result : Except Failure (Value H)}
    (ended : evalFormsFrom budget last forms start = some (result, after)) :
    ∃ steps, Run start steps after ∧ steps.map Step.request <+: forms.map Request.form := by
  induction forms generalizing last start with
  | nil =>
    cases ended
    exact ⟨[], .nil, List.nil_prefix⟩
  | cons form rest ih =>
    rw [evalFormsFrom, Comp.look_bind, Comp.bind_apply] at ended
    cases first : (interp budget).eval form start.root start with
    | none =>
      rw [first] at ended
      cases ended
    | some p =>
      obtain ⟨value, mid⟩ := p
      have taken : Step.Taken ⟨start, .form form, value, mid⟩ := ⟨budget, first⟩
      have single := Run.nil.snoc _ rfl taken
      rw [first] at ended
      cases value with
      | error e =>
        -- The other forms are not evaluated.
        cases ended
        exact ⟨_, single, List.cons_prefix_cons.mpr ⟨rfl, List.nil_prefix⟩⟩
      | ok value =>
        obtain ⟨steps, behind, requests⟩ := ih ended
        exact ⟨_, single.append behind, List.cons_prefix_cons.mpr ⟨rfl, requests⟩⟩

/-- A step keeps the cells of thunks that are forced. -/
theorem Step.Taken.kept {step : Step H} (taken : step.Taken) :
    CellsKept step.before step.after := by
  obtain ⟨budget, answered⟩ := taken
  exact (interp_keeps budget).answer respected_keepingCells step.request _ _ _ answered

/-- What a step has left is kept by the steps behind it. -/
theorem Run.kept (run : Run start steps after) : ∀ step ∈ steps, CellsKept step.after after := by
  -- By induction on the run: the last step keeps what the steps before it have left.
  induction run with
  | nil => simp
  | snoc before step chained taken ih =>
    intro other among
    rcases List.mem_append.mp among with old | new
    · exact (ih other old).trans (chained ▸ taken.kept)
    · rw [List.mem_singleton.mp new]
      exact .refl _

/-- A quiet step leads from a state without thunks in evaluation to another one. -/
theorem Step.Quiet.unmarked {step : Step H} (quiet : step.Quiet)
    (before : MarkedAre [] step.before) : MarkedAre [] step.after := by
  obtain ⟨budget, answered⟩ := quiet
  -- An interpreter that knows its stack ends with the stack that it began with.
  have follows := (interp_follows false budget []).answer respected_tracking
    step.request step.before before
  rw [answered] at follows
  exact (follows.sound_of_some rfl).2

/-- A step between states without thunks in evaluation is quiet. -/
theorem Step.Taken.quiet {step : Step H} (taken : step.Taken) (before : MarkedAre [] step.before)
    (after : MarkedAre [] step.after) : step.Quiet := by
  obtain ⟨budget, answered⟩ := taken
  have follows := (interp_follows false budget []).answer respected_tracking
    step.request step.before before
  rw [answered] at follows
  refine ⟨budget, ?_⟩
  generalize (tracked false budget []).answer step.request step.before = q at follows
  generalize step.result = result at follows
  cases follows with
  | same => rfl
  | failed may => cases may
  | lost _ astray =>
    -- The thunk whose evaluation has failed would still be marked.
    obtain ⟨cell, _, marked⟩ := astray
    exact absurd ((after cell).mp marked) List.not_mem_nil

/-- Forcing a thunk that has a value comes to it. -/
theorem forces_of_forced {s : State H} {cell : Nat} {value : Value H}
    (forced : s.cells[cell]? = some (.forced value)) (outcome : Except Failure (Value H)) :
    Forces s cell outcome ↔ outcome = .ok value := by
  -- A value is handed on at once, within any budget but none.
  have once (budget : Nat) :
      (interp (budget + 1)).force (.thunk cell) s = some (.ok value, s) := by
    show (interp budget).forceValue (.thunk cell) s = _
    simp only [Interp.forceValue, Comp.look_bind, forced]
    rfl
  constructor
  · rintro ⟨budget, after, ended⟩
    cases budget with
    | zero => cases ended
    | succ budget =>
      rw [once budget] at ended
      cases ended
      rfl
  · rintro rfl
    exact ⟨1, s, once 0⟩

/-- Where forcing reports a cycle only by rights, no thunk is marked. -/
theorem Stable.unmarked {s : State H} (stable : Stable earlier s) : MarkedAre [] s := by
  intro cell
  refine iff_of_false (fun marked => ?_) List.not_mem_nil
  -- The thunk is in no evaluation, and forcing it would report a cycle.
  have same := stable.cycles 1 (.force (.thunk cell))
  have reported : (interp 1).answer (.force (.thunk cell)) s =
      some (.error (.error cycleError), s) := by
    show (interp 0).forceValue (.thunk cell) s = _
    rw [Marked] at marked
    simp only [Interp.forceValue, Comp.look_bind, marked]
    rfl
  have silent : (tracked true 1 []).answer (.force (.thunk cell)) s = none := by
    show trackedForce true (tracked true 0) [] (.thunk cell) s = _
    rw [Marked] at marked
    simp only [trackedForce, List.not_mem_nil, if_false, Comp.look_bind, marked]
    rfl
  rw [reported, silent] at same
  cases same

/-- After steps that leave no thunk in evaluation, forcing is stable. -/
theorem Run.stable (run : Run start steps after) (unmarked : MarkedAre [] after)
    (each : ∀ step ∈ steps, MarkedAre [] step.after) : Stable steps after where
  again step among cell outcome came outcome' := by
    -- Only a value is an outcome where no thunk is left in evaluation, and it is kept.
    have kept := run.kept step among cell
    cases found : step.after.cells[cell]? with
    | none => simp [Step.outcome, found] at came
    | some state =>
      cases state with
      | forced value =>
        obtain rfl : .ok value = outcome := by
          simpa [Step.outcome, found] using came
        exact forces_of_forced (kept.1 value found) outcome'
      | evaluating => exact absurd ((each step among cell).mp found) List.not_mem_nil
      | unevaluated body env => simp [Step.outcome, found] at came
  cycles budget request :=
    ((interp_follows true budget []).answer respected_tracking request after
      unmarked).eq

/-- In a run in which the evaluation of no thunk fails, no thunk is in evaluation between the
steps. -/
theorem Run.unmarked (run : Run start steps after) (fresh : MarkedAre [] start)
    (quiet : ∀ step ∈ steps, step.Quiet) :
    MarkedAre [] after ∧ ∀ step ∈ steps, MarkedAre [] step.after := by
  -- By induction on the run: each step begins and ends without thunks in evaluation.
  induction run with
  | nil => exact ⟨fresh, by simp⟩
  | snoc before step chained taken ih =>
    rw [List.forall_mem_append] at quiet ⊢
    obtain ⟨mid, each⟩ := ih quiet.1
    have last := (quiet.2 step (List.mem_singleton_self step)).unmarked (chained ▸ mid)
    exact ⟨last, each, by simpa using last⟩

/-- Forcing is stable in every state that a run reaches. -/
def StableThroughout (start : State H) (steps : List (Step H)) : Prop :=
  ∀ front back mid, steps = front ++ back → Run start front mid → Stable front mid

/-- In a run from an interpreter without thunks in evaluation, forcing is stable throughout exactly
when each thunk whose evaluation is begun gets a value. -/
theorem stableThroughout_iff (fresh : MarkedAre [] start) (run : Run start steps after) :
    StableThroughout start steps ↔ ∀ step ∈ steps, step.Quiet := by
  constructor
  · intro stable
    induction run with
    | nil => simp
    | snoc before step chained taken ih =>
      -- Where forcing is stable no thunk is in evaluation, before the last step and behind it.
      rw [List.forall_mem_append]
      refine ⟨ih fun front back mid split => ?_, fun other among => ?_⟩
      · subst split
        exact stable front (back ++ [step]) mid (List.append_assoc _ _ _)
      · rw [List.mem_singleton.mp among]
        have mid := (stable _ [step] _ rfl before).unmarked
        have last := stable _ [] _ (List.append_nil _).symm (before.snoc step chained taken)
        exact taken.quiet (chained ▸ mid) last.unmarked
  · rintro quiet front back mid rfl reached
    obtain ⟨unmarked, each⟩ := reached.unmarked fresh fun step among =>
      quiet step (List.mem_append_left back among)
    exact reached.stable unmarked each

/-- The answer to a request does not depend on the budget within which it is found. -/
theorem Step.Taken.determined {step other : Step H} (taken : step.Taken) (otherTaken : other.Taken)
    (before : step.before = other.before) (request : step.request = other.request) :
    step = other := by
  obtain ⟨before, request, result, after⟩ := step
  obtain ⟨_, _, result', after'⟩ := other
  cases before
  cases request
  obtain ⟨budget, answered⟩ := taken
  obtain ⟨budget', answered'⟩ := otherTaken
  -- Within the larger one of the two budgets there are both answers.
  have first := (interp_extends (Nat.le_max_left budget budget')).answer respected_extending request
    _ _ answered
  have second := (interp_extends (Nat.le_max_right budget budget')).answer respected_extending
    request _ _ answered'
  cases Option.some.inj (first.symm.trans second)
  rfl

/-- What a host asks of an interpreter determines all that the interpreter answers and leaves
behind, however deep its calls may nest each time. -/
theorem Run.replayed {replay : List (Step H)} {after' : State H} (run : Run start steps after)
    (again : Run start replay after')
    (same : steps.map Step.request = replay.map Step.request) :
    steps = replay ∧ after = after' := by
  -- By induction on the run: its last step is the last one of the other run.
  induction run generalizing replay after' with
  | nil =>
    cases again with
    | nil => exact ⟨rfl, rfl⟩
    | snoc => simp at same
  | snoc before step chained taken ih =>
    cases again with
    | nil => simp at same
    | snoc before' step' chained' taken' =>
      simp only [List.map_append, List.map_cons, List.map_nil] at same
      obtain ⟨requests, last⟩ := List.append_inj' same rfl
      obtain ⟨rfl, rfl⟩ := ih before' requests
      cases taken.determined taken' (chained.trans chained'.symm) (List.cons.inj last).1
      exact ⟨rfl, rfl⟩

end stability

section

/-- A letrec of one name, whose thunk it gives. -/
def letrecX (value : Sexp) : Sexp :=
  .list [.atom (.symbol "letrec"), .list [.list [.atom (.symbol "x"), value]], .atom (.symbol "x")]

/-- The state of an interpreter with one thunk and nothing else. -/
def oneThunk (thunk : ThunkState emptyHost) : State emptyHost := ⟨[thunk], [], ()⟩

/-- The thunk of the letrec before its evaluation. -/
def unevaluatedX (value : Sexp) : ThunkState emptyHost := .unevaluated value [("x", .thunk 0)]

/-- Make the thunk, and force it twice. -/
def forceTwice (value : Sexp) (first second : Except Failure (Value emptyHost))
    (thunk : ThunkState emptyHost) : List (Step emptyHost) :=
  [⟨emptyState, .form (letrecX value), .ok (.thunk 0), oneThunk (unevaluatedX value)⟩,
    ⟨oneThunk (unevaluatedX value), .force (.thunk 0), first, oneThunk thunk⟩,
    ⟨oneThunk thunk, .force (.thunk 0), second, oneThunk thunk⟩]

/-- Steps that are taken one behind the other are a run. -/
theorem run_forceTwice {value : Sexp} {first second : Except Failure (Value emptyHost)}
    {thunk : ThunkState emptyHost}
    (taken : ∀ step ∈ forceTwice value first second thunk, step.Taken) :
    Run emptyState (forceTwice value first second thunk) (oneThunk thunk) := by
  simp only [forceTwice, List.forall_mem_cons] at taken
  exact ((Run.nil.snoc _ rfl taken.1).snoc _ rfl taken.2.1).snoc _ rfl taken.2.2.1

/-- A thunk that gets a value gets it once. -/
theorem stableThroughout_letrec :
    StableThroughout emptyState
      (forceTwice (.atom (.int 1)) (.ok (.int 1)) (.ok (.int 1)) (.forced (.int 1))) := by
  -- The thunk is made, evaluated by the first force, and read by the second one.
  have taken : ∀ step ∈ forceTwice (.atom (.int 1)) (.ok (.int 1)) (.ok (.int 1))
      (.forced (.int 1)), step.Taken ∧ step.Quiet := by
    simp only [forceTwice, List.forall_mem_cons]
    exact ⟨⟨⟨2, rfl⟩, 2, rfl⟩, ⟨⟨2, rfl⟩, 2, rfl⟩, ⟨⟨1, rfl⟩, 1, rfl⟩, by simp⟩
  refine (stableThroughout_iff ?_ (run_forceTwice fun step among => (taken step among).1)).mpr
    fun step among => (taken step among).2
  intro cell
  simp [Marked, emptyState]

/-- The same requests once with small budgets and once with larger ones. -/
theorem replayed_letrec :
    forceTwice (.atom (.int 1)) (.ok (.int 1)) (.ok (.int 1)) (.forced (.int 1)) =
        forceTwice (.atom (.int 1)) (.ok (.int 1)) (.ok (.int 1)) (.forced (.int 1)) ∧
      oneThunk (.forced (.int 1)) = oneThunk (.forced (.int 1)) := by
  -- Each budget is just enough.
  have small : ∀ step ∈ forceTwice (.atom (.int 1)) (.ok (.int 1)) (.ok (.int 1))
      (.forced (.int 1)), step.Taken := by
    simp only [forceTwice, List.forall_mem_cons]
    exact ⟨⟨2, rfl⟩, ⟨2, rfl⟩, ⟨1, rfl⟩, by simp⟩
  -- With more the same happens.
  have large : ∀ step ∈ forceTwice (.atom (.int 1)) (.ok (.int 1)) (.ok (.int 1))
      (.forced (.int 1)), step.Taken := by
    simp only [forceTwice, List.forall_mem_cons]
    exact ⟨⟨5, rfl⟩, ⟨4, rfl⟩, ⟨3, rfl⟩, by simp⟩
  exact (run_forceTwice small).replayed (run_forceTwice large) rfl

/-- A thunk whose body names nothing reports that first, and then a cycle. -/
theorem not_stableThroughout_unbound :
    Run emptyState (forceTwice (.atom (.symbol "y")) (.error (.error (.unbound "y")))
        (.error (.error cycleError)) .evaluating) (oneThunk .evaluating) ∧
      ¬ StableThroughout emptyState (forceTwice (.atom (.symbol "y"))
        (.error (.error (.unbound "y"))) (.error (.error cycleError)) .evaluating) := by
  have taken : ∀ step ∈ forceTwice (.atom (.symbol "y")) (.error (.error (.unbound "y")))
      (.error (.error cycleError)) .evaluating, step.Taken := by
    simp only [forceTwice, List.forall_mem_cons]
    exact ⟨⟨2, rfl⟩, ⟨2, rfl⟩, ⟨1, rfl⟩, by simp⟩
  refine ⟨run_forceTwice taken, fun stable => ?_⟩
  -- The second step has come to the first error, and forcing once more comes to another one.
  have again := (stable _ [] _ (List.append_nil _).symm (run_forceTwice taken)).again
    _ (List.mem_cons_of_mem _ List.mem_cons_self) 0 (.error (.error (.unbound "y"))) rfl
    (.error (.error cycleError))
  have other := again.mp ⟨1, oneThunk .evaluating, rfl⟩
  cases other

end

end Tatara.Eval
