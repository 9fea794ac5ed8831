import Tatara.Lib.Program
import Tatara.Rust.Data

/-! Sagas: steps in a row, and on a failure the compensations of those that have been completed. -/

namespace Tatara.Engine.Saga

open Tatara.Rust
open Program (Exchange Runs runs_pure_iff runs_call_iff runs_bind_iff)

/-- What an executor asks of its steps, each known by its index. -/
inductive Call where
  | execute (index : Nat)
  | compensate (index : Nat) (output : Json)

/-- What a step answers; of an error its text is kept. -/
@[reducible] def Answer : Call → Type
  | .execute _ => Except String Json
  | .compensate _ _ => Except String Unit

/-- What an executor does with its steps. -/
abbrev Task := Program Call Answer

/-- `SagaResult`. -/
inductive SagaResult where
  | completed (stepsRun : Nat)
  | compensated (failedStep error : String) (stepsCompleted compensationsRun : Nat)
      (compensationErrors : List String)

/-- `execute`. -/
def execute (index : Nat) : Task (Except String Json) := Program.call (Call.execute index)

/-- `compensate`. -/
def compensate (index : Nat) (output : Json) : Task (Except String Unit) :=
  Program.call (Call.compensate index output)

/-- What is noted of a compensation that fails. -/
def complaint (names : List String) (index : Nat) (error : String) : String :=
  -- The index is one of a step that has been completed, and so there is a name.
  names.getD index "" ++ ": " ++ error

/-- The loop over the completed steps, in the order in which they are compensated. -/
def compensateAll (names : List String) : List (Nat × Json) → List String → Task (List String)
  | [], errors => return errors
  | (index, output) :: rest, errors => do
    let answer ← compensate index output
    match answer with
    | .ok _ => compensateAll names rest errors
    | .error e => compensateAll names rest (errors ++ [complaint names index e])

/-- The loop over the steps from an index on, with what has been completed so far. -/
def runFrom (names : List String) (index : Nat) (completed : List (Nat × Json)) :
    List String → Task SagaResult
  | [] => return .completed names.length
  | name :: rest => do
    let answer ← execute index
    match answer with
    | .ok output => runFrom names (index + 1) (completed ++ [(index, output)]) rest
    | .error e => do
      let errors ← compensateAll names completed.reverse []
      return .compensated name e completed.length (completed.length - errors.length) errors

/-- `SagaExecutor::run`, for the names of the steps. -/
def run (names : List String) : Task SagaResult := runFrom names 0 [] names

/-- A step has been executed. -/
def executed (index : Nat) (answer : Except String Json) : Exchange Answer :=
  ⟨.execute index, answer⟩

/-- A step has been compensated. -/
def compensated (index : Nat) (output : Json) (answer : Except String Unit) : Exchange Answer :=
  ⟨.compensate index output, answer⟩

/-- Outputs with the indices of their steps, from one on. -/
def indexed : Nat → List Json → List (Nat × Json)
  | _, [] => []
  | index, output :: rest => (index, output) :: indexed (index + 1) rest

/-- Steps that are executed with success. -/
def executions (steps : List (Nat × Json)) : List (Exchange Answer) :=
  steps.map fun step => executed step.1 (.ok step.2)

/-- Steps that are compensated, each with its answer. -/
def compensations (steps : List (Nat × Json)) (answers : List (Except String Unit)) :
    List (Exchange Answer) :=
  List.zipWith (fun step answer => compensated step.1 step.2 answer) steps answers

/-- What is noted of compensations. -/
def complaints (names : List String) (steps : List (Nat × Json))
    (answers : List (Except String Unit)) : List String :=
  (steps.zip answers).filterMap fun (step, answer) =>
    match answer with
    | .ok _ => none
    | .error e => some (complaint names step.1 e)

/-- What a saga may come to, with the calls on the way: all of its steps are executed, or up to the
one that fails and then those before it are compensated, the last one first. -/
inductive Course (names : List String) : List (Exchange Answer) → SagaResult → Prop
  | completed (outputs : List Json) (all : outputs.length = names.length) :
      Course names (executions (indexed 0 outputs)) (.completed names.length)
  | compensated (outputs : List Json) (failing : outputs.length < names.length) (error : String)
      (answers : List (Except String Unit)) (each : answers.length = outputs.length) :
      Course names
        (executions (indexed 0 outputs) ++ executed outputs.length (.error error) ::
          compensations (indexed 0 outputs).reverse answers)
        (.compensated names[outputs.length] error outputs.length (answers.countP Except.isOk)
          (complaints names (indexed 0 outputs).reverse answers))

section

variable {names : List String} {trace : List (Exchange Answer)} {result : SagaResult}

/-- There are as many numbered outputs as outputs. -/
@[simp] theorem length_indexed (index : Nat) (outputs : List Json) :
    (indexed index outputs).length = outputs.length := by
  induction outputs generalizing index with
  | nil => rfl
  | cons output rest ih => rw [indexed, List.length_cons, ih, List.length_cons]

/-- Each compensation has gone through or is noted. -/
theorem length_complaints {steps : List (Nat × Json)} {answers : List (Except String Unit)}
    (each : answers.length = steps.length) :
    (complaints names steps answers).length + answers.countP Except.isOk = steps.length := by
  -- By induction on the steps, each of which has its answer.
  induction steps generalizing answers with
  | nil =>
    rw [List.length_eq_zero_iff.mp each]
    rfl
  | cons step rest ih =>
    cases answers with
    | nil => cases each
    | cons answer answers =>
      have further := ih (Nat.succ.inj each)
      rw [complaints] at further ⊢
      -- What has gone through is counted, and what has not is noted.
      cases answer with
      | ok done =>
        simp only [List.zip_cons_cons, List.filterMap_cons, List.countP_cons, Except.isOk,
          Except.toBool, if_true, List.length_cons] at further ⊢
        omega
      | error e =>
        simp only [List.zip_cons_cons, List.filterMap_cons, List.countP_cons, Except.isOk,
          Except.toBool, Bool.false_eq_true, if_false, List.length_cons] at further ⊢
        omega

/-- What is noted leaves the number of those that have gone through. -/
theorem length_sub_complaints {steps : List (Nat × Json)} {answers : List (Except String Unit)}
    (each : answers.length = steps.length) :
    steps.length - (complaints names steps.reverse answers).length =
      answers.countP Except.isOk := by
  -- What is noted and what has gone through is all there is.
  have both := @length_complaints names steps.reverse answers (by simpa using each)
  rw [List.length_reverse] at both
  omega

/-- The loop over the completed steps asks for each compensation once, whatever is answered. -/
theorem runs_compensateAll_iff {steps : List (Nat × Json)} {errors noted : List String} :
    Runs (compensateAll names steps errors) trace noted ↔
      ∃ answers : List (Except String Unit), answers.length = steps.length ∧
        trace = compensations steps answers ∧ noted = errors ++ complaints names steps answers := by
  induction steps generalizing errors trace with
  | nil =>
    rw [compensateAll, runs_pure_iff]
    constructor
    · rintro ⟨rfl, rfl⟩
      exact ⟨[], rfl, rfl, by simp [complaints]⟩
    · rintro ⟨answers, none, rfl, rfl⟩
      exact ⟨rfl, by simp [complaints]⟩
  | cons step rest ih =>
    obtain ⟨index, output⟩ := step
    rw [compensateAll, runs_bind_iff]
    constructor
    · rintro ⟨front, answer, back, first, second, rfl⟩
      rw [runs_call_iff.mp first]
      -- A failure is noted, and the loop goes on in either case.
      cases answer with
      | ok done =>
        obtain ⟨answers, each, rfl, rfl⟩ := ih.mp second
        exact ⟨.ok done :: answers, congrArg Nat.succ each, rfl, rfl⟩
      | error e =>
        obtain ⟨answers, each, rfl, rfl⟩ := ih.mp second
        refine ⟨.error e :: answers, congrArg Nat.succ each, rfl, ?_⟩
        rw [List.append_assoc]
        rfl
    · rintro ⟨answers, each, rfl, rfl⟩
      cases answers with
      | nil => cases each
      | cons answer answers =>
        refine ⟨[compensated index output answer], answer, compensations rest answers,
          runs_call_iff.mpr rfl, ?_, rfl⟩
        cases answer with
        | ok done => exact ih.mpr ⟨answers, Nat.succ.inj each, rfl, rfl⟩
        | error e =>
          refine ih.mpr ⟨answers, Nat.succ.inj each, rfl, ?_⟩
          rw [List.append_assoc]
          rfl

/-- What the loop over the steps may come to: the rest of them is executed, or it is up to one that
fails, and then everything completed so far is compensated. -/
def Remainder (names : List String) (index : Nat) (completed : List (Nat × Json))
    (rest : List String) (trace : List (Exchange Answer)) (result : SagaResult) : Prop :=
  (∃ outputs : List Json, outputs.length = rest.length ∧
    trace = executions (indexed index outputs) ∧ result = .completed names.length) ∨
  ∃ (outputs : List Json) (failing : outputs.length < rest.length) (error : String)
    (answers : List (Except String Unit)),
    let steps := completed ++ indexed index outputs
    answers.length = steps.length ∧
    trace = executions (indexed index outputs) ++
      executed (index + outputs.length) (.error error) :: compensations steps.reverse answers ∧
    result = .compensated rest[outputs.length] error steps.length (answers.countP Except.isOk)
      (complaints names steps.reverse answers)

section

variable {index : Nat} {completed : List (Nat × Json)} {rest : List String}

/-- Without names left a saga has come to its end. -/
theorem remainder_nil : Remainder names index completed [] trace result ↔
    trace = [] ∧ result = .completed names.length := by
  constructor
  · -- No step is left that could fail.
    rintro (⟨outputs, all, rfl, rfl⟩ | ⟨outputs, failing, -⟩)
    · rw [List.length_eq_zero_iff.mp all]
      exact ⟨rfl, rfl⟩
    · exact absurd failing (Nat.not_lt_zero _)
  · rintro ⟨rfl, rfl⟩
    exact .inl ⟨[], rfl, rfl, rfl⟩

/-- A step that succeeds is followed by what the steps behind it come to; one that fails, by the
compensations. -/
theorem remainder_cons {name : String} :
    Remainder names index completed (name :: rest) trace result ↔
    (∃ output back, trace = executed index (.ok output) :: back ∧
      Remainder names (index + 1) (completed ++ [(index, output)]) rest back result) ∨
    ∃ error answers, answers.length = completed.length ∧
      trace = executed index (.error error) :: compensations completed.reverse answers ∧
      result = .compensated name error completed.length (answers.countP Except.isOk)
        (complaints names completed.reverse answers) := by
  -- The steps are the same whether the first of them has been completed or is still to come.
  have shift (output : Json) (outputs : List Json) :
      completed ++ indexed index (output :: outputs) =
        completed ++ [(index, output)] ++ indexed (index + 1) outputs := by
    simp [indexed]
  have place (output : Json) (outputs : List Json) :
      index + (output :: outputs).length = index + 1 + outputs.length := by
    rw [List.length_cons]
    omega
  constructor
  · rintro (⟨outputs, all, rfl, rfl⟩ | ⟨outputs, failing, error, answers, each, rfl, rfl⟩)
    · cases outputs with
      | nil => cases all
      | cons output outputs =>
        exact .inl ⟨output, _, rfl, .inl ⟨outputs, Nat.succ.inj all, rfl, rfl⟩⟩
    · cases outputs with
      | nil =>
        simp only [indexed, List.append_nil] at each ⊢
        exact .inr ⟨error, answers, each, rfl, rfl⟩
      | cons output outputs =>
        rw [shift] at each ⊢
        rw [place]
        exact .inl ⟨output, _, rfl, .inr ⟨outputs, Nat.lt_of_succ_lt_succ failing, error, answers,
          each, rfl, rfl⟩⟩
  · rintro (⟨output, back, rfl, ⟨outputs, all, rfl, rfl⟩ |
      ⟨outputs, failing, error, answers, each, rfl, rfl⟩⟩ | ⟨error, answers, each, rfl, rfl⟩)
    · exact .inl ⟨output :: outputs, congrArg Nat.succ all, rfl, rfl⟩
    · refine .inr ⟨output :: outputs, Nat.succ_lt_succ failing, error, answers, ?_⟩
      rw [shift, place]
      exact ⟨each, rfl, rfl⟩
    · refine .inr ⟨[], Nat.succ_pos _, error, answers, ?_⟩
      simp only [indexed, List.append_nil]
      exact ⟨each, rfl, rfl⟩

/-- The loop over the steps comes to just that. -/
theorem runs_runFrom_iff : Runs (runFrom names index completed rest) trace result ↔
    Remainder names index completed rest trace result := by
  induction rest generalizing index completed trace with
  | nil =>
    rw [runFrom, runs_pure_iff, remainder_nil]
  | cons name rest ih =>
    rw [runFrom, runs_bind_iff, remainder_cons]
    constructor
    · rintro ⟨front, answer, back, first, second, rfl⟩
      rw [runs_call_iff.mp first]
      -- Either the loop goes on, or the one over the completed steps follows.
      cases answer with
      | ok output => exact .inl ⟨output, back, rfl, ih.mp second⟩
      | error e =>
        obtain ⟨front, noted, back, compensating, ended, rfl⟩ := runs_bind_iff.mp second
        obtain ⟨answers, each, rfl, rfl⟩ := runs_compensateAll_iff.mp compensating
        obtain ⟨rfl, rfl⟩ := runs_pure_iff.mp ended
        rw [List.length_reverse] at each
        refine .inr ⟨e, answers, each, ?_, ?_⟩
        · rw [List.append_nil]
          rfl
        · rw [List.nil_append, length_sub_complaints each]
    · rintro (⟨output, back, rfl, further⟩ | ⟨error, answers, each, rfl, rfl⟩)
      · exact ⟨_, .ok output, back, runs_call_iff.mpr rfl, ih.mpr further, rfl⟩
      · refine ⟨_, .error error, _, runs_call_iff.mpr rfl, runs_bind_iff.mpr ⟨_, _, [],
          runs_compensateAll_iff.mpr ⟨answers, by simpa using each, rfl, rfl⟩,
          runs_pure_iff.mpr ⟨rfl, ?_⟩, rfl⟩, ?_⟩
        · rw [List.nil_append, length_sub_complaints each]
        · rw [List.append_nil]
          rfl

end

/-- A run of a saga has one of the two courses. -/
theorem course_of_runs (runs : Runs (run names) trace result) : Course names trace result := by
  rcases runs_runFrom_iff.mp runs with
    ⟨outputs, all, rfl, rfl⟩ | ⟨outputs, failing, error, answers, each⟩
  · exact .completed outputs all
  · simp only [List.nil_append, length_indexed, Nat.zero_add] at each
    obtain ⟨each, rfl, rfl⟩ := each
    exact .compensated outputs failing error answers each

/-- Either course is one that a saga may run. -/
theorem runs_of_course (course : Course names trace result) : Runs (run names) trace result := by
  refine runs_runFrom_iff.mpr ?_
  cases course with
  | completed outputs all => exact .inl ⟨outputs, all, rfl, rfl⟩
  | compensated outputs failing error answers each =>
    exact .inr ⟨outputs, failing, error, answers, by simpa using each, by simp, by simp⟩

/-- A saga has exactly the runs that are described: it never executes a step behind one that fails,
compensates each completed step once in reverse, and counts what has gone through. -/
theorem runs_run_iff : Runs (run names) trace result ↔ Course names trace result :=
  ⟨course_of_runs, runs_of_course⟩

end

section

variable {World : Type} {moves : World → Exchange Answer → World → Prop}
  {before between after : World}

/-- What exchanges make of a world, one after the other. -/
def Leads (moves : World → Exchange Answer → World → Prop) :
    World → List (Exchange Answer) → World → Prop
  | before, [], after => after = before
  | before, exchange :: rest, after =>
    ∃ between, moves before exchange between ∧ Leads moves between rest after

/-- A compensation that goes through takes back what its step has done, and a step that fails has
done nothing. -/
structure Reversible (moves : World → Exchange Answer → World → Prop) : Prop where
  takenBack : ∀ index output before between after,
    moves before (executed index (.ok output)) between →
      moves between (compensated index output (.ok ())) after → after = before
  clean : ∀ index error before after,
    moves before (executed index (.error error)) after → after = before

/-- A trace leads somewhere if its front leads to where its back goes on from. -/
theorem leads_append_iff {front back : List (Exchange Answer)} :
    Leads moves before (front ++ back) after ↔
      ∃ between, Leads moves before front between ∧ Leads moves between back after := by
  -- By induction on the front.
  induction front generalizing before with
  | nil => simp [Leads]
  | cons exchange rest ih =>
    simp only [List.cons_append, Leads, ih]
    constructor
    · rintro ⟨first, moved, between, there, on⟩
      exact ⟨between, ⟨first, moved, there⟩, on⟩
    · rintro ⟨between, ⟨first, moved, there⟩, on⟩
      exact ⟨first, moved, between, there, on⟩

/-- Where all compensations go through, they lead back to where the steps were begun. -/
theorem leads_back (reversible : Reversible moves) {steps : List (Nat × Json)}
    (there : Leads moves before (executions steps) between)
    (back : Leads moves between
      (compensations steps.reverse (List.replicate steps.length (.ok ()))) after) :
    after = before := by
  -- The step that was executed first is compensated last.
  induction steps generalizing before after with
  | nil =>
    cases there
    exact back
  | cons step rest ih =>
    obtain ⟨first, moved, there⟩ := there
    rw [List.reverse_cons, List.length_cons, List.replicate_succ', compensations,
      List.zipWith_append (by simp), leads_append_iff] at back
    obtain ⟨last, inner, undone, compensating, ended⟩ := back
    cases ended
    rw [ih there inner] at compensating
    exact reversible.takenBack _ _ _ _ _ moved compensating

/-- Without a complaint every compensation has gone through. -/
theorem answers_eq_replicate {names : List String} {steps : List (Nat × Json)}
    {answers : List (Except String Unit)} (each : answers.length = steps.length)
    (none : complaints names steps answers = []) :
    answers = List.replicate steps.length (.ok ()) := by
  -- The compensations that have gone through are all of them.
  have all := @length_complaints names steps answers each
  rw [none, List.length_nil, Nat.zero_add, ← each, List.countP_eq_length] at all
  refine List.eq_replicate_iff.mpr ⟨each, fun answer among => ?_⟩
  cases answer with
  | ok done => rfl
  | error e => cases all _ among

/-- A saga over steps that can be taken back, and have done nothing when they fail, does all of them
or nothing, unless it complains; and what it counts and what it complains about make up what had
been completed. -/
theorem run_all_or_nothing {names : List String} {trace : List (Exchange Answer)}
    {result : SagaResult} (reversible : Reversible moves) (runs : Runs (run names) trace result)
    (leads : Leads moves before trace after) :
    (∃ outputs : List Json, outputs.length = names.length ∧
      Leads moves before (executions (indexed 0 outputs)) after ∧
      result = .completed names.length) ∨
    ∃ failed error done undone errors,
      result = .compensated failed error done undone errors ∧
      undone + errors.length = done ∧ (errors = [] → after = before) := by
  cases course_of_runs runs with
  | completed outputs all => exact .inl ⟨outputs, all, leads, rfl⟩
  | compensated outputs failing error answers each =>
    have fits : answers.length = (indexed 0 outputs).reverse.length := by simpa using each
    have counted := @length_complaints names _ _ fits
    rw [List.length_reverse, length_indexed] at counted
    refine .inr ⟨_, _, _, _, _, rfl, by omega, fun none => ?_⟩
    obtain ⟨between, there, stopped, failed, back⟩ := leads_append_iff.mp leads
    -- The step that fails changes nothing, and the compensations start where it was asked.
    rw [reversible.clean _ _ _ _ failed, answers_eq_replicate fits none,
      List.length_reverse] at back
    exact leads_back reversible there back

/-- Steps that push their index onto a stack, and are compensated by taking it off. -/
def piled (before : List Nat) (exchange : Exchange Answer) (after : List Nat) : Prop :=
  match exchange with
  | ⟨.execute index, .ok _⟩ => after = index :: before
  | ⟨.execute _, .error _⟩ => after = before
  | ⟨.compensate index _, .ok _⟩ => before = index :: after
  | ⟨.compensate _ _, .error _⟩ => after = before

/-- Of two steps the second one fails. -/
def secondFails : List (Exchange Answer) :=
  [executed 0 (.ok .null), executed 1 (.error "disk full"), compensated 0 .null (.ok ())]

/-- Of two steps the second one fails, and the first one is undone. -/
theorem run_all_or_nothing_second_fails :
    ∃ failed error done undone errors,
      SagaResult.compensated "start" "disk full" 1 1 [] =
        .compensated failed error done undone errors ∧
      undone + errors.length = done ∧ (errors = [] → ([] : List Nat) = []) := by
  -- A step puts its number on the pile, and its compensation takes it off again.
  have reversible : Reversible piled := by
    refine ⟨fun index output before between after moved taken => ?_,
      fun _ _ _ _ moved => moved⟩
    exact (List.cons.inj (taken.symm.trans moved)).2
  -- The first step goes through, the second one fails, and the compensation goes through.
  have runs : Runs (run ["fetch", "start"]) secondFails
      (.compensated "start" "disk full" 1 1 []) :=
    runs_of_course (.compensated [.null] (by decide) "disk full" [.ok ()] rfl)
  have leads : Leads piled [] secondFails [] := ⟨[0], rfl, [0], rfl, [], rfl, rfl⟩
  rcases run_all_or_nothing reversible runs leads with ⟨_, _, _, all⟩ | undone
  · cases all
  · exact undone

end

end Tatara.Engine.Saga
