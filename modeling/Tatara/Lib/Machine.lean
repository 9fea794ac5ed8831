import Mathlib.Data.List.Induction
import Mathlib.Data.List.Infix
import Mathlib.Tactic.Common

/-! Runs in which every step is as it is required to be, and what runs come to within a number of
steps. -/

namespace Tatara.Steps

variable {σ α : Type*}

/-- Every step of a run is as required in the state that it is taken in. -/
def EachStep (serve : σ → α → σ) (good : σ → α → Prop) (s : σ) (inputs : List α) : Prop :=
  ∀ front a, front ++ [a] <+: inputs → good (front.foldl serve s) a

variable {serve : σ → α → σ} {good safe : σ → α → Prop} {s : σ} {inputs : List α}

/-- Without steps nothing is required. -/
theorem eachStep_nil : EachStep serve good s [] := by
  intro front a part
  simp at part

/-- The first step is as required, and so are those behind it. -/
theorem eachStep_cons_iff {a : α} :
    EachStep serve good s (a :: inputs) ↔
      good s a ∧ EachStep serve good (serve s a) inputs := by
  -- What is required of a step in a run is required of it behind those before.
  constructor
  · intro each
    refine ⟨each [] a (by simp), fun front b part => ?_⟩
    exact each (a :: front) b (List.cons_prefix_cons.mpr ⟨rfl, part⟩)
  · rintro ⟨first, others⟩ front b part
    cases front with
    | nil =>
      obtain ⟨rfl, -⟩ := List.cons_prefix_cons.mp part
      exact first
    | cons c front =>
      obtain ⟨rfl, rest⟩ := List.cons_prefix_cons.mp part
      exact others front b rest

variable (inv : σ → Prop)

/-- What every step that is as required preserves holds in all the states of such a run. -/
theorem EachStep.invariant (start : inv s)
    (kept : ∀ s a, inv s → good s a → inv (serve s a)) (each : EachStep serve good s inputs) :
    ∀ front, front <+: inputs → inv (front.foldl serve s) := by
  intro front part
  -- By induction on the front of the run, from its last step on.
  induction front using List.reverseRecOn with
  | nil => exact start
  | append_singleton front a ih =>
    have before := ih ((List.prefix_append front [a]).trans part)
    rw [List.foldl_append]
    exact kept _ a before (each front a part)

/-- Two requirements that come to the same wherever the run can be come to the same for the whole
run. -/
theorem eachStep_congr (start : inv s) (kept : ∀ s a, inv s → good s a → inv (serve s a))
    (same : ∀ s a, inv s → (good s a ↔ safe s a)) :
    EachStep serve good s inputs ↔ EachStep serve safe s inputs := by
  -- As long as the steps are as required, by either of the two, the invariant is there.
  induction inputs generalizing s with
  | nil => exact iff_of_true eachStep_nil eachStep_nil
  | cons a inputs ih =>
    rw [eachStep_cons_iff, eachStep_cons_iff, ← same s a start]
    exact and_congr_right fun first => ih (kept s a start first)

end Tatara.Steps

namespace Tatara.Progress

variable {σ : Type*} {step : σ → σ → Prop} {goal : σ → Prop}

/-- Every run meets the goal within so many steps, and none gets stuck on the way. -/
def Within (step : σ → σ → Prop) (goal : σ → Prop) : Nat → σ → Prop
  | 0, s => goal s
  | n + 1, s => goal s ∨ (∃ t, step s t) ∧ ∀ t, step s t → Within step goal n t

namespace Within

/-- Where a step is possible, what holds after each of them holds one step earlier. -/
theorem of_steps {n : Nat} {s : σ} (possible : ∃ t, step s t)
    (next : ∀ t, step s t → Within step goal n t) : Within step goal (n + 1) s :=
  .inr ⟨possible, next⟩

/-- A larger bound does as well. -/
theorem succ {n : Nat} {s : σ} (within : Within step goal n s) : Within step goal (n + 1) s := by
  -- The additional step is left over at the end of every run.
  induction n generalizing s with
  | zero => exact .inl within
  | succ n ih =>
    rcases within with met | ⟨possible, next⟩
    · exact .inl met
    · exact of_steps possible fun t steps => ih (next t steps)

/-- A run that can stay where the goal is not met evades it for any number of steps. -/
theorem not_of_evades (evading : σ → Prop) (misses : ∀ s, evading s → ¬ goal s)
    (stays : ∀ s, evading s → ∃ t, step s t ∧ evading t) {s : σ} (start : evading s) (n : Nat) :
    ¬ Within step goal n s := by
  -- Each step of the bound is answered with one that stays.
  induction n generalizing s with
  | zero => exact misses s start
  | succ n ih =>
    intro within
    rcases within with met | ⟨-, next⟩
    · exact misses s start met
    · obtain ⟨t, steps, still⟩ := stays s start
      exact ih still (next t steps)

/-- What the runs come to passes from a state to what it steps to, as long as it is not met. -/
theorem of_step {n : Nat} {s t : σ} (within : Within step goal (n + 1) s) (missed : ¬ goal s)
    (steps : step s t) : Within step goal n t :=
  (within.resolve_left missed).2 t steps

end Within

end Tatara.Progress

/-! Machines that answer inputs one after the other and read an environment while they do, and those
that keep their state in memory and write it to a disk after each change. -/

namespace Tatara.Machine

variable {ε α σ ρ : Type*}

/-- Feed inputs to a machine, each with the readings that the environment has for it. -/
def run (step : ε → α → σ → ρ × σ) : List (ε × α) → σ → List ρ × σ
  | [], s => ([], s)
  | (e, a) :: inputs, s =>
    let (r, s) := step e a s
    let (rs, s) := run step inputs s
    (r :: rs, s)

/-- Feed a machine its inputs in batches. -/
def runBatches (step : ε → α → σ → ρ × σ) : List (List (ε × α)) → σ → List ρ × σ
  | [], s => ([], s)
  | batch :: batches, s =>
    let (rs, s) := run step batch s
    let (rest, s) := runBatches step batches s
    (rs ++ rest, s)

variable {step : ε → α → σ → ρ × σ}

@[simp] theorem run_nil (s : σ) : run step [] s = ([], s) := rfl

/-- With an input more, one step comes before the run. -/
@[simp] theorem run_cons (e : ε) (a : α) (inputs : List (ε × α)) (s : σ) :
    run step ((e, a) :: inputs) s =
      ((step e a s).1 :: (run step inputs (step e a s).2).1,
        (run step inputs (step e a s).2).2) := rfl

/-- A run over two lists is a run over the first and then one over the second. -/
theorem run_append (front back : List (ε × α)) (s : σ) :
    run step (front ++ back) s =
      ((run step front s).1 ++ (run step back (run step front s).2).1,
        (run step back (run step front s).2).2) := by
  -- The second run starts where the first one ends.
  induction front generalizing s with
  | nil => rfl
  | cons input front ih =>
    obtain ⟨e, a⟩ := input
    simp only [List.cons_append, run_cons, ih]

/-- One more input takes one more step, from the state that the run has ended in. -/
theorem run_concat (inputs : List (ε × α)) (e : ε) (a : α) (s : σ) :
    (run step (inputs ++ [(e, a)]) s).2 = (step e a (run step inputs s).2).2 := by
  -- The last step is a run of its own.
  simp only [run_append, run_cons, run_nil]

/-- How the inputs are cut into batches makes no difference. -/
theorem runBatches_eq_run (batches : List (List (ε × α))) (s : σ) :
    runBatches step batches s = run step batches.flatten s := by
  -- A batch is a part of the whole list of inputs.
  induction batches generalizing s with
  | nil => rfl
  | cons batch batches ih => simp only [runBatches, ih, List.flatten_cons, run_append]

/-- No input makes the machine read its environment, in whatever state the input finds it. -/
def Quiet (step : ε → α → σ → ρ × σ) (reads : σ → α → Prop) : List α → σ → Prop
  | [], _ => True
  | a :: inputs, s => ¬ reads s a ∧ ∀ e, Quiet step reads inputs (step e a s).2

/-- Two runs over the same inputs agree as long as no input makes the machine read. -/
theorem run_eq_of_quiet {reads : σ → α → Prop}
    (silent : ∀ s a, ¬ reads s a → ∀ e e', step e a s = step e' a s)
    {left right : List (ε × α)} {s : σ} (same : left.map Prod.snd = right.map Prod.snd)
    (quiet : Quiet step reads (left.map Prod.snd) s) : run step left s = run step right s := by
  induction left generalizing right s with
  | nil =>
    have none := List.map_eq_nil_iff.mp same.symm
    rw [none]
  | cons first left ih =>
    -- The first step does not depend on its readings, so both runs go on from one state.
    cases right with
    | nil => cases same
    | cons second right =>
      obtain ⟨e, a⟩ := first
      obtain ⟨e', a'⟩ := second
      obtain ⟨rfl, others⟩ := List.cons.inj same
      obtain ⟨notRead, quiet⟩ := quiet
      rw [run_cons, run_cons, ← silent s a notRead e e', ih others (quiet e)]

/-- Runs agree after every part of the inputs exactly when no input makes the machine read. -/
theorem run_agree_iff_quiet {reads : σ → α → Prop}
    (silent : ∀ s a, ¬ reads s a → ∀ e e', step e a s = step e' a s)
    (heard : ∀ s a, reads s a → ∃ e e', step e a s ≠ step e' a s) (inputs : List α) (s : σ) :
    (∀ left right : List (ε × α), left.map Prod.snd <+: inputs →
        right.map Prod.snd = left.map Prod.snd → run step left s = run step right s) ↔
      Quiet step reads inputs s := by
  constructor
  · intro agree
    induction inputs generalizing s with
    | nil => trivial
    | cons a inputs ih =>
      constructor
      · -- A reading would show after this very input.
        intro read
        obtain ⟨e, e', differ⟩ := heard s a read
        have same := agree [(e, a)] [(e', a)] (by simp) rfl
        simp only [run_cons, run_nil, Prod.mk.injEq, List.cons.injEq, and_true] at same
        exact differ (Prod.ext same.1 same.2)
      · intro e
        refine ih _ fun left right before same => ?_
        have both := agree ((e, a) :: left) ((e, a) :: right)
          (by simpa using before) (by simp [same])
        simp only [run_cons, Prod.mk.injEq, List.cons.injEq, true_and] at both
        exact Prod.ext both.1 both.2
  · rintro quiet left right ⟨rest, split⟩ same
    refine run_eq_of_quiet silent same.symm ?_
    -- A part of quiet inputs is quiet.
    rw [← split] at quiet
    generalize left.map Prod.snd = front at quiet
    clear same split left right
    induction front generalizing s with
    | nil => trivial
    | cons a front ih => exact ⟨quiet.1, fun e => ih _ (quiet.2 e)⟩

end Tatara.Machine

namespace Tatara.Durable

open Tatara.Machine (run run_concat)

variable {φ α σ δ ε : Type*}

/-- The state in memory beside the disk. -/
structure Stored (σ δ : Type*) where
  state : σ
  disk : δ

section

variable (serve : φ → α → Stored σ δ → Except ε Unit × Stored σ δ) (read : δ → σ)

/-- One more operation, and the state that the last successful one has left. -/
def track (tracked : Stored σ δ × σ) (input : φ × α) : Stored σ δ × σ :=
  let (result, store) := serve input.1 input.2 tracked.1
  (store, if result.isOk then store.state else tracked.2)

/-- The state after the last operation that has succeeded, or the first one if none has. -/
def acknowledged (inputs : List (φ × α)) (store : Stored σ δ) : σ :=
  (inputs.foldl (track serve) (store, store.state)).2

/-- The store after some operations. -/
def after (inputs : List (φ × α)) (store : Stored σ δ) : Stored σ δ := (run serve inputs store).2

/-- What fails is as if it had not been, and the disk holds what has been acknowledged. -/
structure AtomicDurable (inputs : List (φ × α)) (store : Stored σ δ) : Prop where
  atomic : ∀ front fault op, front ++ [(fault, op)] <+: inputs →
    ∀ error, (serve fault op (after serve front store)).1 = .error error →
      (serve fault op (after serve front store)).2.state = (after serve front store).state
  durable : ∀ front, front <+: inputs →
    read (after serve front store).disk = acknowledged serve front store

variable {serve}

/-- Behind one more operation the store is what serving it leaves. -/
theorem after_concat (front : List (φ × α)) (fault : φ) (op : α) (store : Stored σ δ) :
    after serve (front ++ [(fault, op)]) store = (serve fault op (after serve front store)).2 :=
  run_concat ..

/-- What is tracked is what the machine has behind the operations. -/
theorem track_foldl (inputs : List (φ × α)) (store : Stored σ δ) :
    (inputs.foldl (track serve) (store, store.state)).1 = after serve inputs store := by
  -- Tracking takes the same steps as the machine itself.
  induction inputs using List.reverseRecOn with
  | nil => rfl
  | append_singleton inputs input ih =>
    rw [List.foldl_append, after_concat, ← ih]
    rfl

/-- Behind one more operation what has been acknowledged is the state, if it succeeds. -/
theorem acknowledged_concat (front : List (φ × α)) (fault : φ) (op : α) (store : Stored σ δ) :
    acknowledged serve (front ++ [(fault, op)]) store =
      if (serve fault op (after serve front store)).1.isOk then
        (serve fault op (after serve front store)).2.state
      else acknowledged serve front store := by
  rw [← track_foldl front store, acknowledged, List.foldl_append]
  rfl

end

section

variable (write : φ → σ → δ → Except ε Unit × δ) (read : δ → σ) (change : α → σ → Option σ)

/-- Replace the state in memory and then write it, if there is anything to change. -/
def commit (fault : φ) (changed : Option σ) (store : Stored σ δ) : Except ε Unit × Stored σ δ :=
  match changed with
  | none => (.ok (), store)
  | some state =>
    let (result, disk) := write fault state store.disk
    (result, { state, disk })

/-- An operation that changes the memory first. -/
def memoryFirst (fault : φ) (op : α) (store : Stored σ δ) : Except ε Unit × Stored σ δ :=
  commit write fault (change op store.state) store

/-- No write fails that would have changed the state. -/
def FailsUnchanged (inputs : List (φ × α)) (store : Stored σ δ) : Prop :=
  ∀ front fault op, front ++ [(fault, op)] <+: inputs →
    ∀ state, change op (after (memoryFirst write change) front store).state = some state →
      ∀ error,
        (write fault state (after (memoryFirst write change) front store).disk).1 = .error error →
          state = (after (memoryFirst write change) front store).state

/-- A write that succeeds can be read back, and one that fails leaves what is read as it is. -/
structure WritesWhole : Prop where
  written : ∀ fault state disk, (write fault state disk).1 = .ok () →
    read (write fault state disk).2 = state
  kept : ∀ fault state disk error, (write fault state disk).1 = .error error →
    read (write fault state disk).2 = read disk

end

variable {write : φ → σ → δ → Except ε Unit × δ} {read : δ → σ} {change : α → σ → Option σ}

/-- Where no change is lost, memory, disk, and what has been acknowledged stay together. -/
theorem together (whole : WritesWhole write read) {store : Stored σ δ}
    (opened : read store.disk = store.state) {inputs : List (φ × α)}
    (unchanged : FailsUnchanged write change inputs store) (front : List (φ × α))
    (before : front <+: inputs) :
    read (after (memoryFirst write change) front store).disk =
        (after (memoryFirst write change) front store).state ∧
      acknowledged (memoryFirst write change) front store =
        (after (memoryFirst write change) front store).state := by
  induction front using List.reverseRecOn with
  | nil => exact ⟨opened, rfl⟩
  | append_singleton front input ih =>
    obtain ⟨fault, op⟩ := input
    obtain ⟨onDisk, known⟩ := ih ((List.prefix_append ..).trans before)
    rw [acknowledged_concat, after_concat]
    cases changed : change op (after (memoryFirst write change) front store).state with
    | none => simp [memoryFirst, commit, changed, onDisk, Except.isOk, Except.toBool]
    | some state =>
      simp only [memoryFirst, commit, changed]
      cases written : (write fault state (after (memoryFirst write change) front store).disk).1 with
      | ok _ =>
        exact ⟨whole.written _ _ _ written, by simp [Except.isOk, Except.toBool]⟩
      | error error =>
        -- The disk is still the old one, and so is the state.
        have same := unchanged front fault op before state changed error written
        rw [whole.kept _ _ _ _ written, onDisk, known]
        simp [Except.isOk, Except.toBool, same]

/-- A store that changes its memory before it writes is atomic and durable in just the runs in which
no failing write would have changed anything. -/
theorem atomicDurable_iff (whole : WritesWhole write read) {store : Stored σ δ}
    (opened : read store.disk = store.state) {inputs : List (φ × α)} :
    AtomicDurable (memoryFirst write change) read inputs store ↔
      FailsUnchanged write change inputs store := by
  constructor
  · -- The memory has changed already when the write fails.
    intro kept front fault op before state changed error failed
    have same := kept.atomic front fault op before error
    simp only [memoryFirst, commit, changed] at same
    exact same failed
  · intro unchanged
    refine ⟨fun front fault op before error failed => ?_, fun front before => ?_⟩
    · cases changed : change op (after (memoryFirst write change) front store).state with
      | none => simp [memoryFirst, commit, changed]
      | some state =>
        simp only [memoryFirst, commit, changed] at failed ⊢
        exact unchanged front fault op before state changed error failed
    · obtain ⟨onDisk, known⟩ := together whole opened unchanged front before
      rw [onDisk, known]

end Tatara.Durable
