import Tatara.Eval.Interpreter
import Tatara.Eval.Respect

/-! The cells of thunks: which of them are in evaluation while a form is evaluated, and which stay
what they are. -/

namespace Tatara.Eval

open Lisp (Sexp Atom)
open Congruence (Follows)

variable {H : Host}

/-- What forcing reports for a thunk whose own evaluation demands it. -/
def cycleError : EvalError := .other "thunk cycle: forcing an in-progress thunk"

/-- A thunk is marked as in evaluation. -/
def Marked (s : State H) (cell : Nat) : Prop := s.cells[cell]? = some .evaluating

/-- The thunks that are marked as in evaluation are those of a stack. -/
def MarkedAre (stack : List Nat) (s : State H) : Prop := ∀ cell, Marked s cell ↔ cell ∈ stack

/-- Some other thunk is marked as in evaluation. -/
def MarkedElse (stack : List Nat) (s : State H) : Prop := ∃ cell ∉ stack, Marked s cell

/-- A thunk that is forced stays what it is, and one that is marked stays marked. -/
def CellsKept (s t : State H) : Prop :=
  ∀ cell, (∀ value, s.cells[cell]? = some (.forced value) → t.cells[cell]? = some (.forced value)) ∧
    (Marked s cell → Marked t cell)

section tracking

/-- The evaluation of a thunk; where it may not fail, there is no answer when it does. -/
def settle (mayFail : Bool) (x : Evaluation H (Value H)) : Evaluation H (Value H) := fun s =>
  match x s with
  | some (.error e, s) => if mayFail then some (.error e, s) else none
  | ended => ended

/-- Force a thunk when the evaluation of those on a stack is in progress: it is a cycle exactly when
the thunk is one of them, and a thunk that is marked without being one has no answer. -/
def trackedForce (mayFail : Bool) (inside : List Nat → Interp H) (stack : List Nat) :
    Value H → Evaluation H (Value H)
  | .thunk cell =>
    if cell ∈ stack then raise cycleError
    else do
      let state ← Comp.look fun s => s.cells[cell]?
      match state with
      | some (.forced value) => pure value
      | some (.unevaluated body env) =>
        setCell cell .evaluating
        let value ← settle mayFail
          ((inside (cell :: stack)).eval body env >>= (inside (cell :: stack)).force)
        setCell cell (.forced value)
        pure value
      | _ => Comp.exhausted
  | other => pure other

variable [Builtins H]

/-- The interpreter that knows by itself which thunks are in evaluation. -/
def tracked (mayFail : Bool) : Nat → List Nat → Interp H
  | 0, _ => ⟨fun _ _ => Comp.exhausted, fun _ _ => Comp.exhausted, fun _ => Comp.exhausted⟩
  | budget + 1, stack =>
    { eval := (tracked mayFail budget stack).evalForm
      quasi := (tracked mayFail budget stack).evalQuasiquote
      force := trackedForce mayFail (tracked mayFail budget) stack }

end tracking

section following

variable {mayFail : Bool} {stack : List Nat} {s t : State H}

/-- The congruence of computations during which the thunks of a stack are in evaluation. -/
def tracking (mayFail : Bool) (stack : List Nat) : Congruence (State H) Failure :=
  .following (MarkedAre stack) (MarkedElse stack) mayFail

/-- Marks are in the cells alone. -/
theorem MarkedAre.of_cells (marks : MarkedAre stack s) (same : t.cells = s.cells) :
    MarkedAre stack t := by
  intro cell
  rw [← marks cell, Marked, Marked, same]

/-- New thunks are not in evaluation. -/
theorem marked_append {cells : List (ThunkState H)} (fresh : ∀ c ∈ cells, c ≠ .evaluating)
    (same : t.cells = s.cells ++ cells) (cell : Nat) : Marked t cell ↔ Marked s cell := by
  rw [Marked, Marked, same]
  -- An old cell is where it was, and a new one is not in evaluation.
  by_cases inside : cell < s.cells.length
  · rw [List.getElem?_append_left inside]
  · rw [List.getElem?_append_right (by omega), List.getElem?_eq_none (by omega : _ ≤ cell)]
    refine iff_of_false (fun marked => ?_) (by simp)
    exact fresh _ (List.mem_of_getElem? marked) rfl

/-- What the interpreter does by itself leaves the marks alone. -/
theorem respected_tracking [Builtins H] : Respected (H := H) (tracking mayFail stack) where
  root s marks := .same marks
  define name value s marks := .same (marks.of_cells rfl)
  allocate bindings env s marks := by
    -- The new thunks are not evaluated yet.
    refine .same fun cell => ?_
    rw [← marks cell]
    refine marked_append (fun c fresh => ?_) rfl cell
    obtain ⟨binding, -, rfl⟩ := List.mem_map.mp fresh
    simp
  builtin b args s marks := by
    unfold Comp.zoom
    cases Builtins.run b args s.world with
    | none => exact .none
    | some ended => exact .same (marks.of_cells rfl)

/-- A state with a cell changed. -/
def State.setCell (s : State H) (cell : Nat) (thunk : ThunkState H) : State H :=
  { s with cells := s.cells.set cell thunk }

/-- The change of a cell changes its own mark only. -/
theorem State.marked_setCell {cell : Nat} {thunk : ThunkState H} (other : Nat) :
    Marked (s.setCell cell thunk) other ↔
      if other = cell then thunk = .evaluating ∧ cell < s.cells.length else Marked s other := by
  rw [Marked, State.setCell, List.getElem?_set]
  -- A cell that is not there is not made by the change.
  split
  · next same =>
    subst same
    split <;> simp_all
  · next differ =>
    rw [if_neg (Ne.symm differ)]
    rfl

/-- A thunk whose evaluation is begun is put on the stack. -/
theorem MarkedAre.push {cell : Nat} {body : Sexp} {env : Env H} (marks : MarkedAre stack s)
    (found : s.cells[cell]? = some (.unevaluated body env)) :
    cell ∉ stack ∧ MarkedAre (cell :: stack) (s.setCell cell .evaluating) := by
  -- The thunk was not marked before, and no other mark changes.
  have inside : cell < s.cells.length := (List.getElem?_eq_some_iff.mp found).1
  refine ⟨fun among => ?_, fun other => ?_⟩
  · have marked := (marks cell).mpr among
    rw [Marked, found] at marked
    cases marked
  · rw [State.marked_setCell, List.mem_cons, ← marks other]
    split
    · next same => simp [same, inside]
    · next differ => simp [differ]

/-- A thunk that has got a value is taken from the stack. -/
theorem MarkedAre.pop {cell : Nat} {value : Value H} (marks : MarkedAre (cell :: stack) s)
    (fresh : cell ∉ stack) : MarkedAre stack (s.setCell cell (.forced value)) := by
  intro other
  -- Of the cells on the stack only the one at its top has changed.
  rw [State.marked_setCell]
  split
  · next same => simp [same, fresh]
  · next differ => rw [marks other, List.mem_cons, or_iff_right differ]

/-- Begin the evaluation of a thunk, and set its cell to the value that it gets. -/
def finish (cell : Nat) :
    Option (Except Failure (Value H) × State H) → Option (Except Failure (Value H) × State H)
  | some (.ok value, s) => some (.ok value, s.setCell cell (.forced value))
  | ended => ended

variable {cell : Nat} {body : Sexp} {env : Env H}

/-- The cell of a thunk is set behind its evaluation. -/
theorem bind_setCell (x : Evaluation H (Value H)) :
    (x >>= fun value => setCell cell (.forced value) >>= fun _ => pure value) s =
      finish cell (x s) := by
  rw [Comp.bind_apply]
  -- Only a value is stored; an error and a missing answer are passed on.
  cases x s with
  | none => rfl
  | some ended =>
    obtain ⟨result, s⟩ := ended
    cases result <;> rfl

/-- A thunk is marked, evaluated and set to what it gives. -/
theorem forceValue_unevaluated (I : Interp H)
    (found : s.cells[cell]? = some (.unevaluated body env)) :
    I.forceValue (.thunk cell) s =
      finish cell ((I.eval body env >>= I.force) (s.setCell cell .evaluating)) := by
  rw [← bind_setCell, Comp.bind_assoc]
  simp only [Interp.forceValue, Comp.look_bind, found]
  rfl

/-- So it is where the stack is known, with the thunk on it. -/
theorem trackedForce_unevaluated (inside : List Nat → Interp H) (fresh : cell ∉ stack)
    (found : s.cells[cell]? = some (.unevaluated body env)) :
    trackedForce mayFail inside stack (.thunk cell) s =
      finish cell (settle mayFail ((inside (cell :: stack)).eval body env >>=
        (inside (cell :: stack)).force) (s.setCell cell .evaluating)) := by
  rw [← bind_setCell]
  simp only [trackedForce, if_neg fresh, Comp.look_bind, found]
  rfl

/-- A failure in the evaluation of a thunk leaves it marked. -/
theorem follows_finish {x y : Evaluation H (Value H)} (fresh : cell ∉ stack)
    (both : Follows (MarkedAre (cell :: stack)) (MarkedElse (cell :: stack)) mayFail (x s) (y s)) :
    Follows (MarkedAre stack) (MarkedElse stack) mayFail (finish cell (x s))
      (finish cell (settle mayFail y s)) := by
  have failed (e : Failure) (s' : State H) (marked : MarkedElse stack s') :
      Follows (MarkedAre stack) (MarkedElse stack) mayFail (some (Except.error e, s'))
        (finish cell (if mayFail then some (.error e, s') else none)) := by
    cases may : mayFail with
    | true => exact .failed rfl marked
    | false => exact .lost rfl marked
  -- A thunk that is none of the longer stack is none of the shorter one.
  have outside {s' : State H} (astray : MarkedElse (cell :: stack) s') : MarkedElse stack s' := by
    obtain ⟨other, apart, marked⟩ := astray
    exact ⟨other, fun among => apart (List.mem_cons_of_mem cell among), marked⟩
  rw [settle]
  generalize x s = p, y s = q at both
  cases both with
  | none => exact .none
  | @same result s' marks =>
    cases result with
    | ok value => exact .same (marks.pop fresh)
    | error e => exact failed e s' ⟨cell, fresh, (marks cell).mpr List.mem_cons_self⟩
  | @failed e s' may astray => exact failed e s' (outside astray)
  | @lost e s' may astray => simpa [may, finish] using failed e s' (outside astray)

/-- Forcing follows, with the thunk on the stack while it is evaluated. -/
theorem follows_force {I : Interp H} {inside : List Nat → Interp H}
    (related : ∀ stack, I.Related (tracking mayFail stack) (inside stack)) (v : Value H) :
    (tracking mayFail stack).Rel (I.forceValue v) (trackedForce mayFail inside stack v) := by
  cases v with
  | thunk cell =>
    intro s marks
    -- By the state of the thunk; only one that is not evaluated yet changes anything.
    cases found : s.cells[cell]? with
    | none =>
      have fresh : cell ∉ stack := by
        rw [← marks cell, Marked, found]
        simp
      simp only [Interp.forceValue, trackedForce, if_neg fresh, Comp.look_bind, found]
      exact .none
    | some state =>
      cases state with
      | forced value =>
        have fresh : cell ∉ stack := by
          rw [← marks cell, Marked, found]
          simp
        simp only [Interp.forceValue, trackedForce, if_neg fresh, Comp.look_bind, found]
        exact .same marks
      | evaluating =>
        have among : cell ∈ stack := (marks cell).mp found
        simp only [Interp.forceValue, trackedForce, if_pos among, Comp.look_bind, found]
        exact .same marks
      | unevaluated body env =>
        obtain ⟨fresh, pushed⟩ := marks.push found
        rw [forceValue_unevaluated I found, trackedForce_unevaluated inside fresh found]
        -- The body is evaluated, and what it gives is forced.
        refine follows_finish fresh ((tracking mayFail (cell :: stack)).bind
          ((related (cell :: stack)).eval body env) (related (cell :: stack)).force _ pushed)
  | _ => exact (tracking mayFail stack).pure _

/-- The interpreter is followed by the one that knows which thunks are in evaluation. -/
theorem interp_follows [Builtins H] (mayFail : Bool) (budget : Nat) (stack : List Nat) :
    (interp (H := H) budget).Related (tracking mayFail stack) (tracked mayFail budget stack) := by
  -- By induction on the budget: within, the stack is the same, or there is one thunk more on it.
  induction budget generalizing stack with
  | zero => exact ⟨fun _ _ _ _ => .none, fun _ _ _ _ => .none, fun _ _ _ => .none⟩
  | succ budget ih =>
    exact ⟨fun form env => (ih stack).evalForm respected_tracking form,
      fun form env => (ih stack).evalQuasiquote form, follows_force ih⟩

end following

section keeping

/-- A state keeps its own cells. -/
theorem CellsKept.refl (s : State H) : CellsKept s s := fun _ => ⟨fun _ => id, id⟩

/-- Cells are kept from change to change. -/
theorem CellsKept.trans {s t u : State H} (first : CellsKept s t) (second : CellsKept t u) :
    CellsKept s u := fun cell =>
  ⟨fun value => (second cell).1 value ∘ (first cell).1 value, (second cell).2 ∘ (first cell).2⟩

/-- A state with the same cells keeps them. -/
theorem CellsKept.of_cells {s t : State H} (same : t.cells = s.cells) : CellsKept s t := by
  intro cell
  rw [Marked, Marked, same]
  exact ⟨fun _ => id, id⟩

/-- The congruence of computations that keep the cells of thunks that are forced. -/
def keepingCells : Congruence (State H) Failure := .keeping CellsKept .refl .trans

/-- What the interpreter does by itself keeps the cells. -/
theorem respected_keepingCells [Builtins H] : Respected (H := H) keepingCells where
  root s result after ended := by
    cases ended
    exact .refl s
  define name value s result after ended := by
    cases ended
    exact .of_cells rfl
  allocate bindings env s result after ended := by
    cases ended
    -- The new thunks come behind those that are there.
    intro cell
    refine ⟨fun value forced => ?_, fun marked => ?_⟩
    · exact (List.getElem?_append_left (List.getElem?_eq_some_iff.mp forced).1).trans forced
    · exact (List.getElem?_append_left (List.getElem?_eq_some_iff.mp marked).1).trans marked
  builtin b args s result after ended := by
    unfold Comp.zoom at ended
    cases ran : Builtins.run b args s.world with
    | none =>
      rw [ran] at ended
      cases ended
    | some p =>
      rw [ran] at ended
      cases ended
      exact .of_cells rfl

/-- Setting the cell of a thunk whose evaluation is begun keeps those that are forced or marked. -/
theorem CellsKept.setCell {s t : State H} {cell : Nat} {body : Sexp} {env : Env H}
    {thunk : ThunkState H} (found : s.cells[cell]? = some (.unevaluated body env))
    (kept : CellsKept s t) : CellsKept s (t.setCell cell thunk) := by
  -- The cell that is set was neither forced nor marked, and the others stay.
  intro other
  by_cases same : other = cell
  · subst same
    rw [Marked, found]
    exact ⟨fun _ forced => (by cases forced), fun marked => (by cases marked)⟩
  · have elsewhere : (t.setCell cell thunk).cells[other]? = t.cells[other]? :=
      List.getElem?_set_ne (Ne.symm same)
    rw [Marked, Marked, elsewhere]
    exact kept other

/-- Forcing keeps the cells of thunks that are forced or in evaluation. -/
theorem keeps_force {I : Interp H} (related : I.Related keepingCells I) (v : Value H) :
    Congruence.Keeps CellsKept (I.forceValue v) := by
  cases v with
  | thunk cell =>
    intro s result after ended
    cases found : s.cells[cell]? with
    | none =>
      simp only [Interp.forceValue, Comp.look_bind, found] at ended
      cases ended
    | some state =>
      cases state with
      | forced value | evaluating =>
        simp only [Interp.forceValue, Comp.look_bind, found] at ended
        cases ended
        exact .refl s
      | unevaluated body env =>
        rw [forceValue_unevaluated I found] at ended
        -- The cell is set before and after the evaluation, which keeps the others in between.
        have inner := keepingCells.bind (related.eval body env) related.force
          (s.setCell cell .evaluating)
        have begun : CellsKept s (s.setCell cell .evaluating) := .setCell found (.refl s)
        generalize (I.eval body env >>= I.force) (s.setCell cell .evaluating) = p at ended inner
        match p, ended with
        | some (.ok value, t), ended =>
          cases ended
          exact .setCell found (begun.trans (inner _ _ rfl))
        | some (.error e, t), ended =>
          cases ended
          exact begun.trans (inner _ _ rfl)
  | _ =>
    exact keepingCells.pure _

/-- The interpreter keeps the cells of thunks that are forced or in evaluation. -/
theorem interp_keeps [Builtins H] (budget : Nat) :
    (interp (H := H) budget).Related keepingCells (interp budget) := by
  -- By induction on the budget.
  induction budget with
  | zero =>
    exact ⟨fun _ _ _ _ _ none => (by cases none), fun _ _ _ _ _ none => (by cases none),
      fun _ _ _ _ none => (by cases none)⟩
  | succ budget ih =>
    exact ⟨fun form env => ih.evalForm respected_keepingCells form,
      fun form env => ih.evalQuasiquote form, keeps_force ih⟩

end keeping

end Tatara.Eval
