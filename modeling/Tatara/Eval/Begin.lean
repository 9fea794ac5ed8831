import Tatara.Eval.Arithmetic
import Tatara.Eval.Steady

/-! When a top-level begin is as good as its forms one by one. -/

namespace Tatara.Eval

open Lisp (Sexp Atom)

variable {H : Host}

namespace Value

mutual

/-- A value without what its closures have captured. -/
def bare : Value H → Value H
  | .list items => .list (bareAll items)
  | .attrs fields => .attrs (bareFields fields)
  | .lambda params rest body _ name => .lambda params rest body [] name
  | value => value

/-- Values without what their closures have captured. -/
def bareAll : List (Value H) → List (Value H)
  | [] => []
  | value :: rest => bare value :: bareAll rest

/-- Fields without what the closures in them have captured. -/
def bareFields : List (String × Value H) → List (String × Value H)
  | [] => []
  | (key, value) :: rest => (key, bare value) :: bareFields rest

end

end Value

/-- A cell without what closures and thunks have captured. -/
def ThunkState.bare : ThunkState H → ThunkState H
  | .unevaluated body _ => .unevaluated body []
  | .evaluating => .evaluating
  | .forced value => .forced value.bare

/-- Evaluations end alike: with the same value or the same failure, and with the same bindings in
the root, where closures are compared by their parameters and bodies. -/
structure SameOutcome (p q : Except Failure (Value H) × State H) : Prop where
  result : p.1.map Value.bare = q.1.map Value.bare
  root : p.2.root.map (fun binding => (binding.1, binding.2.bare)) =
    q.2.root.map fun binding => (binding.1, binding.2.bare)
  cells : p.2.cells.map ThunkState.bare = q.2.cells.map ThunkState.bare
  world : p.2.world = q.2.world

/-- The values of the fields are bared, and the keys stay. -/
theorem bareFields_eq_zip (fields : List (String × Value H)) :
    Value.bareFields fields =
      (fields.map Prod.fst).zip (Value.bareAll (fields.map Prod.snd)) := by
  -- By induction on the fields.
  induction fields with
  | nil => rfl
  | cons field rest ih =>
    obtain ⟨key, value⟩ := field
    rw [Value.bareFields, ih]
    rfl

/-- Values that agree are the same without what their closures have captured. -/
theorem Agree.bare {v w : Value H} (agree : Agree v w) : v.bare = w.bare := by
  -- By induction on the agreement, down through lists and fields; closures are equal at once.
  refine @Agree.rec H (fun v w _ => v.bare = w.bare)
    (fun vs ws _ => Value.bareAll vs = Value.bareAll ws) (fun _ _ _ => True)
    (fun _ => rfl) ?_ ?_ (fun _ _ => rfl) rfl ?_ (fun _ _ => trivial) trivial v w agree
  · intro items items' _ same
    rw [Value.bare, Value.bare, same]
  · intro fields fields' keys _ same
    rw [Value.bare, Value.bare, bareFields_eq_zip, bareFields_eq_zip, keys, same]
  · intro v w vs ws _ _ first rest
    rw [Value.bareAll, Value.bareAll, first, rest]

/-- Cells that agree are the same without what is captured. -/
theorem CellAgree.bare {c d : ThunkState H} (agree : CellAgree c d) : c.bare = d.bare := by
  cases agree with
  | unevaluated | evaluating => rfl
  | forced values => exact congrArg ThunkState.forced values.bare

mutual

/-- What a value has captured is no part of its equality. -/
theorem valueEq_bare (v w : Value H) : valueEq v.bare w.bare = valueEq v w := by
  -- Only lists are looked into, and only closures and fields lose something.
  cases v with
  | list items =>
    cases w with
    | list others => exact valuesEq_bare items others
    | _ => rfl
  | _ => cases w <;> rfl

/-- What values have captured is no part of their equality, one by one. -/
theorem valuesEq_bare (vs ws : List (Value H)) :
    valuesEq (Value.bareAll vs) (Value.bareAll ws) = valuesEq vs ws := by
  -- Both lists are gone through side by side.
  cases vs with
  | nil => cases ws <;> rfl
  | cons v vs =>
    cases ws with
    | nil => rfl
    | cons w ws =>
      rw [Value.bareAll, Value.bareAll, valuesEq, valuesEq, valueEq_bare v w, valuesEq_bare vs ws]

end

/-- Values that agree are equal to the same ones. -/
theorem Agree.valueEq {v v' w w' : Value H} (first : Agree v v') (second : Agree w w') :
    valueEq v w = valueEq v' w' := by
  rw [← valueEq_bare v, ← valueEq_bare v', first.bare, second.bare]

/-- Evaluations that end in agreement end alike. -/
theorem sameOutcome_of_agree {p q : Except Failure (Value H) × State H}
    (results : SameEnd Agree p.1 q.1) (states : StatesAgree p.2 q.2) : SameOutcome p q where
  result := by
  -- Agreeing values have the same bare fields.
    obtain ⟨result, s⟩ := p
    obtain ⟨result', t⟩ := q
    dsimp only at results ⊢
    cases results with
    | ok values => exact congrArg Except.ok values.bare
    | error e => rfl
  root := by
    have root := states.root
    generalize p.2.root = xs at root ⊢
    generalize q.2.root = ys at root ⊢
    induction root with
    | nil => rfl
    | cons first _ ih =>
      rw [List.map_cons, List.map_cons, first.1, first.2.bare, ih]
  cells := by
    have cells := states.cells
    generalize p.2.cells = xs at cells ⊢
    generalize q.2.cells = ys at cells ⊢
    induction cells with
    | nil => rfl
    | cons first _ ih => rw [List.map_cons, List.map_cons, first.bare, ih]
  world := states.world

/-- A state agrees with itself. -/
theorem StatesAgree.refl (s : State H) : StatesAgree s s where
  cells := List.forall₂_same.mpr fun cell _ => by
    -- No cell has changed, and neither has the environment or the world.
    cases cell with
    | unevaluated body env => exact .unevaluated (.refl env)
    | evaluating => exact .evaluating
    | forced value => exact .forced (.same value)
  root := List.forall₂_same.mpr fun _ _ => ⟨rfl, .same _⟩
  world := rfl

/-- Forms inside a begin. -/
def beginForm (forms : List Sexp) : Sexp := .list (.atom (.symbol "begin") :: forms)

/-- Each name that a form refers to is bound in the root, when it is the form's turn, as it was at
the start. -/
def Undisturbed [Builtins H] (start : Env H) : List Sexp → State H → Prop
  | [], _ => True
  | form :: rest, s =>
    (∀ x, Refers x form → s.root.lookup x = start.lookup x) ∧
      ∀ budget value after, (interp budget).eval form s.root s = some (.ok value, after) →
        Undisturbed start rest after

/-- Top-level forms go the way of a body that is evaluated in the environment of the start. -/
theorem evalFormsFrom_lockstep [DiscreetBuiltins H] {start : Env H} {forms : List Sexp}
    {s t : State H} {last last' : Value H} (budget : Nat) (values : Agree last last')
    (states : StatesAgree s t) (undisturbed : Undisturbed start forms s) :
    Option.Rel (fun p q => SameEnd Agree p.1 q.1 ∧ StatesAgree p.2 q.2)
      (evalFormsFrom budget last forms s) ((interp budget).evalBodyFrom last' forms start t) := by
  -- By induction on the forms, each of which is evaluated in the root on the one side.
  induction forms generalizing s t last last' with
  | nil => exact .some ⟨.ok values, states⟩
  | cons form rest ih =>
    obtain ⟨same, later⟩ := undisturbed
    have envs : EnvAgree (Refers · form) s.root start := fun x refers => by
      rw [same x refers]
      exact rel_refl _
    have first := (interp_steady budget).eval envs s t states
    change Option.Rel _ (Comp.bind ((interp budget).eval form s.root) _ s)
      (Comp.bind ((interp budget).eval form start) _ t)
    unfold Comp.bind
    cases left : (interp budget).eval form s.root s with
    | none =>
      rw [left] at first
      generalize (interp budget).eval form start t = q at first
      cases first
      exact .none
    | some p =>
      rw [left] at first
      generalize (interp budget).eval form start t = q at first
      cases first with
      | some ended =>
        rename_i q
        obtain ⟨result, s'⟩ := p
        obtain ⟨result', t'⟩ := q
        obtain ⟨results, states'⟩ := ended
        dsimp only at results states'
        cases results with
        | ok values' => exact ih values' states' (later budget _ _ left)
        | error e => exact .some ⟨.error e, states'⟩

/-- A top-level begin whose forms refer to no name that an earlier one has defined ends like its
forms one by one. -/
theorem begin_splices [DiscreetBuiltins H] (forms : List Sexp) (s : State H)
    (undisturbed : Undisturbed s.root forms s) (budget : Nat) :
    Option.Rel SameOutcome (evalForms budget forms s)
      (evalForms (budget + 1) [beginForm forms] s) := by
  have both := evalFormsFrom_lockstep budget (.same .nil) (.refl s) undisturbed
  -- The single form is a body in the root environment of the start.
  have single : evalForms (budget + 1) [beginForm forms] s =
      (interp budget).evalBodyFrom .nil forms s.root s :=
    congrFun (Comp.bind_pure ((interp budget).evalBodyFrom .nil forms s.root)) s
  rw [single]
  unfold evalForms
  generalize evalFormsFrom budget .nil forms s = p at both
  generalize (interp budget).evalBodyFrom .nil forms s.root s = q at both
  cases both with
  | none => exact .none
  | some ended => exact .some (sameOutcome_of_agree ended.1 ended.2)

/-- A basic builtin gives values that agree, or fails alike, for arguments that agree. -/
theorem Basic.func_agree (overflowChecks : Bool) (b : Basic) {args args' : List (Value H)}
    (agree : List.Forall₂ Agree args args') :
    SameEnd Agree (b.func overflowChecks args) (b.func overflowChecks args') := by
  cases b with
  | arith op =>
    -- The same number or the same failure.
    simp only [func, op.func_agree overflowChecks agree]
    cases op.func overflowChecks args' with
    | ok value => exact .ok (.same value)
    | error e => exact .error e
  | list => exact .ok (.list agree)
  | eq =>
    cases agree with
    | nil => exact .error _
    | cons first rest =>
      cases rest with
      | nil => exact .error _
      | cons second _ =>
        change SameEnd Agree (.ok (.bool (valueEq _ _))) (.ok (.bool (valueEq _ _)))
        rw [first.valueEq second]
        exact .ok (.same _)
  | car =>
    cases agree with
    | nil => exact .error _
    | @cons v _ _ _ first _ =>
      cases first with
      | same =>
        cases v with
        | list items =>
          cases items with
          | nil => exact .error _
          | cons item _ => exact .ok (.same item)
        | _ => exact .error _
      | list each =>
        -- The first items agree as the lists do.
        cases each with
        | nil => exact .error _
        | cons item _ => exact .ok item
      | attrs | lambda => exact .error _

/-- A host with the basic builtins. -/
def basicHost : Host where
  Builtin := Basic
  name := Basic.name
  arity := Basic.arity
  Derivation := Empty
  StorePath := Empty
  World := Unit

/-- The basic builtins of a build that may check for overflow: none looks into a closure. -/
abbrev basicBuiltins (overflowChecks : Bool) : DiscreetBuiltins basicHost where
  run b args := fun world => some (b.func overflowChecks args, world)
  discreet b _ _ agree := by
    rintro world _ rfl
    exact .some ⟨b.func_agree overflowChecks agree, rfl⟩

section

instance : DiscreetBuiltins emptyHost where
  run := Empty.elim
  discreet b := b.elim

/-- A state in which nothing is bound. -/
def emptyState : State emptyHost := ⟨[], [], ()⟩

/-- A state in which the basic builtins are bound to their names. -/
def basicState : State basicHost :=
  ⟨[], ([.arith .add, .eq, .list, .car] : List Basic).map fun b => (b.name, .builtin b), ()⟩

/-- The definition of a name as one. -/
def defineX : Sexp :=
  .list [.atom (.symbol "define"), .atom (.symbol "x"), .atom (.int 1)]

/-- `(= 3 (car (list (+ 1 2) 'x)))`, which quotes a name. -/
def sumForm : Sexp :=
  .list [.atom (.symbol "="), .atom (.int 3), .list [.atom (.symbol "car"), .list
    [.atom (.symbol "list"), .list [.atom (.symbol "+"), .atom (.int 1), .atom (.int 2)],
      .quote (.atom (.symbol "x"))]]]

/-- An atom refers to the name that it is. -/
theorem refers_atom_iff {name : String} {a : Atom} : Refers name (.atom a) ↔ a = .symbol name := by
  constructor
  · -- No other rule makes an atom refer to anything.
    intro refers
    cases refers
    rfl
  · rintro rfl
    exact .symbol

/-- What is quoted refers to nothing. -/
theorem not_refers_quote {name : String} {form : Sexp} : ¬ Refers name (.quote form) := by
  intro refers
  cases refers

/-- An application refers to what its function and its arguments refer to. -/
theorem refers_application_iff {name : String} {head : Sexp} {args : List Sexp}
    (plain : specialForm head = none) :
    Refers name (.list (head :: args)) ↔ ∃ item ∈ head :: args, Refers name item := by
  constructor
  · intro refers
    -- Any other way to refer to a name has a special form in front.
    cases refers with
    | application _ listed refers => exact ⟨_, listed, refers⟩
    | _ => simp_all
  · rintro ⟨item, listed, refers⟩
    exact .application plain listed refers

/-- A name that `sumForm` refers to is not the one that it quotes. -/
theorem ne_of_refers_sumForm {x : String} (refers : Refers x sumForm) : x ≠ "x" := by
  rintro rfl
  simp [sumForm, refers_application_iff, refers_atom_iff, not_refers_quote, specialForm,
    SpecialForm.ofName, Sexp.asSymbol] at refers

/-- A definition and a form that only quotes its name are the same inside a begin. -/
theorem begin_splices_quoted :
    let _ := basicBuiltins true
    Option.Rel SameOutcome (evalForms 9 [defineX, sumForm] basicState)
      (evalForms 10 [beginForm [defineX, sumForm]] basicState) := by
  intro _
  refine begin_splices [defineX, sumForm] basicState ⟨fun _ _ => rfl, ?_⟩ 9
  intro budget value after ended
  -- The definition is in front of the root, and hides none of the names that are called.
  match budget, ended with
  | budget + 2, ended =>
    cases ended
    refine ⟨fun x refers => ?_, fun _ _ _ _ => trivial⟩
    simp [List.lookup_cons, beq_eq_false_iff_ne.mpr (ne_of_refers_sumForm refers)]

example : let _ := basicBuiltins true
    (evalForms 9 [defineX, sumForm] basicState).map Prod.fst = some (.ok (.bool true)) := rfl

/-- A definition and its use end with the value one by one, and with an unbound name inside a
begin. -/
theorem define_not_spliced :
    ∃ budget p, evalForms budget [defineX, .atom (.symbol "x")] emptyState = some p ∧
      ∀ budget' q,
        evalForms budget' [beginForm [defineX, .atom (.symbol "x")]] emptyState = some q →
          ¬ SameOutcome p q := by
  refine ⟨2, (.ok (.int 1), _), rfl, ?_⟩
  intro budget' q ended same
  -- With a budget for the calls that nest, the lookup in the environment of the start fails.
  match budget', ended with
  | budget + 3, ended =>
    cases ended
    cases same.result

end

end Tatara.Eval
