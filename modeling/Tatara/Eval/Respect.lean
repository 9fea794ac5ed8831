import Tatara.Eval.Interpreter
import Tatara.Lib.Lockstep

/-! Interpreters whose calls are related evaluate every form alike. -/

namespace Tatara.Eval

open Lisp (Sexp Atom)

variable {H : Host} (C : Congruence (State H) Failure)

/-- The changes that the interpreter makes by itself are related to themselves, and so are a look
at the root and what the builtins do. -/
structure Respected [Builtins H] : Prop where
  root : C.Rel (Comp.look State.root) (Comp.look State.root)
  define : ∀ name value, C.Rel (define name value) (define name value)
  allocate : ∀ bindings env, C.Rel (allocate bindings env) (allocate bindings env)
  builtin : ∀ (b : H.Builtin) args,
    C.Rel
      (Comp.zoom State.world (fun world (s : State H) => { s with world }) (Builtins.run b args))
      (Comp.zoom State.world (fun world s => { s with world }) (Builtins.run b args))

/-- Two interpreters whose calls to themselves are related. -/
structure Interp.Related (I J : Interp H) : Prop where
  eval : ∀ form env, C.Rel (I.eval form env) (J.eval form env)
  quasi : ∀ form env, C.Rel (I.quasi form env) (J.quasi form env)
  force : ∀ v, C.Rel (I.force v) (J.force v)

namespace Interp.Related

variable {C} {I J : Interp H} {env : Env H}

/-- Bodies are evaluated form by form. -/
theorem evalBodyFrom (related : I.Related C J) (forms : List Sexp) (last : Value H) :
    C.Rel (I.evalBodyFrom last forms env) (J.evalBodyFrom last forms env) := by
  induction forms generalizing last with
  | nil => exact C.pure last
  | cons form rest ih => exact C.bind (related.eval form env) ih

/-- So they are from their beginning. -/
theorem evalBody (related : I.Related C J) (forms : List Sexp) :
    C.Rel (I.evalBody forms env) (J.evalBody forms env) :=
  related.evalBodyFrom forms .nil

/-- Arguments are evaluated one by one. -/
theorem evalArgs (related : I.Related C J) (forms : List Sexp) :
    C.Rel (I.evalArgs forms env) (J.evalArgs forms env) := by
  -- By induction on the forms.
  induction forms with
  | nil => exact C.pure []
  | cons form rest ih =>
    exact C.bind (related.eval form env) fun value =>
      C.bind ih fun values => C.pure (value :: values)

/-- So they are forced. -/
theorem forceAll (related : I.Related C J) (args : List (Value H)) :
    C.Rel (I.forceAll args) (J.forceAll args) := by
  -- By induction on the arguments.
  induction args with
  | nil => exact C.pure []
  | cons arg rest ih =>
    exact C.bind (related.force arg) fun value => C.bind ih fun values => C.pure (value :: values)

/-- The items of a template are filled in one by one. -/
theorem quasiItems (related : I.Related C J) (items : List Sexp) :
    C.Rel (I.quasiItems items env) (J.quasiItems items env) := by
  -- A splice spreads a list, and anything else gives one item.
  induction items with
  | nil => exact C.pure []
  | cons item rest ih =>
    have whole := C.bind (related.quasi item env) fun value =>
      C.bind ih fun values => C.pure (value :: values)
    cases item with
    | unquoteSplice form =>
      refine C.bind (related.eval form env) fun value => ?_
      cases value with
      | list items => exact C.bind ih fun values => C.pure (items ++ values)
      | _ => exact C.fail _
    | _ => exact whole

/-- A template is filled in alike. -/
theorem evalQuasiquote (related : I.Related C J) (inner : Sexp) :
    C.Rel (I.evalQuasiquote inner env) (J.evalQuasiquote inner env) := by
  -- Only unquoted forms and lists are evaluated within a template.
  cases inner with
  | unquote form => exact related.eval form env
  | list items => exact C.bind (related.quasiItems items) fun values => C.pure (Value.list values)
  | unquoteSplice => exact C.fail _
  | atom | nil | quote | quasiquote => exact C.pure _

/-- Conditions and branches are evaluated alike. -/
theorem sfIf (related : I.Related C J) (items : List Sexp) :
    C.Rel (I.sfIf items env) (J.sfIf items env) := by
  -- There is an alternative, or there is none.
  unfold Interp.sfIf
  split
  · refine C.bind (related.eval _ env) fun cond => ?_
    split
    · exact related.eval _ env
    · exact C.pure Value.nil
  · refine C.bind (related.eval _ env) fun cond => ?_
    split
    · exact related.eval _ env
    · exact related.eval _ env
  · exact C.fail _

/-- Each binding is evaluated and adds to the environment. -/
theorem letEnv (related : I.Related C J) (bindings : List Sexp) (newEnv : Env H) :
    C.Rel (I.letEnv env newEnv bindings) (J.letEnv env newEnv bindings) := by
  -- By induction on the bindings, with the environment that is being made.
  induction bindings generalizing newEnv with
  | nil => exact C.pure newEnv
  | cons binding rest ih =>
    rw [Interp.letEnv, Interp.letEnv]
    split
    · exact C.fail _
    · split
      · exact C.fail _
      · exact C.bind (related.eval _ env) fun value => ih _
    · exact C.fail _

/-- Behind the bindings comes the body. -/
theorem sfLet (related : I.Related C J) (items : List Sexp) :
    C.Rel (I.sfLet items env) (J.sfLet items env) := by
  unfold Interp.sfLet
  -- Malformed bindings are refused alike.
  split
  · split
    · exact C.fail _
    · exact C.bind (related.letEnv _ env) fun newEnv => related.evalBody _
  · exact C.fail _

/-- A conjunction goes on as long as its forms hold. -/
theorem andFrom (related : I.Related C J) (forms : List Sexp) (last : Value H) :
    C.Rel (I.andFrom last forms env) (J.andFrom last forms env) := by
  -- By induction on the forms, with the value of the last one.
  induction forms generalizing last with
  | nil => exact C.pure last
  | cons form rest ih =>
    refine C.bind (related.eval form env) fun value => ?_
    split
    · exact ih value
    · exact C.pure value

/-- A disjunction goes on until one of them holds. -/
theorem orFrom (related : I.Related C J) (forms : List Sexp) :
    C.Rel (I.orFrom forms env) (J.orFrom forms env) := by
  -- By induction on the forms.
  induction forms with
  | nil => exact C.pure _
  | cons form rest ih =>
    refine C.bind (related.eval form env) fun value => ?_
    split
    · exact C.pure value
    · exact ih

/-- A lambda evaluates its body where its parameters are bound. -/
theorem applyLambda (related : I.Related C J) (params : List String) (rest : Option String)
    (body : List Sexp) (name : Option String) (args : List (Value H)) :
    C.Rel (I.applyLambda params rest body env name args)
      (J.applyLambda params rest body env name args) := by
  unfold Interp.applyLambda
  -- With a rest parameter or without one, too few arguments are refused alike.
  split
  · split
    · exact C.fail _
    · exact related.evalBody _
  · split
    · exact C.fail _
    · exact related.evalBody _

variable [Builtins H]

/-- A function is applied alike. -/
theorem applyForced (related : I.Related C J) (respected : Respected C) (f : Value H)
    (args : List (Value H)) : C.Rel (I.applyForced f args) (J.applyForced f args) := by
  -- Whatever is no function is refused alike.
  cases f with
  | builtin b =>
    unfold Interp.applyForced
    dsimp only
    split
    · exact respected.builtin b args
    · exact C.fail _
  | lambda params rest body env name => exact related.applyLambda params rest body name args
  | _ => exact C.fail _

/-- So it is behind the arguments and its own forcing. -/
theorem apply (related : I.Related C J) (respected : Respected C) (f : Value H)
    (args : List (Value H)) : C.Rel (I.apply f args) (J.apply f args) :=
  C.bind (related.forceAll args) fun args =>
    C.bind (related.force f) fun f => related.applyForced respected f args

/-- A definition evaluates its form and changes the root. -/
theorem sfDefine (related : I.Related C J) (respected : Respected C) (items : List Sexp) :
    C.Rel (I.sfDefine items env) (J.sfDefine items env) := by
  unfold Interp.sfDefine
  -- What is defined must have a name.
  split
  · split
    · exact C.fail _
    · exact C.bind (related.eval _ env) fun value =>
        C.bind (respected.define _ value) fun _ => C.pure value
  · exact C.fail _

/-- A recursive binding puts its thunks into cells. -/
theorem sfLetrec (related : I.Related C J) (respected : Respected C) (items : List Sexp) :
    C.Rel (I.sfLetrec items env) (J.sfLetrec items env) := by
  unfold Interp.sfLetrec
  split
  · -- All thunks are made before the body is evaluated.
    split
    · exact C.fail _
    · split
      · exact C.fail _
      · exact C.bind (respected.allocate _ env) fun newEnv => related.evalBody _
  · exact C.fail _

/-- A special form is evaluated alike. -/
theorem evalSpecial (related : I.Related C J) (respected : Respected C) (special : SpecialForm)
    (items : List Sexp) :
    C.Rel (I.evalSpecial special items env) (J.evalSpecial special items env) := by
  cases special with
  | quote =>
    unfold Interp.evalSpecial sfQuote
    dsimp only
    split
    · exact C.pure _
    · exact C.fail _
  | «if» => exact related.sfIf items
  | «let» => exact related.sfLet items
  | letrec => exact related.sfLetrec respected items
  | lambda =>
    -- The body is not evaluated yet.
    unfold Interp.evalSpecial sfLambda
    dsimp only
    split
    · split
      · exact C.fail _
      · exact C.pure _
    · exact C.fail _
  | define => exact related.sfDefine respected items
  | begin => exact related.evalBody _
  | and => exact related.andFrom _ _
  | or => exact related.orFrom _

/-- Interpreters whose calls are related evaluate a form alike. -/
theorem evalForm (related : I.Related C J) (respected : Respected C) (form : Sexp) :
    C.Rel (I.evalForm form env) (J.evalForm form env) := by
  cases form with
  | nil => exact C.pure _
  | atom a =>
    cases a with
    | symbol name =>
      simp only [Interp.evalForm, evalAtom]
      cases env.lookup name with
      | none => exact C.fail _
      | some value => exact C.pure value
    | keyword | str | int | float | bool => exact C.pure _
  | quote => exact C.pure _
  | quasiquote inner => exact related.quasi inner env
  | unquote | unquoteSplice => exact C.fail _
  | list items =>
    cases items with
    | nil => exact C.pure _
    | cons head args =>
      -- A list is a special form by its head, or else an application.
      cases is : specialForm head with
      | some special =>
        rw [I.evalForm_special is, J.evalForm_special is]
        exact related.evalSpecial respected special _
      | none =>
        rw [I.evalForm_application is, J.evalForm_application is]
        exact C.bind (related.eval head env) fun f =>
          C.bind (related.evalArgs args) fun args => related.apply respected f args

end Interp.Related

section extending

open Congruence (Extends extending)

/-- What the interpreter does by itself is what it does with a larger budget. -/
theorem respected_extending [Builtins H] : Respected (H := H) extending where
  root _ _ := id
  define _ _ _ _ := id
  allocate _ _ _ _ := id
  builtin _ _ _ _ := id

/-- Forcing answers wherever it does with interpreters that answer less. -/
theorem extends_force {I J : Interp H} (related : I.Related extending J) (v : Value H) :
    Extends (I.forceValue v) (J.forceValue v) := by
  cases v with
  | thunk cell =>
    refine extending.bind (fun _ _ => id) fun state => ?_
    -- The cell is set before and behind the evaluation, and the evaluation goes the same way.
    cases state with
    | none => exact fun _ _ => id
    | some state =>
      cases state with
      | unevaluated body env =>
        exact extending.bind (fun _ _ => id) fun _ => extending.bind (related.eval body env)
          fun value => extending.bind (related.force value) fun _ _ _ => id
      | evaluating | forced => exact fun _ _ => id
  | _ => exact extending.pure _

/-- An answer within a budget is the answer within every larger one. -/
theorem interp_extends [Builtins H] {budget larger : Nat} (le : budget ≤ larger) :
    (interp (H := H) budget).Related extending (interp larger) := by
  induction budget generalizing larger with
  | zero =>
    -- Without a budget there is no answer.
    exact ⟨fun _ _ _ _ none => (by cases none), fun _ _ _ _ none => (by cases none),
      fun _ _ _ none => (by cases none)⟩
  | succ budget ih =>
    obtain ⟨larger, rfl⟩ : ∃ n, larger = n + 1 := ⟨larger - 1, by omega⟩
    have related := @ih larger (by omega)
    exact ⟨fun form env => related.evalForm respected_extending form,
      fun form env => related.evalQuasiquote form, extends_force related⟩

end extending

end Tatara.Eval
