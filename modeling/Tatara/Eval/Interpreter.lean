import Tatara.Eval.Value

/-! The interpreter: special forms, application of evaluated arguments, and thunks. -/

namespace Tatara.Eval

open Lisp (Sexp Atom)

/-- The functions of the builtins; an answer may be missing, as when the process is ended. -/
class Builtins (H : Host) where
  run : H.Builtin → List (Value H) → Comp H.World Failure (Value H)

/-- The calls of the interpreter to itself, with what is left of the budget. -/
structure Interp (H : Host) where
  eval : Sexp → Env H → Evaluation H (Value H)
  quasi : Sexp → Env H → Evaluation H (Value H)
  force : Value H → Evaluation H (Value H)

variable {H : Host}

mutual

/-- A quoted form as a value. -/
def sexpToValue : Sexp → Value H
  | .nil => .nil
  | .atom (.int n) => .int n
  | .atom (.float x) => .float x
  | .atom (.str s) => .str s
  | .atom (.bool b) => .bool b
  | .atom (.keyword k) => .keyword k
  | .atom (.symbol name) => .symbol name
  | .list items => .list (sexpsToValues items)
  | other => .quoted other

/-- Quoted forms as values, one after the other. -/
def sexpsToValues : List Sexp → List (Value H)
  | [] => []
  | form :: rest => sexpToValue form :: sexpsToValues rest

end

/-- Evaluate an atom. -/
def evalAtom (atom : Atom) (env : Env H) : Evaluation H (Value H) :=
  match atom with
  | .int n => pure (.int n)
  | .float x => pure (.float x)
  | .str s => pure (.str s)
  | .bool b => pure (.bool b)
  | .keyword k => pure (.keyword k)
  | .symbol name =>
    match env.lookup name with
    | some value => pure value
    | none => raise (.unbound name)

/-- `(quote x)`. -/
def sfQuote (items : List Sexp) : Evaluation H (Value H) :=
  match items with
  | [_, form] => pure (sexpToValue form)
  | _ => malformed "quote" "expected (quote x)"

/-- `(lambda (params...) body...)` captures its environment. -/
def sfLambda (items : List Sexp) (env : Env H) : Evaluation H (Value H) :=
  match items with
  | _ :: params :: first :: more =>
    match parseParams params with
    | .error e => raise e
    | .ok (params, rest) => pure (.lambda params rest (first :: more) env none)
  | _ => malformed "lambda" "expected (lambda (params...) body...)"

/-- The names and expressions of the bindings of a letrec. -/
def letrecBindings : List Sexp → Except Failure (List (String × Sexp))
  | [] => .ok []
  | binding :: rest =>
    match binding.asList with
    | none => .error (.error (.malformed "letrec" "each binding must be (name val)"))
    -- The name and the value are taken by their places, whether there are any or not.
    | some [] => .error .panicked
    | some (binder :: more) =>
      match binder.asSymbol with
      | none => .error (.error (.malformed "letrec" "binding name must be a symbol"))
      | some name =>
        match more with
        | [] => .error .panicked
        | value :: _ => (letrecBindings rest).map fun bindings => (name, value) :: bindings

/-- Bind names to the thunks in a row of cells. -/
def bindThunks (cell : Nat) : List String → Env H → Env H
  | [], env => env
  | name :: rest, env => bindThunks (cell + 1) rest ((name, .thunk cell) :: env)

/-- Make a thunk for each binding, all of which see all of them. -/
def allocate (bindings : List (String × Sexp)) (env : Env H) : Evaluation H (Env H) :=
  Comp.change fun s =>
    let newEnv := bindThunks s.cells.length (bindings.map Prod.fst) env
    (newEnv, { s with
      cells := s.cells ++ bindings.map fun binding => .unevaluated binding.2 newEnv })

/-- Install a binding in the top-level environment. -/
def define (name : String) (value : Value H) : Evaluation H Unit :=
  Comp.change fun s => ((), { s with root := (name, value) :: s.root })

/-- The arguments of a call as its parameters, and the others as a list. -/
def bindParams (params : List String) (rest : Option String) (args : List (Value H))
    (env : Env H) : Env H :=
  let bound := (params.zip args).foldl (fun env binding => binding :: env) env
  match rest with
  | none => bound
  | some name => (name, .list (args.drop params.length)) :: bound

/-- Set a cell. -/
def setCell (cell : Nat) (thunk : ThunkState H) : Evaluation H Unit :=
  Comp.change fun s => ((), { s with cells := s.cells.set cell thunk })

namespace Interp

variable (I : Interp H)

/-- Evaluate forms in order; the value is that of the last one. -/
def evalBodyFrom (last : Value H) : List Sexp → Env H → Evaluation H (Value H)
  | [], _ => pure last
  | form :: rest, env => do
    let value ← I.eval form env
    evalBodyFrom value rest env

/-- Evaluate a body. -/
def evalBody (forms : List Sexp) (env : Env H) : Evaluation H (Value H) :=
  I.evalBodyFrom .nil forms env

/-- Evaluate arguments in order. -/
def evalArgs : List Sexp → Env H → Evaluation H (List (Value H))
  | [], _ => pure []
  | form :: rest, env => do
    let value ← I.eval form env
    let values ← evalArgs rest env
    pure (value :: values)

/-- Force values in order. -/
def forceAll : List (Value H) → Evaluation H (List (Value H))
  | [] => pure []
  | value :: rest => do
    let value ← I.force value
    let values ← forceAll rest
    pure (value :: values)

/-- The items of a template, into which splices are spread. -/
def quasiItems : List Sexp → Env H → Evaluation H (List (Value H))
  | [], _ => pure []
  | .unquoteSplice form :: rest, env => do
    let value ← I.eval form env
    match value with
    | .list items =>
      let values ← quasiItems rest env
      pure (items ++ values)
    | other => raise (.type "list (for ,@)" other.typeName)
  | form :: rest, env => do
    let value ← I.quasi form env
    let values ← quasiItems rest env
    pure (value :: values)

/-- Evaluate what a template leaves open. -/
def evalQuasiquote (inner : Sexp) (env : Env H) : Evaluation H (Value H) :=
  match inner with
  | .unquote form => I.eval form env
  | .list items => do
    let values ← I.quasiItems items env
    pure (.list values)
  | .atom a => pure (sexpToValue (.atom a))
  | .nil => pure (sexpToValue .nil)
  | .quote form => pure (.quoted form)
  | .quasiquote form => pure (.quoted form)
  | .unquoteSplice _ => malformed "quasiquote" "bare ,@ outside of list"

/-- `(if c t [e])`. -/
def sfIf (items : List Sexp) (env : Env H) : Evaluation H (Value H) :=
  match items with
  | [_, c, t] => do
    let cond ← I.eval c env
    if cond.isTruthy then I.eval t env else pure .nil
  | [_, c, t, e] => do
    let cond ← I.eval c env
    if cond.isTruthy then I.eval t env else I.eval e env
  | _ => malformed "if" "expected (if c t [e])"

/-- Evaluate the values of bindings in an environment, on the way to a new one. -/
def letEnv (env newEnv : Env H) : List Sexp → Evaluation H (Env H)
  | [] => pure newEnv
  | binding :: rest =>
    match binding.asList with
    | none => malformed "let" "each binding must be (name val)"
    | some [binder, value] =>
      match binder.asSymbol with
      | none => malformed "let" "binding name must be a symbol"
      | some name => do
        let value ← I.eval value env
        letEnv env ((name, value) :: newEnv) rest
    | some _ => malformed "let" "each binding must be (name val)"

/-- `(let ((name val)...) body...)` binds without recursion. -/
def sfLet (items : List Sexp) (env : Env H) : Evaluation H (Value H) :=
  match items with
  | _ :: bindings :: first :: more =>
    match bindings.asList with
    | none => malformed "let" "bindings must be a list"
    | some bindings => do
      let newEnv ← I.letEnv env env bindings
      I.evalBody (first :: more) newEnv
  | _ => malformed "let" "expected (let ((name val)...) body...)"

/-- `(letrec ((name val)...) body...)` binds names to thunks. -/
def sfLetrec (items : List Sexp) (env : Env H) : Evaluation H (Value H) :=
  match items with
  | _ :: bindings :: first :: more =>
    match bindings.asList with
    | none => malformed "letrec" "bindings must be a list"
    | some bindings =>
      match letrecBindings bindings with
      | .error e => Comp.fail e
      | .ok bindings => do
        let newEnv ← allocate bindings env
        I.evalBody (first :: more) newEnv
  | _ => malformed "letrec" "expected (letrec ((name val)...) body...)"

/-- `(define name expr)` binds a name in the top-level environment. -/
def sfDefine (items : List Sexp) (env : Env H) : Evaluation H (Value H) :=
  match items with
  | [_, target, form] =>
    match target.asSymbol with
    | none => malformed "define" "name must be a symbol"
    | some name => do
      let value ← I.eval form env
      define name value
      pure value
  | _ => malformed "define" "expected (define name expr)"

/-- `(begin form...)` evaluates forms in order. -/
def sfBegin (items : List Sexp) (env : Env H) : Evaluation H (Value H) :=
  I.evalBody items.tail env

/-- Evaluate forms as long as they are true. -/
def andFrom (last : Value H) : List Sexp → Env H → Evaluation H (Value H)
  | [], _ => pure last
  | form :: rest, env => do
    let value ← I.eval form env
    if value.isTruthy then andFrom value rest env else pure value

/-- `(and form...)`. -/
def sfAnd (items : List Sexp) (env : Env H) : Evaluation H (Value H) :=
  I.andFrom (.bool true) items.tail env

/-- Evaluate forms until one is true. -/
def orFrom : List Sexp → Env H → Evaluation H (Value H)
  | [], _ => pure (.bool false)
  | form :: rest, env => do
    let value ← I.eval form env
    if value.isTruthy then pure value else orFrom rest env

/-- `(or form...)`. -/
def sfOr (items : List Sexp) (env : Env H) : Evaluation H (Value H) :=
  I.orFrom items.tail env

/-- Call a closure with arguments. -/
def applyLambda (params : List String) (rest : Option String) (body : List Sexp) (env : Env H)
    (name : Option String) (args : List (Value H)) : Evaluation H (Value H) :=
  match rest with
  | none =>
    if args.length ≠ params.length then
      raise (.arity (name.getD "<lambda>") (toString params.length) args.length)
    else I.evalBody body (bindParams params rest args env)
  | some _ =>
    if args.length < params.length then
      raise (.arity (name.getD "<lambda>") ("at least " ++ toString params.length) args.length)
    else I.evalBody body (bindParams params rest args env)

variable [Builtins H]

/-- Call a value that is forced with arguments that are. -/
def applyForced (f : Value H) (args : List (Value H)) : Evaluation H (Value H) :=
  match f with
  | .builtin b =>
    if (H.arity b).check args.length then
      Comp.zoom State.world (fun world s => { s with world }) (Builtins.run b args)
    else raise (.arity (H.name b) (H.arity b).describe args.length)
  | .lambda params rest body env name => I.applyLambda params rest body env name args
  | other => raise (.type "callable" other.typeName)

/-- Apply a value to arguments, all of which are forced. -/
def apply (f : Value H) (args : List (Value H)) : Evaluation H (Value H) := do
  let args ← I.forceAll args
  let f ← I.force f
  I.applyForced f args

/-- Evaluate a special form. -/
def evalSpecial (form : SpecialForm) (items : List Sexp) (env : Env H) :
    Evaluation H (Value H) :=
  match form with
  | .quote => sfQuote items
  | .if => I.sfIf items env
  | .let => I.sfLet items env
  | .letrec => I.sfLetrec items env
  | .lambda => sfLambda items env
  | .define => I.sfDefine items env
  | .begin => I.sfBegin items env
  | .and => I.sfAnd items env
  | .or => I.sfOr items env

/-- Evaluate a form. -/
def evalForm (form : Sexp) (env : Env H) : Evaluation H (Value H) :=
  match form with
  | .nil => pure .nil
  | .atom a => evalAtom a env
  | .quote inner => pure (sexpToValue inner)
  | .quasiquote inner => I.quasi inner env
  | .unquote _ => malformed "unquote" "unquote outside quasiquote"
  | .unquoteSplice _ => malformed "unquote" "unquote outside quasiquote"
  | .list [] => pure .nil
  | .list (head :: args) =>
    -- Special forms come before the head is evaluated.
    match specialForm head with
    | some special => I.evalSpecial special (head :: args) env
    | none => do
      let f ← I.eval head env
      let args ← I.evalArgs args env
      I.apply f args

/-- A list is a special form when its head says so. -/
theorem evalForm_special {head : Sexp} {args : List Sexp} {special : SpecialForm}
    (is : specialForm head = some special) (env : Env H) :
    I.evalForm (.list (head :: args)) env = I.evalSpecial special (head :: args) env := by
  simp only [evalForm, is]

/-- Any other list is an application. -/
theorem evalForm_application {head : Sexp} {args : List Sexp} (plain : specialForm head = none)
    (env : Env H) :
    I.evalForm (.list (head :: args)) env =
      (I.eval head env >>= fun f => I.evalArgs args env >>= fun args => I.apply f args) := by
  simp only [evalForm, plain]

omit [Builtins H] in
/-- Force a thunk, and leave any other value as it is. -/
def forceValue (value : Value H) : Evaluation H (Value H) :=
  match value with
  | .thunk cell => do
    let state ← Comp.look fun s => s.cells[cell]?
    match state with
    | some (.forced value) => pure value
    | some .evaluating => raise (.other "thunk cycle: forcing an in-progress thunk")
    | some (.unevaluated body env) =>
      setCell cell .evaluating
      let value ← I.eval body env
      let value ← I.force value
      setCell cell (.forced value)
      pure value
    -- There is no thunk without its cell.
    | none => Comp.exhausted
  | other => pure other

/-- The interpreter with one more call of its budget. -/
def next : Interp H where
  eval := I.evalForm
  quasi := I.evalQuasiquote
  force := I.forceValue

end Interp

variable [Builtins H]

/-- The interpreter with a budget for how deep its calls nest. -/
def interp : Nat → Interp H
  | 0 => ⟨fun _ _ => Comp.exhausted, fun _ _ => Comp.exhausted, fun _ => Comp.exhausted⟩
  | budget + 1 => (interp budget).next

/-- Evaluate top-level forms, each in the root environment that the ones before have left. -/
def evalFormsFrom (budget : Nat) (last : Value H) : List Sexp → Evaluation H (Value H)
  | [] => pure last
  | form :: rest => do
    let env ← Comp.look State.root
    let value ← (interp budget).eval form env
    evalFormsFrom budget value rest

/-- Evaluate top-level forms; the value is that of the last one. -/
def evalForms (budget : Nat) (forms : List Sexp) : Evaluation H (Value H) :=
  evalFormsFrom budget .nil forms

end Tatara.Eval
