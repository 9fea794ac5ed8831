import Tatara.Lib.Lockstep
import Tatara.Lisp.Ast

/-! Runtime values of the interpreter, its environments, its errors and its state. -/

namespace Tatara.Eval

open Rust (F64)
open Lisp (Sexp Atom)

/-- How many arguments a builtin takes. -/
inductive Arity
  | exact (n : Nat)
  | atLeast (n : Nat)
  | any
  deriving DecidableEq, Repr

namespace Arity

/-- Whether so many arguments are accepted. -/
def check : Arity → Nat → Bool
  | exact n, got => got == n
  | atLeast n, got => got ≥ n
  | any, _ => true

/-- The text for an error. -/
def describe : Arity → String
  | exact n => toString n
  | atLeast n => "at least " ++ toString n
  | any => "any"

end Arity

/-- What the interpreter is embedded into: the builtins it is seeded with, the data that only they
build, and the world outside that they may act on. -/
structure Host where
  Builtin : Type
  name : Builtin → String
  arity : Builtin → Arity
  Derivation : Type
  StorePath : Type
  World : Type

/-- A host without builtins. -/
def emptyHost : Host where
  Builtin := Empty
  name := Empty.elim
  arity := Empty.elim
  Derivation := Empty
  StorePath := Empty
  World := Unit

/-- Runtime values; a thunk is known by its cell. -/
inductive Value (H : Host)
  | nil
  | bool (b : Bool)
  | int (n : Int64)
  | float (x : F64)
  | str (s : String)
  | symbol (s : String)
  | keyword (s : String)
  | path (p : String)
  | list (items : List (Value H))
  | attrs (fields : List (String × Value H))
  | lambda (params : List String) (rest : Option String) (body : List Sexp)
      (env : List (String × Value H)) (name : Option String)
  | builtin (b : H.Builtin)
  | thunk (cell : Nat)
  | derivation (d : H.Derivation)
  | storePath (p : H.StorePath)
  | quoted (form : Sexp)

/-- A scoped environment: each extension is a frame with one binding in front of its parent. -/
abbrev Env (H : Host) := List (String × Value H)

namespace Value

variable {H : Host}

/-- The name of the type of a value. -/
def typeName : Value H → String
  | nil => "nil"
  | bool _ => "bool"
  | int _ => "int"
  | float _ => "float"
  | str _ => "string"
  | symbol _ => "symbol"
  | keyword _ => "keyword"
  | path _ => "path"
  | list _ => "list"
  | attrs _ => "attrs"
  | lambda .. => "lambda"
  | builtin _ => "builtin"
  | thunk _ => "thunk"
  | derivation _ => "derivation"
  | storePath _ => "store-path"
  | quoted _ => "quoted"

/-- Everything but nil and false is true. -/
def isTruthy : Value H → Bool
  | nil | bool false => false
  | _ => true

end Value

/-- What can go wrong in an evaluation. -/
inductive EvalError
  | unbound (name : String)
  | type (expected found : String)
  | arity (name expected : String) (got : Nat)
  | malformed (form reason : String)
  | unknownBuiltin (name : String)
  | divByZero
  | derivation (reason : String)
  | missingAttr (name : String)
  | io (reason : String)
  | other (reason : String)
  deriving DecidableEq, Repr

/-- An evaluation ends in an error, or the program panics. -/
inductive Failure
  | error (e : EvalError)
  | panicked
  deriving DecidableEq, Repr

/-- The cell of a thunk. -/
inductive ThunkState (H : Host)
  | unevaluated (body : Sexp) (env : Env H)
  | evaluating
  | forced (value : Value H)

/-- What evaluation reads and changes: the cells of all thunks, the root environment, and the world
outside. -/
structure State (H : Host) where
  cells : List (ThunkState H)
  root : Env H
  world : H.World

/-- An evaluation, with a budget for how deep its calls nest. -/
abbrev Evaluation (H : Host) := Comp (State H) Failure

variable {H : Host} {α : Type}

/-- Fail with an error. -/
def raise (e : EvalError) : Evaluation H α := Comp.fail (.error e)

/-- Fail with an error about the shape of a special form. -/
def malformed (form reason : String) : Evaluation H α := raise (.malformed form reason)

/-- The special forms. -/
inductive SpecialForm
  | quote | «if» | «let» | letrec | lambda | define | begin | and | or
  deriving DecidableEq, Repr

/-- The special form of a name. -/
def SpecialForm.ofName : String → Option SpecialForm
  | "quote" => some .quote
  | "if" => some .if
  | "let" => some .let
  | "letrec" => some .letrec
  | "lambda" => some .lambda
  | "fn" => some .lambda
  | "define" => some .define
  | "begin" => some .begin
  | "do" => some .begin
  | "and" => some .and
  | "or" => some .or
  | _ => none

/-- The special form that a list with this head is. -/
def specialForm (head : Sexp) : Option SpecialForm := head.asSymbol.bind SpecialForm.ofName

/-- The names of a parameter list, and the one for the other arguments behind a marker. -/
def parseParamsFrom (sawRest : Bool) : List Sexp → Except EvalError (List String × Option String)
  | [] => .ok ([], none)
  | param :: more =>
    match param.asSymbol with
    | none => .error (.malformed "lambda" "param must be a symbol")
    | some name =>
      if name = "&rest" ∨ name = "&" then
        if more.length ≠ 1 then
          .error (.malformed "lambda" "&rest must be followed by exactly one name")
        else parseParamsFrom true more
      else if sawRest then .ok ([], some name)
      else (parseParamsFrom false more).map fun (params, rest) => (name :: params, rest)

/-- Parse the parameters of a lambda. -/
def parseParams (params : Sexp) : Except EvalError (List String × Option String) :=
  match params.asList with
  | none => .error (.malformed "lambda" "params must be a list")
  | some items => parseParamsFrom false items

/-- The name that a binding binds. -/
def bindingName (binding : Sexp) : Option String :=
  (binding.asList.bind List.head?).bind Sexp.asSymbol

end Tatara.Eval
