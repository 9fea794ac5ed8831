import Tatara.Lisp.Error

/-! Macro definitions, and the two strategies that fill in their templates. -/

namespace Tatara.Lisp

open Tatara.Rust

/-- A parameter that a call may leave out. -/
structure OptionalParam where
  name : String
  default : Option Sexp
  deriving DecidableEq, Repr

namespace OptionalParam

/-- An optional parameter without a default. -/
def bare (name : String) : OptionalParam := ⟨name, none⟩

/-- An optional parameter with a default. -/
def withDefault (name : String) (default : Sexp) : OptionalParam := ⟨name, some default⟩

/-- What a parameter that was left out is bound to. -/
def resolvedDefault (param : OptionalParam) : Sexp := param.default.getD .nil

end OptionalParam

/-- A parsed parameter list. -/
structure MacroParams where
  required : List String
  optional : List OptionalParam
  rest : Option String
  deriving DecidableEq, Repr

/-- A macro definition. -/
structure MacroDef where
  name : String
  params : MacroParams
  body : Sexp
  deriving DecidableEq, Repr

/-- The part of the body that is filled in, which is what an outer quasiquote wraps. -/
def MacroDef.templateBody (defn : MacroDef) : Sexp :=
  match defn.body with
  | .quasiquote inner => inner
  | other => other

namespace MacroParams

/-- The symbol that announces the rest parameter. -/
def restMarker : String := "&rest"

/-- The symbol that opens the optional section. -/
def optionalMarker : String := "&optional"

/-- All parameter names in order, the rest parameter last. -/
def names (params : MacroParams) : List String :=
  params.required ++ params.optional.map (·.name) ++ params.rest.toList

/-- The number of parameters that take one argument each. -/
def fixedArity (params : MacroParams) : Nat := params.required.length + params.optional.length

/-- The number of parameters, the rest parameter included. -/
def totalArity (params : MacroParams) : Nat :=
  params.fixedArity + if params.rest.isSome then 1 else 0

/-- The arguments of the required parameters, from the given position on. -/
def bindRequired (macroName : String) (args : List Sexp) :
    Nat → List String → Except LispError (List Sexp)
  | _, [] => .ok []
  | i, name :: rest =>
    match args[i]? with
    | none => .error (.missingMacroArg macroName name)
    | some arg => (bindRequired macroName args (i + 1) rest).map (arg :: ·)

/-- The arguments of the optional parameters, from the given position on. -/
def bindOptional (args : List Sexp) : Nat → List OptionalParam → List Sexp
  | _, [] => []
  | i, param :: rest => args[i]?.getD param.resolvedDefault :: bindOptional args (i + 1) rest

/-- Bind a call's arguments to the parameters, in the order of their names. -/
def bind (params : MacroParams) (macroName : String) (args : List Sexp) :
    Except LispError (List Sexp) :=
  match bindRequired macroName args 0 params.required with
  | .error err => .error err
  | .ok required =>
    let fixed := required ++ bindOptional args params.required.length params.optional
    match params.rest with
    | some _ => .ok (fixed ++ [.list (args.drop params.fixedArity)])
    | none =>
      if params.fixedArity < args.length then
        .error (.tooManyMacroArgs macroName params.fixedArity args.length)
      else .ok fixed

end MacroParams

section definitions

variable [CharTable]

/-- An optional parameter that is written with its default. -/
def parseOptionalListSpec (position : Nat) (items : List Sexp) : Except LispError OptionalParam :=
  match OptionalParamMalformedReason.classifyArity items.length with
  | some reason => .error (.optionalParamMalformed position (Sexp.list items).witness reason)
  | none =>
    match items with
    | name :: default :: _ =>
      match name.asSymbol with
      | none => .error (.optionalParamMalformed position (Sexp.list items).witness .nonSymbolName)
      | some name => .ok (.withDefault name default)
    -- The arity gate admits only pairs, so no shorter list arrives here.
    | _ => .error (.optionalParamMalformed position (Sexp.list items).witness .emptyList)

/-- The loop over a parameter list, with the position of the optional marker once it was seen. -/
def parseParamsFrom (i : Nat) (required : List String) (optional : List OptionalParam)
    (marker : Option Nat) : List Sexp → Except LispError MacroParams
  | [] => .ok ⟨required, optional, none⟩
  | .list items :: rest =>
    -- A list is a parameter only in the optional section.
    if marker.isSome then
      match parseOptionalListSpec i items with
      | .error err => .error err
      | .ok param => parseParamsFrom (i + 1) required (optional ++ [param]) marker rest
    else .error (.nonSymbolParam i (Sexp.list items).witness)
  | item :: rest =>
    match item.asSymbol with
    | none => .error (.nonSymbolParam i item.witness)
    | some s =>
      if s = MacroParams.restMarker then
        match rest with
        | [] => .error (.restParamMissingName i none)
        | next :: trailing =>
          match next.asSymbol with
          | none => .error (.restParamMissingName i (some next.witness))
          | some name =>
            match trailing with
            | [] => .ok ⟨required, optional, some name⟩
            | first :: _ => .error (.restParamTrailingTokens i trailing.length first.witness)
      else if s = MacroParams.optionalMarker then
        match marker with
        | some first => .error (.optionalMarkerRepeated first i)
        | none => parseParamsFrom (i + 1) required optional (some i) rest
      else if marker.isSome then
        parseParamsFrom (i + 1) required (optional ++ [.bare s]) marker rest
      else parseParamsFrom (i + 1) (required ++ [s]) optional marker rest

/-- `parse_params`. -/
def parseParams (list : List Sexp) : Except LispError MacroParams :=
  parseParamsFrom 0 [] [] none list

/-- The macro a form defines, or nothing when its head defines none. -/
def macroDefFrom (form : Sexp) : Except LispError (Option MacroDef) :=
  match form.asCallToAny MacroDefHead.fromKeyword with
  | none => .ok none
  | some (head, args) =>
    match args with
    | name :: paramList :: body :: _ =>
      match name.asSymbol with
      | none => .error (.defmacroNonSymbolName head name.witness)
      | some name =>
        match paramList.asList with
        | none => .error (.defmacroNonListParams head paramList.witness)
        | some params => (parseParams params).map fun params => some ⟨name, params, body⟩
    | _ => .error (.defmacroArity head (args.length + 1))

/-- The symbol an unquote names. -/
def unquoteTargetSymbol (inner : Sexp) (marker : UnquoteForm) : Except LispError String :=
  match inner.asSymbol with
  | none => .error (.nonSymbolUnquoteTarget marker inner.witness)
  | some name => .ok name

/-- The position of a name's first occurrence among the parameters. -/
def resolveParamIndex (name : String) (params : List String) (marker : UnquoteForm) :
    Except LispError Nat :=
  match params.findIdx? (· == name) with
  | none => .error (unboundTemplateVar marker name params)
  | some idx => .ok idx

/-- The parameter index an unquote stands for. -/
def resolveUnquoteInParams (inner : Sexp) (params : List String) (marker : UnquoteForm) :
    Except LispError Nat :=
  match unquoteTargetSymbol inner marker with
  | .error err => .error err
  | .ok name => resolveParamIndex name params marker

end definitions

/-- One instruction of a compiled template. -/
inductive TemplateOp where
  | literal (form : Sexp)
  | subst (idx : Nat)
  | splice (idx : Nat)
  | beginList
  | endList
  deriving DecidableEq, Repr

/-- A compiled template. -/
structure CompiledTemplate where
  ops : List TemplateOp
  deriving DecidableEq, Repr

mutual

/-- Whether an unquote of either kind occurs anywhere in a form. -/
def containsUnquote : Sexp → Bool
  | .quote inner => containsUnquote inner
  | .quasiquote inner => containsUnquote inner
  | .unquote _ => true
  | .unquoteSplice _ => true
  | .list items => containsUnquoteItems items
  | _ => false

/-- Whether an unquote of either kind occurs in one of the items. -/
def containsUnquoteItems : List Sexp → Bool
  | [] => false
  | x :: xs => containsUnquote x || containsUnquoteItems xs

end

section strategies

variable [CharTable]

mutual

/-- The instructions that rebuild one node of a template. -/
def compileNode (params : List String) (node : Sexp) : Except LispError (List TemplateOp) :=
  -- A subtree without unquotes is emitted whole.
  if containsUnquote node = false then .ok [.literal node]
  else match node with
    | .unquote inner => (resolveUnquoteInParams inner params .unquote).map ([.subst ·])
    | .unquoteSplice inner => (resolveUnquoteInParams inner params .splice).map ([.splice ·])
    | .list items => (compileItems params items).map fun ops => .beginList :: (ops ++ [.endList])
    | _ => .ok [.literal node]

/-- The instructions that rebuild the items of a list. -/
def compileItems (params : List String) : List Sexp → Except LispError (List TemplateOp)
  | [] => .ok []
  | x :: xs =>
    match compileNode params x with
    | .error err => .error err
    | .ok ops => (compileItems params xs).map (ops ++ ·)

end

/-- `compile_template`. -/
def compileTemplate (defn : MacroDef) : Except LispError CompiledTemplate :=
  match defn.templateBody with
  | .unquoteSplice inner => .error (.spliceOutsideList inner.witness)
  | body => (compileNode defn.params.names body).map (⟨·⟩)

end strategies

/-- Splicing appends the items of a list, nothing for the empty form, and any other form itself. -/
def spliceValueInto (builder : List Sexp) : Sexp → List Sexp
  | .list items => builder ++ items
  | .nil => builder
  | other => builder ++ [other]

/-- How a computation of the expander ends without a value: by an error it returns, or by a panic
that unwinds it. -/
inductive Halt where
  | error (err : LispError)
  | panic
  deriving DecidableEq, Repr

/-- Change the list builder on top of the stack, which must not be empty. -/
def onCurrentBuilder (change : List Sexp → List Sexp) :
    List (List Sexp) → Except Halt (List (List Sexp))
  | [] => .error .panic
  | top :: below => .ok (change top :: below)

/-- One instruction of a compiled template, on the stack of list builders. -/
def stepOp (macroName : String) (args : List Sexp) (stack : List (List Sexp)) :
    TemplateOp → Except Halt (List (List Sexp))
  | .literal form => onCurrentBuilder (· ++ [form]) stack
  | .subst idx =>
    match args[idx]? with
    | none => .error (.error (.templateInvariant macroName (.substBadIndex idx)))
    | some value => onCurrentBuilder (· ++ [value]) stack
  | .splice idx =>
    match args[idx]? with
    | none => .error (.error (.templateInvariant macroName (.spliceBadIndex idx)))
    | some value => onCurrentBuilder (spliceValueInto · value) stack
  | .beginList => .ok ([] :: stack)
  | .endList =>
    match stack with
    | [] => .error (.error (.templateInvariant macroName .endListEmptyStack))
    | items :: below => onCurrentBuilder (· ++ [.list items]) below

/-- The instructions in order. -/
def runOps (macroName : String) (args : List Sexp) :
    List TemplateOp → List (List Sexp) → Except Halt (List (List Sexp))
  | [], stack => .ok stack
  | op :: ops, stack =>
    match stepOp macroName args stack op with
    | .error halt => .error halt
    | .ok stack => runOps macroName args ops stack

/-- `apply_compiled`. -/
def applyCompiled (macroName : String) (params : MacroParams) (tmpl : CompiledTemplate)
    (args : List Sexp) : Except Halt Sexp :=
  match params.bind macroName args with
  | .error err => .error (.error err)
  | .ok values =>
    match runOps macroName values tmpl.ops [[]] with
    | .error halt => .error halt
    | .ok [] => .error (.error (.templateInvariant macroName .finalNoValue))
    | .ok ([value] :: _) => .ok value
    | .ok (top :: _) => .ok (.list top)

/-- Name-keyed bindings. -/
abbrev Bindings := Std.ExtTreeMap String Sexp

/-- Collecting pairs into a map keeps the last value of each key. -/
def collectBindings (pairs : List (String × Sexp)) : Bindings :=
  pairs.foldl (fun bindings pair => bindings.insert pair.1 pair.2) ∅

/-- `bind_args`. -/
def bindArgs (macroName : String) (params : MacroParams) (args : List Sexp) :
    Except LispError Bindings :=
  (params.bind macroName args).map fun values => collectBindings (params.names.zip values)

section substitution

variable [CharTable]

/-- The bound value of a name. -/
def resolveBinding (bindings : Bindings) (name : String) (marker : UnquoteForm) :
    Except LispError Sexp :=
  match bindings[name]? with
  | none => .error (unboundTemplateVar marker name bindings.keys)
  | some value => .ok value

/-- The bound value an unquote stands for. -/
def resolveUnquoteInBindings (inner : Sexp) (bindings : Bindings) (marker : UnquoteForm) :
    Except LispError Sexp :=
  match unquoteTargetSymbol inner marker with
  | .error err => .error err
  | .ok name => resolveBinding bindings name marker

mutual

/-- `substitute`. -/
def substitute (bindings : Bindings) : Sexp → Except LispError Sexp
  | .unquote inner => resolveUnquoteInBindings inner bindings .unquote
  | .unquoteSplice inner => .error (.spliceOutsideList inner.witness)
  | .list items => (substituteItems bindings [] items).map .list
  | form => .ok form

/-- The loop over the items of a list, with what was built so far. -/
def substituteItems (bindings : Bindings) (out : List Sexp) :
    List Sexp → Except LispError (List Sexp)
  | [] => .ok out
  | .unquoteSplice inner :: rest =>
    match resolveUnquoteInBindings inner bindings .splice with
    | .error err => .error err
    | .ok value => substituteItems bindings (spliceValueInto out value) rest
  | item :: rest =>
    match substitute bindings item with
    | .error err => .error err
    | .ok value => substituteItems bindings (out ++ [value]) rest

end

/-- Filling in the template by name, on which the expander falls back where none is compiled. -/
def applySubstitute (defn : MacroDef) (args : List Sexp) : Except Halt Sexp :=
  match bindArgs defn.name defn.params args with
  | .error err => .error (.error err)
  | .ok bindings => (substitute bindings defn.templateBody).mapError .error

end substitution

end Tatara.Lisp
