import Tatara.Lisp.Ast

/-! Rejections of the reader, the expander, and the typed boundary, with the data each carries. -/

namespace Tatara.Lisp

open Tatara.Rust

/-- The outer shape of a form, as diagnostics name it. -/
inductive SexpShape where
  | nil
  | symbol
  | keyword
  | string
  | int
  | float
  | bool
  | list
  | quote
  | quasiquote
  | unquote
  | unquoteSplice
  deriving DecidableEq, Repr

/-- The shape of a form. -/
def Sexp.shape : Sexp → SexpShape
  | .nil => .nil
  | .atom (.symbol _) => .symbol
  | .atom (.keyword _) => .keyword
  | .atom (.str _) => .string
  | .atom (.int _) => .int
  | .atom (.float _) => .float
  | .atom (.bool _) => .bool
  | .list _ => .list
  | .quote _ => .quote
  | .quasiquote _ => .quasiquote
  | .unquote _ => .unquote
  | .unquoteSplice _ => .unquoteSplice

/-- An offending form, by its shape and by its text. -/
structure SexpWitness where
  shape : SexpShape
  display : String
  deriving DecidableEq, Repr

/-- The witness of a form. -/
def Sexp.witness [CharTable] (form : Sexp) : SexpWitness := ⟨form.shape, form.toString⟩

/-- The three heads that define a macro. -/
inductive MacroDefHead where
  | defMacro
  | defPointTemplate
  | defCheck
  deriving DecidableEq, Repr

/-- The head a keyword spells. -/
def MacroDefHead.fromKeyword (head : String) : Option MacroDefHead :=
  if head = "defmacro" then some .defMacro
  else if head = "defpoint-template" then some .defPointTemplate
  else if head = "defcheck" then some .defCheck
  else none

/-- Why a parenthesized optional parameter is refused. -/
inductive OptionalParamMalformedReason where
  | emptyList
  | missingDefault
  | extraElements (length : Nat)
  | nonSymbolName
  deriving DecidableEq, Repr

/-- An optional parameter written as a list has exactly a name and a default. -/
def OptionalParamMalformedReason.classifyArity : Nat → Option OptionalParamMalformedReason
  | 0 => some .emptyList
  | 1 => some .missingDefault
  | 2 => none
  | length => some (.extraElements length)

/-- The ways a compiled template can fail to be well formed at run time. -/
inductive TemplateInvariantKind where
  | substBadIndex (index : Nat)
  | spliceBadIndex (index : Nat)
  | endListEmptyStack
  | finalNoValue
  deriving DecidableEq, Repr

/-- The place in the keyword arguments of a form that an error is about. -/
inductive KwargPath where
  | named (key : String)
  | item (key : String) (idx : Nat)
  | slot (idx : Nat)
  deriving DecidableEq, Repr

/-- What is expected at a place in the keyword arguments. -/
inductive ExpectedKwargShape where
  | keyword
  | string
  | int
  | number
  | bool
  | list
  | listOfStrings
  | listOfBools
  | listOfInts
  | listOfNumbers
  deriving DecidableEq, Repr

/-- The rejections that the reader, the macro definitions, the expander, and the typed boundary
raise. -/
inductive LispError where
  | unterminatedString (pos : Nat)
  | unmatchedParen (pos : Nat)
  | unmatchedOpenParen (pos : Nat)
  | eof (pos : Nat)
  | unboundTemplateVar (marker : UnquoteForm) (name : String) (hint : Option String)
  | nonSymbolUnquoteTarget (marker : UnquoteForm) (got : SexpWitness)
  | spliceOutsideList (got : SexpWitness)
  | missingMacroArg (macroName param : String)
  | tooManyMacroArgs (macroName : String) (expected got : Nat)
  | nonSymbolParam (position : Nat) (got : SexpWitness)
  | restParamMissingName (restPosition : Nat) (got : Option SexpWitness)
  | restParamTrailingTokens (restPosition extra : Nat) (first : SexpWitness)
  | optionalMarkerRepeated (firstPosition secondPosition : Nat)
  | optionalParamMalformed (position : Nat) (got : SexpWitness)
      (reason : OptionalParamMalformedReason)
  | defmacroArity (head : MacroDefHead) (arity : Nat)
  | defmacroNonSymbolName (head : MacroDefHead) (got : SexpWitness)
  | defmacroNonListParams (head : MacroDefHead) (got : SexpWitness)
  | templateInvariant (macroName : String) (kind : TemplateInvariantKind)
  | expansionDepthExceeded (macroName : String) (limit : Nat)
  | expansionSizeExceeded (macroName : String) (size limit : Nat)
  | macroBodySizeExceeded (macroName : String) (size limit : Nat)
  | registeredMacrosExceeded (macroName : String) (count limit : Nat)
  | macroArityExceeded (macroName : String) (arity limit : Nat)
  | typeMismatch (form : KwargPath) (expected : ExpectedKwargShape) (got : SexpShape)
  | oddKwargs (dangling : String)
  | duplicateKwarg (key : String)
  | unknownKwarg (key : String) (hint : Option String) (allowed : List String)
  | domainSerialize (keyword message : String)
  | rewriterNonList (keyword : String) (got : SexpWitness)
  deriving DecidableEq, Repr

/-- How far a near miss may be from the name it was meant to be. -/
def suggestionBound (needle : String) : Nat :=
  let n := needle.length
  if n ≤ 3 then 1 else if n ≤ 7 then 2 else 3

/-- One row of the edit-distance table, from the row above and the entry to the left. -/
def levenshteinRow (ca : Char) : List Char → List Nat → Nat → List Nat
  | cb :: bs, above :: aboveNext :: row, left =>
    let cost := if ca = cb then 0 else 1
    let entry := min (min (aboveNext + 1) (left + 1)) (above + cost)
    entry :: levenshteinRow ca bs (aboveNext :: row) entry
  | _, _, _ => []

/-- The rows of the edit-distance table, one for each character of the first word. -/
def levenshteinRows (b : List Char) : List Char → Nat → List Nat → List Nat
  | [], _, row => row
  | ca :: as, i, row => levenshteinRows b as (i + 1) ((i + 1) :: levenshteinRow ca b row (i + 1))

/-- The number of single-character edits between two words. -/
def levenshtein (a b : String) : Nat :=
  if a.toList = [] then b.length
  else if b.toList = [] then a.length
  else (levenshteinRows b.toList a.toList 0 (List.range (b.length + 1))).getLastD 0

/-- The nearest candidate within the bound, the alphabetically first among equals. -/
def suggest (needle : String) (candidates : List String) : Option String :=
  let bound := suggestionBound needle
  let step (best : Option (Nat × String)) (candidate : String) : Option (Nat × String) :=
    if candidate = needle then best
    else
      let dist := levenshtein needle candidate
      if bound < dist then best
      else match best with
        | none => some (dist, candidate)
        | some (bd, bc) =>
          if dist < bd ∨ (dist = bd ∧ candidate < bc) then some (dist, candidate) else best
  (candidates.foldl step none).map (·.2)

/-- A template names a variable that is not in scope. -/
def unboundTemplateVar (marker : UnquoteForm) (name : String) (candidates : List String) :
    LispError :=
  .unboundTemplateVar marker name (suggest name candidates)

end Tatara.Lisp
