import Tatara.Lisp.Error
import Tatara.Rust.Data

/-! Forms as JSON values, JSON values as forms, and typed values rewritten as forms. -/

namespace Tatara.Lisp

open Tatara.Rust

section Keys

variable [CaseTable]

/-- The loop of `kebab_to_camel`, after a dash or not. -/
def camelChars (upper : Bool) : List Char → List Char
  | [] => []
  | c :: rest =>
    if c = '-' then camelChars true rest
    else if upper then CaseTable.toUppercase c ++ camelChars false rest
    else c :: camelChars false rest

/-- `must-reach` becomes `mustReach`. -/
def kebabToCamel (s : String) : String := String.ofList (camelChars false s.toList)

/-- The loop of `camel_to_kebab`, at the first character or behind it. -/
def kebabChars (first : Bool) : List Char → List Char
  | [] => []
  | c :: rest =>
    -- A letter can have more than one character in the other case.
    if CaseTable.isUppercase c && !first then
      '-' :: (CaseTable.toLowercase c ++ kebabChars false rest)
    else c :: kebabChars false rest

/-- `mustReach` becomes `must-reach`. -/
def camelToKebab (s : String) : String := String.ofList (kebabChars true s.toList)

end Keys

namespace Atom

/-- The JSON form of an atom. -/
def toJson : Atom → Json
  | .symbol name => .string name
  | .keyword name => .string (":" ++ name)
  | .str text => .string text
  | .int value => .number (.ofI64 value)
  -- JSON has no infinities and no NaN.
  | .float value => match JsonNumber.ofF64 value with
    | some number => .number number
    | none => .null
  | .bool value => .bool value

/-- A JSON number as an integer if it is one, and as a float otherwise. -/
def fromJsonNumber (n : JsonNumber) : Atom :=
  match n.asI64 with
  | some i => .int i
  | none => match n.asF64 with
    | some x => .float x
    | none => .int 0

end Atom

namespace Sexp

/-- `as_keyword`: the name of a keyword. -/
def asKeyword : Sexp → Option String
  | .atom (.keyword name) => some name
  | _ => none

/-- Every other item, from the first on, is a keyword. -/
def keywordsAlternate : List Sexp → Bool
  | [] => true
  | [key] => key.asKeyword.isSome
  | key :: _ :: rest => key.asKeyword.isSome && keywordsAlternate rest

/-- Whether items are keywords and values in turn, and at least one of each. -/
def isKwargsList (items : List Sexp) : Bool :=
  !items.isEmpty && items.length % 2 == 0 && keywordsAlternate items

section Bridge

variable [CaseTable]

mutual

/-- The JSON form of a form. -/
def toJson : Sexp → Except LispError Json
  | .nil => .ok .null
  | .atom a => .ok a.toJson
  | .list items =>
    if isKwargsList items then do
      let fields ← kwargsToJson [] items
      return .object fields
    else do
      let values ← itemsToJson items
      return .array values
  -- Quotes are not kept in JSON.
  | .quote inner => toJson inner
  | .quasiquote inner => toJson inner
  | .unquote inner => toJson inner
  | .unquoteSplice inner => toJson inner

/-- The JSON forms of the items of a list. -/
def itemsToJson : List Sexp → Except LispError (List Json)
  | [] => .ok []
  | item :: items => do
    let value ← toJson item
    let values ← itemsToJson items
    return value :: values

/-- Add keywords and values in turn to the fields of an object. -/
def kwargsToJson (fields : List (String × Json)) :
    List Sexp → Except LispError (List (String × Json))
  | key :: item :: rest =>
    match key.asKeyword with
    | some k => do
      let value ← toJson item
      -- Two keywords that differ before the conversion only are the same field.
      if fields.any (·.1 = kebabToCamel k) then .error (.duplicateKwarg k)
      else kwargsToJson (Json.insertField (kebabToCamel k) value fields) rest
    | none => .ok fields
  | _ => .ok fields

end

mutual

/-- The form of a JSON value. -/
def fromJson : Json → Sexp
  | .null => .nil
  | .bool b => .atom (.bool b)
  | .number n => .atom (.fromJsonNumber n)
  | .string text => .atom (.str text)
  | .array items => .list (itemsFromJson items)
  | .object fields => .list (kwargsFromJson fields)

/-- The forms of the items of an array. -/
def itemsFromJson : List Json → List Sexp
  | [] => []
  | item :: items => fromJson item :: itemsFromJson items

/-- The fields of an object as keywords and values in turn. -/
def kwargsFromJson : List (String × Json) → List Sexp
  | [] => []
  | (key, value) :: fields =>
    .atom (.keyword (camelToKebab key)) :: fromJson value :: kwargsFromJson fields

end

end Bridge

end Sexp

/-- A type that is written in Lisp: its keyword, its reading of arguments, and its `Serialize`. -/
structure TataraDomain (T : Type) where
  keyword : String
  compileFromArgs : List Sexp → Except LispError T
  toValue : T → Except String JsonValue

/-- Rewrite a typed value as a form, and read the result as the type again. -/
def rewriteTyped [CharTable] [CaseTable] {T : Type} (domain : TataraDomain T) (input : T)
    (rewrite : Sexp → Except LispError Sexp) : Except LispError T := do
  let json ← match domain.toValue input with
    | .ok json => .ok json
    | .error message => .error (.domainSerialize domain.keyword message)
  let rewritten ← rewrite (Sexp.fromJson json.json)
  match rewritten with
  -- The rewriter has to leave a list of arguments.
  | .list items => domain.compileFromArgs items
  | other => .error (.rewriterNonList domain.keyword other.witness)

end Tatara.Lisp
