import Tatara.Rust.JsonPath

/-! The module system: contributions to a shared config, their priorities, and how they join. -/

namespace Tatara.Nix

open Rust (Json JsonNumber JsonValue F64 segments)
open Rust.Json (field insertField valueAt)

mutual

/-- A concrete option type. -/
inductive OptionType where
  | bool | int | str | float | path | package
  | listOf (item : OptionType)
  | attrsOf (value : OptionType)
  | enum (choices : List String)
  | submodule (options : List ModuleOption)
  /-- The escape hatch: anything at all. -/
  | any

/-- A typed option: what a module says it accepts. -/
inductive ModuleOption where
  | mk (name : String) (optionType : OptionType)

end

/-- Where a contribution to a list goes. -/
inductive Placement
  | before | after
  deriving DecidableEq, Repr

/-- A lattice-flavored expression that a path is assigned. -/
inductive MkExpr
  | set (value : JsonValue)
  | «if» (condition value : JsonValue)
  | force (value : JsonValue)
  | default (value : JsonValue)
  | merge (values : List JsonValue)
  | order (placement : Placement) (value : JsonValue)

/-- A path-to-expression assignment. -/
structure ConfigAssignment where
  path : String
  expr : MkExpr

/-- A module: the options it declares and the values it assigns. -/
structure Module where
  options : List ModuleOption
  config : List ConfigAssignment

/-- Resolution priority, of which the lower number is the higher one. -/
structure Priority where
  level : Int
  deriving DecidableEq, Repr

namespace Priority

def force : Priority := ⟨50⟩
def normal : Priority := ⟨100⟩
def default : Priority := ⟨1000⟩

end Priority

/-- A contribution to a path: a value with its priority and its placement. -/
structure Contribution where
  priority : Priority
  value : JsonValue
  order : Option Placement

/-- Why the modules have no config. An error about a value keeps it, as the source keeps its
text. -/
inductive ResolveError
  | scalarConflict (path : String) (left right : Json)
  | typeMismatch (path kindA kindB : String)
  | nonBoolCondition (path : String)
  | optionTypeMismatch (path expected got : String) (value : Json)
  | enumChoiceInvalid (path value : String) (choices : List String)

def valueKind : Json → String
  | .null => "null"
  | .bool _ => "bool"
  | .number _ => "number"
  | .string _ => "string"
  | .array _ => "array"
  | .object _ => "object"

def isTruthy : Json → Bool
  | .bool b => b
  | .null => false
  | .number n => (n.asF64.map fun x => decide (x.magnitude ≠ 0)).getD true
  | .string s => !s.isEmpty
  | .array a => !a.isEmpty
  | .object o => !o.isEmpty

/-- The contributions collected so far, by dotted path. -/
abbrev Contributions := Std.ExtTreeMap String (List Contribution)

def push (out : Contributions) (path : String) (priority : Priority) (value : JsonValue)
    (order : Option Placement) : Contributions :=
  out.insert path (out.getD path [] ++ [⟨priority, value, order⟩])

/-- Expand an expression at a path into contributions. -/
def collect (expr : MkExpr) (path : String) (out : Contributions) : Contributions :=
  match expr with
  | .set value => push out path .normal value none
  | .if condition value =>
    -- An explicit `false` is a skip, not a value.
    if isTruthy condition.json then push out path .normal value none else out
  | .force value => push out path .force value none
  | .default value => push out path .default value none
  | .merge values => values.foldl (fun out v => push out path .normal v none) out
  | .order placement value => push out path .normal value (some placement)

/-- All contributions of the modules, in the order of the modules. -/
def collectAll (modules : List Module) : Contributions :=
  modules.foldl
    (fun out module =>
      module.config.foldl (fun out assign => collect assign.expr assign.path out) out) ∅

/-- The contributions of the highest priority. -/
def winners (contribs : List Contribution) : List Contribution :=
  match (contribs.map fun c => c.priority.level).min? with
  | none => []
  | some minPriority => contribs.filter fun c => c.priority.level = minPriority

mutual

/-- Join a value under a key with one more value for it, as two contributions without a place. -/
def joinPair (path : String) (existing : Json) : Json → Except ResolveError Json
  | .array items =>
    match existing with
    | .array old => .ok (.array (old ++ items))
    | other => .error (.typeMismatch path (valueKind other) "array")
  | .object fields =>
    match existing with
    | .object old => (joinFields path old fields).map .object
    | other => .error (.typeMismatch path (valueKind other) "object")
  | .null => joinScalar path existing .null
  | .bool b => joinScalar path existing (.bool b)
  | .number n => joinScalar path existing (.number n)
  | .string s => joinScalar path existing (.string s)
where
  joinScalar (path : String) (existing v : Json) : Except ResolveError Json :=
    if valueKind v ≠ valueKind existing then
      .error (.typeMismatch path (valueKind existing) (valueKind v))
    else .error (.scalarConflict path existing v)

/-- Merge the fields of one more object into the fields merged so far. -/
def joinFields (path : String) (merged : List (String × Json)) :
    List (String × Json) → Except ResolveError (List (String × Json))
  | [] => .ok merged
  | (k, v) :: rest =>
    match merged.lookup k with
    | some existing =>
      match joinPair (path ++ "." ++ k) existing v with
      | .error e => .error e
      | .ok joined => joinFields path (insertField k joined merged) rest
    | none => joinFields path (insertField k v merged) rest

end

/-- The items that contributions with one placement give. -/
def itemsPlaced (place : Option Placement) (contribs : List Contribution) : List Json :=
  contribs.flatMap fun c =>
    match c.value.json with
    | .array items => if c.order = place then items else []
    | _ => []

def joinLists (contribs : List Contribution) : Json :=
  .array (itemsPlaced (some .before) contribs ++ itemsPlaced none contribs ++
    itemsPlaced (some .after) contribs)

/-- Merge the fields of one more contribution, which must be an object. -/
def joinObject (path : String) (merged : List (String × Json)) (c : Contribution) :
    Except ResolveError (List (String × Json)) :=
  match c.value.json with
  | .object m => joinFields path merged m
  | other => .error (.typeMismatch path "object" (valueKind other))

def joinObjects (path : String) (contribs : List Contribution) : Except ResolveError Json :=
  (contribs.foldlM (joinObject path) []).map .object

/-- Combine the contributions of one priority at a path into one value. -/
def join (path : String) (first : Contribution) (others : List Contribution) :
    Except ResolveError Json :=
  match others with
  | [] => .ok first.value.json
  | second :: _ =>
    let firstKind := valueKind first.value.json
    match others.find? fun c => valueKind c.value.json ≠ firstKind with
    | some c => .error (.typeMismatch path firstKind (valueKind c.value.json))
    | none =>
      match first.value.json with
      | .array _ => .ok (joinLists (first :: others))
      | .object _ => joinObjects path (first :: others)
      -- Scalars cannot join at the same priority.
      | left => .error (.scalarConflict path left second.value.json)

/-- Resolve the priority at each path, and join the contributions that are left. -/
def resolvePaths : List (String × List Contribution) →
    Except ResolveError (List (String × Json))
  | [] => .ok []
  | (path, contribs) :: rest =>
    match winners contribs with
    | [] => resolvePaths rest
    | first :: others =>
      match join path first others with
      | .error e => .error e
      | .ok value => (resolvePaths rest).map ((path, value) :: ·)

def insertNested (root : Json) (parts : List String) (value : Json) : Json :=
  match parts with
  | [] => value
  | [part] => .object (insertField part value root.fieldsOf)
  | head :: rest =>
    .object (insertField head
      (insertNested ((root.fieldsOf.lookup head).getD (.object [])) rest value) root.fieldsOf)

/-- Lift dotted paths into a nested object. -/
def lift (resolved : List (String × Json)) : Json :=
  resolved.foldl (fun root entry => insertNested root (segments entry.1) entry.2) (.object [])

def readPath (root : Json) (dotted : String) : Option Json := valueAt (segments dotted) root

def typeErr (path expected : String) (value : Json) : ResolveError :=
  .optionTypeMismatch path expected (valueKind value) value

def expect (path : String) (value : Json) (expected : String) (holds : Bool) :
    Except ResolveError Unit :=
  if holds then .ok () else .error (typeErr path expected value)

def isBoolean : Json → Bool
  | .bool _ => true
  | _ => false

def isNumber : Json → Bool
  | .number _ => true
  | _ => false

/-- A number that is an `i64` or a `u64`. -/
def isInt : Json → Bool
  | .number (.posInt _) => true
  | .number (.negInt _) => true
  | _ => false

def isString : Json → Bool
  | .string _ => true
  | _ => false

def isObject : Json → Bool
  | .object _ => true
  | _ => false

mutual

/-- Check a value against the type of its option. -/
def validate (path : String) (value : Json) : OptionType → Except ResolveError Unit
  | .bool => expect path value "bool" (isBoolean value)
  | .int => expect path value "int" (isInt value)
  | .str => expect path value "string" (isString value)
  | .float => expect path value "number" (isNumber value)
  | .path => expect path value "path (string)" (isString value)
  | .package => expect path value "package (object)" (isObject value)
  | .any => .ok ()
  | .listOf item =>
    match value with
    | .array arr =>
      arr.zipIdx.forM fun entry =>
        validate (path ++ "[" ++ toString entry.2 ++ "]") entry.1 item
    | other => .error (typeErr path "list" other)
  | .attrsOf vty =>
    match value with
    | .object obj => obj.forM fun entry => validate (path ++ "." ++ entry.1) entry.2 vty
    | other => .error (typeErr path "attrset" other)
  | .enum choices =>
    match value with
    | .string s =>
      if choices.contains s then .ok () else .error (.enumChoiceInvalid path s choices)
    | other => .error (typeErr path "enum (string)" other)
  | .submodule options =>
    match value with
    | .object obj => validateSubs path obj options
    | other => .error (typeErr path "submodule (object)" other)

/-- Check the fields that a submodule declares, as far as they are there. -/
def validateSubs (path : String) (obj : List (String × Json)) :
    List ModuleOption → Except ResolveError Unit
  | [] => .ok ()
  | .mk name optionType :: rest =>
    match obj.lookup name with
    | some v =>
      match validate (path ++ "." ++ name) v optionType with
      | .error e => .error e
      | .ok () => validateSubs path obj rest
    | none => validateSubs path obj rest

end

/-- Check one declared option against the config; an option that is missing passes. -/
def validateOption (config : Json) : ModuleOption → Except ResolveError Unit
  | .mk name optionType =>
    match readPath config name with
    | some value => validate name value optionType
    | none => .ok ()

def validateOptions (modules : List Module) (config : Json) : Except ResolveError Unit :=
  modules.forM fun module => module.options.forM (validateOption config)

/-- Resolve modules to a single merged config, and validate it against the declared options. -/
def resolveModules (modules : List Module) : Except ResolveError Json :=
  match resolvePaths (collectAll modules).toList with
  | .error e => .error e
  | .ok resolved =>
    match validateOptions modules (lift resolved) with
    | .error e => .error e
    | .ok () => .ok (lift resolved)

end Tatara.Nix
