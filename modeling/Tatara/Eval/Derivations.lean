import Tatara.Eval.Value
import Tatara.Lib.Fallible
import Tatara.Nix.Store

/-! How the derivation builtin reads an attribute set, and what is said of the values in it. -/

namespace Tatara.Eval

open Nix (Recipe StorePath InputRef Source BuilderPhase BuilderPhases Outputs EnvVar BridgeTarget
  Sandbox)

/-- A host whose derivations are the ones that are built. -/
abbrev Builders (H : Host) : Host :=
  { H with Derivation := Nix.Derivation Recipe, StorePath := StorePath }

variable {H : Host}

/-- The fields of an attribute set. -/
abbrev Fields (H : Host) := List (String × Value (Builders H))

namespace Value

/-- The text of strings, symbols and keywords. -/
def asStr : Value H → Option String
  | str s | symbol s | keyword s => some s
  | _ => none

/-- `StorePath::render`, with the first 20 characters of the hash. -/
def renderPath (path : StorePath) : String :=
  let short := String.ofList (path.hash.toList.take 20)
  match path.version with
  | some version => short ++ "-" ++ path.name ++ "-" ++ version
  | none => short ++ "-" ++ path.name

/-- A value as a text, if that is a meaningful operation. -/
def coerceToString (hash : Nix.Derivation Recipe → String) : Value (Builders H) → Option String
  | str s | symbol s | keyword s => some s
  | int n => some (String.ofList (Rust.renderI64 n))
  | float x => some (String.ofList x.render)
  | bool b => some (if b then "true" else "false")
  | path p => some p
  | storePath p => some (renderPath p)
  | derivation d => some (renderPath (Nix.Derivation.storePath hash d))
  | _ => none

end Value

section reading

variable (hash : Nix.Derivation Recipe → String)

/-- `require_str`. -/
def requireStr (fields : Fields H) (key : String) : Except EvalError String :=
  match fields.lookup key with
  | some v =>
    match v.asStr with
    | some s => .ok s
    | none => .error (.type ("string (for " ++ key ++ ")") v.typeName)
  | none => .error (.missingAttr key)

/-- `optional_str`. -/
def optionalStr (fields : Fields H) (key : String) : Option String :=
  (fields.lookup key).bind Value.asStr

/-- `optional_bool`. -/
def optionalBool (fields : Fields H) (key : String) : Option Bool :=
  match fields.lookup key with
  | some (.bool b) => some b
  | _ => none

/-- A list of texts, without the items that have none. -/
def optionalTexts (fields : Fields H) (key : String) : List String :=
  match fields.lookup key with
  | some (.list xs) => xs.filterMap (Value.coerceToString hash)
  | _ => []

/-- `require_str` under one spelling, or else under another. -/
def requireEither (fields : Fields H) (key other : String) : Except EvalError String :=
  match requireStr fields key with
  | .ok s => .ok s
  | .error _ => requireStr fields other

/-- `optional_str` under one spelling, or else under another. -/
def optionalEither (fields : Fields H) (key other : String) : Option String :=
  (optionalStr fields key).or (optionalStr fields other)

/-- `bridge_from_attrs`. -/
def bridgeFromAttrs (fields : Fields H) : Except EvalError BridgeTarget := do
  let attrPath ← requireEither fields "attr-path" "attrPath"
  return ⟨attrPath, optionalEither fields "pkg-set" "pkgSet"⟩

/-- The store path that an input is pinned to. -/
def pinnedPath (fields : Fields H) : Option StorePath :=
  match fields.lookup "pinned" with
  | some (.storePath p) => some p
  | some (.derivation d) => some (Nix.Derivation.storePath hash d)
  | _ => none

/-- `input_ref_from_value`. -/
def inputRefFromValue : Value (Builders H) → Except EvalError InputRef
  | .attrs fields => do
    let name ← requireStr fields "name"
    return ⟨name, optionalStr fields "version", pinnedPath hash fields⟩
  | v => .error (.type "attrs" v.typeName)

/-- `source_from_attrs`. -/
def sourceFromAttrs (fields : Fields H) : Except EvalError Source := do
  match ← requireStr fields "kind" with
  | "Inline" => return .inline (← requireStr fields "content")
  | "Path" => return .path (← requireStr fields "path")
  | "Git" =>
    let url ← requireStr fields "url"
    let rev ← requireStr fields "rev"
    return .git url rev ((optionalBool fields "submodules").getD false)
  | "Tarball" =>
    let url ← requireStr fields "url"
    let hash ← requireStr fields "hash"
    return .tarball url hash
  | "Derivation" =>
    match fields.lookup "input" with
    | some v => return .derivation (← inputRefFromValue hash v)
    | none => .error (.malformed "source" "Derivation source needs :input")
  | other => .error (.malformed "source" ("unknown source kind: " ++ other))

/-- `phase_from_value`. -/
def phaseFromValue (v : Value (Builders H)) : Except EvalError BuilderPhase :=
  match v.asStr with
  | none => .error (.type "symbol (phase name)" v.typeName)
  | some "Unpack" => .ok .unpack
  | some "Patch" => .ok .patch
  | some "Configure" => .ok .configure
  | some "Build" => .ok .build
  | some "Check" => .ok .check
  | some "Install" => .ok .install
  | some "Fixup" => .ok .fixup
  | some "InstallCheck" => .ok .installCheck
  | some "Dist" => .ok .dist
  | some other => .error (.malformed "builder" ("unknown phase: " ++ other))

/-- A text of a list of commands. -/
def commandFromValue (v : Value (Builders H)) : Except EvalError String :=
  match v.coerceToString hash with
  | some s => .ok s
  | none => .error (.type "string" v.typeName)

/-- The commands of a phase: a list of them, or one. -/
def commandsFromValue : Value (Builders H) → Except EvalError (List String)
  | .list xs => xs.mapM (commandFromValue hash)
  | .str s => .ok [s]
  | v => .error (.type "list | string" v.typeName)

/-- The phases of a builder, none where they are no list. -/
def optionalPhases (fields : Fields H) : Except EvalError (List BuilderPhase) :=
  match fields.lookup "phases" with
  | some (.list xs) => xs.mapM phaseFromValue
  | _ => .ok []

/-- The commands of a builder, none where they are no attribute set. -/
def optionalCommands (fields : Fields H) : Except EvalError (List (String × List String)) :=
  match fields.lookup "commands" with
  | some (.attrs entries) => entries.mapM fun (key, v) => return (key, ← commandsFromValue hash v)
  | _ => .ok []

/-- `builder_from_attrs`. -/
def builderFromAttrs (fields : Fields H) : Except EvalError BuilderPhases := do
  let phases ← optionalPhases fields
  let commands ← optionalCommands hash fields
  return ⟨phases, commands⟩

/-- `outputs_from_attrs`. -/
def outputsFromAttrs (fields : Fields H) : Outputs :=
  ⟨(optionalStr fields "primary").getD "out", optionalTexts hash fields "extra"⟩

/-- `env_var_from_value`. -/
def envVarFromValue : Value (Builders H) → Except EvalError EnvVar
  | .attrs fields => do
    let name ← requireStr fields "name"
    let value ← requireStr fields "value"
    return ⟨name, value⟩
  | v => .error (.type "attrs" v.typeName)

/-- `sandbox_from_attrs`. -/
def sandboxFromAttrs (fields : Fields H) : Sandbox :=
  ⟨(optionalBool fields "allow-network").getD false, optionalTexts hash fields "extra-paths",
    optionalTexts hash fields "impure-env"⟩

/-- A part of the derivation that is given by a list, and empty by default. -/
def partList {α : Type} (fields : Fields H) (key : String)
    (item : Value (Builders H) → Except EvalError α) : Except EvalError (List α) :=
  match fields.lookup key with
  | some (.list xs) => xs.mapM item
  | some v => .error (.type ("list (for " ++ key ++ ")") v.typeName)
  | none => .ok []

/-- A part of the derivation that is given by an attribute set, with a default. -/
def partAttrs {α : Type} (fields : Fields H) (key : String) (default : α)
    (part : Fields H → Except EvalError α) : Except EvalError α :=
  match fields.lookup key with
  | some (.attrs inner) => part inner
  | some v => .error (.type ("attrs (for " ++ key ++ ")") v.typeName)
  | none => .ok default

/-- The bridge: an attribute set, or the path alone. -/
def partBridge (fields : Fields H) : Except EvalError (Option BridgeTarget) :=
  match fields.lookup "bridge" with
  | some (.attrs inner) => (bridgeFromAttrs inner).map some
  | some (.str attr) => .ok (some ⟨attr, none⟩)
  | some v => .error (.type "attrs | string (for bridge)" v.typeName)
  | none => .ok none

/-- `attrs_to_derivation`. -/
def attrsToDerivation (fields : Fields H) : Except EvalError (Nix.Derivation Recipe) := do
  let name ← requireStr fields "name"
  let version := optionalStr fields "version"
  let inputs ← partList fields "inputs" (inputRefFromValue hash)
  let source ← partAttrs fields "source" (.inline "") (sourceFromAttrs hash)
  let builder ← partAttrs fields "builder" {} (builderFromAttrs hash)
  let outputs ← partAttrs fields "outputs" {} (fun inner => .ok (outputsFromAttrs hash inner))
  let env ← partList fields "env" envVarFromValue
  let sandbox ← partAttrs fields "sandbox" {} (fun inner => .ok (sandboxFromAttrs hash inner))
  let bridge ← partBridge fields
  return ⟨name, version, inputs, source, builder, outputs, env, sandbox, bridge, none⟩

end reading

section meaning

variable (hash : Nix.Derivation Recipe → String)

/-- What is said of a key holds of its value, where there is one. -/
def Given (fields : Fields H) (key : String) (said : Value (Builders H) → Prop) : Prop :=
  ∀ v, fields.lookup key = some v → said v

/-- A value is a string, a symbol or a keyword. -/
def StrOf (v : Value (Builders H)) (s : String) : Prop := v.asStr = some s

/-- A value is a text, up to its coercion. -/
def TextOf (v : Value (Builders H)) (s : String) : Prop := v.coerceToString hash = some s

/-- A value is a list of texts, item by item in order. -/
def TextsOf (v : Value (Builders H)) (texts : List String) : Prop :=
  ∃ xs, v = .list xs ∧ List.Forall₂ (TextOf hash) xs texts

/-- A value is a switch. -/
def SwitchOf (v : Value (Builders H)) (b : Bool) : Prop := v = .bool b

/-- A value is a store path, or a derivation that has it. -/
def PathOf (v : Value (Builders H)) (p : StorePath) : Prop :=
  v = .storePath p ∨ ∃ d, v = .derivation d ∧ p = Nix.Derivation.storePath hash d

/-- A value is there, and it is what the optional field holds. -/
def Held {α : Type} (means : Value (Builders H) → α → Prop) (field : Option α)
    (v : Value (Builders H)) : Prop :=
  ∃ a, field = some a ∧ means v a

/-- A value is a reference to an input. -/
def InputOf (v : Value (Builders H)) (input : InputRef) : Prop :=
  ∃ fields, v = .attrs fields ∧
    Given fields "name" (StrOf · input.name) ∧
    Given fields "version" (Held StrOf input.version) ∧
    Given fields "pinned" (Held (PathOf hash) input.pinned)

/-- A value is a list of references to inputs. -/
def InputsOf (v : Value (Builders H)) (inputs : List InputRef) : Prop :=
  ∃ xs, v = .list xs ∧ List.Forall₂ (InputOf hash) xs inputs

/-- The name of a kind of sources. -/
def sourceKind : Source → String
  | .inline _ => "Inline"
  | .path _ => "Path"
  | .git .. => "Git"
  | .tarball .. => "Tarball"
  | .derivation _ => "Derivation"

/-- A value is a source: its kind, and the keys of that kind. -/
def SourceOf (v : Value (Builders H)) (source : Source) : Prop :=
  ∃ fields, v = .attrs fields ∧ Given fields "kind" (StrOf · (sourceKind source)) ∧
    match source with
    | .inline content => Given fields "content" (StrOf · content)
    | .path path => Given fields "path" (StrOf · path)
    | .git url rev submodules => Given fields "url" (StrOf · url) ∧
        Given fields "rev" (StrOf · rev) ∧ Given fields "submodules" (SwitchOf · submodules)
    | .tarball url sum => Given fields "url" (StrOf · url) ∧
        Given fields "hash" (StrOf · sum)
    | .derivation input => Given fields "input" (InputOf hash · input)

/-- The name of a phase. -/
def phaseName : BuilderPhase → String
  | .unpack => "Unpack"
  | .patch => "Patch"
  | .configure => "Configure"
  | .build => "Build"
  | .check => "Check"
  | .install => "Install"
  | .fixup => "Fixup"
  | .installCheck => "InstallCheck"
  | .dist => "Dist"

/-- A value is a list of phases, by their names. -/
def PhasesOf (v : Value (Builders H)) (phases : List BuilderPhase) : Prop :=
  ∃ xs, v = .list xs ∧ List.Forall₂ (fun x phase => StrOf x (phaseName phase)) xs phases

/-- A value is the commands of the phases, each a list of texts or one text. -/
def CommandsOf (v : Value (Builders H)) (commands : List (String × List String)) : Prop :=
  ∃ entries, v = .attrs entries ∧ List.Forall₂ (fun entry command => entry.1 = command.1 ∧
    (TextsOf hash entry.2 command.2 ∨ ∃ s, StrOf entry.2 s ∧ command.2 = [s]))
    entries commands

/-- A value is a builder. -/
def BuilderOf (v : Value (Builders H)) (builder : BuilderPhases) : Prop :=
  ∃ fields, v = .attrs fields ∧ Given fields "phases" (PhasesOf · builder.phases) ∧
    Given fields "commands" (CommandsOf hash · builder.commands)

/-- A value is outputs. -/
def OutputsOf (v : Value (Builders H)) (outputs : Outputs) : Prop :=
  ∃ fields, v = .attrs fields ∧ Given fields "primary" (StrOf · outputs.primary) ∧
    Given fields "extra" (TextsOf hash · outputs.extra)

/-- A value is a list of variables. -/
def EnvOf (v : Value (Builders H)) (env : List EnvVar) : Prop :=
  ∃ xs, v = .list xs ∧ List.Forall₂ (fun x var => ∃ fields, x = .attrs fields ∧
    Given fields "name" (StrOf · var.name) ∧ Given fields "value" (StrOf · var.value))
    xs env

/-- A value is the controls of a sandbox. -/
def SandboxOf (v : Value (Builders H)) (sandbox : Sandbox) : Prop :=
  ∃ fields, v = .attrs fields ∧ Given fields "allow-network" (SwitchOf · sandbox.allowNetwork) ∧
    Given fields "extra-paths" (TextsOf hash · sandbox.extraPaths) ∧
    Given fields "impure-env" (TextsOf hash · sandbox.impureEnv)

/-- A value is a bridge, under either spelling of its keys, or its path alone. -/
def BridgeOf (v : Value (Builders H)) (bridge : BridgeTarget) : Prop :=
  (∃ fields, v = .attrs fields ∧
    (Given fields "attr-path" (StrOf · bridge.attrPath) ∧
      Given fields "attrPath" (StrOf · bridge.attrPath)) ∧
    Given fields "pkg-set" (Held StrOf bridge.pkgSet) ∧
      Given fields "pkgSet" (Held StrOf bridge.pkgSet)) ∨
    ∃ s, v = .str s ∧ bridge = ⟨s, none⟩

/-- Each attribute that is given is what the derivation holds. -/
structure Kept (fields : Fields H) (d : Nix.Derivation Recipe) : Prop where
  name : Given fields "name" (StrOf · d.name)
  version : Given fields "version" (Held StrOf d.recipe.version)
  inputs : Given fields "inputs" (InputsOf hash · d.recipe.inputs)
  source : Given fields "source" (SourceOf hash · d.recipe.source)
  builder : Given fields "builder" (BuilderOf hash · d.recipe.builder)
  outputs : Given fields "outputs" (OutputsOf hash · d.recipe.outputs)
  env : Given fields "env" (EnvOf · d.recipe.env)
  sandbox : Given fields "sandbox" (SandboxOf hash · d.recipe.sandbox)
  bridge : Given fields "bridge" (Held BridgeOf d.recipe.bridge)

/-- Values of which one thing is meant. -/
def Alike {α : Type} (means : Value (Builders H) → α → Prop) (v v' : Value (Builders H)) : Prop :=
  ∃ a, means v a ∧ means v' a

/-- Two attribute sets hold alike values under the keys that they share. -/
def AlikeAt {α : Type} (fields fields' : Fields H) (key : String)
    (means : Value (Builders H) → α → Prop) : Prop :=
  Given fields key fun v => Given fields' key fun v' => Alike means v v'

/-- Two attribute sets agree on the attributes that are read of both. -/
structure AttributesAgree (fields fields' : Fields H) : Prop where
  name : AlikeAt fields fields' "name" StrOf
  version : AlikeAt fields fields' "version" StrOf
  inputs : AlikeAt fields fields' "inputs" (InputsOf hash)
  source : AlikeAt fields fields' "source" (SourceOf hash)
  builder : AlikeAt fields fields' "builder" (BuilderOf hash)
  outputs : AlikeAt fields fields' "outputs" (OutputsOf hash)
  env : AlikeAt fields fields' "env" EnvOf
  sandbox : AlikeAt fields fields' "sandbox" (SandboxOf hash)
  bridge : AlikeAt fields fields' "bridge" BridgeOf

end meaning

section conditions

variable (hash : Nix.Derivation Recipe → String)

/-- A string, a symbol or a keyword. -/
def Textual (v : Value (Builders H)) : Prop := v.asStr.isSome = true

/-- A list of values that all have a text. -/
def Texts (v : Value (Builders H)) : Prop :=
  ∃ xs, v = .list xs ∧ ∀ x ∈ xs, (x.coerceToString hash).isSome = true

/-- A boolean. -/
def Switch (v : Value (Builders H)) : Prop := ∃ b, v = .bool b

/-- A store path or a derivation. -/
def Pinnable (v : Value (Builders H)) : Prop := (∃ p, v = .storePath p) ∨ ∃ d, v = .derivation d

/-- The optional keys of an input are readable. -/
def ReadableInput (v : Value (Builders H)) : Prop :=
  ∀ fields, v = .attrs fields → Given fields "version" Textual ∧ Given fields "pinned" Pinnable

/-- The optional keys of a source are readable: whether there are submodules, and those of an
input. -/
def ReadableSource (v : Value (Builders H)) : Prop :=
  ∀ fields, v = .attrs fields → Given fields "kind" fun kind =>
    (kind.asStr = some "Git" → Given fields "submodules" Switch) ∧
      (kind.asStr = some "Derivation" → Given fields "input" ReadableInput)

/-- The phases of a builder are a list, and its commands are an attribute set. -/
def ReadableBuilder (v : Value (Builders H)) : Prop :=
  ∀ fields, v = .attrs fields → Given fields "phases" (fun phases => ∃ xs, phases = .list xs) ∧
    Given fields "commands" fun commands => ∃ entries, commands = .attrs entries

/-- The keys of outputs are readable. -/
def ReadableOutputs (v : Value (Builders H)) : Prop :=
  ∀ fields, v = .attrs fields → Given fields "primary" Textual ∧ Given fields "extra" (Texts hash)

/-- The keys of a sandbox are readable. -/
def ReadableSandbox (v : Value (Builders H)) : Prop :=
  ∀ fields, v = .attrs fields → Given fields "allow-network" Switch ∧
    Given fields "extra-paths" (Texts hash) ∧ Given fields "impure-env" (Texts hash)

/-- A key with two spellings is textual, and where it is given in both of them it is given
alike. -/
def SpelledOnce (fields : Fields H) (key other : String) : Prop :=
  Given fields key Textual ∧ Given fields other fun v =>
    match fields.lookup key with
    | some first => v.asStr = first.asStr
    | none => Textual v

/-- The keys of a bridge are readable. -/
def ReadableBridge (v : Value (Builders H)) : Prop :=
  ∀ fields, v = .attrs fields →
    SpelledOnce fields "attr-path" "attrPath" ∧ SpelledOnce fields "pkg-set" "pkgSet"

/-- Each optional key that is given is readable. -/
structure Readable (fields : Fields H) : Prop where
  version : Given fields "version" Textual
  inputs : Given fields "inputs" fun v => ∀ xs, v = .list xs → ∀ x ∈ xs, ReadableInput x
  source : Given fields "source" ReadableSource
  builder : Given fields "builder" ReadableBuilder
  outputs : Given fields "outputs" (ReadableOutputs hash)
  sandbox : Given fields "sandbox" (ReadableSandbox hash)
  bridge : Given fields "bridge" ReadableBridge

end conditions

end Tatara.Eval
