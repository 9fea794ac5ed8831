import Tatara.Crd.Process
import Tatara.Rust.MergePatch

/-! The lifetime of a Process in JSON. -/

namespace Tatara.Crd

open Tatara.Rust

/-- How exports are written in JSON and read back. -/
class ExportFormat where
  serialize : ExportSpec → Json
  deserialize : Json → Option ExportSpec

/-- The value of a field that may be missing. -/
def fieldOr {α : Type} (value : Json) (key : String) (fallback : α) (read : Json → Option α) :
    Option α :=
  match value.field key with
  | none => some fallback
  | some found => read found

/-- The value of an optional field, which may also be null. -/
def optionalField {α : Type} (value : Json) (key : String) (read : Json → Option α) :
    Option (Option α) :=
  match value.field key with
  | none | some .null => some none
  | some found => (read found).map some

/-- A text. -/
def readString : Json → Option String
  | .string text => some text
  | _ => none

/-- A `u32`. -/
def readU32 : Json → Option UInt32
  | .number (.posInt n) => if n.toNat < 2 ^ 32 then some n.toUInt32 else none
  | _ => none

/-- The policy of a name. -/
def TeardownPolicy.deserialize : Json → Option TeardownPolicy
  | .string "Always" => some .always
  | .string "OnAttested" => some .onAttested
  | .string "OnFailed" => some .onFailed
  | .string "Never" => some .never
  | _ => none

/-- `DEFAULT_EPHEMERAL_TTL`. -/
def defaultEphemeralTtl : String := "1h"

/-- `DEFAULT_EPHEMERAL_MAX_CONCURRENT`. -/
def defaultEphemeralMaxConcurrent : UInt32 := 1

section

variable [ExportFormat]

/-- An ephemeral lifetime, with the number of Processes that there may be at once. -/
def EphemeralLifetime.serialize (e : EphemeralLifetime) (maxConcurrent : UInt32) : Json :=
  .ofFields (
    [("ttl", .string e.ttl), ("teardownPolicy", .string e.teardownPolicy.asStr),
      ("maxConcurrent", .ofU64 maxConcurrent.toUInt64)] ++
    -- An empty list of exports is not written.
    if e.exports.isEmpty then [] else [("exports", .array (e.exports.map ExportFormat.serialize))])

/-- The exports of a lifetime. -/
def readExports : Json → Option (List ExportSpec)
  | .array items => items.mapM ExportFormat.deserialize
  | _ => none

/-- An ephemeral lifetime; the number of Processes is checked and not used. -/
def EphemeralLifetime.deserialize (value : Json) : Option EphemeralLifetime :=
  match value with
  | .object _ => do
    let ttl ← fieldOr value "ttl" defaultEphemeralTtl readString
    let teardownPolicy ← fieldOr value "teardownPolicy" .always TeardownPolicy.deserialize
    let _ ← fieldOr value "maxConcurrent" defaultEphemeralMaxConcurrent readU32
    let exports ← fieldOr value "exports" [] readExports
    return { ttl, teardownPolicy, exports }
  | _ => none

/-- A lifetime; slots that are not set are not written. -/
def Lifetime.serialize (lifetime : Lifetime) (maxConcurrent : UInt32) : Json :=
  .ofFields (
    (lifetime.permanent.map fun _ => ("permanent", Json.object [])).toList ++
    (lifetime.ephemeral.map fun e => ("ephemeral", e.serialize maxConcurrent)).toList)

/-- The marker of a permanent lifetime. -/
def readPermanent : Json → Option Unit
  | .object _ => some ()
  | _ => none

/-- A lifetime. -/
def Lifetime.deserialize (value : Json) : Option Lifetime :=
  match value with
  | .object _ => do
    let permanent ← optionalField value "permanent" readPermanent
    let ephemeral ← optionalField value "ephemeral" EphemeralLifetime.deserialize
    return { permanent, ephemeral }
  | _ => none

/-- `is_default`. -/
def Lifetime.isDefault (lifetime : Lifetime) : Bool :=
  lifetime.permanent.isNone && lifetime.ephemeral.isNone

/-- The fields of a spec with a lifetime among the others. -/
def withLifetime (lifetime : Lifetime) (others : List (String × Json)) : Json :=
  .object <|
    if lifetime.isDefault then Json.removeField "lifetime" others
    else
      Json.insertField "lifetime" (lifetime.serialize defaultEphemeralMaxConcurrent) others

/-- The lifetime of a stored Process. -/
def readLifetime (object : Json) : Option Lifetime := do
  let spec ← object.field "spec"
  fieldOr spec "lifetime" {} Lifetime.deserialize

end

end Tatara.Crd
