import Tatara.Rust.Float

/-! Identifiers, instants, addresses, and JSON values, as the crates in use have them. -/

namespace Tatara.Rust

/-- A `uuid::Uuid`. -/
abbrev Uuid := BitVec 128

namespace Uuid

instance transCmp : Std.TransCmp (compare : Uuid → Uuid → Ordering) := inferInstance

/-- The hexadecimal digits from one place up to another, the first place being the highest. -/
def hexDigits (id : Uuid) (start stop : Nat) : List Char :=
  (List.range' start (stop - start)).map fun place =>
    Nat.digitChar (id.toNat / 16 ^ (31 - place) % 16)

/-- `Display` writes the hyphenated form in lowercase. -/
def render (id : Uuid) : String :=
  String.ofList (id.hexDigits 0 8 ++ '-' :: id.hexDigits 8 12 ++ '-' :: id.hexDigits 12 16 ++
    '-' :: id.hexDigits 16 20 ++ '-' :: id.hexDigits 20 32)

end Uuid

/-- `Display` for `u64`. -/
def renderU64 (n : UInt64) : String := String.ofList (renderNat n.toNat)

/-- A `chrono::DateTime<Utc>`, in nanoseconds since the epoch. -/
structure DateTime where
  nanos : Int
  deriving DecidableEq, Repr

/-- A `std::net::IpAddr`. -/
inductive IpAddr where
  | v4 (bits : BitVec 32)
  | v6 (bits : BitVec 128)
  deriving DecidableEq, Repr

/-- A number of `serde_json`. -/
inductive JsonNumber where
  | posInt (n : UInt64)
  | negInt (n : Int64)
  | float (x : F64)
  deriving DecidableEq

/-- A `serde_json::Value`, whose objects list their fields in the order of the keys. -/
inductive Json where
  | null
  | bool (b : Bool)
  | number (n : JsonNumber)
  | string (text : String)
  | array (items : List Json)
  | object (fields : List (String × Json))

namespace Json

/-- Set the value of a key among fields in key order. -/
def insertField (key : String) (value : Json) : List (String × Json) → List (String × Json)
  | [] => [(key, value)]
  | (k, v) :: rest =>
    match compare key k with
    | .lt => (key, value) :: (k, v) :: rest
    | .eq => (key, value) :: rest
    | .gt => (k, v) :: insertField key value rest

/-- The object that a `json!` literal with these fields builds. -/
def ofFields (fields : List (String × Json)) : Json :=
  .object (fields.foldl (fun placed (key, value) => insertField key value placed) [])

/-- An unsigned integer as a value. -/
def ofU64 (n : UInt64) : Json := .number (.posInt n)

end Json

namespace JsonNumber

/-- `Number::from` for `i64`. -/
def ofI64 (n : Int64) : JsonNumber :=
  if n < 0 then .negInt n else .posInt n.toUInt64

/-- `Number::from_f64`, which refuses what is not finite. -/
def ofF64 (x : F64) : Option JsonNumber := if x.isFinite then some (.float x) else none

/-- `Number::as_i64`. -/
def asI64 : JsonNumber → Option Int64
  | .posInt n => if n.toNat < 2 ^ 63 then some n.toInt64 else none
  | .negInt n => some n
  | .float _ => none

/-- `Number::as_f64`. -/
def asF64 : JsonNumber → Option F64
  | .posInt n => some (F64.ofRatio false n.toNat 1)
  | .negInt n => some (F64.ofRatio (n < 0) n.toInt.natAbs 1)
  | .float x => some x

end JsonNumber

/-- A number as `serde_json` builds it: a negative integer is negative, and a float is finite. -/
def JsonNumber.Built : JsonNumber → Prop
  | .posInt _ => True
  | .negInt n => n < 0
  | .float x => x.isFinite = true

/-- A value as `serde_json` builds it: the keys of an object are distinct and in order. -/
inductive Json.Built : Json → Prop where
  | null : Built .null
  | bool (b : Bool) : Built (.bool b)
  | number (n : JsonNumber) (built : n.Built) : Built (.number n)
  | string (text : String) : Built (.string text)
  | array (items : List Json) (each : ∀ item ∈ items, Built item) : Built (.array items)
  | object (fields : List (String × Json)) (ascending : fields.Pairwise fun a b => a.1 < b.1)
      (each : ∀ field ∈ fields, Built field.2) : Built (.object fields)

/-- A `serde_json::Value`, with what its types promise. -/
structure JsonValue where
  json : Json
  built : json.Built

/-- `serde_json::to_string`, the text that is written for a value. -/
class JsonText where
  text : Json → String

/-- The texts of null, of the truth values and of whole numbers. -/
@[reducible] def scalarText : JsonText where
  text
    | .null => "null"
    | .bool b => if b then "true" else "false"
    | .number (.posInt n) => renderU64 n
    | .number (.negInt n) => String.ofList (renderI64 n)
    | _ => ""

end Tatara.Rust
