import Tatara.Lib.Bits
import Tatara.Rust.JsonPath

/-! Environment matrices: permutation axes over a base spec, and the specs they expand to. -/

namespace Tatara.Matrix

open Rust (Json JsonText segments)
open Rust.Json (insertField)

/-- The chart of an ephemeral environment. -/
structure AplicacaoIntent where
  chartRef : String
  version : String
  profile : String
  valuesOverlay : Json
  releaseName : Option String

/-- An ephemeral environment, as far as a matrix writes to it. -/
structure EphemeralSpec where
  aplicacao : AplicacaoIntent
  maxConcurrent : UInt32

/-- One permutation axis: a named dimension and the values it ranges over. -/
structure MatrixAxis where
  name : String
  path : String
  values : Json

/-- The axis values, which are none if they are not a JSON array. -/
def MatrixAxis.vals (axis : MatrixAxis) : List Json :=
  match axis.values with
  | .array items => items
  | _ => []

/-- How the permutation set is drawn from the axes. -/
inductive SelectStrategy
  | cartesian
  | explicit (coords : List (List Nat))

/-- The budget shared by the sweep, whose cap is none when it is zero. -/
structure MatrixBudget where
  maxEnvs : UInt32
  maxConcurrent : Option UInt32

structure EnvMatrixSpec where
  base : EphemeralSpec
  axes : List MatrixAxis
  select : SelectStrategy
  budget : MatrixBudget

/-- A generated environment: its name and its spec. -/
structure NamedEphemeral where
  name : String
  spec : EphemeralSpec

/-- The largest `usize`. -/
def usizeMax : Nat := 2 ^ 64 - 1

/-- One in-bounds index per axis. -/
def coordInBoundsAgainst (axesLengths coord : List Nat) : Bool :=
  coord.length == axesLengths.length &&
    (coord.zip axesLengths).all fun entry => entry.1 < entry.2

/-- Count the selection without materializing it. -/
def SelectStrategy.selectionSizeFor (axesLengths : List Nat) : SelectStrategy → Nat
  | .cartesian =>
    if axesLengths.isEmpty then 1
    else if axesLengths.any (· == 0) then 0
    else axesLengths.foldl (fun product l => min (product * l) usizeMax) 1
  | .explicit coords => (coords.filter (coordInBoundsAgainst axesLengths)).length

/-- The product of lengths in machine arithmetic. -/
def product (lengths : List Nat) : Nat := lengths.foldl (fun product l => product * l % 2 ^ 64) 1

/-- The cartesian product of axis lengths, as a mixed-radix coordinate list. -/
def cartesian (lengths : List Nat) : List (List Nat) :=
  if lengths.isEmpty then [[]]
  else if lengths.any (· == 0) then []
  else (List.range (product lengths)).map (MixedRadix.digits lengths)

namespace EnvMatrixSpec

def lengths (m : EnvMatrixSpec) : List Nat := m.axes.map fun a => a.vals.length

def coordInBounds (m : EnvMatrixSpec) (coord : List Nat) : Bool :=
  coordInBoundsAgainst m.lengths coord

/-- The selection coordinates, before the cap. -/
def coordinates (m : EnvMatrixSpec) : List (List Nat) :=
  match m.select with
  | .cartesian => Matrix.cartesian m.lengths
  | .explicit coords => coords.filter m.coordInBounds

/-- How many environments there would be before the cap. -/
def selectionSize (m : EnvMatrixSpec) : Nat := m.select.selectionSizeFor m.lengths

end EnvMatrixSpec

/-- The reserved paths, which name fields of the chart. -/
inductive MatrixTarget
  | version | profile | chartRef
  deriving DecidableEq, Repr

namespace MatrixTarget

def all : List MatrixTarget := [version, profile, chartRef]

def marker : MatrixTarget → String
  | version => "@version"
  | profile => "@profile"
  | chartRef => "@chart-ref"

def fromPath (path : String) : Option MatrixTarget := all.find? fun t => t.marker == path

/-- Apply a string value to the targeted field; any other value is ignored. -/
def apply (target : MatrixTarget) (spec : EphemeralSpec) (val : Json) : EphemeralSpec :=
  match val with
  | .string s =>
    match target with
    | version => { spec with aplicacao := { spec.aplicacao with version := s } }
    | profile => { spec with aplicacao := { spec.aplicacao with profile := s } }
    | chartRef => { spec with aplicacao := { spec.aplicacao with chartRef := s } }
  | _ => spec

end MatrixTarget

/-- Walk down the parts but the last, with objects for whatever else is there, and insert there. -/
def insertAtParts (cur : Json) (parts : List String) (val : Json) : Json :=
  match parts with
  | [] => cur
  | [part] => .object (insertField part val cur.fieldsOf)
  | part :: rest =>
    .object (insertField part
      (insertAtParts ((cur.fieldsOf.lookup part).getD (.object [])) rest val) cur.fieldsOf)

/-- Set a value into a JSON object at a dotted path; an empty path merges an object at the root. -/
def overlayAtPath (root : Json) (path : String) (val : Json) : Json :=
  if path.isEmpty then
    match val with
    | .object obj => .object (obj.foldl (fun r entry => insertField entry.1 entry.2 r) root.fieldsOf)
    | _ => .object root.fieldsOf
  else insertAtParts (.object root.fieldsOf) (segments path) val

/-- Apply one axis value to a spec at the axis's path. -/
def applyAxis (spec : EphemeralSpec) (path : String) (val : Json) : EphemeralSpec :=
  match MatrixTarget.fromPath path with
  | some target => target.apply spec val
  | none =>
    { spec with
      aplicacao :=
        { spec.aplicacao with
          valuesOverlay := overlayAtPath spec.aplicacao.valuesOverlay path val } }

/-- `char::to_ascii_lowercase` and `char::is_ascii_alphanumeric` on one character of a slug: the
letter or digit it gives, if it gives one. -/
def slugChar (c : Char) : Option Char := if c.toLower.isAlphanum then some c.toLower else none

/-- The characters of a slug: a run of anything but letters and digits gives one dash. -/
def slugChars (prevDash : Bool) : List Char → List Char
  | [] => []
  | c :: rest =>
    match slugChar c with
    | some letter => letter :: slugChars false rest
    | none => if prevDash then slugChars true rest else '-' :: slugChars true rest

/-- `str::trim_matches('-')`. -/
def trimDashes (text : List Char) : List Char :=
  ((text.dropWhile (· == '-')).reverse.dropWhile (· == '-')).reverse

/-- A DNS-label-safe slug of a token. -/
def slug (s : String) : String :=
  let trimmed := trimDashes (slugChars false s.toList)
  if trimmed.isEmpty then "x" else String.ofList trimmed

variable [JsonText]

/-- The slug of a JSON value, for env names. -/
def slugValue : Json → String
  | .string s => slug s
  | .bool b => if b then "true" else "false"
  | .number n => slug (JsonText.text (.number n))
  | other => slug (JsonText.text other)

namespace EnvMatrixSpec

/-- The value that a coordinate selects on an axis. -/
def selected (axis : MatrixAxis) (valIdx : Nat) : Json := (axis.vals[valIdx]?).getD .null

/-- Overlay the selected values onto a spec, one axis after the other. -/
def overlayAxes (spec : EphemeralSpec) : List (MatrixAxis × Nat) → EphemeralSpec
  | [] => spec
  | (axis, valIdx) :: rest => overlayAxes (applyAxis spec axis.path (selected axis valIdx)) rest

/-- Build one variant from a coordinate. -/
def materialize (m : EnvMatrixSpec) (matrixName : String) (coord : List Nat) : NamedEphemeral :=
  let picked := m.axes.zip coord
  let spec := overlayAxes m.base picked
  let suffix := picked.map fun entry =>
    slug entry.1.name ++ "-" ++ slugValue (selected entry.1 entry.2)
  let name :=
    if suffix.isEmpty then matrixName else matrixName ++ "-" ++ "-".intercalate suffix
  { name
    spec :=
      { aplicacao := { spec.aplicacao with releaseName := some name }
        maxConcurrent := m.budget.maxConcurrent.getD spec.maxConcurrent } }

/-- The coordinates that the cap keeps. -/
def kept (m : EnvMatrixSpec) : List (List Nat) :=
  if m.budget.maxEnvs = 0 then m.coordinates
  else m.coordinates.take m.budget.maxEnvs.toNat

/-- Expand the matrix into the capped list of named specs. -/
def expand (m : EnvMatrixSpec) (matrixName : String) : List NamedEphemeral :=
  m.kept.map (m.materialize matrixName)

end EnvMatrixSpec

end Tatara.Matrix
