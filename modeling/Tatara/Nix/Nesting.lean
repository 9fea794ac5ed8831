import Mathlib
import Tatara.Lib.Delimited
import Tatara.Lib.Fallible
import Tatara.Nix.Resolver

/-! Options of a submodule against the same options declared one by one under their full paths. -/

namespace Tatara.Nix

open Rust (Json JsonValue segments segments_ne_nil)
open Rust.Json (valueAt valueAt_cons valueAt_append putAt valueAt_putAt_below field lookup_cons_eq)
open Fallible (forM_eq_ok_iff)

/-- The name that an option is declared under. -/
def ModuleOption.name : ModuleOption → String
  | .mk name _ => name

/-- The type that an option is declared with. -/
def ModuleOption.optionType : ModuleOption → OptionType
  | .mk _ optionType => optionType

/-- A sub-option of the option at a path, declared under its full path. -/
def ModuleOption.under (path : String) (option : ModuleOption) : ModuleOption :=
  .mk (path ++ "." ++ option.name) option.optionType

/-- A module that declares these options accepts a config. -/
def Accepts (config : Json) (options : List ModuleOption) : Prop :=
  validateOptions [⟨options, []⟩] config = .ok ()

/-- Declared as a submodule at a path, options accept the configs with an object there that they
accept when they are declared one by one. -/
def NestsAlike (path : String) (options : List ModuleOption) : Prop :=
  ∀ config : JsonValue, (∃ fields, readPath config.json path = some (.object fields)) →
    (Accepts config.json [.mk path (.submodule options)] ↔
      Accepts config.json (options.map (ModuleOption.under path)))

/-- A name of several segments. -/
def Dotted (name : String) : Prop := '.' ∈ name.toList

section

variable {config : Json} {path name : String} {options : List ModuleOption}

/-- Options of one module accept a config one by one. -/
theorem accepts_iff :
    Accepts config options ↔ ∀ option ∈ options, validateOption config option = .ok () := by
  -- With one module the check goes through its options alone.
  have single : validateOptions [⟨options, []⟩] config =
      ([(⟨options, []⟩ : Module)].forM fun module => module.options.forM (validateOption config)) :=
    rfl
  rw [Accepts, single, forM_eq_ok_iff, List.forall_mem_singleton]
  exact forM_eq_ok_iff

/-- An option accepts a config when it accepts the value at its path. -/
theorem validateOption_eq_ok_iff {option : ModuleOption} :
    validateOption config option = .ok () ↔ ∀ value, readPath config option.name = some value →
      validate option.name value option.optionType = .ok () := by
  -- An option that is missing passes.
  cases option with
  | mk name optionType =>
    rw [validateOption]
    cases found : readPath config name <;> simp [ModuleOption.name, ModuleOption.optionType, found]

/-- Sub-options accept an object when each accepts the value under its name. -/
theorem validateSubs_eq_ok_iff {fields : List (String × Json)} :
    validateSubs path fields options = .ok () ↔ ∀ option ∈ options, ∀ value,
      fields.lookup option.name = some value →
        validate (path ++ "." ++ option.name) value option.optionType = .ok () := by
  -- By induction on the options, the first failure ends the check.
  induction options with
  | nil => simp [validateSubs]
  | cons option rest ih =>
    cases option with
    | mk name optionType =>
      rw [validateSubs, List.forall_mem_cons, ← ih]
      cases found : fields.lookup name with
      | none => simp [ModuleOption.name, found]
      | some value =>
        cases checked : validate (path ++ "." ++ name) value optionType <;>
          simp [ModuleOption.name, ModuleOption.optionType, found, checked]

/-- The segments of a path are those in front of a dot and those behind it. -/
theorem segments_join (path name : String) :
    segments (path ++ "." ++ name) = segments path ++ segments name := by
  have dot : ".".toList = ['.'] := rfl
  simp only [segments, String.toList_append, dot, List.append_assoc, List.singleton_append,
    List.splitOn_append_cons_self, List.map_append]

/-- A name without a dot is its own segment. -/
theorem segments_of_not_dotted (plain : ¬ Dotted name) : segments name = [name] := by
  rw [segments, List.splitOn_eq_singleton plain]
  simp

/-- The first segment of a name has no dot, so that it is none of the names that have one. -/
theorem head_segments_ne (dotted : Dotted name) (other : String) :
    ∃ first rest, segments other = first :: rest ∧ first ≠ name := by
  by_cases plain : Dotted other
  · -- What is in front of the first dot is the first segment.
    obtain ⟨front, back, whole, clean⟩ := List.eq_append_cons_of_mem plain
    refine ⟨String.ofList front, (back.splitOn '.').map String.ofList, ?_, ?_⟩
    · rw [segments, whole, List.splitOn_append_cons_self_of_not_mem clean, List.map_cons]
    · rintro rfl
      simp [Dotted, clean] at dotted
  · refine ⟨other, [], segments_of_not_dotted plain, ?_⟩
    rintro rfl
    exact plain dotted

/-- Only the escape hatch accepts a null. -/
theorem validate_null_iff {ty : OptionType} : validate path .null ty = .ok () ↔ ty = .any := by
  cases ty <;> simp [validate, expect, isBoolean, isInt, isString, isNumber, isObject]

/-- What the options of a submodule are checked against: the field of the name, dots and all. -/
theorem accepts_submodule_iff {fields : List (String × Json)}
    (there : readPath config path = some (.object fields)) :
    Accepts config [.mk path (.submodule options)] ↔ ∀ option ∈ options, ∀ value,
      field (.object fields) option.name = some value →
        validate (path ++ "." ++ option.name) value option.optionType = .ok () := by
  -- There is one option, and the check goes into its submodule.
  rw [accepts_iff, List.forall_mem_singleton, validateOption_eq_ok_iff]
  simp only [ModuleOption.name, ModuleOption.optionType, there, Option.some.injEq, forall_eq']
  rw [validate, validateSubs_eq_ok_iff]
  rfl

/-- What the same options are checked against at top level: the value that the segments of the name
lead to. -/
theorem accepts_under_iff {fields : List (String × Json)}
    (there : readPath config path = some (.object fields)) :
    Accepts config (options.map (ModuleOption.under path)) ↔ ∀ option ∈ options, ∀ value,
      valueAt (segments option.name) (.object fields) = some value →
        validate (path ++ "." ++ option.name) value option.optionType = .ok () := by
  -- The path leads to the object, and from there the segments of the name go on.
  rw [accepts_iff, List.forall_mem_map]
  refine forall₂_congr fun option _ => ?_
  rw [validateOption_eq_ok_iff]
  have onWay : valueAt (segments path) config = some (.object fields) := there
  have reads : readPath config (option.under path).name =
      valueAt (segments option.name) (.object fields) := by
    rw [readPath, ModuleOption.under, ModuleOption.name, segments_join, valueAt_append, onWay]
    rfl
  rw [reads]
  rfl

end

/-- An object with a single field that is null, at a path. -/
def nullAt (path name : String) : JsonValue where
  json := putAt (.object [(name, .null)]) (segments path) (.object [])
  built := by
    refine Rust.Json.built_putAt (.object _ (List.pairwise_singleton _ _) ?_) _
      (.object _ .nil (by simp))
    simpa using Rust.Json.Built.null

/-- The object with the null is read at its path. -/
theorem readPath_nullAt (path name : String) :
    readPath (nullAt path name).json path = some (.object [(name, .null)]) := by
  have found := valueAt_putAt_below (.object [(name, .null)]) (segments path) [] (.object [])
  rwa [List.append_nil] at found

/-- Options are checked alike at both levels exactly when those whose names have several segments
accept anything. -/
theorem nestsAlike_iff (path : String) (options : List ModuleOption) :
    NestsAlike path options ↔
      ∀ option ∈ options, Dotted option.name → option.optionType = .any := by
  constructor
  · intro alike option listed dotted
    -- A null under the name itself is seen by the submodule alone.
    have there := readPath_nullAt path option.name
    have both := alike (nullAt path option.name) ⟨_, there⟩
    rw [accepts_submodule_iff there, accepts_under_iff there] at both
    refine validate_null_iff.mp
      (both.mpr (fun other among value found => ?_) option listed .null ?_)
    · obtain ⟨first, rest, split, differs⟩ := head_segments_ne dotted other.name
      rw [split, valueAt_cons, field, lookup_cons_eq, if_neg differs] at found
      cases found
    · simp [field]
  · rintro anything config ⟨fields, there⟩
    rw [accepts_submodule_iff there, accepts_under_iff there]
    refine forall₂_congr fun option listed => ?_
    by_cases dotted : Dotted option.name
    · simp [anything option listed dotted, validate]
    · -- The only segment is the name.
      have own : valueAt [option.name] (.object fields) = field (.object fields) option.name := by
        rw [valueAt_cons]
        cases field (.object fields) option.name <;> rfl
      rw [segments_of_not_dotted dotted, own]

/-- The port of a service, which is a text. -/
def textPort : JsonValue where
  json := .object [("web", .object [("port", .object [("http", .string "eighty")])])]
  built := by
    refine .object _ (List.pairwise_singleton _ _) ?_
    simp only [List.mem_singleton, forall_eq]
    refine .object _ (List.pairwise_singleton _ _) ?_
    simp only [List.mem_singleton, forall_eq]
    refine .object _ (List.pairwise_singleton _ _) ?_
    simpa using Rust.Json.Built.string "eighty"

/-- The submodule does not look at the port, which the option at top level refuses. -/
theorem not_nestsAlike_dotted :
    (∃ fields, readPath textPort.json "web" = some (.object fields)) ∧
      Accepts textPort.json [.mk "web" (.submodule [.mk "port.http" .int])] ∧
      ¬ Accepts textPort.json [.mk "web.port.http" .int] := by
  have split : segments "port.http" = ["port", "http"] := by decide +kernel
  have there : readPath textPort.json "web" =
      some (.object [("port", .object [("http", .string "eighty")])]) := by
    rw [readPath, segments_of_not_dotted (by simp [Dotted])]
    rfl
  refine ⟨⟨_, there⟩, ?_, ?_⟩
  · -- The object has no field of the whole name.
    rw [accepts_submodule_iff there, List.forall_mem_singleton]
    intro value found
    simp [ModuleOption.name, field, List.lookup] at found
  · have same : Accepts textPort.json [.mk "web.port.http" .int] ↔ _ :=
      @accepts_under_iff _ _ [.mk "port.http" .int] _ there
    refine same.not.mpr fun accepted => ?_
    -- The segments of the name lead to the text.
    have checked := accepted _ List.mem_cons_self (.string "eighty")
    simp [ModuleOption.name, ModuleOption.optionType, split, valueAt_cons, field, validate, expect,
      isInt] at checked

end Tatara.Nix
