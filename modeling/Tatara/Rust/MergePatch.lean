import Tatara.Rust.Data

/-! JSON merge patches: a patch is laid into a value field by field, and null takes a field out. -/

namespace Tatara.Rust.Json

/-- The value of a field, if there is one. -/
def field (value : Json) (key : String) : Option Json :=
  match value with
  | .object fields => fields.lookup key
  | _ => none

/-- The fields of an object, and none of any other value. -/
def fieldsOf : Json → List (String × Json)
  | .object fields => fields
  | _ => []

/-- Take a field out. -/
def removeField (key : String) (fields : List (String × Json)) : List (String × Json) :=
  fields.filter fun entry => entry.1 ≠ key

mutual

/-- Lay a patch into a value; anything but an object takes its place. -/
def mergePatch (target : Json) : Json → Json
  | .object patch => .object (mergeFields target.fieldsOf patch)
  | .null => .null
  | .bool b => .bool b
  | .number n => .number n
  | .string text => .string text
  | .array items => .array items

/-- Lay the fields of a patch into fields, one after the other. -/
def mergeFields (fields : List (String × Json)) : List (String × Json) → List (String × Json)
  | [] => fields
  | (key, value) :: rest =>
    match value with
    | .null => mergeFields (removeField key fields) rest
    | value => mergeFields
        (insertField key (mergePatch ((fields.lookup key).getD .null) value) fields) rest

end

section

variable {key other : String} {value : Json} {fields patch : List (String × Json)}

/-- A key is looked up in the first entry, or else in the others. -/
theorem lookup_cons_eq {k : String} {v : Json} :
    ((k, v) :: fields).lookup key = if key = k then some v else fields.lookup key := by
  by_cases same : key = k
  · simp [same]
  · have differs : (key == k) = false := beq_eq_false_iff_ne.mpr same
    simp [List.lookup_cons, differs, same]

/-- A field that is set is found under its key, and the others as before. -/
theorem lookup_insertField (other : String) :
    (insertField key value fields).lookup other =
      if other = key then some value else fields.lookup other := by
  -- The field comes to stand in front of those that are greater.
  induction fields with
  | nil => simp only [insertField, lookup_cons_eq]
  | cons entry fields ih =>
    obtain ⟨k, v⟩ := entry
    simp only [insertField]
    cases compared : compare key k with
    | lt => simp only [lookup_cons_eq]
    | eq =>
      have same : key = k := Std.LawfulEqOrd.eq_of_compare compared
      simp only [lookup_cons_eq, ← same]
      split <;> rfl
    | gt =>
      have different : key ≠ k := by
        rintro rfl
        simp at compared
      simp only [lookup_cons_eq, ih]
      by_cases own : other = key
      · simp [own, different]
      · simp [own]

/-- A field that is removed is not found, and the others are as before. -/
theorem lookup_removeField (other : String) :
    (removeField key fields).lookup other =
      if other = key then none else fields.lookup other := by
  -- The field may stand in several places, and goes from all of them.
  induction fields with
  | nil => simp [removeField]
  | cons entry fields ih =>
    obtain ⟨k, v⟩ := entry
    by_cases same : k = key
    · have gone : removeField key ((k, v) :: fields) = removeField key fields := by
        simp [removeField, same]
      rw [gone, ih, lookup_cons_eq, same]
      split <;> rfl
    · have kept : removeField key ((k, v) :: fields) = (k, v) :: removeField key fields := by
        simp [removeField, same]
      rw [kept, lookup_cons_eq, lookup_cons_eq, ih]
      by_cases own : other = k
      · simp [own, same]
      · simp [own]

end

/-- What a patch makes of one field: a field that it does not name keeps its old value. -/
def patchedField (old : Option Json) : Option Json → Option Json
  | none => old
  | some .null => none
  | some value => some (mergePatch (old.getD .null) value)

/-- The fields of a patch do not get into each other's way. -/
theorem lookup_mergeFields {fields patch : List (String × Json)}
    (distinct : (patch.map Prod.fst).Nodup) (key : String) :
    (mergeFields fields patch).lookup key =
      patchedField (fields.lookup key) (patch.lookup key) := by
  -- Each field of the patch touches its own place only, and no later one touches it again.
  induction patch generalizing fields with
  | nil => simp [mergeFields, patchedField]
  | cons entry patch ih =>
    obtain ⟨k, v⟩ := entry
    obtain ⟨fresh, others⟩ := List.nodup_cons.mp distinct
    have absent : patch.lookup k = none := by
      rw [List.lookup_eq_none_iff]
      intro entry among
      have named : entry.1 ∈ patch.map Prod.fst := List.mem_map_of_mem among
      have differs : k ≠ entry.1 := fun same => fresh (same ▸ named)
      simpa using differs
    rw [lookup_cons_eq]
    cases v with
    | null =>
      rw [mergeFields, ih others, lookup_removeField]
      by_cases own : key = k
      · simp [own, absent, patchedField]
      · simp [own]
    | bool | number | string | array | object =>
      rw [mergeFields, ih others, lookup_insertField]
      · by_cases own : key = k
        · simp [own, absent, patchedField]
        · simp [own]
      · simp

/-- The fields of a value are what is looked up in it. -/
theorem lookup_fieldsOf (value : Json) (key : String) :
    value.fieldsOf.lookup key = value.field key := by
  cases value <;> rfl

/-- Each field of the result comes from the same field of the two. -/
theorem field_mergePatch {patch : List (String × Json)} (distinct : (patch.map Prod.fst).Nodup)
    (target : Json) (key : String) :
    (mergePatch target (.object patch)).field key =
      patchedField (target.field key) (patch.lookup key) := by
  rw [mergePatch, field, lookup_mergeFields distinct, lookup_fieldsOf]

end Tatara.Rust.Json
