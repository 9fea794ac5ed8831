import Mathlib.Data.List.Infix
import Tatara.Rust.MergePatch

/-! Dotted paths and the places of nested JSON objects that they lead to. -/

namespace Tatara.Rust

/-- `str::split('.')` gives the segments of a dotted path. -/
def segments (path : String) : List String := (path.toList.splitOn '.').map String.ofList

/-- Even the empty path has a segment. -/
theorem segments_ne_nil (path : String) : segments path ≠ [] := by
  simp [segments, List.splitOn_ne_nil]

/-- A path is its segments with dots between them. -/
theorem intercalate_segments (path : String) :
    ['.'].intercalate ((segments path).map String.toList) = path.toList := by
  -- The segments are texts made of the pieces between the dots.
  rw [segments, List.map_map]
  have back : String.toList ∘ String.ofList = id := funext fun chars => String.toList_ofList
  rw [back, List.map_id, List.intercalate_splitOn]

/-- A path is known from its segments. -/
theorem segments_injective {path other : String} (same : segments path = segments other) :
    path = other := by
  rw [← String.toList_inj, ← intercalate_segments, same, intercalate_segments]

/-- Texts with separators between them start with the first of them. -/
theorem intercalate_prefix (sep : List Char) {front : List (List Char)} (nonempty : front ≠ [])
    (rest : List (List Char)) : sep.intercalate front <+: sep.intercalate (front ++ rest) := by
  -- By induction on the texts in front, the last of which may be followed by a separator.
  induction front with
  | nil => exact absurd rfl nonempty
  | cons text front ih =>
    cases front with
    | nil =>
      cases rest with
      | nil => simp
      | cons next rest => simp [List.intercalate_cons_cons]
    | cons next front =>
      obtain ⟨tail, spelled⟩ := ih (by simp)
      refine ⟨tail, ?_⟩
      simp only [List.cons_append, List.intercalate_cons_cons, List.append_assoc] at spelled ⊢
      rw [spelled]

/-- A path is not smaller than one whose segments it begins with. -/
theorem not_lt_of_segments_prefix {path other : String}
    (front : segments path <+: segments other) : ¬ other < path := by
  -- The segments in front spell a text in front.
  obtain ⟨rest, joined⟩ := front
  have spelled : path.toList <+: other.toList := by
    rw [← intercalate_segments path, ← intercalate_segments other, ← joined, List.map_append]
    exact intercalate_prefix _ (by simpa using segments_ne_nil path) _
  obtain ⟨tail, text⟩ := spelled
  rw [String.lt_iff, ← text]
  exact List.not_lt.mpr List.le_append_left

namespace Json

/-- The value at a place: the keys lead down through nested objects. -/
def valueAt : List String → Json → Option Json
  | [], value => some value
  | key :: rest, value => (value.field key).bind (valueAt rest)

@[simp] theorem valueAt_nil (value : Json) : valueAt [] value = some value := rfl

theorem valueAt_cons (key : String) (rest : List String) (value : Json) :
    valueAt (key :: rest) value = (value.field key).bind (valueAt rest) := rfl

/-- A place is reached in two stretches. -/
theorem valueAt_append (front rest : List String) (value : Json) :
    valueAt (front ++ rest) value = (valueAt front value).bind (valueAt rest) := by
  -- By induction on the first stretch.
  induction front generalizing value with
  | nil => rfl
  | cons key front ih =>
    rw [List.cons_append, valueAt_cons, valueAt_cons, Option.bind_assoc]
    exact Option.bind_congr fun inner _ => ih inner

/-- Put a value at a place, with objects for whatever else is on the way. -/
def putAt (new : Json) : List String → Json → Json
  | [], _ => new
  | key :: rest, value =>
    .object (insertField key (putAt new rest ((value.field key).getD (.object []))) value.fieldsOf)

@[simp] theorem putAt_nil (new value : Json) : putAt new [] value = new := rfl

/-- Putting a value somewhere below touches the field on the way and no other. -/
theorem field_putAt_cons (new : Json) (key : String) (rest : List String) (value : Json)
    (other : String) :
    (putAt new (key :: rest) value).field other =
      if other = key then some (putAt new rest ((value.field key).getD (.object [])))
      else value.field other := by
  rw [putAt, field, lookup_insertField, lookup_fieldsOf]

/-- The value put at a place is found there, with all that is below it. -/
theorem valueAt_putAt_below (new : Json) (place rest : List String) (value : Json) :
    valueAt (place ++ rest) (putAt new place value) = valueAt rest new := by
  -- Each key leads into the field that was rewritten.
  induction place generalizing value with
  | nil => rfl
  | cons key place ih =>
    rw [List.cons_append, valueAt_cons, field_putAt_cons, if_pos rfl, Option.bind_some, ih]

/-- Above the place a value is put at there are objects. -/
theorem valueAt_putAt_above (new : Json) {above place : List String} (value : Json)
    (proper : above <+: place) (different : above ≠ place) :
    ∃ fields, valueAt above (putAt new place value) = some (.object fields) := by
  induction above generalizing place value with
  | nil =>
    -- The root itself is rewritten into an object.
    cases place with
    | nil => exact absurd rfl different
    | cons key place => exact ⟨_, rfl⟩
  | cons key above ih =>
    obtain ⟨rest, rfl⟩ := proper
    rw [List.cons_append, valueAt_cons, field_putAt_cons, if_pos rfl, Option.bind_some]
    refine ih _ (List.prefix_append _ _) fun same => different ?_
    rw [List.cons_append, ← same]

/-- A place that is neither above nor below keeps its value. -/
theorem valueAt_putAt_apart (new : Json) {place other : List String} (value : Json)
    (notBelow : ¬ place <+: other) (notAbove : ¬ other <+: place) :
    valueAt other (putAt new place value) = valueAt other value := by
  induction place generalizing other value with
  | nil => exact absurd List.nil_prefix notBelow
  | cons key place ih =>
    cases other with
    | nil => exact absurd List.nil_prefix notAbove
    | cons step other =>
      rw [valueAt_cons, valueAt_cons, field_putAt_cons]
      by_cases same : step = key
      · subst same
        -- The two places part further down; a value that is no object has nothing there.
        rw [if_pos rfl, Option.bind_some,
          ih _ (fun below => notBelow (List.cons_prefix_cons.mpr ⟨rfl, below⟩))
            (fun above => notAbove (List.cons_prefix_cons.mpr ⟨rfl, above⟩))]
        cases value.field step with
        | some inner => rfl
        | none =>
          cases other with
          | nil => exact absurd (List.cons_prefix_cons.mpr ⟨rfl, List.nil_prefix⟩) notAbove
          | cons next other => rfl
      · rw [if_neg same]

/-- Two places of which neither is above the other. -/
def Apart (place other : List String) : Prop := ¬ place <+: other ∧ ¬ other <+: place

theorem Apart.symm {place other : List String} (apart : Apart place other) :
    Apart other place := ⟨apart.2, apart.1⟩

/-- Put values at places, one after the other. -/
def putAll (writes : List (List String × Json)) (value : Json) : Json :=
  writes.foldl (fun value write => putAt write.2 write.1 value) value

/-- A place apart from all that are written to keeps its value. -/
theorem valueAt_putAll_apart {writes : List (List String × Json)} {place : List String}
    (value : Json) (apart : ∀ write ∈ writes, Apart write.1 place) :
    valueAt place (putAll writes value) = valueAt place value := by
  -- No write reaches it, whichever comes first.
  induction writes generalizing value with
  | nil => rfl
  | cons write rest ih =>
    obtain ⟨notBelow, notAbove⟩ := apart write (.head _)
    have later := ih (putAt write.2 write.1 value) fun other listed => apart other (.tail _ listed)
    rw [putAll, List.foldl_cons, ← putAll, later, valueAt_putAt_apart _ _ notBelow notAbove]

/-- Among places that are apart, each holds what was written to it. -/
theorem valueAt_putAll_of_mem {writes : List (List String × Json)} (value : Json)
    (apart : writes.Pairwise fun write other => Apart write.1 other.1)
    {write : List String × Json} (listed : write ∈ writes) :
    valueAt write.1 (putAll writes value) = some write.2 := by
  induction writes generalizing value with
  | nil => cases listed
  | cons first rest ih =>
    obtain ⟨ahead, others⟩ := List.pairwise_cons.mp apart
    rw [putAll, List.foldl_cons, ← putAll]
    rcases List.mem_cons.mp listed with rfl | later
    · -- The later writes leave it alone.
      rw [valueAt_putAll_apart _ fun other among => (ahead other among).symm]
      have own := valueAt_putAt_below write.2 write.1 [] value
      rwa [List.append_nil] at own
    · exact ih _ others later

/-- Setting a field brings in nothing but its entry. -/
theorem mem_insertField {key : String} {value : Json} {fields : List (String × Json)}
    {entry : String × Json} (among : entry ∈ insertField key value fields) :
    entry = (key, value) ∨ entry ∈ fields := by
  -- The entry is put in front of the first greater one, or in place of the one of its key.
  induction fields with
  | nil => exact .inl (List.mem_singleton.mp among)
  | cons head rest ih =>
    obtain ⟨k, v⟩ := head
    rw [insertField] at among
    split at among
    · exact List.mem_cons.mp among
    · exact (List.mem_cons.mp among).imp_right (List.mem_cons_of_mem _)
    · rcases List.mem_cons.mp among with first | later
      · exact .inr (List.mem_cons.mpr (.inl first))
      · exact (ih later).imp_right (List.mem_cons_of_mem _)

/-- Setting a field keeps the keys in order. -/
theorem ascending_insertField {key : String} {value : Json} {fields : List (String × Json)}
    (ascending : fields.Pairwise fun a b => a.1 < b.1) :
    (insertField key value fields).Pairwise fun a b => a.1 < b.1 := by
  induction fields with
  | nil => exact List.pairwise_singleton _ _
  | cons head rest ih =>
    obtain ⟨k, v⟩ := head
    have larger := List.pairwise_cons.mp ascending
    rw [insertField]
    split
    · -- The key is smaller than the first one, and so than all.
      rename_i before
      have smaller : key < k := compareOfLessAndEq_eq_lt.mp before
      refine List.pairwise_cons.mpr ⟨fun entry listed => ?_, ascending⟩
      rcases List.mem_cons.mp listed with rfl | later
      · exact smaller
      · exact String.lt_trans smaller (larger.1 entry later)
    · rename_i same
      rw [Std.compare_eq_iff_eq.mp same]
      exact List.pairwise_cons.mpr larger
    · rename_i behind
      have swapped : compare k key = .lt := Std.OrientedCmp.gt_iff_lt.mp behind
      have greater : k < key := compareOfLessAndEq_eq_lt.mp swapped
      refine List.pairwise_cons.mpr ⟨fun entry listed => ?_, ih larger.2⟩
      rcases mem_insertField listed with rfl | later
      · exact greater
      · exact larger.1 entry later

/-- Setting a field of an object makes an object again. -/
theorem built_insertField {key : String} {value : Json} {fields : List (String × Json)}
    (object : (Json.object fields).Built) (built : value.Built) :
    (Json.object (insertField key value fields)).Built := by
  -- The entries are those of the object, and the new one.
  cases object with
  | object _ ascending each =>
    refine .object _ (ascending_insertField ascending) fun entry listed => ?_
    rcases mem_insertField listed with rfl | among
    · exact built
    · exact each entry among

/-- What is looked up is there. -/
theorem mem_of_lookup {key : String} {value : Json} {fields : List (String × Json)}
    (held : fields.lookup key = some value) : (key, value) ∈ fields := by
  obtain ⟨front, back, rfl, -⟩ := List.lookup_eq_some_iff.mp held
  simp

/-- In an object, what is there under a key is what is looked up. -/
theorem lookup_of_mem {key : String} {value : Json} {fields : List (String × Json)}
    (ascending : fields.Pairwise fun a b => a.1 < b.1) (among : (key, value) ∈ fields) :
    fields.lookup key = some value := by
  induction fields with
  | nil => cases among
  | cons head rest ih =>
    obtain ⟨k, v⟩ := head
    have larger := List.pairwise_cons.mp ascending
    rw [lookup_cons_eq]
    rcases List.mem_cons.mp among with first | later
    · cases first
      rw [if_pos rfl]
    · rw [if_neg, ih larger.2 later]
      -- The key of a later entry is larger.
      rintro rfl
      exact String.lt_irrefl key (larger.1 (key, value) later)

/-- A field of a value is a value. -/
theorem Built.of_field {value inner : Json} {key : String} (built : value.Built)
    (held : value.field key = some inner) : inner.Built := by
  -- Only an object has fields.
  cases built with
  | object fields _ each =>
    exact each (key, inner) (mem_of_lookup held)
  | null | bool | number | string | array => cases held

/-- What is at a place inside a value is a value. -/
theorem Built.of_valueAt {value inner : Json} {place : List String} (built : value.Built)
    (held : valueAt place value = some inner) : inner.Built := by
  -- Field by field down the place.
  induction place generalizing value with
  | nil =>
    cases held
    exact built
  | cons key place ih =>
    obtain ⟨next, field, rest⟩ := Option.bind_eq_some_iff.mp held
    exact ih (built.of_field field) rest

/-- The fields of any value make an object. -/
theorem built_fieldsOf {value : Json} (built : value.Built) :
    (Json.object value.fieldsOf).Built := by
  cases built with
  | object fields ascending each => exact .object fields ascending each
  | null | bool | number | string | array => exact .object [] .nil (by simp)

/-- Putting a value at a place keeps the keys in order everywhere. -/
theorem built_putAt {new : Json} (newBuilt : new.Built) (place : List String) {value : Json}
    (built : value.Built) : (putAt new place value).Built := by
  -- A field that is missing on the way is an empty object at first.
  induction place generalizing value with
  | nil => exact newBuilt
  | cons key place ih =>
    refine built_insertField (built_fieldsOf built) (ih ?_)
    cases held : value.field key with
    | none => exact .object [] .nil (by simp)
    | some inner => exact built.of_field held

end Json

end Tatara.Rust
