import Tatara.Nix.Lift

/-! When a resolved config keeps every setting of the highest priority. -/

namespace Tatara.Nix

open Rust (Json JsonValue segments)
open Rust.Json (valueAt)

/-- A value that is neither a list nor an object. -/
def isScalar : Json → Bool
  | .array _ => false
  | .object _ => false
  | _ => true

/-- What a value can set at a place: a scalar, or one element of a list. -/
inductive Setting
  | scalar (s : Json)
  | element (x : Json)

/-- A value has a setting. -/
def Has (value : Option Json) : Setting → Prop
  | .scalar s => value = some s ∧ isScalar s = true
  | .element x => ∃ items, value = some (.array items) ∧ x ∈ items

theorem not_has_none (setting : Setting) : ¬ Has none setting := by
  cases setting <;> simp [Has]

/-- An object is no setting. -/
theorem not_has_object (fields : List (String × Json)) (setting : Setting) :
    ¬ Has (some (.object fields)) setting := by
  -- An object is neither a scalar nor a list.
  cases setting with
  | scalar s =>
    rintro ⟨same, scalar⟩
    cases same
    cases scalar
  | element x => simp [Has]

/-- A list has the settings of the lists that it is put together from. -/
theorem has_array_iff {lists : List Json} {items : List Json} {setting : Setting}
    (each : ∀ v ∈ lists, ∃ xs, v = .array xs)
    (put : ∀ x, x ∈ items ↔ ∃ xs, .array xs ∈ lists ∧ x ∈ xs) :
    Has (some (.array items)) setting ↔ ∃ v ∈ lists, Has (some v) setting := by
  cases setting with
  | scalar s =>
    -- A list is no scalar.
    refine iff_of_false ?_ ?_
    · rintro ⟨same, scalar⟩
      cases same
      cases scalar
    · rintro ⟨v, listed, same, scalar⟩
      obtain ⟨xs, rfl⟩ := each v listed
      cases same
      cases scalar
  | element x =>
    simp only [Has, Option.some.injEq, Json.array.injEq, exists_eq_left', put]
    constructor
    · rintro ⟨xs, listed, among⟩
      exact ⟨.array xs, listed, xs, rfl, among⟩
    · rintro ⟨_, listed, xs, rfl, among⟩
      exact ⟨xs, listed, among⟩

/-- Combined values have the settings of each. -/
theorem Combined.has_iff {values : List Json} {z : Option Json} (combined : Combined values z)
    (setting : Setting) : Has z setting ↔ ∃ v ∈ values, Has (some v) setting := by
  -- By the kind of what was combined; objects hold no setting at their own place.
  cases combined with
  | none => simpa using not_has_none setting
  | one v => simp
  | arrays lists several =>
    refine has_array_iff (by simp) fun x => ?_
    simp [List.mem_flatten]
  | objects objects several fields =>
    refine iff_of_false (not_has_object fields setting) ?_
    rintro ⟨v, listed, has⟩
    obtain ⟨fs, -, rfl⟩ := List.mem_map.mp listed
    exact not_has_object fs setting has

/-- The items of joined lists are those of the contributions, whatever their placements. -/
theorem mem_joinLists {contribs : List Contribution} {items : List Json}
    (joined : joinLists contribs = .array items) (x : Json) :
    x ∈ items ↔ ∃ c ∈ contribs, ∃ xs, c.value.json = .array xs ∧ x ∈ xs := by
  have placed (place : Option Placement) : x ∈ itemsPlaced place contribs ↔
      ∃ c ∈ contribs, c.order = place ∧ ∃ xs, c.value.json = .array xs ∧ x ∈ xs := by
    simp only [itemsPlaced, List.mem_flatMap]
    refine exists_congr fun c => and_congr_right fun _ => ?_
    cases c.value.json with
    | array xs => by_cases own : c.order = place <;> simp [own]
    | null | bool | number | string | object => simp
  cases joined
  simp only [List.mem_append, placed]
  constructor
  · rintro ((⟨c, listed, -, has⟩ | ⟨c, listed, -, has⟩) | ⟨c, listed, -, has⟩) <;>
      exact ⟨c, listed, has⟩
  · rintro ⟨c, listed, has⟩
    -- A placement is one of three.
    cases order : c.order with
    | none => exact .inl (.inr ⟨c, listed, order, has⟩)
    | some placement =>
      cases placement with
      | before => exact .inl (.inl ⟨c, listed, order, has⟩)
      | after => exact .inr ⟨c, listed, order, has⟩

/-- Joined contributions have, at their own path, the settings of each. -/
theorem JoinedAt.has_iff {contribs : List Contribution} {joined : Json}
    (at_ : JoinedAt contribs joined) (setting : Setting) :
    Has (some joined) setting ↔ ∃ c ∈ contribs, Has (some c.value.json) setting := by
  -- By how the value at the place came about.
  cases at_ with
  | one c => simp
  | arrays _ several each =>
    have all : ∀ v ∈ contribs.map fun c => c.value.json, ∃ xs, v = .array xs := by
      intro v listed
      obtain ⟨c, among, rfl⟩ := List.mem_map.mp listed
      exact each c among
    rw [joinLists, has_array_iff all fun x => ?_]
    · simp
    · rw [mem_joinLists rfl]
      simp only [List.mem_map]
      grind
  | objects _ several each fields =>
    refine iff_of_false (not_has_object fields setting) ?_
    rintro ⟨c, listed, has⟩
    obtain ⟨fs, shape⟩ := each c listed
    rw [shape] at has
    exact not_has_object fs setting has

/-- A join has at every place the settings of its contributions. -/
theorem has_join_iff {path : String} {first : Contribution} {others : List Contribution}
    {joined : Json} (ok : join path first others = .ok joined) (place : List String)
    (setting : Setting) :
    Has (valueAt place joined) setting ↔
      ∃ c ∈ first :: others, Has (valueAt place c.value.json) setting := by
  -- Both strategies keep the settings of every value that is joined.
  obtain ⟨top, inside⟩ := join_spec ok
  cases place with
  | nil => exact top.has_iff setting
  | cons key place =>
    rw [(inside key place).has_iff, valuesAt]
    constructor
    · rintro ⟨v, among, has⟩
      obtain ⟨c, listed, at_⟩ := List.mem_filterMap.mp among
      exact ⟨c, listed, by rwa [at_]⟩
    · rintro ⟨c, listed, has⟩
      cases at_ : valueAt (key :: place) c.value.json with
      | none => exact absurd (at_ ▸ has) (not_has_none setting)
      | some v => exact ⟨v, List.mem_filterMap.mpr ⟨c, listed, at_⟩, by rwa [at_] at has⟩

/-- The config has every scalar, and every element of a list, that a contribution of the highest
priority at its path gives. -/
def KeepsSettings (modules : List Module) (config : Json) : Prop :=
  ∀ path c, Winner modules path c → ∀ inside setting, Has (valueAt inside c.value.json) setting →
    Has (valueAt (segments path ++ inside) config) setting

/-- Two contributions that are the highest at their paths, and of one priority, give different
scalars to one place. -/
def Clashing (modules : List Module) : Prop :=
  ∃ path c inside s path' c' inside' s',
    Winner modules path c ∧ Winner modules path' c' ∧ c.priority = c'.priority ∧
      segments path ++ inside = segments path' ++ inside' ∧
      Has (valueAt inside c.value.json) (.scalar s) ∧
      Has (valueAt inside' c'.value.json) (.scalar s') ∧ s ≠ s'

/-- What a contribution of the highest priority sets at a place, no path runs on below, and the
longest path to the place or above it is given as well. -/
def Unshadowed (modules : List Module) : Prop :=
  ∀ path c, Winner modules path c → ∀ inside setting, Has (valueAt inside c.value.json) setting →
    ¬ RunsOnBelow modules (segments path ++ inside) ∧
      ∀ longest, Deepest modules (segments path ++ inside) longest →
        ∃ c', Winner modules longest c' ∧
          Has (valueAt ((segments path ++ inside).drop (segments longest).length) c'.value.json)
            setting

/-- A contribution of the highest priority is one to its path. -/
theorem Winner.assigned {modules : List Module} {path : String} {c : Contribution}
    (winner : Winner modules path c) : Assigned modules path := by
  intro empty
  rw [Winner, empty] at winner
  cases winner

/-- Two longest paths to one place are the same. -/
theorem Deepest.unique {modules : List Module} {place : List String} {path other : String}
    (deepest : Deepest modules place path) (also : Deepest modules place other) :
    other = path := by
  -- Both lead to the place and have one length.
  have lengths := le_antisymm (deepest.2.2 other also.1 also.2.1)
    (also.2.2 path deepest.1 deepest.2.1)
  exact Rust.segments_injective ((List.prefix_of_prefix_length_le also.2.1 deepest.2.1
    lengths.le).eq_of_length lengths)

/-- A place at or below an assigned path has a setting in the config exactly when no path runs on
below it and the longest path to it gives the setting. -/
theorem has_config_iff {modules : List Module} {config : Json}
    (ok : resolveModules modules = .ok config) {path : String} (assigned : Assigned modules path)
    {place : List String} (leads : segments path <+: place) (setting : Setting) :
    Has (valueAt place config) setting ↔ ¬ RunsOnBelow modules place ∧
      ∀ longest, Deepest modules place longest → ∃ c', Winner modules longest c' ∧
        Has (valueAt (place.drop (segments longest).length) c'.value.json) setting := by
  have held := configAt_of_resolveModules ok place
  generalize valueAt place config = value at held
  cases held with
  | crossed below fields =>
    exact iff_of_false (not_has_object fields setting) fun both => both.1 below
  | untouched clear => exact absurd leads (clear path assigned).1
  | governed longest deepest clear first others best joined joins =>
    rw [has_join_iff joins]
    refine ⟨fun ⟨c, listed, has⟩ => ⟨clear, fun other otherDeepest => ?_⟩, fun ⟨_, gives⟩ => ?_⟩
    · -- The longest path is the one that governs the place.
      cases deepest.unique otherDeepest
      exact ⟨c, by rw [Winner, best]; exact listed, has⟩
    · obtain ⟨c, winner, has⟩ := gives longest deepest
      rw [Winner, best] at winner
      exact ⟨c, winner, has⟩

/-- A resolved config keeps every setting, and hides no conflict, exactly when no setting is
shadowed by a longer path. -/
theorem keepsSettings_iff_unshadowed (modules : List Module) (config : Json)
    (ok : resolveModules modules = .ok config) :
    (KeepsSettings modules config ∧ ¬ Clashing modules) ↔ Unshadowed modules := by
  constructor
  · rintro ⟨keeps, -⟩ path c winner inside setting has
    exact (has_config_iff ok winner.assigned (List.prefix_append _ _) setting).mp
      (keeps path c winner inside setting has)
  · intro unshadowed
    have keeps : KeepsSettings modules config := fun path c winner inside setting has =>
      (has_config_iff ok winner.assigned (List.prefix_append _ _) setting).mpr
        (unshadowed path c winner inside setting has)
    refine ⟨keeps, ?_⟩
    -- Two scalars that are both kept at one place are the same.
    rintro ⟨path, c, inside, s, path', c', inside', s', winner, winner', -, same, has, has', differ⟩
    have left := (keeps path c winner inside (.scalar s) has).1
    have right := (keeps path' c' winner' inside' (.scalar s') has').1
    rw [same, right] at left
    exact differ (Option.some.inj left).symm

/-- A small number as a value. -/
def numberValue (n : UInt64) : JsonValue := ⟨.number (.posInt n), .number _ trivial⟩

/-- An object with one field as a value. -/
def objectValue (key : String) (v : JsonValue) : JsonValue :=
  ⟨.object [(key, v.json)], .object _ (List.pairwise_singleton _ _) fun field listed => by
    rw [List.mem_singleton.mp listed]
    exact v.built⟩

/-- Two assignments that stay out of each other's way are resolved with nothing shadowed. -/
theorem keepsSettings_apart :
    let modules : List Module :=
      [⟨[], [⟨"a", .set (objectValue "b" (numberValue 1))⟩, ⟨"c.d", .set (numberValue 2)⟩]⟩]
    ∃ config, resolveModules modules = .ok config ∧
      ((KeepsSettings modules config ∧ ¬ Clashing modules) ↔ Unshadowed modules) := by
  intro modules
  exact ⟨_, rfl, keepsSettings_iff_unshadowed modules _ rfl⟩

/-- A field and a dotted path to it are resolved to the path's value, and the field is lost. -/
theorem resolveModules_hides_conflict :
    let modules : List Module :=
      [⟨[], [⟨"a", .set (objectValue "b" (numberValue 1))⟩, ⟨"a.b", .set (numberValue 2)⟩]⟩]
    ∃ config, resolveModules modules = .ok config ∧ Clashing modules ∧
      ¬ KeepsSettings modules config := by
  intro modules
  -- Both contributions win at their own paths.
  have winner : Winner modules "a" ⟨.normal, objectValue "b" (numberValue 1), none⟩ := .head _
  have winner' : Winner modules "a.b" ⟨.normal, numberValue 2, none⟩ := .head _
  refine ⟨_, rfl, ⟨"a", _, ["b"], _, "a.b", _, [], _, winner, winner', rfl, rfl, ⟨rfl, rfl⟩,
    ⟨rfl, rfl⟩, by simp [numberValue]⟩, fun keeps => ?_⟩
  have kept := (keeps _ _ winner ["b"] (.scalar (.number (.posInt 1))) ⟨rfl, rfl⟩).1
  -- The value of the path has taken the place of the field.
  have held : valueAt (segments "a" ++ ["b"]) (.object [("a", .object [("b",
    .number (.posInt 2))])]) = some (.number (.posInt 2)) := rfl
  have same := held.symm.trans kept
  simp at same

end Tatara.Nix
