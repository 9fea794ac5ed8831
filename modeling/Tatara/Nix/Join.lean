import Tatara.Nix.Resolver

/-! What joining contributions makes of each place inside their values. -/

namespace Tatara.Nix

open Rust (Json)
open Rust.Json (Built insertField valueAt lookup_insertField lookup_cons_eq built_insertField)

/-- What two values make of one place of their join: a list each is one list, and an object each
is some object. -/
inductive Met : Option Json → Option Json → Option Json → Prop
  | left (x : Option Json) : Met x none x
  | right (y : Option Json) : Met none y y
  | arrays (xs ys : List Json) :
    Met (some (.array xs)) (some (.array ys)) (some (.array (xs ++ ys)))
  | objects (fs gs hs : List (String × Json)) :
    Met (some (.object fs)) (some (.object gs)) (some (.object hs))

/-- Where the second value has nothing, the first one is kept. -/
theorem Met.of_none {x z : Option Json} (met : Met x none z) : z = x := by
  cases met <;> rfl

/-- No later field has the key of the first one. -/
theorem lookup_eq_none_of_ascending {k : String} {v : Json} {rest : List (String × Json)}
    (ascending : ((k, v) :: rest).Pairwise fun a b => a.1 < b.1) : rest.lookup k = none := by
  -- All later keys are larger.
  rw [List.lookup_eq_none_iff]
  intro entry listed
  have larger := (List.pairwise_cons.mp ascending).1 entry listed
  rw [bne_iff_ne]
  rintro rfl
  exact String.lt_irrefl _ larger

/-- The place of an object that a key leads to first. -/
theorem valueAt_object (key : String) (place : List String) (fields : List (String × Json)) :
    valueAt (key :: place) (.object fields) = (fields.lookup key).bind (valueAt place) := rfl

/-- A field that is set anew answers for its own key only. -/
theorem valueAt_insertField (key k : String) (place : List String) (v : Json)
    (fields : List (String × Json)) :
    valueAt (key :: place) (.object (insertField k v fields)) =
      if key = k then valueAt place v else valueAt (key :: place) (.object fields) := by
  rw [valueAt_object, valueAt_object, lookup_insertField]
  split <;> rfl

/-- A first field answers for its own key only. -/
theorem valueAt_cons_field (key k : String) (place : List String) (v : Json)
    (rest : List (String × Json)) :
    valueAt (key :: place) (.object ((k, v) :: rest)) =
      if key = k then valueAt place v else valueAt (key :: place) (.object rest) := by
  rw [valueAt_object, valueAt_object, lookup_cons_eq]
  split <;> rfl

/-- Two lists have no places inside them, so their join has none. -/
theorem met_arrays (old items : List Json) (place : List String) :
    Met (valueAt place (.array old)) (valueAt place (.array items))
      (valueAt place (.array (old ++ items))) := by
  cases place with
  | nil => exact .arrays old items
  | cons key place => exact .left none

mutual

/-- A join of two values is their join at every place. -/
theorem joinPair_met {path : String} {existing v joined : Json} (built : v.Built)
    (ok : joinPair path existing v = .ok joined) (place : List String) :
    Met (valueAt place existing) (valueAt place v) (valueAt place joined) := by
  cases v with
  | array items =>
    cases existing with
    | array old =>
      rw [joinPair] at ok
      cases ok
      exact met_arrays old items place
    | null | bool | number | string | object => simp [joinPair] at ok
  | object fields =>
    cases existing with
    | object old =>
      rw [joinPair] at ok
      cases merged : joinFields path old fields with
      | error e => simp [merged, Except.map] at ok
      | ok fields' =>
        simp only [merged, Except.map, Except.ok.injEq] at ok
        subst ok
        cases built with
        | object _ ascending each => exact joinFields_met ascending each merged place
    | null | bool | number | string | array => simp [joinPair] at ok
  | null | bool | number | string =>
    -- A scalar joins with nothing.
    simp only [joinPair, joinPair.joinScalar] at ok
    split at ok <;> cases ok

/-- Merging fields into fields joins the two objects at every place. -/
theorem joinFields_met {path : String} {merged fields result : List (String × Json)}
    (ascending : fields.Pairwise fun a b => a.1 < b.1)
    (built : ∀ entry ∈ fields, Built entry.2)
    (ok : joinFields path merged fields = .ok result) (place : List String) :
    Met (valueAt place (.object merged)) (valueAt place (.object fields))
      (valueAt place (.object result)) := by
  cases fields with
  | nil =>
    cases ok
    cases place with
    | nil => exact .objects _ _ _
    | cons key place => exact .left _
  | cons entry rest =>
    obtain ⟨k, v⟩ := entry
    have gone := lookup_eq_none_of_ascending ascending
    have later := List.pairwise_cons.mp ascending
    have builtRest := fun entry (listed : entry ∈ rest) => built entry (.tail _ listed)
    cases place with
    | nil => exact .objects _ _ _
    | cons key place =>
      rw [joinFields] at ok
      cases held : merged.lookup k with
      | none =>
        simp only [held] at ok
        have ih := joinFields_met later.2 builtRest ok (key :: place)
        rw [valueAt_insertField] at ih
        rw [valueAt_cons_field]
        by_cases own : key = k
        · -- The new field stays, for no later field has its key.
          subst own
          rw [if_pos rfl] at ih ⊢
          rw [valueAt_object, gone, Option.bind_none] at ih
          rw [valueAt_object, held, Option.bind_none, ih.of_none]
          exact .right _
        · rwa [if_neg own] at ih ⊢
      | some existing =>
        simp only [held] at ok
        cases pair : joinPair (path ++ "." ++ k) existing v with
        | error e => simp [pair] at ok
        | ok joined =>
          simp only [pair] at ok
          have ih := joinFields_met later.2 builtRest ok (key :: place)
          rw [valueAt_insertField] at ih
          rw [valueAt_cons_field]
          by_cases own : key = k
          · -- The two values of the key were joined, and no later field has the key.
            subst own
            rw [if_pos rfl] at ih ⊢
            rw [valueAt_object, gone, Option.bind_none] at ih
            rw [valueAt_object, held, Option.bind_some]
            rw [ih.of_none]
            exact joinPair_met (built (key, v) (.head _)) pair place
          · rwa [if_neg own] at ih ⊢

end

mutual

/-- Two values join when they have a join at every place. -/
theorem joinPair_ok {path : String} {existing v : Json} (built : v.Built)
    (joinable : ∀ place, ∃ z, Met (valueAt place existing) (valueAt place v) z) :
    ∃ joined, joinPair path existing v = .ok joined := by
  -- Lists are appended, objects merged, and scalars meet nothing.
  obtain ⟨top, met⟩ := joinable []
  cases v with
  | array items =>
    cases met with
    | arrays old => exact ⟨_, rfl⟩
  | object fields =>
    cases met with
    | objects old =>
      cases built with
      | object _ ascending each =>
        obtain ⟨merged, ok⟩ := joinFields_ok ascending each joinable
        exact ⟨.object merged, by rw [joinPair, ok]; rfl⟩
  | null | bool | number | string => cases met

/-- Fields are merged into fields when the two objects have a join at every place. -/
theorem joinFields_ok {path : String} {merged fields : List (String × Json)}
    (ascending : fields.Pairwise fun a b => a.1 < b.1)
    (built : ∀ entry ∈ fields, Built entry.2)
    (joinable : ∀ place, ∃ z,
      Met (valueAt place (.object merged)) (valueAt place (.object fields)) z) :
    ∃ result, joinFields path merged fields = .ok result := by
  cases fields with
  | nil => exact ⟨merged, rfl⟩
  | cons entry rest =>
    obtain ⟨k, v⟩ := entry
    have gone := lookup_eq_none_of_ascending ascending
    have later := List.pairwise_cons.mp ascending
    have builtRest := fun entry (listed : entry ∈ rest) => built entry (.tail _ listed)
    -- Setting the first key anew leaves the places of the other keys as they were.
    have afterwards (value : Json) : ∀ place, ∃ z,
        Met (valueAt place (.object (insertField k value merged)))
          (valueAt place (.object rest)) z := by
      intro place
      cases place with
      | nil => exact ⟨_, .objects _ _ []⟩
      | cons key place =>
        obtain ⟨z, met⟩ := joinable (key :: place)
        rw [valueAt_cons_field] at met
        rw [valueAt_insertField]
        by_cases own : key = k
        · subst own
          rw [valueAt_object key place rest, gone, Option.bind_none]
          exact ⟨_, .left _⟩
        · rw [if_neg own] at met ⊢
          exact ⟨z, met⟩
    rw [joinFields]
    cases held : merged.lookup k with
    | none => exact joinFields_ok later.2 builtRest (afterwards v)
    | some existing =>
      have pair : ∀ place, ∃ z, Met (valueAt place existing) (valueAt place v) z := by
        intro place
        have met := joinable (k :: place)
        rwa [valueAt_cons_field, if_pos rfl, valueAt_object, held, Option.bind_some] at met
      obtain ⟨joined, ok⟩ : ∃ joined, joinPair (path ++ "." ++ k) existing v = .ok joined :=
        joinPair_ok (built (k, v) (.head _)) pair
      simp only [ok]
      exact joinFields_ok later.2 builtRest (afterwards joined)

end

/-- Two values that join: a list each, or an object each. -/
def Joins (x y : Json) : Prop :=
  (∃ xs ys, x = .array xs ∧ y = .array ys) ∨ ∃ fs gs, x = .object fs ∧ y = .object gs

/-- Joining is mutual. -/
theorem Joins.symm {x y : Json} (joins : Joins x y) : Joins y x := by
  rcases joins with ⟨xs, ys, rfl, rfl⟩ | ⟨fs, gs, rfl, rfl⟩
  · exact .inl ⟨ys, xs, rfl, rfl⟩
  · exact .inr ⟨gs, fs, rfl, rfl⟩

/-- What the values at one place of several joined contributions make of it: a value by itself
stays, lists are put together, and objects are some object. -/
inductive Combined : List Json → Option Json → Prop
  | none : Combined [] none
  | one (v : Json) : Combined [v] (some v)
  | arrays (lists : List (List Json)) (several : 1 < lists.length) :
    Combined (lists.map .array) (some (.array lists.flatten))
  | objects (objects : List (List (String × Json))) (several : 1 < objects.length)
    (fields : List (String × Json)) : Combined (objects.map .object) (some (.object fields))

/-- Values that were combined join with each other. -/
theorem Combined.pairwise {values : List Json} {z : Option Json} (combined : Combined values z) :
    values.Pairwise Joins := by
  -- Either there is at most one, or all are of one shape.
  cases combined with
  | none => exact .nil
  | one v => exact List.pairwise_singleton _ _
  | arrays lists =>
    rw [List.pairwise_map]
    exact List.pairwise_of_forall fun xs ys => .inl ⟨xs, ys, rfl, rfl⟩
  | objects objects =>
    rw [List.pairwise_map]
    exact List.pairwise_of_forall fun fs gs => .inr ⟨fs, gs, rfl, rfl⟩

/-- Combined values join with one more value when that one joins with each of them. -/
theorem Combined.met_iff {values : List Json} {x : Option Json} (combined : Combined values x)
    (y : Option Json) :
    (∃ z, Met x y z) ↔ ∀ v ∈ values, ∀ w ∈ y, Joins v w := by
  cases y with
  | none => simpa using ⟨x, Met.left x⟩
  | some w =>
    -- Only lists join with a list, and only objects with an object.
    constructor
    · rintro ⟨z, met⟩ v listed _ ⟨⟩
      cases met with
      | right => cases combined; cases listed
      | arrays xs ys =>
        cases combined with
        | one => exact .inl ⟨xs, ys, List.mem_singleton.mp listed, rfl⟩
        | arrays lists =>
          obtain ⟨zs, -, rfl⟩ := List.mem_map.mp listed
          exact .inl ⟨zs, ys, rfl, rfl⟩
      | objects fs gs =>
        cases combined with
        | one => exact .inr ⟨fs, gs, List.mem_singleton.mp listed, rfl⟩
        | objects objects =>
          obtain ⟨hs, -, rfl⟩ := List.mem_map.mp listed
          exact .inr ⟨hs, gs, rfl, rfl⟩
    · intro joins
      cases combined with
      | none => exact ⟨_, .right _⟩
      | one v =>
        rcases joins v (by simp) w rfl with ⟨xs, ys, rfl, rfl⟩ | ⟨fs, gs, rfl, rfl⟩
        · exact ⟨_, .arrays xs ys⟩
        · exact ⟨_, .objects fs gs []⟩
      | arrays lists several =>
        obtain ⟨xs, rest, rfl⟩ := List.exists_cons_of_length_pos (Nat.lt_of_succ_lt several)
        rcases joins (.array xs) (by simp) w rfl with ⟨_, ys, -, rfl⟩ | ⟨_, _, contra, -⟩
        · exact ⟨_, .arrays _ ys⟩
        · cases contra
      | objects objects several fields =>
        obtain ⟨fs, rest, rfl⟩ := List.exists_cons_of_length_pos (Nat.lt_of_succ_lt several)
        rcases joins (.object fs) (by simp) w rfl with ⟨_, _, contra, -⟩ | ⟨_, gs, -, rfl⟩
        · cases contra
        · exact ⟨_, .objects _ gs []⟩

/-- One more value is combined with the others by joining it. -/
theorem Combined.snoc {values : List Json} {x y z : Option Json} (combined : Combined values x)
    (met : Met x y z) : Combined (values ++ y.toList) z := by
  -- By the kinds of what was combined before and of what it meets.
  cases met with
  | left => simpa using combined
  | right =>
    cases combined
    cases y with
    | none => exact .none
    | some w => exact .one w
  | arrays xs ys =>
    cases combined with
    | one => simpa using Combined.arrays [xs, ys] (by simp)
    | arrays lists several =>
      have more := Combined.arrays (lists ++ [ys]) (by simp; omega)
      simpa using more
  | objects fs gs hs =>
    cases combined with
    | one => simpa using Combined.objects [fs, gs] (by simp) hs
    | objects objects several =>
      have more := Combined.objects (objects ++ [gs]) (by simp; omega) hs
      simpa using more

/-- What contributions have at a place, in their order. -/
def valuesAt (place : List String) (contribs : List Contribution) : List Json :=
  contribs.filterMap fun c => valueAt place c.value.json

/-- The values at a place are those of the contributions, one by one. -/
theorem valuesAt_cons (place : List String) (c : Contribution) (rest : List Contribution) :
    valuesAt place (c :: rest) = (valueAt place c.value.json).toList ++ valuesAt place rest := by
  rw [valuesAt, List.filterMap_cons]
  cases valueAt place c.value.json <;> rfl

/-- Contributions of which each is an object. -/
def AllObjects (contribs : List Contribution) : Prop :=
  ∀ c ∈ contribs, ∃ fields, c.value.json = .object fields

/-- Merging an object into what is merged already combines its values with the others. -/
theorem joinObject_spec {path : String} {merged result : List (String × Json)} {c : Contribution}
    {values : String → List String → List Json}
    (combined : ∀ key place, Combined (values key place) (valueAt (key :: place) (.object merged)))
    (ok : joinObject path merged c = .ok result) :
    (∃ fields, c.value.json = .object fields) ∧ ∀ key place,
      Combined (values key place ++ (valueAt (key :: place) c.value.json).toList)
        (valueAt (key :: place) (.object result)) := by
  -- The fields of the later object go in one by one.
  have built := c.value.built
  cases shape : c.value.json with
  | object fields =>
    rw [shape] at built
    cases built with
    | object _ ascending each =>
      rw [joinObject, shape] at ok
      exact ⟨⟨fields, rfl⟩, fun key place =>
        (combined key place).snoc (joinFields_met ascending each ok (key :: place))⟩
  | null | bool | number | string | array => simp [joinObject, shape] at ok

/-- An object is merged into what is merged already when it joins with it at every place. -/
theorem joinObject_ok {path : String} {merged fields : List (String × Json)} {c : Contribution}
    {values : String → List String → List Json}
    (combined : ∀ key place, Combined (values key place) (valueAt (key :: place) (.object merged)))
    (shape : c.value.json = .object fields)
    (joins : ∀ key place, ∀ v ∈ values key place, ∀ w ∈ valueAt (key :: place) c.value.json,
      Joins v w) : ∃ result, joinObject path merged c = .ok result := by
  have built := c.value.built
  rw [shape] at built joins
  -- The fields come in ascending order, as those of any value.
  rw [joinObject, shape]
  cases built with
  | object _ ascending each =>
    refine joinFields_ok ascending each fun place => ?_
    -- At the root both are objects.
    cases place with
    | nil => exact ⟨_, .objects _ _ []⟩
    | cons key place => exact ((combined key place).met_iff _).mpr (joins key place)

/-- The objects merged one after the other combine their values at every place. -/
theorem foldlM_joinObject_spec {path : String} {contribs : List Contribution}
    {merged result : List (String × Json)} {values : String → List String → List Json}
    (combined : ∀ key place, Combined (values key place) (valueAt (key :: place) (.object merged)))
    (ok : contribs.foldlM (joinObject path) merged = .ok result) :
    AllObjects contribs ∧ ∀ key place,
      Combined (values key place ++ valuesAt (key :: place) contribs)
        (valueAt (key :: place) (.object result)) := by
  -- By induction on the contributions, with what is merged so far carried along.
  induction contribs generalizing merged values with
  | nil =>
    cases ok
    exact ⟨fun c listed => (by cases listed), fun key place => by
      simpa [valuesAt] using combined key place⟩
  | cons c rest ih =>
    rw [List.foldlM_cons] at ok
    cases first : joinObject path merged c with
    | error e => rw [first] at ok; cases ok
    | ok next =>
      rw [first] at ok
      obtain ⟨object, combined'⟩ := joinObject_spec combined first
      obtain ⟨others, all⟩ := ih combined' ok
      refine ⟨fun d listed => ?_, fun key place => ?_⟩
      · rcases List.mem_cons.mp listed with rfl | listed
        · exact object
        · exact others d listed
      · rw [valuesAt_cons, ← List.append_assoc]
        exact all key place

/-- Objects are merged one after the other exactly when their values join at every place. -/
theorem foldlM_joinObject_ok_iff {path : String} {contribs : List Contribution}
    {merged : List (String × Json)} {values : String → List String → List Json}
    (combined : ∀ key place,
      Combined (values key place) (valueAt (key :: place) (.object merged))) :
    (∃ result, contribs.foldlM (joinObject path) merged = .ok result) ↔
      AllObjects contribs ∧ ∀ key place,
        (values key place ++ valuesAt (key :: place) contribs).Pairwise Joins := by
  -- By induction on the objects, from the first to the last.
  constructor
  · rintro ⟨result, ok⟩
    obtain ⟨objects, all⟩ := foldlM_joinObject_spec combined ok
    exact ⟨objects, fun key place => (all key place).pairwise⟩
  · rintro ⟨objects, joins⟩
    induction contribs generalizing merged values with
    | nil => exact ⟨merged, rfl⟩
    | cons c rest ih =>
      obtain ⟨fields, shape⟩ := objects c (.head _)
      obtain ⟨next, first⟩ := @joinObject_ok path _ _ _ _ combined shape
        fun key place v held w own => by
          have apart := (List.pairwise_append.mp (joins key place)).2.2 v held w
          rw [valuesAt_cons] at apart
          exact apart (List.mem_append_left _ (Option.mem_toList.mpr own))
      obtain ⟨result, ok⟩ := ih (joinObject_spec combined first).2
        (fun d listed => objects d (.tail _ listed)) fun key place => by
          have all := joins key place
          rwa [valuesAt_cons, ← List.append_assoc] at all
      refine ⟨result, ?_⟩
      rw [List.foldlM_cons, first]
      exact ok

/-- Contributions of which each is a list. -/
def AllArrays (contribs : List Contribution) : Prop :=
  ∀ c ∈ contribs, ∃ items, c.value.json = .array items

/-- What joined contributions are at their own path: a contribution by itself stays, lists are
put together by their placements, and objects are some object. -/
inductive JoinedAt : List Contribution → Json → Prop
  | one (c : Contribution) : JoinedAt [c] c.value.json
  | arrays (contribs : List Contribution) (several : 1 < contribs.length)
    (each : AllArrays contribs) : JoinedAt contribs (joinLists contribs)
  | objects (contribs : List Contribution) (several : 1 < contribs.length)
    (each : AllObjects contribs) (fields : List (String × Json)) :
    JoinedAt contribs (.object fields)

/-- A value of the kind is an array. -/
theorem valueKind_eq_array {v : Json} (kind : valueKind v = "array") :
    ∃ items, v = .array items := by
  cases v <;> simp [valueKind] at kind ⊢

/-- A value of the kind is an object. -/
theorem valueKind_eq_object {v : Json} (kind : valueKind v = "object") :
    ∃ fields, v = .object fields := by
  cases v <;> simp [valueKind] at kind ⊢

/-- Values that join are of one kind. -/
theorem Joins.valueKind_eq {x y : Json} (joins : Joins x y) : valueKind x = valueKind y := by
  rcases joins with ⟨xs, ys, rfl, rfl⟩ | ⟨fs, gs, rfl, rfl⟩ <;> rfl

/-- Lists have no places inside them. -/
theorem valuesAt_of_arrays {contribs : List Contribution} (each : AllArrays contribs)
    (key : String) (place : List String) : valuesAt (key :: place) contribs = [] := by
  rw [valuesAt, List.filterMap_eq_nil_iff]
  intro c listed
  obtain ⟨items, shape⟩ := each c listed
  rw [shape]
  rfl

/-- At the root there are the contributions themselves. -/
theorem valuesAt_nil (contribs : List Contribution) :
    valuesAt [] contribs = contribs.map fun c => c.value.json := by
  simp [valuesAt]

/-- Nothing has been merged at the start. -/
theorem combined_start (key : String) (place : List String) :
    Combined [] (valueAt (key :: place) (.object [])) := .none

/-- A join is the join of its contributions at every place, their own path included. -/
theorem join_spec {path : String} {first : Contribution} {others : List Contribution}
    {joined : Json} (ok : join path first others = .ok joined) :
    JoinedAt (first :: others) joined ∧ ∀ key place,
      Combined (valuesAt (key :: place) (first :: others)) (valueAt (key :: place) joined) := by
  cases others with
  | nil =>
    cases ok
    refine ⟨.one first, fun key place => ?_⟩
    rw [valuesAt, List.filterMap_cons]
    cases valueAt (key :: place) first.value.json with
    | none => exact .none
    | some v => exact .one v
  | cons second rest =>
    rw [join] at ok
    cases odd : (second :: rest).find? fun c =>
      valueKind c.value.json ≠ valueKind first.value.json with
    | some c =>
      simp only [odd] at ok
      cases ok
    | none =>
      simp only [odd] at ok
      -- All contributions are of the kind of the first one.
      have alike : ∀ c ∈ first :: second :: rest,
          valueKind c.value.json = valueKind first.value.json := by
        intro c listed
        rcases List.mem_cons.mp listed with rfl | listed
        · rfl
        · simpa using List.find?_eq_none.mp odd c listed
      cases shape : first.value.json with
      | array items =>
        simp only [shape, Except.ok.injEq] at ok
        subst ok
        have each : AllArrays (first :: second :: rest) := fun c listed =>
          valueKind_eq_array (by rw [alike c listed, shape]; rfl)
        refine ⟨.arrays _ (by simp) each, fun key place => ?_⟩
        rw [valuesAt_of_arrays each]
        exact .none
      | object fields =>
        simp only [shape, joinObjects] at ok
        cases merged : (first :: second :: rest).foldlM (joinObject path) [] with
        | error e => rw [merged] at ok; cases ok
        | ok result =>
          rw [merged] at ok
          cases ok
          obtain ⟨objects, all⟩ := foldlM_joinObject_spec combined_start merged
          exact ⟨.objects _ (by simp) objects result, all⟩
      | null | bool | number | string => simp [shape] at ok

/-- Lists join with each other at every place. -/
theorem pairwise_joins_of_arrays {contribs : List Contribution} (each : AllArrays contribs)
    (place : List String) : (valuesAt place contribs).Pairwise Joins := by
  -- They are all there is at the root, and below it there is nothing.
  cases place with
  | nil =>
    rw [valuesAt_nil, List.pairwise_map]
    refine List.pairwise_of_forall_mem_list fun c listed d listed' => ?_
    obtain ⟨xs, left⟩ := each c listed
    obtain ⟨ys, right⟩ := each d listed'
    exact .inl ⟨xs, ys, left, right⟩
  | cons key place =>
    rw [valuesAt_of_arrays each]
    exact .nil

/-- Objects are merged exactly when their values join at every place. -/
theorem joinObjects_ok_iff {path : String} {contribs : List Contribution}
    (objects : AllObjects contribs) : (∃ joined, joinObjects path contribs = .ok joined) ↔
      ∀ place, (valuesAt place contribs).Pairwise Joins := by
  -- At the root objects join anyway, and below it is the fold that decides.
  have merging := @foldlM_joinObject_ok_iff path contribs [] _ combined_start
  constructor
  · rintro ⟨joined, ok⟩ place
    cases place with
    | nil =>
      rw [valuesAt_nil, List.pairwise_map]
      refine List.pairwise_of_forall_mem_list fun c listed d listed' => ?_
      obtain ⟨fs, left⟩ := objects c listed
      obtain ⟨gs, right⟩ := objects d listed'
      exact .inr ⟨fs, gs, left, right⟩
    | cons key place =>
      have merged : ∃ result, contribs.foldlM (joinObject path) [] = .ok result := by
        cases folded : contribs.foldlM (joinObject path) [] with
        | error e => simp [joinObjects, folded, Except.map] at ok
        | ok result => exact ⟨result, rfl⟩
      exact (merging.mp merged).2 key place
  · intro joins
    obtain ⟨result, ok⟩ := merging.mpr ⟨objects, fun key place => joins (key :: place)⟩
    exact ⟨.object result, by simp only [joinObjects, ok]; rfl⟩

/-- Contributions join exactly when their values join with each other at every place. -/
theorem join_ok_iff {path : String} {first : Contribution} {others : List Contribution} :
    (∃ joined, join path first others = .ok joined) ↔
      ∀ place, (valuesAt place (first :: others)).Pairwise Joins := by
  cases others with
  | nil =>
    refine ⟨fun _ place => ?_, fun _ => ⟨_, rfl⟩⟩
    rw [valuesAt_cons]
    cases valueAt place first.value.json with
    | none => exact .nil
    | some v => exact List.pairwise_singleton _ _
  | cons second rest =>
    rw [join]
    cases odd : (second :: rest).find? fun c =>
      valueKind c.value.json ≠ valueKind first.value.json with
    | some c =>
      -- A contribution of another kind joins with the first one nowhere.
      have listed := List.mem_of_find?_eq_some odd
      have differs := List.find?_some odd
      refine ⟨fun ⟨_, ok⟩ => by simp at ok, fun joins => ?_⟩
      have apart := joins []
      rw [valuesAt_nil, List.map_cons, List.pairwise_cons] at apart
      have same := (apart.1 _ (List.mem_map_of_mem listed)).valueKind_eq
      simp [same] at differs
    | none =>
      have alike : ∀ c ∈ first :: second :: rest,
          valueKind c.value.json = valueKind first.value.json := by
        intro c listed
        rcases List.mem_cons.mp listed with rfl | listed
        · rfl
        · simpa using List.find?_eq_none.mp odd c listed
      cases shape : first.value.json with
      | array items =>
        have each : AllArrays (first :: second :: rest) := fun c listed =>
          valueKind_eq_array (by rw [alike c listed, shape]; rfl)
        exact ⟨fun _ => pairwise_joins_of_arrays each, fun _ => ⟨_, rfl⟩⟩
      | object fields =>
        have objects : AllObjects (first :: second :: rest) := fun c listed =>
          valueKind_eq_object (by rw [alike c listed, shape]; rfl)
        exact joinObjects_ok_iff objects
      | null | bool | number | string =>
        -- Two scalars never join.
        refine ⟨fun ⟨_, ok⟩ => by simp at ok, fun joins => ?_⟩
        have apart := joins []
        rw [valuesAt_nil, List.map_cons, List.pairwise_cons, shape] at apart
        rcases apart.1 _ (List.mem_map_of_mem (.head _)) with
          ⟨_, _, contra, -⟩ | ⟨_, _, contra, -⟩ <;> cases contra

mutual

/-- A join of two values is a value. -/
theorem built_joinPair {path : String} {existing v joined : Json} (old : existing.Built)
    (new : v.Built) (ok : joinPair path existing v = .ok joined) : joined.Built := by
  -- Joining keeps to values that can be built: lists are appended, objects merged.
  cases v with
  | array items =>
    cases existing with
    | array olds =>
      rw [joinPair] at ok
      cases ok
      cases old with
      | array _ eachOld =>
        cases new with
        | array _ eachNew =>
          exact .array _ fun item listed =>
            (List.mem_append.mp listed).elim (eachOld item) (eachNew item)
    | null | bool | number | string | object => simp [joinPair] at ok
  | object fields =>
    cases existing with
    | object olds =>
      rw [joinPair] at ok
      cases merged : joinFields path olds fields with
      | error e => simp [merged, Except.map] at ok
      | ok fields' =>
        simp only [merged, Except.map, Except.ok.injEq] at ok
        subst ok
        cases new with
        | object _ _ each => exact built_joinFields old each merged
    | null | bool | number | string | array => simp [joinPair] at ok
  | null | bool | number | string =>
    simp only [joinPair, joinPair.joinScalar] at ok
    split at ok <;> cases ok

/-- Merged fields make an object. -/
theorem built_joinFields {path : String} {merged fields result : List (String × Json)}
    (old : (Json.object merged).Built) (each : ∀ entry ∈ fields, Built entry.2)
    (ok : joinFields path merged fields = .ok result) : (Json.object result).Built := by
  -- Each field of the later object is joined with the one that is there.
  cases fields with
  | nil =>
    cases ok
    exact old
  | cons entry rest =>
    obtain ⟨k, v⟩ := entry
    have builtV : v.Built := each (k, v) (.head _)
    have builtRest := fun entry (listed : entry ∈ rest) => each entry (.tail _ listed)
    rw [joinFields] at ok
    cases held : merged.lookup k with
    | none =>
      simp only [held] at ok
      exact built_joinFields (built_insertField old builtV) builtRest ok
    | some existing =>
      simp only [held] at ok
      cases pair : joinPair (path ++ "." ++ k) existing v with
      | error e => simp [pair] at ok
      | ok joined =>
        simp only [pair] at ok
        have inner : existing.Built := old.of_field held
        exact built_joinFields (built_insertField old (built_joinPair inner builtV pair)) builtRest
          ok

end

/-- Objects merged one after the other make an object. -/
theorem built_foldlM_joinObject {path : String} {contribs : List Contribution}
    {merged result : List (String × Json)} (old : (Json.object merged).Built)
    (ok : contribs.foldlM (joinObject path) merged = .ok result) : (Json.object result).Built := by
  -- By induction on the objects that are joined.
  induction contribs generalizing merged with
  | nil =>
    cases ok
    exact old
  | cons c rest ih =>
    rw [List.foldlM_cons] at ok
    cases first : joinObject path merged c with
    | error e => rw [first] at ok; cases ok
    | ok next =>
      rw [first] at ok
      refine ih ?_ ok
      have built := c.value.built
      cases shape : c.value.json with
      | object fields =>
        rw [shape] at built
        rw [joinObject, shape] at first
        cases built with
        | object _ _ each => exact built_joinFields old each first
      | null | bool | number | string | array => simp [joinObject, shape] at first

/-- The items of contributions are values. -/
theorem built_of_itemsPlaced {place : Option Placement} {contribs : List Contribution} {item : Json}
    (listed : item ∈ itemsPlaced place contribs) : item.Built := by
  obtain ⟨c, -, among⟩ := List.mem_flatMap.mp listed
  have built := c.value.built
  -- Only an array has items.
  cases shape : c.value.json with
  | array items =>
    simp only [shape] at among
    split at among
    · rw [shape] at built
      cases built with
      | array _ each => exact each item among
    · cases among
  | null | bool | number | string | object => simp [shape] at among

/-- A join of contributions is a value. -/
theorem built_join {path : String} {first : Contribution} {others : List Contribution}
    {joined : Json} (ok : join path first others = .ok joined) : joined.Built := by
  -- By the strategy that the first value asks for.
  cases others with
  | nil =>
    cases ok
    exact first.value.built
  | cons second rest =>
    rw [join] at ok
    cases odd : (second :: rest).find? fun c =>
      valueKind c.value.json ≠ valueKind first.value.json with
    | some c =>
      simp only [odd] at ok
      cases ok
    | none =>
      simp only [odd] at ok
      cases shape : first.value.json with
      | array items =>
        simp only [shape, Except.ok.injEq] at ok
        subst ok
        refine .array _ fun item listed => ?_
        rcases List.mem_append.mp listed with listed | listed
        · exact (List.mem_append.mp listed).elim built_of_itemsPlaced built_of_itemsPlaced
        · exact built_of_itemsPlaced listed
      | object fields =>
        simp only [shape, joinObjects] at ok
        cases merged : (first :: second :: rest).foldlM (joinObject path) [] with
        | error e => rw [merged] at ok; cases ok
        | ok result =>
          rw [merged] at ok
          cases ok
          exact built_foldlM_joinObject (.object [] .nil (by simp)) merged
      | null | bool | number | string => simp [shape] at ok

end Tatara.Nix
