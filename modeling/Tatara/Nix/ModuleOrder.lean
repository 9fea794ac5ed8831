import Mathlib.Data.List.Perm.Basic
import Tatara.Lib.Fallible
import Tatara.Nix.Resolution

/-! Resolving the same modules in another order. -/

namespace Tatara.Nix

open Rust (Json JsonValue segments)
open Rust.Json (Built insertField putAt valueAt)

/-- Modules in another order contribute the same to each path, in another order. -/
theorem given_perm {modules others : List Module} (perm : modules.Perm others) (path : String) :
    (given modules path).Perm (given others path) := perm.flatMap_right _

/-- The least number of a list does not depend on its order. -/
theorem min?_eq_of_perm {xs ys : List Int} (perm : xs.Perm ys) : xs.min? = ys.min? := by
  -- It is a number of the list that is at most all of them.
  cases least : xs.min? with
  | none =>
    rw [List.min?_eq_none_iff] at least
    subst least
    rw [List.nil_perm.mp perm]
    rfl
  | some m =>
    rw [List.min?_eq_some_iff] at least
    refine (List.min?_eq_some_iff.mpr ⟨perm.mem_iff.mp least.1, fun b listed => ?_⟩).symm
    exact least.2 b (perm.mem_iff.mpr listed)

/-- Contributions in another order have the same ones of the highest priority. -/
theorem winners_perm {contribs others : List Contribution} (perm : contribs.Perm others) :
    (winners contribs).Perm (winners others) := by
  -- The least priority is the same, and the filter goes by it.
  have least := min?_eq_of_perm (perm.map fun c => c.priority.level)
  rw [winners, winners, least]
  split
  · exact .nil
  · exact perm.filter _

/-- In another order the same values are found at a place. -/
theorem valuesAt_perm {contribs others : List Contribution} (perm : contribs.Perm others)
    (place : List String) : (valuesAt place contribs).Perm (valuesAt place others) :=
  perm.filterMap _

/-- In another order the same paths are assigned. -/
theorem assigned_iff {modules others : List Module} (perm : modules.Perm others) (path : String) :
    Assigned modules path ↔ Assigned others path := by
  have same := given_perm perm path
  exact not_congr ⟨fun empty => List.nil_perm.mp (empty ▸ same),
    fun empty => List.perm_nil.mp (empty ▸ same)⟩

/-- In another order the same paths go on below a place. -/
theorem runsOnBelow_iff {modules others : List Module} (perm : modules.Perm others)
    (place : List String) : RunsOnBelow modules place ↔ RunsOnBelow others place :=
  exists_congr fun path => and_congr_left' (assigned_iff perm path)

/-- In another order the same path is the deepest one. -/
theorem deepest_iff {modules others : List Module} (perm : modules.Perm others)
    (place : List String) (path : String) :
    Deepest modules place path ↔ Deepest others place path := by
  unfold Deepest
  simp only [assigned_iff perm]

/-- The paths of modules in another order resolve when those of the modules do. -/
theorem resolvePaths_ok_of_perm {modules others : List Module} (perm : modules.Perm others)
    (ok : ∃ resolved, resolvePaths (collectAll modules).toList = .ok resolved) :
    ∃ resolved, resolvePaths (collectAll others).toList = .ok resolved := by
  rw [resolvePaths_ok_iff (collectAll_nonempty _)] at ok ⊢
  rintro ⟨path, contribs⟩ listed place
  obtain ⟨assigned, rfl⟩ := mem_toList_collectAll.mp listed
  -- Whether values join with each other does not depend on their order.
  have joins := ok (path, given modules path)
    (mem_toList_collectAll.mpr ⟨(assigned_iff perm path).mpr assigned, rfl⟩) place
  exact ((valuesAt_perm (winners_perm (given_perm perm path)) place).pairwise_iff
    fun joins => joins.symm).mp joins

/-- The items contributed to a list: in three blocks where the list is assigned as such, and in
one block inside an object. -/
structure Blocks where
  before : List Json
  normal : List Json
  after : List Json

namespace Blocks

def toList (blocks : Blocks) : List Json := blocks.before ++ blocks.normal ++ blocks.after

/-- Each block has the same items, in another order. -/
structure Rearranged (first second : Blocks) : Prop where
  before : first.before.Perm second.before
  normal : first.normal.Perm second.normal
  after : first.after.Perm second.after

theorem Rearranged.toList_perm {first second : Blocks} (same : first.Rearranged second) :
    first.toList.Perm second.toList := (same.before.append same.normal).append same.after

end Blocks

/-- The items that contributions give to lists at a place inside their values. -/
def itemsAt (inside : List String) (contribs : List Contribution) : List Json :=
  (valuesAt inside contribs).flatMap fun v =>
    match v with
    | .array items => items
    | _ => []

/-- The blocks of the list at a place inside contributed values: only the list that is the whole
value is placed. -/
def blocksAt (inside : List String) (contribs : List Contribution) : Blocks :=
  if inside = [] then
    ⟨itemsPlaced (some .before) contribs, itemsPlaced none contribs,
      itemsPlaced (some .after) contribs⟩
  else ⟨[], itemsAt inside contribs, []⟩

/-- In another order the blocks at a place are rearranged. -/
theorem blocksAt_perm {contribs others : List Contribution} (perm : contribs.Perm others)
    (inside : List String) : (blocksAt inside contribs).Rearranged (blocksAt inside others) := by
  unfold blocksAt
  split
  · exact ⟨perm.flatMap_right _, perm.flatMap_right _, perm.flatMap_right _⟩
  · exact ⟨.nil, (valuesAt_perm perm inside).flatMap_right _, .nil⟩

/-- What one contribution makes of the list at its path is its own items. -/
theorem toList_blocksAt_one {c : Contribution} {items : List Json}
    (shape : c.value.json = .array items) : (blocksAt [] [c]).toList = items := by
  rw [blocksAt, if_pos rfl]
  simp only [Blocks.toList, itemsPlaced, List.flatMap_singleton, shape]
  -- A placement is one of three.
  cases c.order with
  | none => simp
  | some placement => cases placement <;> simp

/-- A list of the join is made of the blocks of its contributions. -/
theorem items_of_join {path : String} {first : Contribution} {others : List Contribution}
    {joined : Json} (ok : join path first others = .ok joined) {inside : List String}
    {items : List Json} (held : valueAt inside joined = some (.array items)) :
    items = (blocksAt inside (first :: others)).toList := by
  -- A list in what was joined comes from the lists of the values.
  obtain ⟨top, below⟩ := join_spec ok
  cases inside with
  | nil =>
    generalize first :: others = contribs at top
    cases Option.some.inj held
    generalize shape : Json.array items = v at top
    cases top with
    | one c => exact (toList_blocksAt_one shape.symm).symm
    | arrays =>
      cases shape
      rfl
    | objects => cases shape
  | cons key place =>
    have combined := below key place
    rw [held] at combined
    rw [blocksAt, if_neg (by simp), Blocks.toList, List.nil_append, List.append_nil, itemsAt]
    generalize valuesAt (key :: place) (first :: others) = values at combined
    generalize holds : some (Json.array items) = z at combined
    cases combined with
    | none => cases holds
    | one v =>
      cases holds
      simp
    | arrays lists =>
      cases holds
      rw [List.flatMap_map, List.flatMap_id']
    | objects => cases holds

/-- One place of two values that are the same up to the order inside lists. -/
inductive SimilarAt : Option Json → Option Json → Prop
  | none : SimilarAt none none
  | scalar (s : Json) (holds : isScalar s = true) : SimilarAt (some s) (some s)
  | arrays (xs ys : List Json) (perm : xs.Perm ys) :
    SimilarAt (some (.array xs)) (some (.array ys))
  | objects (fs gs : List (String × Json)) : SimilarAt (some (.object fs)) (some (.object gs))

/-- Two values that are the same at every place, up to the order inside lists. -/
def Similar (v w : Json) : Prop := ∀ place, SimilarAt (valueAt place v) (valueAt place w)

/-- A place is similar to itself. -/
theorem SimilarAt.refl (x : Option Json) : SimilarAt x x := by
  -- One case for each shape of a value.
  cases x with
  | none => exact .none
  | some v =>
    cases v with
    | array xs => exact .arrays xs xs (.refl xs)
    | object fs => exact .objects fs fs
    | null | bool | number | string => exact .scalar _ rfl

/-- To be similar is mutual. -/
theorem SimilarAt.symm {x y : Option Json} (similar : SimilarAt x y) : SimilarAt y x := by
  -- One case for each shape of a value.
  cases similar with
  | none => exact .none
  | scalar s holds => exact .scalar s holds
  | arrays xs ys perm => exact .arrays ys xs perm.symm
  | objects fs gs => exact .objects gs fs

theorem Similar.refl (v : Json) : Similar v v := fun _ => .refl _

theorem Similar.symm {v w : Json} (similar : Similar v w) : Similar w v :=
  fun place => (similar place).symm

/-- Where one of two similar values has something, the other has something similar. -/
theorem Similar.of_valueAt {v w x : Json} (similar : Similar v w) {place : List String}
    (held : valueAt place v = some x) : ∃ y, valueAt place w = some y ∧ Similar x y := by
  -- The place is similar, so that there is something, and everything below it is similar as well.
  have here := similar place
  rw [held] at here
  obtain ⟨y, other⟩ : ∃ y, valueAt place w = some y := by
    generalize valueAt place w = z at here ⊢
    cases here <;> exact ⟨_, rfl⟩
  refine ⟨y, other, fun inside => ?_⟩
  have deeper := similar (place ++ inside)
  rwa [Rust.Json.valueAt_append, Rust.Json.valueAt_append, held, other] at deeper

/-- A value passes the check for a type when a similar one does, wherever either stands. -/
def Invariant (ty : OptionType) : Prop :=
  ∀ path path' (v w : Json), v.Built → w.Built → Similar v w → validate path v ty = .ok () →
    validate path' w ty = .ok ()

/-- Similar objects have similar fields. -/
theorem Similar.lookup {fs gs : List (String × Json)} {key : String} {x : Json}
    (similar : Similar (.object fs) (.object gs)) (held : fs.lookup key = some x) :
    ∃ y, gs.lookup key = some y ∧ Similar x y := by
  -- A field is what is at the place of its key.
  have at_ : valueAt [key] (.object fs) = some x := by
    rw [valueAt_object, held]
    rfl
  obtain ⟨y, other, inner⟩ := similar.of_valueAt at_
  rw [valueAt_object] at other
  cases found : gs.lookup key with
  | none => rw [found] at other; cases other
  | some z =>
    rw [found] at other
    cases other
    exact ⟨_, rfl, inner⟩

/-- A check of a whole value for a property of its outermost form. -/
theorem expect_ok_of_similar {test : Json → Bool} {v w : Json} {path path' expected : String}
    (similar : Similar v w) (arrays : ∀ xs ys, test (.array xs) = test (.array ys))
    (objects : ∀ fs gs, test (.object fs) = test (.object gs))
    (ok : expect path v expected (test v) = .ok ()) : expect path' w expected (test w) = .ok () := by
  -- A check looks only at the kind of value, and similar values are of one kind.
  have top := similar []
  have same : test w = test v := by
    generalize holdsV : valueAt [] v = x at top
    generalize holdsW : valueAt [] w = y at top
    cases top with
    | none => cases holdsV
    | scalar s =>
      cases Option.some.inj holdsV
      cases Option.some.inj holdsW
      rfl
    | arrays xs ys =>
      cases Option.some.inj holdsV
      cases Option.some.inj holdsW
      exact arrays ys xs
    | objects fs gs =>
      cases Option.some.inj holdsV
      cases Option.some.inj holdsW
      exact objects gs fs
  rw [expect] at ok ⊢
  rw [same]
  split at ok
  · rename_i holds; rw [if_pos holds]
  · cases ok

/-- Values similar to a list are lists with the same items. -/
theorem Similar.of_array {xs : List Json} {w : Json} (similar : Similar (.array xs) w) :
    ∃ ys, w = .array ys ∧ xs.Perm ys := by
  -- At the root there are lists with the same items, and only lists have such.
  have top := similar []
  generalize holdsV : valueAt [] (.array xs) = x at top
  generalize holdsW : valueAt [] w = y at top
  cases top with
  | none => cases holdsV
  | scalar s holds =>
    cases Option.some.inj holdsV
    cases holds
  | arrays xs' ys perm =>
    cases Option.some.inj holdsV
    exact ⟨ys, Option.some.inj holdsW, perm⟩
  | objects => cases Option.some.inj holdsV

/-- Values similar to an object are objects. -/
theorem Similar.of_object {fs : List (String × Json)} {w : Json}
    (similar : Similar (.object fs) w) : ∃ gs, w = .object gs := by
  -- At the root both are objects.
  have top := similar []
  generalize holdsV : valueAt [] (.object fs) = x at top
  generalize holdsW : valueAt [] w = y at top
  cases top with
  | none => cases holdsV
  | scalar s holds =>
    cases Option.some.inj holdsV
    cases holds
  | arrays => cases Option.some.inj holdsV
  | objects _ gs => exact ⟨gs, Option.some.inj holdsW⟩

mutual

/-- No type tells values apart that are similar. -/
theorem invariant (ty : OptionType) : Invariant ty := by
  intro path path' v w builtV builtW similar ok
  cases ty with
  | bool | int | str | float | path | package =>
    rw [validate] at ok ⊢
    exact expect_ok_of_similar similar (fun _ _ => rfl) (fun _ _ => rfl) ok
  | any => rw [validate]
  | listOf item =>
    cases v with
    | array arr =>
      obtain ⟨ys, rfl, perm⟩ := similar.of_array
      rw [validate, Fallible.forM_eq_ok_iff] at ok ⊢
      -- Each item was checked before, at some index.
      rintro ⟨x, i⟩ listed
      have among : x ∈ arr := perm.mem_iff.mpr (List.fst_mem_of_mem_zipIdx listed)
      obtain ⟨j, at_⟩ := List.mem_iff_getElem?.mp among
      have checked := ok (x, j) (List.mem_zipIdx_iff_getElem?.mpr at_)
      cases builtV with
      | array _ each => exact invariant item _ _ x x (each x among) (each x among) (.refl x) checked
    | null | bool | number | string | object => simp [validate] at ok
  | attrsOf vty =>
    cases v with
    | object obj =>
      obtain ⟨gs, rfl⟩ := similar.of_object
      rw [validate, Fallible.forM_eq_ok_iff] at ok ⊢
      rintro ⟨key, y⟩ listed
      cases builtV with
      | object _ ascending each =>
        cases builtW with
        | object _ ascending' each' =>
          obtain ⟨x, held, inner⟩ :=
            similar.symm.lookup (Rust.Json.lookup_of_mem ascending' listed)
          have among := Rust.Json.mem_of_lookup held
          exact invariant vty _ _ x y (each _ among) (each' _ listed) inner.symm (ok _ among)
    | null | bool | number | string | array => simp [validate] at ok
  | enum choices =>
    cases v with
    | string s =>
      have top := similar []
      generalize holdsW : valueAt [] w = z at top
      cases top with
      | scalar =>
        cases Option.some.inj holdsW
        rw [validate] at ok ⊢
        split at ok
        · rename_i chosen; rw [if_pos chosen]
        · cases ok
    | null | bool | number | array | object => simp [validate] at ok
  | submodule options =>
    cases v with
    | object obj =>
      obtain ⟨gs, rfl⟩ := similar.of_object
      rw [validate] at ok ⊢
      exact invariant_subs options path path' obj gs builtV builtW similar ok
    | null | bool | number | string | array => simp [validate] at ok

/-- No submodule tells objects apart that are similar. -/
theorem invariant_subs (options : List ModuleOption) (path path' : String)
    (fs gs : List (String × Json)) (builtF : (Json.object fs).Built)
    (builtG : (Json.object gs).Built) (similar : Similar (.object fs) (.object gs))
    (ok : validateSubs path fs options = .ok ()) : validateSubs path' gs options = .ok () := by
  -- By induction on the options: a field is on both sides, with similar values, or on neither.
  cases options with
  | nil => rfl
  | cons option rest =>
    obtain ⟨name, optionType⟩ := option
    rw [validateSubs] at ok ⊢
    cases held : fs.lookup name with
    | none =>
      simp only [held] at ok
      have missing : gs.lookup name = none := by
        cases other : gs.lookup name with
        | none => rfl
        | some y =>
          obtain ⟨x, back, -⟩ := similar.symm.lookup other
          rw [held] at back
          cases back
      simp only [missing]
      exact invariant_subs rest path path' fs gs builtF builtG similar ok
    | some x =>
      simp only [held] at ok
      obtain ⟨y, other, inner⟩ := similar.lookup held
      simp only [other]
      cases checked : validate (path ++ "." ++ name) x optionType with
      | error e => simp [checked] at ok
      | ok _ =>
        simp only [checked] at ok
        have builtX : x.Built := builtF.of_field held
        have builtY : y.Built := builtG.of_field other
        rw [invariant optionType _ (path' ++ "." ++ name) x y builtX builtY inner checked]
        exact invariant_subs rest path path' fs gs builtF builtG similar ok

end

/-- Values in another order are combined to the same, up to the order inside a list; a value by
itself is the same. -/
theorem Combined.similar {values values' : List Json} {z z' : Option Json}
    (combined : Combined values z) (combined' : Combined values' z') (perm : values.Perm values') :
    SimilarAt z z' ∧ (values.length ≤ 1 → z = z') := by
  have lengths := perm.length_eq
  cases combined with
  | none =>
    cases List.nil_perm.mp perm
    generalize nothing : [] = values' at combined'
    cases combined' with
    | none => exact ⟨.none, fun _ => rfl⟩
    | one => cases nothing
    | arrays lists several => rw [← List.length_map, ← nothing] at several; cases several
    | objects objects several => rw [← List.length_map, ← nothing] at several; cases several
  | one v =>
    cases List.singleton_perm.mp perm
    generalize single : [v] = values' at combined'
    cases combined' with
    | none => cases single
    | one w =>
      cases single
      exact ⟨.refl _, fun _ => rfl⟩
    | arrays lists several =>
      have := congrArg List.length single
      simp at this
      omega
    | objects objects several =>
      have := congrArg List.length single
      simp at this
      omega
  | arrays lists several =>
    rw [List.length_map] at lengths
    refine ⟨?_, fun few => by rw [List.length_map] at few; omega⟩
    cases combined' with
    | none => rw [List.length_nil] at lengths; omega
    | one w => rw [List.length_singleton] at lengths; omega
    | arrays lists' =>
      have injective : Function.Injective Json.array := fun _ _ => Json.array.inj
      exact .arrays _ _ ((List.map_perm_map_iff injective).mp perm).flatten
    | objects objects several' =>
      -- A list is not among the objects.
      obtain ⟨xs, rest, rfl⟩ := List.exists_cons_of_length_pos (Nat.lt_of_succ_lt several)
      have listed : Json.array xs ∈ objects.map Json.object := perm.mem_iff.mp (by simp)
      simp at listed
  | objects objects several fields =>
    rw [List.length_map] at lengths
    refine ⟨?_, fun few => by rw [List.length_map] at few; omega⟩
    cases combined' with
    | none => rw [List.length_nil] at lengths; omega
    | one w => rw [List.length_singleton] at lengths; omega
    | arrays lists several' =>
      obtain ⟨fs, rest, rfl⟩ := List.exists_cons_of_length_pos (Nat.lt_of_succ_lt several)
      have listed : Json.object fs ∈ lists.map Json.array := perm.mem_iff.mp (by simp)
      simp at listed
    | objects objects' several' fields' => exact .objects _ _

/-- Contributions in another order are joined to the same at their path, up to the order inside a
list; a contribution by itself is the same. -/
theorem JoinedAt.similar {contribs contribs' : List Contribution} {joined joined' : Json}
    (at_ : JoinedAt contribs joined) (at' : JoinedAt contribs' joined')
    (perm : contribs.Perm contribs') :
    SimilarAt (some joined) (some joined') ∧ (contribs.length ≤ 1 → joined = joined') := by
  -- By how the value came about on either side.
  have lengths := perm.length_eq
  cases at_ with
  | one c =>
    cases List.singleton_perm.mp perm
    generalize single : [c] = contribs' at at'
    cases at' with
    | one d =>
      cases single
      exact ⟨.refl _, fun _ => rfl⟩
    | arrays _ several => rw [← single] at several; simp at several
    | objects _ several => rw [← single] at several; simp at several
  | arrays _ several each =>
    refine ⟨?_, fun few => by omega⟩
    cases at' with
    | one d => rw [List.length_singleton] at lengths; omega
    | arrays =>
      refine .arrays _ _ ?_
      exact ((perm.flatMap_right _).append (perm.flatMap_right _)).append (perm.flatMap_right _)
    | objects _ several' each' =>
      obtain ⟨c, rest, rfl⟩ := List.exists_cons_of_length_pos (Nat.lt_of_succ_lt several)
      obtain ⟨xs, array⟩ := each c (.head _)
      obtain ⟨fs, object⟩ := each' c (perm.mem_iff.mp (.head _))
      rw [array] at object
      cases object
  | objects _ several each fields =>
    refine ⟨?_, fun few => by omega⟩
    cases at' with
    | one d => rw [List.length_singleton] at lengths; omega
    | objects => exact .objects _ _
    | arrays _ several' each' =>
      obtain ⟨c, rest, rfl⟩ := List.exists_cons_of_length_pos (Nat.lt_of_succ_lt several)
      obtain ⟨fs, object⟩ := each c (.head _)
      obtain ⟨xs, array⟩ := each' c (perm.mem_iff.mp (.head _))
      rw [array] at object
      cases object

/-- Joins of the same contributions in two orders are similar at every place. -/
theorem join_similar {path : String} {first first' : Contribution}
    {others others' : List Contribution} {joined joined' : Json}
    (ok : join path first others = .ok joined) (ok' : join path first' others' = .ok joined')
    (perm : (first :: others).Perm (first' :: others')) (inside : List String) :
    SimilarAt (valueAt inside joined) (valueAt inside joined') ∧
      ((valuesAt inside (first :: others)).length ≤ 1 →
        valueAt inside joined = valueAt inside joined') := by
  -- Both joins are known at the root and below it.
  obtain ⟨top, below⟩ := join_spec ok
  obtain ⟨top', below'⟩ := join_spec ok'
  cases inside with
  | nil =>
    obtain ⟨similar, single⟩ := top.similar top' perm
    rw [valuesAt_nil, List.length_map]
    exact ⟨similar, fun few => congrArg some (single few)⟩
  | cons key place => exact (below key place).similar (below' key place) (valuesAt_perm perm _)

/-- Two lists at a place, made of the same blocks rearranged; a list that one contribution gives
by itself is the same. -/
def ListsAlike (modules others : List Module) (place : List String) (xs ys : List Json) : Prop :=
  ∃ path, Deepest modules place path ∧
    let inside := place.drop (segments path).length
    let blocks := blocksAt inside (winners (given modules path))
    let blocks' := blocksAt inside (winners (given others path))
    xs = blocks.toList ∧ ys = blocks'.toList ∧ blocks.Rearranged blocks' ∧
      ((valuesAt inside (winners (given modules path))).length ≤ 1 → xs = ys)

/-- One place of two configs: nothing in both, the same scalar, an object each, or two lists of
the same blocks. -/
inductive AlikeAt (modules others : List Module) (place : List String) :
    Option Json → Option Json → Prop
  | none : AlikeAt modules others place none none
  | scalar (s : Json) (holds : isScalar s = true) : AlikeAt modules others place (some s) (some s)
  | objects (fs gs : List (String × Json)) :
    AlikeAt modules others place (some (.object fs)) (some (.object gs))
  | lists (xs ys : List Json) (alike : ListsAlike modules others place xs ys) :
    AlikeAt modules others place (some (.array xs)) (some (.array ys))

/-- Alike places are similar. -/
theorem AlikeAt.similarAt {modules others : List Module} {place : List String}
    {x y : Option Json} (alike : AlikeAt modules others place x y) : SimilarAt x y := by
  -- One case for each shape of a value.
  cases alike with
  | none => exact .none
  | scalar s holds => exact .scalar s holds
  | objects fs gs => exact .objects fs gs
  | lists xs ys alike =>
    obtain ⟨path, -, rfl, rfl, same, -⟩ := alike
    exact .arrays _ _ same.toList_perm

/-- What the modules in two orders say about a place is alike. -/
theorem ConfigAt.alike {modules others : List Module} (perm : modules.Perm others)
    {place : List String} {x y : Option Json} (held : ConfigAt modules place x)
    (held' : ConfigAt others place y) : AlikeAt modules others place x y := by
  -- By what the modules say about the place, which is the same in both orders.
  cases held with
  | crossed below fields =>
    have below' := (runsOnBelow_iff perm place).mp below
    cases held' with
    | crossed _ fields' => exact .objects fields fields'
    | governed _ _ clear => exact absurd below' clear
    | untouched clear =>
      obtain ⟨path, assigned, above, -⟩ := below'
      exact absurd above (clear path assigned).2
  | untouched clear =>
    have clear' : ∀ path, Assigned others path →
        ¬ segments path <+: place ∧ ¬ place <+: segments path := fun path assigned =>
      clear path ((assigned_iff perm path).mpr assigned)
    cases held' with
    | crossed below =>
      obtain ⟨path, assigned, above, -⟩ := below
      exact absurd above (clear' path assigned).2
    | governed path deepest => exact absurd deepest.2.1 (clear' path deepest.1).1
    | untouched =>
      cases place with
      | nil => exact .objects [] []
      | cons key place => exact .none
  | governed path deepest clear first rest best joined ok =>
    have deepest' := (deepest_iff perm place path).mp deepest
    cases held' with
    | crossed below => exact absurd ((runsOnBelow_iff perm place).mpr below) clear
    | untouched clear' => exact absurd deepest.2.1 (clear' path deepest'.1).1
    | governed other also _ first' rest' best' joined' ok' =>
      cases deepest'.unique also
      have same := winners_perm (given_perm perm path)
      obtain ⟨similar, single⟩ := join_similar ok ok' (best ▸ best' ▸ same)
        (place.drop (segments path).length)
      have items xs := @items_of_join _ _ _ _ ok (place.drop (segments path).length) xs
      have items' xs := @items_of_join _ _ _ _ ok' (place.drop (segments path).length) xs
      generalize valueAt (place.drop (segments path).length) joined = x at similar single items
      generalize valueAt (place.drop (segments path).length) joined' = y at similar single items'
      cases similar with
      | none => exact .none
      | scalar s holds => exact .scalar s holds
      | objects fs gs => exact .objects fs gs
      | arrays xs ys =>
        refine .lists xs ys ⟨path, deepest, ?_, ?_, blocksAt_perm same _, ?_⟩
        · rw [best]; exact items xs rfl
        · rw [best']; exact items' ys rfl
        · intro few
          rw [best] at few
          exact Json.array.inj (Option.some.inj (single few))

/-- Resolved paths, when lifted, are a value. -/
theorem built_lift {modules : List Module} {resolved : List (String × Json)}
    (resolution : resolvePaths (collectAll modules).toList = .ok resolved) :
    (lift resolved).Built := by
  have spec := resolvePaths_spec (collectAll_nonempty modules) resolution
  -- Each entry is put into a value, starting from the empty object.
  refine List.foldlRecOn resolved _ (.object [] .nil (by simp)) fun root built entry listed => ?_
  obtain ⟨_, _, _, _, -, joined⟩ := spec.of_mem listed
  rw [insertNested_eq_putAt]
  exact Rust.Json.built_putAt (built_join joined) _ built

/-- Options that one config satisfies are satisfied by a similar one. -/
theorem validateOptions_ok_of_similar {modules others : List Module} (perm : modules.Perm others)
    {config config' : Json} (built : config.Built) (built' : config'.Built)
    (similar : Similar config config') (ok : validateOptions modules config = .ok ()) :
    validateOptions others config' = .ok () := by
  -- Each option looks at one place of the config.
  rw [validateOptions, Fallible.forM_eq_ok_iff] at ok ⊢
  intro module listed
  have options := ok module (perm.mem_iff.mpr listed)
  rw [Fallible.forM_eq_ok_iff] at options ⊢
  rintro ⟨name, optionType⟩ declared
  have checked := options _ declared
  rw [validateOption, readPath] at checked ⊢
  cases held' : valueAt (segments name) config' with
  | none => rfl
  | some y =>
    obtain ⟨x, held, inner⟩ := similar.symm.of_valueAt held'
    simp only [held] at checked
    exact invariant optionType name name x y (built.of_valueAt held) (built'.of_valueAt held')
      inner.symm checked

/-- The paths of modules in two orders resolve to places that are alike. -/
theorem alikeAt_lift {modules others : List Module} (perm : modules.Perm others)
    {resolved resolved' : List (String × Json)}
    (resolution : resolvePaths (collectAll modules).toList = .ok resolved)
    (resolution' : resolvePaths (collectAll others).toList = .ok resolved')
    (place : List String) :
    AlikeAt modules others place (valueAt place (lift resolved))
      (valueAt place (lift resolved')) :=
  (configAt_of_resolvePaths resolution place).alike perm
    (configAt_of_resolvePaths resolution' place)

/-- Modules that resolve also resolve in another order. -/
theorem resolveModules_ok_of_perm {modules others : List Module} (perm : modules.Perm others)
    (ok : ∃ config, resolveModules modules = .ok config) :
    ∃ config, resolveModules others = .ok config := by
  obtain ⟨config, resolves⟩ := ok
  obtain ⟨resolved, resolution, rfl, checked⟩ := resolveModules_eq_ok_iff.mp resolves
  obtain ⟨resolved', resolution'⟩ := resolvePaths_ok_of_perm perm ⟨resolved, resolution⟩
  -- The other config is similar, so it satisfies the same options.
  have similar : Similar (lift resolved) (lift resolved') := fun place =>
    (alikeAt_lift perm resolution resolution' place).similarAt
  exact ⟨lift resolved', resolveModules_eq_ok_iff.mpr ⟨resolved', resolution', rfl,
    validateOptions_ok_of_similar perm (built_lift resolution) (built_lift resolution') similar
      checked⟩⟩

/-- Modules in another order resolve when the modules do, and the two configs are alike at every
place. -/
theorem resolveModules_perm (modules others : List Module) (perm : modules.Perm others) :
    ((∃ config, resolveModules modules = .ok config) ↔
      ∃ config, resolveModules others = .ok config) ∧
    ∀ config config', resolveModules modules = .ok config →
      resolveModules others = .ok config' → ∀ place,
        AlikeAt modules others place (valueAt place config) (valueAt place config') := by
  refine ⟨⟨resolveModules_ok_of_perm perm, resolveModules_ok_of_perm perm.symm⟩, ?_⟩
  intro config config' ok ok' place
  obtain ⟨resolved, resolution, rfl, -⟩ := resolveModules_eq_ok_iff.mp ok
  obtain ⟨resolved', resolution', rfl, -⟩ := resolveModules_eq_ok_iff.mp ok'
  exact alikeAt_lift perm resolution resolution' place

/-- A list of one small number as a value. -/
def listValue (n : UInt64) : JsonValue :=
  ⟨.array [(numberValue n).json], .array _ fun item listed => by
    rw [List.mem_singleton.mp listed]
    exact (numberValue n).built⟩

/-- Two modules that give to one list resolve in either order. -/
theorem resolveModules_two :
    let first : Module := ⟨[], [⟨"a", .order .after (listValue 1)⟩]⟩
    let second : Module := ⟨[], [⟨"a", .set (listValue 2)⟩]⟩
    ((∃ config, resolveModules [first, second] = .ok config) ↔
      ∃ config, resolveModules [second, first] = .ok config) ∧
    ∀ config config', resolveModules [first, second] = .ok config →
      resolveModules [second, first] = .ok config' → ∀ place,
        AlikeAt [first, second] [second, first] place (valueAt place config)
          (valueAt place config') := by
  intro first second
  exact resolveModules_perm [first, second] [second, first] (.swap second first [])

/-- A list inside an object that is placed before does not come before. -/
theorem resolveModules_ignores_nested_placement :
    let placed : Module := ⟨[], [⟨"a", .order .before (objectValue "l" (listValue 1))⟩]⟩
    let plain : Module := ⟨[], [⟨"a", .set (objectValue "l" (listValue 2))⟩]⟩
    let one : Json := (numberValue 1).json
    let two : Json := (numberValue 2).json
    [placed, plain].Perm [plain, placed] ∧
    resolveModules [placed, plain] = .ok (.object [("a", .object [("l", .array [one, two])])]) ∧
    resolveModules [plain, placed] = .ok (.object [("a", .object [("l", .array [two, one])])]) ∧
    ∀ before normal, [two, one] = before ++ normal → before.Perm [one] → ¬ normal.Perm [two] := by
  intro placed plain one two
  refine ⟨.swap plain placed [], rfl, rfl, fun before normal made early _ => ?_⟩
  -- The block of what is placed before would start with the other item.
  cases List.perm_singleton.mp early
  simp [one, two, numberValue] at made

end Tatara.Nix
