import Tatara.Nix.Join

/-! What the lifted config holds at each place, in terms of the contributions to the paths. -/

namespace Tatara.Nix

open Rust (Json JsonValue segments segments_ne_nil segments_injective not_lt_of_segments_prefix)
open Rust.Json (putAt valueAt valueAt_putAt_below valueAt_putAt_above valueAt_putAt_apart
  lookup_fieldsOf)

/-- The contributions that an expression stands for. -/
def MkExpr.contributions : MkExpr → List Contribution
  | .set value => [⟨.normal, value, none⟩]
  | .if condition value => if isTruthy condition.json then [⟨.normal, value, none⟩] else []
  | .force value => [⟨.force, value, none⟩]
  | .default value => [⟨.default, value, none⟩]
  | .merge values => values.map fun v => ⟨.normal, v, none⟩
  | .order placement value => [⟨.normal, value, some placement⟩]

/-- What an assignment contributes to a path. -/
def ConfigAssignment.given (path : String) (assign : ConfigAssignment) : List Contribution :=
  if path = assign.path then assign.expr.contributions else []

/-- What modules contribute to a path, in the order of the modules. -/
def given (modules : List Module) (path : String) : List Contribution :=
  modules.flatMap fun module => module.config.flatMap (ConfigAssignment.given path)

/-- A table that lists under each path the contributions to it, and no path without any. -/
def Lists (out : Contributions) (contributed : String → List Contribution) : Prop :=
  ∀ path, out[path]? = if contributed path = [] then none else some (contributed path)

/-- What a table lists is what it gives by default. -/
theorem Lists.getD_eq {out : Contributions} {contributed : String → List Contribution}
    (listed : Lists out contributed) (path : String) : out.getD path [] = contributed path := by
  rw [Std.ExtTreeMap.getD_eq_getD_getElem?, listed path]
  split
  · rename_i empty; rw [empty]; rfl
  · rfl

/-- Pushing a contribution adds it behind those of its path. -/
theorem Lists.push {out : Contributions} {contributed : String → List Contribution}
    (listed : Lists out contributed) (at_ : String) (c : Contribution) :
    Lists (push out at_ c.priority c.value c.order)
      fun path => contributed path ++ if path = at_ then [c] else [] := by
  -- A contribution comes behind those of its path, and leaves other paths alone.
  intro path
  rw [Nix.push, Std.ExtTreeMap.getElem?_insert, listed.getD_eq]
  by_cases own : path = at_
  · subst own
    simp
  · have other : compare at_ path ≠ .eq := fun same => own (Std.compare_eq_iff_eq.mp same).symm
    simpa [own, other] using listed path

/-- Pushing several values of one priority adds them in their order. -/
theorem Lists.foldl_push {out : Contributions} {contributed : String → List Contribution}
    (listed : Lists out contributed) (at_ : String) (values : List JsonValue) :
    Lists (values.foldl (fun out v => Nix.push out at_ .normal v none) out)
      fun path => contributed path ++
        if path = at_ then values.map fun v => ⟨.normal, v, none⟩ else [] := by
  -- By induction on the values, with those pushed so far carried along.
  induction values generalizing out contributed with
  | nil =>
    intro path
    simpa using listed path
  | cons v rest ih =>
    intro path
    have all := ih (listed.push at_ ⟨.normal, v, none⟩) path
    rw [List.foldl_cons, all]
    by_cases own : path = at_ <;> simp [own]

/-- Collecting an expression adds its contributions behind those of its path. -/
theorem Lists.collect {out : Contributions} {contributed : String → List Contribution}
    (listed : Lists out contributed) (assign : ConfigAssignment) :
    Lists (collect assign.expr assign.path out)
      fun path => contributed path ++ assign.given path := by
  -- By the kind of the assignment; a merge contributes each of its values.
  unfold ConfigAssignment.given
  cases assign.expr with
  | set value => exact listed.push assign.path ⟨.normal, value, none⟩
  | «if» condition value =>
    cases truthy : isTruthy condition.json with
    | true =>
      simp only [Nix.collect, MkExpr.contributions, truthy, if_true]
      exact listed.push assign.path ⟨.normal, value, none⟩
    | false => simpa [Nix.collect, MkExpr.contributions, truthy] using listed
  | force value => exact listed.push assign.path ⟨.force, value, none⟩
  | default value => exact listed.push assign.path ⟨.default, value, none⟩
  | merge values => exact listed.foldl_push assign.path values
  | order placement value => exact listed.push assign.path ⟨.normal, value, some placement⟩

/-- Collecting the assignments of a module adds what they contribute. -/
theorem Lists.collectConfig {out : Contributions} {contributed : String → List Contribution}
    (listed : Lists out contributed) (config : List ConfigAssignment) :
    Lists (config.foldl (fun out assign => Nix.collect assign.expr assign.path out) out)
      fun path => contributed path ++ config.flatMap (ConfigAssignment.given path) := by
  -- By induction on the assignments.
  induction config generalizing out contributed with
  | nil =>
    intro path
    simpa using listed path
  | cons assign rest ih =>
    simpa [List.append_assoc] using ih (listed.collect assign)

/-- Collecting the modules lists what they contribute. -/
theorem lists_collectAll (modules : List Module) : Lists (collectAll modules) (given modules) := by
  -- By induction on the modules, from a table that lists what earlier modules contributed.
  have from_ (out : Contributions) (contributed : String → List Contribution)
      (listed : Lists out contributed) :
      Lists (modules.foldl (fun out module => module.config.foldl
          (fun out assign => collect assign.expr assign.path out) out) out)
        fun path => contributed path ++ given modules path := by
    induction modules generalizing out contributed with
    | nil =>
      intro path
      simpa [given] using listed path
    | cons module rest ih =>
      simpa [given, List.append_assoc] using ih _ _ (listed.collectConfig module.config)
  simpa [collectAll] using from_ ∅ (fun _ => []) fun path => by simp

/-- The contributions of the highest priority among those to a path. -/
def Winner (modules : List Module) (path : String) (c : Contribution) : Prop :=
  c ∈ winners (given modules path)

/-- There is a contribution of the highest priority as soon as there is one. -/
theorem winners_ne_nil {contribs : List Contribution} (nonempty : contribs ≠ []) :
    winners contribs ≠ [] := by
  have mapped : contribs.map (fun c => c.priority.level) ≠ [] := by simpa using nonempty
  obtain ⟨least, lowest⟩ := Option.ne_none_iff_exists'.mp (mt List.min?_eq_none_iff.mp mapped)
  rw [winners, lowest]
  -- The least level is that of a contribution.
  obtain ⟨c, listed, level⟩ := List.mem_map.mp (List.min?_mem lowest)
  exact List.ne_nil_of_mem (List.mem_filter.mpr ⟨listed, by simpa using level⟩)

@[simp] theorem winners_nil : winners [] = [] := rfl

/-- The entries of resolved paths: each path with its contributions joined. -/
def Resolved (entries : List (String × List Contribution)) (resolved : List (String × Json)) :
    Prop :=
  List.Forall₂ (fun entry out => out.1 = entry.1 ∧ ∃ first others,
    winners entry.2 = first :: others ∧ join entry.1 first others = .ok out.2) entries resolved

/-- Each entry of resolved paths comes from an entry with the contributions. -/
theorem Resolved.of_mem {entries : List (String × List Contribution)}
    {resolved : List (String × Json)} (spec : Resolved entries resolved) {out : String × Json}
    (listed : out ∈ resolved) : ∃ contribs, (out.1, contribs) ∈ entries ∧ ∃ first others,
      winners contribs = first :: others ∧ join out.1 first others = .ok out.2 := by
  -- By induction on the entries.
  induction spec with
  | nil => cases listed
  | @cons entry _ _ _ made _ ih =>
    rcases List.mem_cons.mp listed with rfl | later
    · obtain ⟨same, first, others, best, joined⟩ := made
      exact ⟨entry.2, by rw [same]; exact .head _, first, others, best, same ▸ joined⟩
    · obtain ⟨contribs, among, rest⟩ := ih later
      exact ⟨contribs, .tail _ among, rest⟩

/-- Resolved paths are the paths of the entries, in their order. -/
theorem Resolved.map_fst {entries : List (String × List Contribution)}
    {resolved : List (String × Json)} (spec : Resolved entries resolved) :
    resolved.map Prod.fst = entries.map Prod.fst := by
  induction spec with
  | nil => rfl
  | cons made _ ih => rw [List.map_cons, List.map_cons, ih, made.1]

/-- Resolving paths joins the contributions of each. -/
theorem resolvePaths_spec {entries : List (String × List Contribution)}
    {resolved : List (String × Json)} (nonempty : ∀ entry ∈ entries, entry.2 ≠ [])
    (ok : resolvePaths entries = .ok resolved) : Resolved entries resolved := by
  -- By induction on the paths, in the order of the table.
  induction entries generalizing resolved with
  | nil =>
    cases ok
    exact .nil
  | cons entry rest ih =>
    obtain ⟨path, contribs⟩ := entry
    rw [resolvePaths] at ok
    cases best : winners contribs with
    | nil => exact absurd best (winners_ne_nil (nonempty _ (.head _)))
    | cons first others =>
      simp only [best] at ok
      cases joined : join path first others with
      | error e => simp [joined] at ok
      | ok value =>
        simp only [joined] at ok
        cases later : resolvePaths rest with
        | error e => simp [later, Except.map] at ok
        | ok tail =>
          simp only [later, Except.map, Except.ok.injEq] at ok
          subst ok
          exact .cons ⟨rfl, first, others, best, joined⟩
            (ih (fun entry listed => nonempty entry (.tail _ listed)) later)

/-- Paths are resolved exactly when the contributions of each join. -/
theorem resolvePaths_ok_iff {entries : List (String × List Contribution)}
    (nonempty : ∀ entry ∈ entries, entry.2 ≠ []) :
    (∃ resolved, resolvePaths entries = .ok resolved) ↔ ∀ entry ∈ entries, ∀ place,
      (valuesAt place (winners entry.2)).Pairwise Joins := by
  induction entries with
  | nil => simp [resolvePaths]
  | cons entry rest ih =>
    obtain ⟨path, contribs⟩ := entry
    have tail := ih fun entry listed => nonempty entry (.tail _ listed)
    rw [List.forall_mem_cons, ← tail, resolvePaths]
    cases best : winners contribs with
    | nil => exact absurd best (winners_ne_nil (nonempty _ (.head _)))
    | cons first others =>
      simp only
      rw [← @join_ok_iff path]
      -- An error at this path ends the resolution, and so does one at a later path.
      cases join path first others with
      | error e => simp
      | ok value => cases resolvePaths rest <;> simp [Except.map]

/-- Inserting at nested parts is putting at that place. -/
theorem insertNested_eq_putAt (root : Json) (parts : List String) (value : Json) :
    insertNested root parts value = putAt value parts root := by
  -- A single part and several parts are two branches of the source, and one of the place.
  fun_induction insertNested root parts value with
  | case1 root => rfl
  | case2 root part => rfl
  | case3 root head rest _ ih => rw [ih, putAt, lookup_fieldsOf]

/-- An entry whose path leads to a place or above it, as far down as any does. -/
def Governs (resolved : List (String × Json)) (place : List String) (entry : String × Json) :
    Prop :=
  entry ∈ resolved ∧ segments entry.1 <+: place ∧ ∀ other ∈ resolved,
    segments other.1 <+: place → (segments other.1).length ≤ (segments entry.1).length

/-- A path runs on below a place. -/
def Crossed (resolved : List (String × Json)) (place : List String) : Prop :=
  ∃ entry ∈ resolved, place <+: segments entry.1 ∧ place ≠ segments entry.1

/-- No later path leads above an earlier one. -/
def Layered (resolved : List (String × Json)) : Prop :=
  resolved.Pairwise fun earlier later => ¬ segments later.1 <+: segments earlier.1

/-- What a place of the lifted config holds: an object where a path runs on below it, else what
the governing entry has there, and else nothing. -/
inductive Settled (resolved : List (String × Json)) (place : List String) : Option Json → Prop
  | crossed (crosses : Crossed resolved place) (fields : List (String × Json)) :
    Settled resolved place (some (.object fields))
  | governed (entry : String × Json) (governs : Governs resolved place entry)
    (clear : ¬ Crossed resolved place) :
    Settled resolved place (valueAt (place.drop (segments entry.1).length) entry.2)
  | untouched (clear : ∀ entry ∈ resolved,
      ¬ segments entry.1 <+: place ∧ ¬ place <+: segments entry.1) :
    Settled resolved place (valueAt place (.object []))

/-- One more path that has nothing to do with a place leaves it settled as it was. -/
theorem Settled.snoc {resolved : List (String × Json)} {place : List String} {x : Option Json}
    (settled : Settled resolved place x) {entry : String × Json}
    (notBelow : ¬ segments entry.1 <+: place) (notAbove : ¬ place <+: segments entry.1) :
    Settled (resolved ++ [entry]) place x := by
  -- A path apart from a place changes nothing about it.
  have crossed : Crossed (resolved ++ [entry]) place ↔ Crossed resolved place := by
    constructor
    · rintro ⟨other, listed, above⟩
      rcases List.mem_append.mp listed with listed | last
      · exact ⟨other, listed, above⟩
      · exact absurd (List.mem_singleton.mp last ▸ above.1) notAbove
    · rintro ⟨other, listed, above⟩
      exact ⟨other, List.mem_append_left _ listed, above⟩
  cases settled with
  | crossed crosses fields => exact .crossed (crossed.mpr crosses) fields
  | governed governor governs clear =>
    refine .governed governor ⟨List.mem_append_left _ governs.1, governs.2.1, ?_⟩
      (mt crossed.mp clear)
    intro other listed below
    rcases List.mem_append.mp listed with listed | last
    · exact governs.2.2 other listed below
    · exact absurd (List.mem_singleton.mp last ▸ below) notBelow
  | untouched clear =>
    refine .untouched fun other listed => ?_
    rcases List.mem_append.mp listed with listed | last
    · exact clear other listed
    · rw [List.mem_singleton.mp last]
      exact ⟨notBelow, notAbove⟩

/-- Every place of the lifted config is settled by the paths. -/
theorem lift_settled {resolved : List (String × Json)} (layered : Layered resolved)
    (place : List String) : Settled resolved place (valueAt place (lift resolved)) := by
  -- By induction from the last entry: it decides every place that is on its way or below it.
  induction resolved using List.reverseRecOn with
  | nil => exact .untouched fun entry listed => by cases listed
  | append_singleton earlier entry ih =>
    obtain ⟨layered, -, apart⟩ := List.pairwise_append.mp layered
    have last : ∀ other ∈ earlier, ¬ segments entry.1 <+: segments other.1 :=
      fun other listed => apart other listed entry (List.mem_singleton.mpr rfl)
    rw [lift, List.foldl_append, List.foldl_cons, List.foldl_nil, insertNested_eq_putAt]
    by_cases below : segments entry.1 <+: place
    · have governs : Governs (earlier ++ [entry]) place entry := by
        refine ⟨by simp, below, fun other listed otherBelow => ?_⟩
        rcases List.mem_append.mp listed with listed | own
        · -- A longer path to the place would run on below the last one.
          by_contra longer
          exact last other listed
            (List.prefix_of_prefix_length_le below otherBelow (by omega))
        · rw [List.mem_singleton.mp own]
      have clear : ¬ Crossed (earlier ++ [entry]) place := by
        rintro ⟨other, listed, above, different⟩
        rcases List.mem_append.mp listed with listed | own
        · exact last other listed (below.trans above)
        · rw [List.mem_singleton.mp own] at above different
          exact different (above.eq_of_length (le_antisymm above.length_le below.length_le))
      have settled := Settled.governed entry governs clear
      obtain ⟨rest, rfl⟩ := below
      rw [valueAt_putAt_below]
      simpa using settled
    · by_cases above : place <+: segments entry.1
      · have different : place ≠ segments entry.1 := by
          rintro rfl
          exact below List.prefix_rfl
        obtain ⟨fields, object⟩ := valueAt_putAt_above entry.2
          (earlier.foldl (fun root entry => insertNested root (segments entry.1) entry.2)
            (.object [])) above different
        rw [object]
        exact .crossed ⟨entry, by simp, above, different⟩ fields
      · rw [valueAt_putAt_apart _ _ below above]
        exact (ih layered).snoc below above

/-- A path that modules contribute to. -/
def Assigned (modules : List Module) (path : String) : Prop := given modules path ≠ []

/-- A path that modules contribute to runs on below a place. -/
def RunsOnBelow (modules : List Module) (place : List String) : Prop :=
  ∃ path, Assigned modules path ∧ place <+: segments path ∧ place ≠ segments path

/-- The longest of the paths that lead to a place or above it. -/
def Deepest (modules : List Module) (place : List String) (path : String) : Prop :=
  Assigned modules path ∧ segments path <+: place ∧ ∀ other, Assigned modules other →
    segments other <+: place → (segments other).length ≤ (segments path).length

/-- What a config holds at a place, by the contributions of the modules. -/
inductive ConfigAt (modules : List Module) (place : List String) : Option Json → Prop
  | crossed (below : RunsOnBelow modules place) (fields : List (String × Json)) :
    ConfigAt modules place (some (.object fields))
  | governed (path : String) (deepest : Deepest modules place path)
    (clear : ¬ RunsOnBelow modules place) (first : Contribution) (others : List Contribution)
    (best : winners (given modules path) = first :: others) (joined : Json)
    (ok : join path first others = .ok joined) :
    ConfigAt modules place (valueAt (place.drop (segments path).length) joined)
  | untouched (clear : ∀ path, Assigned modules path →
      ¬ segments path <+: place ∧ ¬ place <+: segments path) :
    ConfigAt modules place (valueAt place (.object []))

/-- The collected table has an entry for each path that is contributed to. -/
theorem mem_toList_collectAll {modules : List Module} {path : String}
    {contribs : List Contribution} :
    (path, contribs) ∈ (collectAll modules).toList ↔
      Assigned modules path ∧ contribs = given modules path := by
  rw [Std.ExtTreeMap.mem_toList_iff_getElem?_eq_some, lists_collectAll modules path, Assigned]
  -- The table has an entry where there is a contribution.
  by_cases empty : given modules path = []
  · rw [if_pos empty]
    exact iff_of_false (by simp) fun both => both.1 empty
  · rw [if_neg empty, Option.some.injEq, eq_comm]
    exact (and_iff_right empty).symm

/-- Every path of the collected table has a contribution. -/
theorem collectAll_nonempty (modules : List Module) :
    ∀ entry ∈ (collectAll modules).toList, entry.2 ≠ [] := by
  rintro ⟨path, contribs⟩ listed
  obtain ⟨assigned, rfl⟩ := mem_toList_collectAll.mp listed
  exact assigned

/-- The paths of the collected table come in an order in which none leads above an earlier one. -/
theorem layered_of_resolved {modules : List Module} {resolved : List (String × Json)}
    (spec : Resolved (collectAll modules).toList resolved) : Layered resolved := by
  -- The table is in the order of the texts, and a path does not come before its own beginning.
  have ordered : (resolved.map Prod.fst).Pairwise fun a b => compare a b = .lt := by
    rw [spec.map_fst, Std.ExtTreeMap.map_fst_toList_eq_keys]
    exact Std.ExtTreeMap.ordered_keys
  rw [List.pairwise_map] at ordered
  refine ordered.imp fun {earlier later} before leads => ?_
  exact not_lt_of_segments_prefix leads (compareOfLessAndEq_eq_lt.mp before)

/-- Resolved paths, when lifted, hold at each place what the contributions of the modules say. -/
theorem configAt_of_resolvePaths {modules : List Module} {resolved : List (String × Json)}
    (resolution : resolvePaths (collectAll modules).toList = .ok resolved) (place : List String) :
    ConfigAt modules place (valueAt place (lift resolved)) := by
  have spec := resolvePaths_spec (collectAll_nonempty modules) resolution
  -- The entries of the table and those of the resolution are the assigned paths.
  have forward {entry : String × Json} (listed : entry ∈ resolved) :
      Assigned modules entry.1 ∧ ∃ first others,
        winners (given modules entry.1) = first :: others ∧
          join entry.1 first others = .ok entry.2 := by
    obtain ⟨contribs, among, first, others, best, joined⟩ := spec.of_mem listed
    obtain ⟨assigned, rfl⟩ := mem_toList_collectAll.mp among
    exact ⟨assigned, first, others, best, joined⟩
  have backward {path : String} (assigned : Assigned modules path) :
      ∃ entry ∈ resolved, entry.1 = path := by
    have among : path ∈ resolved.map Prod.fst := by
      rw [spec.map_fst]
      exact List.mem_map_of_mem (mem_toList_collectAll.mpr ⟨assigned, rfl⟩)
    exact List.mem_map.mp among
  have crossed : Crossed resolved place ↔ RunsOnBelow modules place := by
    constructor
    · rintro ⟨entry, listed, above⟩
      exact ⟨entry.1, (forward listed).1, above⟩
    · rintro ⟨path, assigned, above⟩
      obtain ⟨entry, listed, rfl⟩ := backward assigned
      exact ⟨entry, listed, above⟩
  have settled := lift_settled (layered_of_resolved spec) place
  generalize valueAt place (lift resolved) = held at settled
  cases settled with
  | crossed crosses fields => exact .crossed (crossed.mp crosses) fields
  | governed entry governs clear =>
    obtain ⟨assigned, first, others, best, joined⟩ := forward governs.1
    refine .governed entry.1 ⟨assigned, governs.2.1, ?_⟩ (mt crossed.mpr clear) first others best
      entry.2 joined
    intro other otherAssigned below
    obtain ⟨otherEntry, listed, rfl⟩ := backward otherAssigned
    exact governs.2.2 otherEntry listed below
  | untouched clear =>
    refine .untouched fun path assigned => ?_
    obtain ⟨entry, listed, rfl⟩ := backward assigned
    exact clear entry listed

/-- A config is resolved exactly when the paths resolve to it and it satisfies the options. -/
theorem resolveModules_eq_ok_iff {modules : List Module} {config : Json} :
    resolveModules modules = .ok config ↔ ∃ resolved,
      resolvePaths (collectAll modules).toList = .ok resolved ∧ config = lift resolved ∧
        validateOptions modules config = .ok () := by
  rw [resolveModules]
  -- Without resolved paths there is no config; and else it is checked.
  cases resolvePaths (collectAll modules).toList with
  | error e => simp
  | ok resolved =>
    simp only [Except.ok.injEq, exists_eq_left']
    cases checked : validateOptions modules (lift resolved) with
    | error e =>
      refine iff_of_false (by simp) ?_
      rintro ⟨rfl, ok⟩
      rw [checked] at ok
      cases ok
    | ok _ =>
      simp only [Except.ok.injEq]
      refine ⟨?_, fun both => both.1.symm⟩
      rintro rfl
      exact ⟨rfl, checked⟩

/-- A resolved config holds at each place what the contributions of the modules say. -/
theorem configAt_of_resolveModules {modules : List Module} {config : Json}
    (ok : resolveModules modules = .ok config) (place : List String) :
    ConfigAt modules place (valueAt place config) := by
  obtain ⟨resolved, resolution, rfl, -⟩ := resolveModules_eq_ok_iff.mp ok
  exact configAt_of_resolvePaths resolution place

end Tatara.Nix
