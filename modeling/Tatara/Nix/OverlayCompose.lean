import Mathlib.Data.List.Induction
import Tatara.Lib.Writes

/-! Overlay composition and application over package sets. -/

namespace Tatara.Nix

open Writes

/-- What an overlay targets: the scope of its mutations. -/
inductive OverlayTarget
  | packageSet | perSystem | module
  deriving DecidableEq, Repr

/-- A derivation: its name, and the recipe that no overlay looks into. -/
structure Derivation (Recipe : Type) where
  name : String
  recipe : Recipe
  deriving DecidableEq, Repr

/-- Replace an existing package's derivation. -/
structure Replacement (Recipe : Type) where
  upstreamName : String
  «with» : Derivation Recipe
  deriving DecidableEq, Repr

/-- A named bundle of additions and replacements. -/
structure Overlay (Recipe : Type) where
  name : String
  target : OverlayTarget
  adds : List (Derivation Recipe)
  replaces : List (Replacement Recipe)
  description : Option String
  deriving DecidableEq, Repr

/-- Why a composition was refused. -/
inductive ComposeError
  | targetMismatch (first other : OverlayTarget) (overlay : String)
  deriving DecidableEq, Repr

variable {Recipe : Type}

/-- The base: a dictionary of packages keyed by name. -/
abbrev PackageSet (Recipe : Type) := Std.ExtTreeMap String (Derivation Recipe)

/-- Substitute by the upstream name. -/
def insertReplacement (out : PackageSet Recipe) (replacement : Replacement Recipe) :
    PackageSet Recipe :=
  out.insert replacement.upstreamName replacement.with

/-- Insert a package under its own name. -/
def insertAdd (out : PackageSet Recipe) (add : Derivation Recipe) : PackageSet Recipe :=
  out.insert add.name add

/-- Apply a single overlay to a package set: the replacements first, then the additions. -/
def apply (overlay : Overlay Recipe) (base : PackageSet Recipe) : PackageSet Recipe :=
  overlay.adds.foldl insertAdd (overlay.replaces.foldl insertReplacement base)

/-- Apply a chain of overlays in order. -/
def applyChain (overlays : List (Overlay Recipe)) (base : PackageSet Recipe) : PackageSet Recipe :=
  overlays.foldl (fun out o => apply o out) base

/-- The two tables a composition collects. -/
structure Collected (Recipe : Type) where
  adds : Std.ExtTreeMap String (Derivation Recipe)
  replaces : Std.ExtTreeMap String (Derivation Recipe)

/-- Put one more overlay into the two tables. -/
def Collected.absorb (tables : Collected Recipe) (o : Overlay Recipe) : Collected Recipe :=
  { adds := o.adds.foldl insertAdd tables.adds
    replaces := o.replaces.foldl insertReplacement tables.replaces }

/-- Compose overlays into one, refusing mixed targets. -/
def compose (overlays : List (Overlay Recipe)) : Except ComposeError (Overlay Recipe) :=
  match overlays with
  | [] =>
    .ok
      { name := "composed-empty", target := .packageSet, adds := [], replaces := []
        description := some "empty composition" }
  | head :: _ =>
    match overlays.find? (fun o => o.target != head.target) with
    | some o => .error (.targetMismatch head.target o.target o.name)
    | none =>
      let tables := overlays.foldl Collected.absorb ⟨∅, ∅⟩
      .ok
        { name := "composed-" ++ "+".intercalate (overlays.map Overlay.name)
          target := head.target
          adds := tables.adds.toList.map Prod.snd
          replaces := tables.replaces.toList.map fun entry => ⟨entry.1, entry.2⟩
          description := some ("composition of " ++ toString overlays.length ++ " overlays") }

/-- The writes an overlay's additions make. -/
def Overlay.addWrites (o : Overlay Recipe) : List (String × Derivation Recipe) :=
  o.adds.map fun add => (add.name, add)

/-- The writes an overlay's replacements make. -/
def Overlay.replaceWrites (o : Overlay Recipe) : List (String × Derivation Recipe) :=
  o.replaces.map fun replacement => (replacement.upstreamName, replacement.with)

/-- Every write an overlay makes, in the order it makes them. -/
def Overlay.writes (o : Overlay Recipe) : List (String × Derivation Recipe) :=
  o.replaceWrites ++ o.addWrites

/-- An overlay adds a package of a name. -/
def Overlay.Adds (o : Overlay Recipe) (name : String) : Prop := ∃ add ∈ o.adds, add.name = name

/-- An overlay replaces the package of a name. -/
def Overlay.Replaces (o : Overlay Recipe) (name : String) : Prop :=
  ∃ replacement ∈ o.replaces, replacement.upstreamName = name

instance (o : Overlay Recipe) (name : String) : Decidable (o.Adds name) :=
  inferInstanceAs (Decidable (∃ add ∈ o.adds, add.name = name))

instance (o : Overlay Recipe) (name : String) : Decidable (o.Replaces name) :=
  inferInstanceAs (Decidable (∃ replacement ∈ o.replaces, replacement.upstreamName = name))

/-- The last overlay of a chain that touches a name. -/
def lastTouching (overlays : List (Overlay Recipe)) (name : String) : Option (Overlay Recipe) :=
  overlays.reverse.find? fun o => decide (o.Adds name ∨ o.Replaces name)

/-- Where the last overlay touching a name only replaces it, whatever the chain last adds under
the name is what it is replaced with. -/
def Kept (overlays : List (Overlay Recipe)) (name : String) : Prop :=
  ∀ o, lastTouching overlays name = some o → ¬ o.Adds name →
    ∀ d, lastWrite (overlays.flatMap Overlay.addWrites) name = some d →
      lastWrite o.replaceWrites name = some d

/-- Inserting additions is writing them. -/
theorem foldl_insertAdd (adds : List (Derivation Recipe)) (out : PackageSet Recipe) :
    adds.foldl insertAdd out = writeAll out (adds.map fun add => (add.name, add)) := by
  -- The fold over the writes is the fold over what they are made from.
  rw [writeAll, List.foldl_map]
  rfl

/-- Inserting replacements is writing them. -/
theorem foldl_insertReplacement (replaces : List (Replacement Recipe))
    (out : PackageSet Recipe) :
    replaces.foldl insertReplacement out =
      writeAll out (replaces.map fun replacement =>
        (replacement.upstreamName, replacement.with)) := by
  -- As for additions.
  rw [writeAll, List.foldl_map]
  rfl

/-- Applying an overlay makes its writes. -/
theorem apply_eq_writeAll (o : Overlay Recipe) (base : PackageSet Recipe) :
    apply o base = writeAll base o.writes := by
  -- The replacements are written first, so an addition of the same name wins.
  rw [apply, foldl_insertAdd, foldl_insertReplacement, Overlay.writes, writeAll_append]
  rfl

/-- Applying a chain makes the writes of its overlays one overlay after the other. -/
theorem applyChain_eq_writeAll (overlays : List (Overlay Recipe)) (base : PackageSet Recipe) :
    applyChain overlays base = writeAll base (overlays.flatMap Overlay.writes) := by
  -- By induction on the chain, each overlay seeing what the ones before it left.
  induction overlays generalizing base with
  | nil => rfl
  | cons o rest ih =>
    rw [List.flatMap_cons, writeAll_append, ← apply_eq_writeAll, ← ih]
    rfl

/-- The two tables hold the writes of the additions and those of the replacements. -/
theorem foldl_absorb (overlays : List (Overlay Recipe)) (tables : Collected Recipe) :
    overlays.foldl Collected.absorb tables =
      { adds := writeAll tables.adds (overlays.flatMap Overlay.addWrites)
        replaces := writeAll tables.replaces (overlays.flatMap Overlay.replaceWrites) } := by
  -- By induction on the overlays, with the tables collected so far carried along.
  induction overlays generalizing tables with
  | nil => rfl
  | cons o rest ih =>
    rw [List.foldl_cons, ih]
    simp only [Collected.absorb, foldl_insertAdd, foldl_insertReplacement, List.flatMap_cons,
      writeAll_append, Overlay.addWrites, Overlay.replaceWrites]

/-- An addition is written under its own name. -/
theorem name_of_lastWrite_addWrites {overlays : List (Overlay Recipe)} {name : String}
    {d : Derivation Recipe}
    (last : lastWrite (overlays.flatMap Overlay.addWrites) name = some d) : d.name = name := by
  -- The last write is one of the writes, and each pairs a derivation with its name.
  rw [lastWrite, List.findSomeRev?_eq_findSome?_reverse] at last
  obtain ⟨write, listed, wrote⟩ := List.exists_of_findSome?_eq_some last
  obtain ⟨o, -, made⟩ := List.mem_flatMap.mp (List.mem_reverse.mp listed)
  obtain ⟨add, -, rfl⟩ := List.mem_map.mp made
  grind

/-- Overlays of one target are composed, and the composition writes for each name the last
replacement and over it the last addition. -/
theorem compose_common {overlays : List (Overlay Recipe)} {target : OverlayTarget}
    (common : ∀ o ∈ overlays, o.target = target) :
    ∃ c, compose overlays = .ok c ∧ ∀ name, lastWrite c.writes name =
      (lastWrite (overlays.flatMap Overlay.addWrites) name).or
        (lastWrite (overlays.flatMap Overlay.replaceWrites) name) := by
  cases overlays with
  | nil => exact ⟨_, rfl, fun name => rfl⟩
  | cons head rest =>
    have uniform : (head :: rest).find? (fun o => o.target != head.target) = none := by
      rw [List.find?_eq_none]
      intro o listed
      simp [common o listed, common head (by simp)]
    refine ⟨_, by rw [compose, uniform], fun name => ?_⟩
    rw [foldl_absorb]
    -- Each of the two lists of the composition writes back the table it was read from.
    have adds (entries : List (String × Derivation Recipe))
        (named : ∀ entry ∈ entries, entry.2.name = entry.1) :
        (entries.map Prod.snd).map (fun add => (add.name, add)) = entries := by
      rw [List.map_map]
      exact (List.map_congr_left fun entry listed => by
        simp [named entry listed]).trans (List.map_id _)
    simp only [Overlay.writes, Overlay.replaceWrites, Overlay.addWrites, lastWrite_append,
      List.map_map]
    rw [← List.map_map, adds]
    · have pairs (entries : List (String × Derivation Recipe)) :
          entries.map ((fun r => (Replacement.upstreamName r, r.with)) ∘ fun entry =>
            ⟨entry.1, entry.2⟩) = entries := List.map_id _
      rw [pairs, lastWrite_toList, lastWrite_toList, getElem?_writeAll, getElem?_writeAll]
      simp only [Std.ExtTreeMap.getElem?_empty, Option.or_none]
    · rintro ⟨name, d⟩ listed
      rw [Std.ExtTreeMap.mem_toList_iff_getElem?_eq_some, getElem?_writeAll,
        Std.ExtTreeMap.getElem?_empty, Option.or_none] at listed
      exact name_of_lastWrite_addWrites listed

/-- An overlay writes no addition of a name exactly when it adds none. -/
theorem lastWrite_addWrites_eq_none_iff {o : Overlay Recipe} {name : String} :
    lastWrite o.addWrites name = none ↔ ¬ o.Adds name := by
  simp [lastWrite_eq_none_iff, Overlay.addWrites, Overlay.Adds]

/-- An overlay writes no replacement of a name exactly when it replaces none. -/
theorem lastWrite_replaceWrites_eq_none_iff {o : Overlay Recipe} {name : String} :
    lastWrite o.replaceWrites name = none ↔ ¬ o.Replaces name := by
  simp [lastWrite_eq_none_iff, Overlay.replaceWrites, Overlay.Replaces]

/-- The chain's last write of a name is the composition's exactly when the name is kept. -/
theorem lastWrite_writes_iff_kept (overlays : List (Overlay Recipe)) (name : String) :
    lastWrite (overlays.flatMap Overlay.writes) name =
      (lastWrite (overlays.flatMap Overlay.addWrites) name).or
        (lastWrite (overlays.flatMap Overlay.replaceWrites) name) ↔ Kept overlays name := by
  -- By induction from the end of the chain, down to the last overlay that touches the name.
  induction overlays using List.reverseRecOn with
  | nil => simp [Kept, lastTouching]
  | append_singleton earlier o ih =>
    simp only [List.flatMap_append, List.flatMap_singleton, lastWrite_append, Kept, lastTouching,
      List.reverse_append, List.reverse_singleton, List.singleton_append, Overlay.writes]
    by_cases adds : o.Adds name
    · -- An addition wins over everything before it, in the chain and in the composition.
      obtain ⟨d, added⟩ := Option.ne_none_iff_exists'.mp
        (mt lastWrite_addWrites_eq_none_iff.mp (not_not.mpr adds))
      simp [added, adds]
    · have notAdded := lastWrite_addWrites_eq_none_iff.mpr adds
      by_cases replaces : o.Replaces name
      · -- The replacement wins in the chain, and any earlier addition in the composition.
        obtain ⟨d, replaced⟩ := Option.ne_none_iff_exists'.mp
          (mt lastWrite_replaceWrites_eq_none_iff.mp (not_not.mpr replaces))
        cases lastWrite (earlier.flatMap Overlay.addWrites) name with
        | none => simp [notAdded, replaced, replaces]
        | some e => simp [notAdded, replaced, replaces, adds]
      · -- The overlay leaves the name alone, so the earlier ones decide.
        have notReplaced := lastWrite_replaceWrites_eq_none_iff.mpr replaces
        simpa [notAdded, notReplaced, replaces, adds, Kept, lastTouching] using ih

/-- The chain writes a name exactly when the two tables of the composition do. -/
theorem writes_eq_none_iff (overlays : List (Overlay Recipe)) (name : String) :
    lastWrite (overlays.flatMap Overlay.writes) name = none ↔
      (lastWrite (overlays.flatMap Overlay.addWrites) name).or
        (lastWrite (overlays.flatMap Overlay.replaceWrites) name) = none := by
  -- Both say that no overlay has a write of the name.
  rw [Option.or_eq_none_iff]
  simp only [lastWrite_eq_none_iff, List.forall_mem_flatMap, Overlay.writes,
    List.forall_mem_append]
  grind

/-- The composition of a chain means the chain exactly when every name is kept. -/
theorem apply_compose_eq_applyChain_iff (overlays : List (Overlay Recipe))
    (base : PackageSet Recipe) (target : OverlayTarget)
    (common : ∀ o ∈ overlays, o.target = target) :
    (∃ c, compose overlays = .ok c ∧ apply c base = applyChain overlays base) ↔
      ∀ name, Kept overlays name := by
  obtain ⟨c, composed, written⟩ := compose_common common
  -- Both sides write to the same names, so the base decides nothing.
  have sameNames name : lastWrite c.writes name = none ↔
      lastWrite (overlays.flatMap Overlay.writes) name = none := by
    rw [written, ← writes_eq_none_iff]
  have means : apply c base = applyChain overlays base ↔ ∀ name, Kept overlays name := by
    rw [apply_eq_writeAll, applyChain_eq_writeAll, writeAll_eq_iff base _ _ sameNames]
    refine forall_congr' fun name => ?_
    rw [written, eq_comm, lastWrite_writes_iff_kept]
  rw [← means]
  constructor
  · rintro ⟨other, again, same⟩
    cases composed.symm.trans again
    exact same
  · exact fun same => ⟨c, composed, same⟩

/-- Two overlays that add different names compose to the chain. -/
theorem apply_compose_two :
    let hello : Overlay Nat := ⟨"a", .packageSet, [⟨"hello", 1⟩], [], none⟩
    let curl : Overlay Nat := ⟨"b", .packageSet, [], [⟨"curl", ⟨"curl", 2⟩⟩], none⟩
    ∃ c, compose [hello, curl] = .ok c ∧ apply c ∅ = applyChain [hello, curl] ∅ := by
  intro hello curl
  refine (apply_compose_eq_applyChain_iff [hello, curl] ∅ .packageSet (by simp [hello, curl])).mpr
    fun name o last adds d added => ?_
  -- The only addition is of `hello`, which nothing replaces.
  simp [lastTouching, hello, curl, Overlay.Adds, Overlay.Replaces] at last
  simp [hello, curl, Overlay.addWrites, lastWrite] at added
  obtain ⟨rfl, rfl⟩ := added
  simp only [String.reduceEq, false_and, not_false_eq_true, true_and, false_or] at last
  exact absurd ⟨_, by rw [← last]; exact List.mem_singleton.mpr rfl, rfl⟩ adds

/-- A package added and then replaced by a later overlay comes back from the composition as it
was added. -/
theorem compose_forgets_later_replacement :
    let adds : Overlay Nat := ⟨"a", .packageSet, [⟨"x", 1⟩], [], none⟩
    let replaces : Overlay Nat := ⟨"b", .packageSet, [], [⟨"x", ⟨"x", 2⟩⟩], none⟩
    ∃ c, compose [adds, replaces] = .ok c ∧
      (apply c ∅)["x"]? = some ⟨"x", 1⟩ ∧
      (applyChain [adds, replaces] ∅)["x"]? = some ⟨"x", 2⟩ ∧
      apply c ∅ ≠ applyChain [adds, replaces] ∅ := by
  intro adds replaces
  -- Both overlays are of one kind, so that they can be composed.
  obtain ⟨c, composed, written⟩ := @compose_common Nat [adds, replaces] .packageSet
    (by simp [adds, replaces])
  -- The composition writes the replacement first, and then the addition.
  have viaCompose : (apply c ∅)["x"]? = some ⟨"x", 1⟩ := by
    rw [apply_eq_writeAll, getElem?_writeAll, written]
    rfl
  -- The chain applies one overlay after the other.
  have viaChain : (applyChain [adds, replaces] ∅)["x"]? = some ⟨"x", 2⟩ := by
    rw [applyChain_eq_writeAll, getElem?_writeAll]
    rfl
  refine ⟨c, composed, viaCompose, viaChain, fun same => ?_⟩
  rw [same, viaChain] at viaCompose
  cases viaCompose

end Tatara.Nix
