import Mathlib.Algebra.Order.BigOperators.GroupWithZero.List
import Mathlib.Algebra.Order.Ring.Nat
import Tatara.Matrix.Spec

/-! A matrix expands to exactly the capped product of its axes. -/

namespace Tatara.Matrix

open Rust (Json JsonText scalarText segments segments_ne_nil)
open Rust.Json (Apart putAt putAll valueAt lookup_fieldsOf valueAt_putAll_apart
  valueAt_putAll_of_mem)

/-- A coordinate with one in-bounds index per axis. -/
def EnvMatrixSpec.InBounds (m : EnvMatrixSpec) (coord : List Nat) : Prop :=
  MixedRadix.Fits m.lengths coord

/-- A coordinate is in bounds where each of its entries is below its length. -/
theorem coordInBoundsAgainst_iff {lengths coord : List Nat} :
    coordInBoundsAgainst lengths coord = true ↔ MixedRadix.Fits lengths coord := by
  rw [coordInBoundsAgainst, Bool.and_eq_true, beq_iff_eq, MixedRadix.Fits]
  -- The two lists are walked together.
  induction coord generalizing lengths with
  | nil => cases lengths <;> simp
  | cons i coord ih =>
    cases lengths with
    | nil => simp
    | cons l lengths =>
      rw [List.forall₂_cons, ← ih]
      simp only [List.length_cons, Nat.add_right_cancel_iff, List.zip_cons_cons, List.all_cons,
        Bool.and_eq_true, decide_eq_true_eq]
      tauto

instance (m : EnvMatrixSpec) (coord : List Nat) : Decidable (m.InBounds coord) :=
  decidable_of_iff _ coordInBoundsAgainst_iff

/-- A fold that multiplies as long as the product fits computes the product of positive lengths
that fits. -/
theorem foldl_mul_of_fits {step : Nat → Nat → Nat}
    (exact_ : ∀ product l, product * l < 2 ^ 64 → step product l = product * l)
    {lengths : List Nat} (positive : ∀ l ∈ lengths, 0 < l) {start : Nat}
    (fits : start * lengths.prod < 2 ^ 64) :
    lengths.foldl step start = start * lengths.prod := by
  -- Every product on the way is at most the last one.
  induction lengths generalizing start with
  | nil => simp
  | cons l rest ih =>
    have others : ∀ l ∈ rest, 0 < l := fun l listed => positive l (.tail _ listed)
    rw [List.prod_cons, ← Nat.mul_assoc] at fits
    have small : start * l < 2 ^ 64 :=
      lt_of_le_of_lt (Nat.le_mul_of_pos_right _ (List.prod_pos others)) fits
    rw [List.foldl_cons, exact_ start l small, ih others fits, List.prod_cons, Nat.mul_assoc]

/-- The product of the lengths is not cut off where it fits. -/
theorem product_eq {lengths : List Nat} (positive : ∀ l ∈ lengths, 0 < l)
    (fits : lengths.prod < 2 ^ 64) : product lengths = lengths.prod := by
  rw [product, foldl_mul_of_fits (fun _ _ small => Nat.mod_eq_of_lt small) positive (by simpa),
    Nat.one_mul]

/-- Where no length is zero, all are positive. -/
theorem positive_of_any_eq_false {lengths : List Nat} (none : lengths.any (· == 0) = false) :
    ∀ l ∈ lengths, 0 < l := by
  intro l listed
  have nonzero := List.any_eq_false.mp none l listed
  exact Nat.pos_of_ne_zero (by simpa using nonzero)

/-- The product lists every coordinate in bounds. -/
theorem mem_cartesian_iff {lengths : List Nat} (fits : lengths.prod < 2 ^ 64) (coord : List Nat) :
    coord ∈ cartesian lengths ↔ MixedRadix.Fits lengths coord := by
  rw [cartesian]
  cases lengths with
  | nil =>
    rw [if_pos List.isEmpty_nil, List.mem_singleton, MixedRadix.Fits, List.forall₂_nil_right_iff]
  | cons l rest =>
    rw [if_neg (by simp)]
    cases zero : (l :: rest).any (· == 0) with
    | true =>
      -- Nothing ranges over no values.
      have among : 0 ∈ l :: rest := by
        obtain ⟨none, listed, same⟩ := List.any_eq_true.mp zero
        rwa [beq_iff_eq.mp same] at listed
      rw [if_pos rfl]
      exact iff_of_false List.not_mem_nil (MixedRadix.not_fits_of_zero among)
    | false =>
      have positive := positive_of_any_eq_false zero
      rw [if_neg (by simp), product_eq positive fits, MixedRadix.mem_map_digits_iff positive]

/-- The product lists no coordinate twice. -/
theorem nodup_cartesian {lengths : List Nat} (fits : lengths.prod < 2 ^ 64) :
    (cartesian lengths).Nodup := by
  -- The tuples are the digits of the numbers below their count.
  rw [cartesian]
  split
  · exact List.nodup_singleton _
  · split
    · exact .nil
    · rename_i zero
      rw [product_eq (positive_of_any_eq_false (eq_false_of_ne_true zero)) fits]
      exact MixedRadix.nodup_map_digits lengths

/-- The size counted without the product is that of the product. -/
theorem length_cartesian {lengths : List Nat} (fits : lengths.prod < 2 ^ 64) :
    (cartesian lengths).length = SelectStrategy.cartesian.selectionSizeFor lengths := by
  -- The count saturates, which it never comes to where the product fits.
  rw [cartesian, SelectStrategy.selectionSizeFor]
  split
  · rfl
  · split
    · rfl
    · rename_i zero
      have positive := positive_of_any_eq_false (eq_false_of_ne_true zero)
      have saturating : ∀ product l, product * l < 2 ^ 64 →
          min (product * l) usizeMax = product * l := fun product l small =>
        Nat.min_eq_left (by rw [usizeMax]; omega)
      rw [List.length_map, List.length_range, product_eq positive fits,
        foldl_mul_of_fits saturating positive (by simpa), Nat.one_mul]

/-- A path that is neither empty nor reserved. -/
def PlainPath (path : String) : Prop := path ≠ "" ∧ MatrixTarget.fromPath path = none

/-- Inserting at parts is putting at that place. -/
theorem insertAtParts_eq_putAt (cur : Json) {parts : List String} (val : Json)
    (nonempty : parts ≠ []) : insertAtParts cur parts val = putAt val parts cur := by
  -- The cases are those of the insertion; only without parts do the two differ.
  fun_induction insertAtParts cur parts val with
  | case1 => exact absurd rfl nonempty
  | case2 cur part => rfl
  | case3 cur part rest more ih => rw [ih more, putAt, lookup_fieldsOf]

/-- Putting a value below the root asks the root for its fields only. -/
theorem putAt_object_fieldsOf (val : Json) {parts : List String} (root : Json)
    (nonempty : parts ≠ []) : putAt val parts (.object root.fieldsOf) = putAt val parts root := by
  -- The first part is looked up among the fields.
  cases parts with
  | nil => exact absurd rfl nonempty
  | cons part rest =>
    rw [putAt, putAt, ← lookup_fieldsOf root]
    rfl

/-- Overlaying at a plain path puts the value at its place. -/
theorem overlayAtPath_eq_putAt (root : Json) {path : String} (val : Json) (plain : PlainPath path) :
    overlayAtPath root path val = putAt val (segments path) root := by
  -- A path that is named has a part at least.
  have named : path.isEmpty = false := by simpa [String.isEmpty_iff] using plain.1
  unfold overlayAtPath
  rw [named, if_neg (by simp), insertAtParts_eq_putAt _ _ (segments_ne_nil path),
    putAt_object_fieldsOf _ _ (segments_ne_nil path)]

/-- The overlays of the axes are puts at the places of their paths. -/
theorem valuesOverlay_overlayAxes (spec : EphemeralSpec) {picked : List (MatrixAxis × Nat)}
    (plain : ∀ entry ∈ picked, PlainPath entry.1.path) :
    (EnvMatrixSpec.overlayAxes spec picked).aplicacao.valuesOverlay =
      putAll (picked.map fun entry =>
        (segments entry.1.path, EnvMatrixSpec.selected entry.1 entry.2))
        spec.aplicacao.valuesOverlay := by
  -- By induction on the axes that are left.
  induction picked generalizing spec with
  | nil => rfl
  | cons entry rest ih =>
    have own := plain entry (.head _)
    rw [EnvMatrixSpec.overlayAxes, ih _ fun other listed => plain other (.tail _ listed), applyAxis,
      own.2]
    simp only [overlayAtPath_eq_putAt _ _ own]
    rfl

/-- An index in bounds selects a value of its axis. -/
theorem selected_of_lt {axis : MatrixAxis} {valIdx : Nat} (inBounds : valIdx < axis.vals.length) :
    axis.vals[valIdx]? = some (EnvMatrixSpec.selected axis valIdx) := by
  rw [EnvMatrixSpec.selected, List.getElem?_eq_getElem inBounds, Option.getD_some]

/-- A coordinate in bounds has an index below the number of values for each axis. -/
theorem EnvMatrixSpec.InBounds.getElem? {m : EnvMatrixSpec} {coord : List Nat}
    (inBounds : m.InBounds coord) {i : Nat} {axis : MatrixAxis} (at_ : m.axes[i]? = some axis) :
    ∃ valIdx, coord[i]? = some valIdx ∧ valIdx < axis.vals.length := by
  have lengthAt : m.lengths[i]? = some axis.vals.length := by
    rw [EnvMatrixSpec.lengths, List.getElem?_map, at_, Option.map_some]
  -- The coordinate has as many indices as there are axes.
  obtain ⟨small, lengthIs⟩ := List.getElem?_eq_some_iff.mp lengthAt
  have long : i < coord.length := by
    rw [List.Forall₂.length_eq inBounds]
    exact small
  refine ⟨coord[i], List.getElem?_eq_getElem long, ?_⟩
  have below := List.Forall₂.get inBounds long small
  rw [← lengthIs]
  exact below

/-- The coordinates are the coordinates in bounds: each once under the cartesian selection, and
those of the list under the explicit one. -/
theorem coordinates_inBounds (m : EnvMatrixSpec) (fits : m.lengths.prod < 2 ^ 64)
    {coord : List Nat} (listed : coord ∈ m.coordinates) : m.InBounds coord := by
  -- By the strategy of the matrix.
  rw [EnvMatrixSpec.coordinates] at listed
  cases select : m.select with
  | cartesian =>
    rw [select] at listed
    exact (mem_cartesian_iff fits coord).mp listed
  | explicit coords =>
    rw [select] at listed
    exact coordInBoundsAgainst_iff.mp (List.mem_filter.mp listed).2

variable [JsonText]

/-- The overlay of a variant is that of the base with the selected values put at their paths. -/
theorem valuesOverlay_materialize (m : EnvMatrixSpec) (matrixName : String) (coord : List Nat)
    (plain : ∀ axis ∈ m.axes, PlainPath axis.path) :
    (m.materialize matrixName coord).spec.aplicacao.valuesOverlay =
      putAll ((m.axes.zip coord).map fun entry =>
        (segments entry.1.path, EnvMatrixSpec.selected entry.1 entry.2))
        m.base.aplicacao.valuesOverlay :=
  valuesOverlay_overlayAxes m.base fun entry listed =>
    plain entry.1 (List.of_mem_zip listed).1

/-- A matrix over apart plain paths expands to exactly the capped product of its axes, and each
variant overlays its own values and nothing else. -/
theorem expand_exact (m : EnvMatrixSpec) (matrixName : String)
    (fits : m.lengths.prod < 2 ^ 64) (plain : ∀ axis ∈ m.axes, PlainPath axis.path)
    (apart : m.axes.Pairwise fun a b => Apart (segments a.path) (segments b.path)) :
    (m.select = .cartesian →
      m.coordinates.Nodup ∧ ∀ coord, coord ∈ m.coordinates ↔ m.InBounds coord) ∧
    (∀ coords, m.select = .explicit coords →
      m.coordinates = coords.filter fun coord => decide (m.InBounds coord)) ∧
    m.coordinates.length = m.selectionSize ∧
    m.expand matrixName = (if m.budget.maxEnvs = 0 then m.coordinates
      else m.coordinates.take m.budget.maxEnvs.toNat).map (m.materialize matrixName) ∧
    ∀ coord ∈ m.coordinates,
      let overlay := (m.materialize matrixName coord).spec.aplicacao.valuesOverlay
      (∀ (i : Nat) (axis : MatrixAxis), m.axes[i]? = some axis → ∃ valIdx v, coord[i]? = some valIdx ∧
        axis.vals[valIdx]? = some v ∧ valueAt (segments axis.path) overlay = some v) ∧
      ∀ place, (∀ axis ∈ m.axes, Apart (segments axis.path) place) →
        valueAt place overlay = valueAt place m.base.aplicacao.valuesOverlay := by
  refine ⟨fun select => ?_, fun coords select => ?_, ?_, rfl, fun coord listed => ⟨?_, ?_⟩⟩
  · rw [EnvMatrixSpec.coordinates, select]
    exact ⟨nodup_cartesian fits, mem_cartesian_iff fits⟩
  · rw [EnvMatrixSpec.coordinates, select]
    refine List.filter_congr fun coord _ => ?_
    rw [Bool.eq_iff_iff, decide_eq_true_iff]
    exact coordInBoundsAgainst_iff
  · rw [EnvMatrixSpec.coordinates, EnvMatrixSpec.selectionSize]
    cases m.select with
    | cartesian => exact length_cartesian fits
    | explicit coords => rfl
  · intro i axis at_
    obtain ⟨valIdx, index, below⟩ := (coordinates_inBounds m fits listed).getElem? at_
    refine ⟨valIdx, _, index, selected_of_lt below, ?_⟩
    rw [valuesOverlay_materialize m matrixName coord plain]
    -- The axis with its index is one of the writes, and the writes are apart.
    have picked : (axis, valIdx) ∈ m.axes.zip coord :=
      List.mem_of_getElem? (List.getElem?_zip_eq_some.mpr ⟨at_, index⟩)
    have places : ((m.axes.zip coord).map fun entry =>
        (segments entry.1.path, EnvMatrixSpec.selected entry.1 entry.2)).Pairwise
          fun write other => Apart write.1 other.1 := by
      have fronts : ((m.axes.zip coord).map Prod.fst).Pairwise
          fun a b => Apart (segments a.path) (segments b.path) := by
        have lengths := List.Forall₂.length_eq (coordinates_inBounds m fits listed)
        rw [EnvMatrixSpec.lengths, List.length_map] at lengths
        rw [List.map_fst_zip lengths.ge]
        exact apart
      rw [List.pairwise_map] at fronts ⊢
      exact fronts
    exact valueAt_putAll_of_mem _ places (List.mem_map_of_mem picked)
  · intro place away
    rw [valuesOverlay_materialize m matrixName coord plain]
    refine valueAt_putAll_apart _ fun write among => ?_
    obtain ⟨entry, picked, rfl⟩ := List.mem_map.mp among
    exact away entry.1 (List.of_mem_zip picked).1

omit [JsonText] in
/-- A sweep over two axes expands as the product. -/
theorem expand_exact_two :
    let replicas : MatrixAxis := ⟨"replicas", "replicaCount",
      .array [.number (.posInt 1), .number (.posInt 3)]⟩
    let flag : MatrixAxis := ⟨"flag", "feature.flag", .array [.string "on", .string "off"]⟩
    let chart : AplicacaoIntent := ⟨"chart", "0.1.0", "minimal", .object [], none⟩
    let m : EnvMatrixSpec := ⟨⟨chart, 1⟩, [replicas, flag], .cartesian, ⟨0, none⟩⟩
    letI := scalarText
    m.coordinates.length = m.selectionSize ∧
    ∀ coord ∈ m.coordinates, ∀ place,
      (∀ axis ∈ m.axes, Apart (segments axis.path) place) →
        valueAt place (m.materialize "sweep" coord).spec.aplicacao.valuesOverlay =
          valueAt place m.base.aplicacao.valuesOverlay := by
  intro replicas flag chart m
  let _ := scalarText
  -- The two paths are apart, and neither is empty.
  have plain : ∀ axis ∈ m.axes, PlainPath axis.path := by
    intro axis listed
    rcases List.mem_cons.mp listed with rfl | listed
    · exact ⟨by simp [replicas], rfl⟩
    · rw [List.mem_singleton.mp listed]
      exact ⟨by simp [flag], rfl⟩
  have apart : m.axes.Pairwise fun a b => Apart (segments a.path) (segments b.path) := by
    simp only [m, List.pairwise_cons, List.mem_singleton, forall_eq, List.not_mem_nil,
      false_imp_iff, implies_true, List.Pairwise.nil, and_true]
    exact ⟨by decide, by decide⟩
  obtain ⟨-, -, size, -, each⟩ := expand_exact m "sweep" (by decide) plain apart
  exact ⟨size, fun coord listed => (each coord listed).2⟩

end Tatara.Matrix
