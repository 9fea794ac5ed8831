import Mathlib.Order.Basic
import Tatara.Lattices.Classification

/-! Which laws of a lattice hold of classifications, for all of them or where the substrates
allow it. -/

namespace Tatara.Lattices

open Tatara.Crd
open Tatara.Lattices.Lattice (meet join leq)

section

variable {α : Type} [Lattice α]

/-- Two values that the order cannot tell apart. -/
def Alike (a b : α) : Prop := leq a b = true ∧ leq b a = true

instance (a b : α) : Decidable (Alike a b) := inferInstanceAs (Decidable (_ ∧ _))

variable (α) in
/-- What the order and each of the two operations keep on their own. -/
structure SemilatticeLaws : Prop where
  leq_refl (a : α) : leq a a = true
  leq_trans (a b c : α) : leq a b = true → leq b c = true → leq a c = true
  meet_self (a : α) : Alike (meet a a) a
  meet_comm (a b : α) : Alike (meet a b) (meet b a)
  meet_assoc (a b c : α) : Alike (meet (meet a b) c) (meet a (meet b c))
  join_self (a : α) : Alike (join a a) a
  join_comm (a b : α) : Alike (join a b) (join b a)
  join_assoc (a b c : α) : Alike (join (join a b) c) (join a (join b c))

/-- A meet absorbs a join. -/
def MeetAbsorbs (a b : α) : Prop := Alike (meet a (join a b)) a

/-- A join absorbs a meet. -/
def JoinAbsorbs (a b : α) : Prop := Alike (join a (meet a b)) a

/-- The order is that of the meet. -/
def MeetAgrees (a b : α) : Prop := leq a b = true ↔ Alike (meet a b) a

/-- The order is that of the join. -/
def JoinAgrees (a b : α) : Prop := leq a b = true ↔ Alike (join a b) b

variable (α) in
/-- All the laws of a lattice. -/
def IsLattice : Prop :=
  SemilatticeLaws α ∧ ∀ a b : α, MeetAbsorbs a b ∧ JoinAbsorbs a b ∧ MeetAgrees a b ∧ JoinAgrees a b

end

/-- To satisfy the meet of some requirements is to satisfy each of them. -/
def SatisfiesEach (cluster : Classification) (requirements : List Classification) : Prop :=
  satisfies cluster (meetAll requirements) = true ↔
    ∀ requires ∈ requirements, satisfies cluster requires = true

/-- The order on every axis but the substrate. -/
def leqElsewhere (a b : Classification) : Bool :=
  leq a.horizon b.horizon && leq a.calm b.calm && leq a.dataClassification b.dataClassification

/-- The rank of a horizon. -/
def horizonRank (h : Horizon) : Nat := if h.kind = .bounded then 0 else 1

/-- The rank of a class of CALM. -/
def calmRank (c : CalmClassification) : Nat := if c = .monotone then 0 else 1

/-- The ranks of a classification on every axis but the substrate. -/
def grade (a : Classification) : Nat × Nat × Nat :=
  (horizonRank a.horizon, calmRank a.calm, a.dataClassification.sensitivityRank)

section

variable {α : Type}

/-- The key of the lesser one is the lesser key. -/
theorem key_totalMinByKey (key : α → Nat) (a b : α) :
    key (totalMinByKey key a b) = key a ⊓ key b := by
  unfold totalMinByKey
  split <;> omega

/-- The key of the greater one is the greater key. -/
theorem key_totalMaxByKey (key : α → Nat) (a b : α) :
    key (totalMaxByKey key a b) = key a ⊔ key b := by
  unfold totalMaxByKey
  split <;> omega

end

/-- The rank of a meet of horizons is the lesser rank. -/
theorem horizonRank_meet (a b : Horizon) :
    horizonRank (meet a b) = horizonRank a ⊓ horizonRank b := by
  obtain ⟨ka, _, _, _⟩ := a
  obtain ⟨kb, _, _, _⟩ := b
  cases ka <;> cases kb <;> rfl

/-- The rank of a join of horizons is the greater rank. -/
theorem horizonRank_join (a b : Horizon) :
    horizonRank (join a b) = horizonRank a ⊔ horizonRank b := by
  obtain ⟨ka, _, _, _⟩ := a
  obtain ⟨kb, _, _, _⟩ := b
  cases ka <;> cases kb <;> rfl

/-- Horizons are compared by their ranks. -/
theorem leq_horizon_iff (a b : Horizon) : leq a b = true ↔ horizonRank a ≤ horizonRank b := by
  obtain ⟨ka, _, _, _⟩ := a
  obtain ⟨kb, _, _, _⟩ := b
  cases ka <;> cases kb <;> simp [leq, horizonRank]

/-- The rank of a meet is the lesser rank. -/
theorem calmRank_meet (a b : CalmClassification) :
    calmRank (meet a b) = calmRank a ⊓ calmRank b := by
  cases a <;> cases b <;> rfl

/-- The rank of a join is the greater rank. -/
theorem calmRank_join (a b : CalmClassification) :
    calmRank (join a b) = calmRank a ⊔ calmRank b := by
  cases a <;> cases b <;> rfl

theorem leq_calm_iff (a b : CalmClassification) : leq a b = true ↔ calmRank a ≤ calmRank b := by
  cases a <;> cases b <;> decide

/-- On every axis but the substrate, classifications are met as their ranks are. -/
theorem grade_meet (a b : Classification) : grade (meet a b) = grade a ⊓ grade b := by
  have sensitivity := key_totalMinByKey (·.sensitivityRank) a.dataClassification
    b.dataClassification
  exact Prod.ext (horizonRank_meet _ _) (Prod.ext (calmRank_meet _ _) sensitivity)

/-- The grade of a join is the join of the grades. -/
theorem grade_join (a b : Classification) : grade (join a b) = grade a ⊔ grade b := by
  have sensitivity := key_totalMaxByKey (·.sensitivityRank) a.dataClassification
    b.dataClassification
  exact Prod.ext (horizonRank_join _ _) (Prod.ext (calmRank_join _ _) sensitivity)

/-- Elsewhere than at the substrates, the comparison is that of the grades. -/
theorem leqElsewhere_iff (a b : Classification) : leqElsewhere a b = true ↔ grade a ≤ grade b := by
  have sensitivity : leq a.dataClassification b.dataClassification = true ↔
      a.dataClassification.sensitivityRank ≤ b.dataClassification.sensitivityRank :=
    decide_eq_true_iff
  simp only [leqElsewhere, Bool.and_eq_true, leq_horizon_iff, leq_calm_iff, sensitivity, grade,
    Prod.mk_le_mk, and_assoc]

/-- The order on substrates leaves all of them apart, but for one that is above the others. -/
theorem leq_substrate_iff (x y : SubstrateType) : leq x y = true ↔ x = y ∨ y = .regulatory := by
  simp [leq]

/-- The comparison is that of the substrates and of everything else. -/
theorem leq_iff (a b : Classification) :
    leq a b = true ↔
      (a.substrate = b.substrate ∨ b.substrate = .regulatory) ∧ leqElsewhere a b = true := by
  have split : leq a b = (leq a.substrate b.substrate && leqElsewhere a b) := by
    simp only [leqElsewhere, ← Bool.and_assoc]
    rfl
  rw [split, Bool.and_eq_true, leq_substrate_iff]

/-- The order tells classifications apart by their substrate and their ranks. -/
theorem alike_iff (a b : Classification) :
    Alike a b ↔ a.substrate = b.substrate ∧ grade a = grade b := by
  rw [Alike, leq_iff, leq_iff, leqElsewhere_iff, leqElsewhere_iff]
  constructor
  · intro both
    obtain ⟨⟨above, low⟩, below, high⟩ := both
    refine ⟨?_, le_antisymm low high⟩
    -- Only the top is above a substrate other than its own.
    rcases above with same | top
    · exact same
    · rcases below with same | other
      · exact same.symm
      · rw [top, other]
  · intro same
    obtain ⟨substrate, grades⟩ := same
    exact ⟨⟨.inl substrate, grades.le⟩, .inl substrate.symm, grades.ge⟩

section

variable (a b c : Classification)

theorem substrate_meet :
    (meet a b).substrate = agreed .regulatory a.substrate b.substrate := rfl

theorem substrate_join :
    (join a b).substrate = agreed .financial a.substrate b.substrate := rfl

/-- The order is a preorder, and each operation keeps its own laws. -/
theorem semilatticeLaws : SemilatticeLaws Classification where
  leq_refl a := (leq_iff a a).mpr ⟨.inl rfl, (leqElsewhere_iff a a).mpr le_rfl⟩
  leq_trans a b c first second := by
    rw [leq_iff, leqElsewhere_iff] at first second ⊢
    obtain ⟨lower, first⟩ := first
    obtain ⟨upper, second⟩ := second
    refine ⟨?_, first.trans second⟩
    -- What is above the top can only be the top.
    rcases upper with same | top
    · exact same ▸ lower
    · exact .inr top
  meet_self a := by simp [alike_iff, substrate_meet, grade_meet]
  meet_comm a b := by
    rw [alike_iff, substrate_meet, substrate_meet, grade_meet, grade_meet]
    exact ⟨agreed_comm _ _ _, inf_comm _ _⟩
  meet_assoc a b c := by
    simp only [alike_iff, substrate_meet, grade_meet]
    exact ⟨agreed_assoc _ _ _ _, inf_assoc _ _ _⟩
  join_self a := by simp [alike_iff, substrate_join, grade_join]
  join_comm a b := by
    rw [alike_iff, substrate_join, substrate_join, grade_join, grade_join]
    exact ⟨agreed_comm _ _ _, sup_comm _ _⟩
  join_assoc a b c := by
    simp only [alike_iff, substrate_join, grade_join]
    exact ⟨agreed_assoc _ _ _ _, sup_assoc _ _ _⟩

/-- A meet absorbs a join where there is nothing to put together, or the substrate is an end. -/
theorem meetAbsorbs_iff : MeetAbsorbs a b ↔
    a.substrate = b.substrate ∨ a.substrate = .financial ∨ a.substrate = .regulatory := by
  simp only [MeetAbsorbs, alike_iff, substrate_meet, substrate_join, grade_meet, grade_join,
    inf_sup_self, and_true, agreed_agreed_eq_left_iff]

/-- A join absorbs where the substrates agree, or the first one is at an end of the order. -/
theorem joinAbsorbs_iff : JoinAbsorbs a b ↔
    a.substrate = b.substrate ∨ a.substrate = .financial ∨ a.substrate = .regulatory := by
  simp only [JoinAbsorbs, alike_iff, substrate_meet, substrate_join, grade_meet, grade_join,
    sup_inf_self, and_true, agreed_agreed_eq_left_iff]
  rw [or_comm (a := a.substrate = .regulatory)]

/-- The order goes by the meet unless the substrate on one side only is the top. -/
theorem meetAgrees_iff : MeetAgrees a b ↔
    a.substrate = b.substrate ∨ (a.substrate ≠ .regulatory ∧ b.substrate ≠ .regulatory) ∨
      leqElsewhere a b = false := by
  rw [MeetAgrees, alike_iff, leq_iff, substrate_meet, grade_meet, agreed_eq_left_iff, inf_eq_left,
    ← leqElsewhere_iff]
  by_cases same : a.substrate = b.substrate
  · simp [same]
  · -- Of two different substrates at most one is the top.
    have apart : ¬ (a.substrate = .regulatory ∧ b.substrate = .regulatory) :=
      fun both => same (both.1.trans both.2.symm)
    cases leqElsewhere a b <;> grind

/-- The order goes by the join unless the upper one of two different substrates is an end. -/
theorem joinAgrees_iff : JoinAgrees a b ↔
    a.substrate = b.substrate ∨ (b.substrate ≠ .regulatory ∧ b.substrate ≠ .financial) ∨
      leqElsewhere a b = false := by
  rw [JoinAgrees, alike_iff, leq_iff, substrate_join, grade_join, agreed_eq_right_iff,
    sup_eq_right, ← leqElsewhere_iff]
  by_cases same : a.substrate = b.substrate
  · simp [same]
  · -- No substrate is both the top and the bottom.
    have apart : ¬ (b.substrate = .regulatory ∧ b.substrate = .financial) := by
      rintro ⟨top, bottom⟩
      simp [top] at bottom
    cases leqElsewhere a b <;> grind

end

/-- The meet of a list never leaves the top of the substrates, where it starts. -/
theorem substrate_meetAll (items : List Classification) :
    (meetAll items).substrate = .regulatory := by
  -- The fold over the classifications is one over their substrates.
  have fold : (meetAll items).substrate =
      items.foldl (fun acc a => agreed .regulatory acc a.substrate) .regulatory :=
    (List.foldl_hom Classification.substrate substrate_meet).symm
  rw [fold, ← List.foldl_map, foldl_agreed]

/-- The grade of the meet of a list is the meet of the grades. -/
theorem grade_meetAll (items : List Classification) :
    grade (meetAll items) = items.foldl (fun acc a => acc ⊓ grade a) (grade Lattice.top) :=
  (List.foldl_hom grade fun acc a => (grade_meet acc a).symm).symm

/-- No classification has a rank above the top. -/
theorem grade_le_top (a : Classification) : grade a ≤ grade Lattice.top := by
  -- The top is asymptotic, not monotone, and of the most sensitive data.
  refine ⟨?_, ?_, ?_⟩
  · show horizonRank a.horizon ≤ 1
    unfold horizonRank
    split <;> omega
  · show calmRank a.calm ≤ 1
    unfold calmRank
    split <;> omega
  · show a.dataClassification.sensitivityRank ≤ 5
    cases a.dataClassification <;> decide

/-- A cluster satisfies the meet of some requirements by its ranks alone. -/
theorem satisfies_meetAll_iff (cluster : Classification) (requirements : List Classification) :
    satisfies cluster (meetAll requirements) = true ↔
      ∀ requires ∈ requirements, leqElsewhere cluster requires = true := by
  -- The meet is at the top of the substrates, so that they decide nothing.
  have placed : leq cluster (meetAll requirements) = true ↔
      leqElsewhere cluster (meetAll requirements) = true := by
    rw [leq_iff, substrate_meetAll]
    simp
  rw [satisfies, placed, leqElsewhere_iff, grade_meetAll, le_foldl_inf_iff]
  simp only [grade_le_top, true_and, leqElsewhere_iff]

/-- It satisfies each of them as well unless a substrate is in the way of one of them only. -/
theorem satisfiesEach_iff (cluster : Classification) (requirements : List Classification) :
    SatisfiesEach cluster requirements ↔
      (∀ requires ∈ requirements,
        cluster.substrate = requires.substrate ∨ requires.substrate = .regulatory) ∨
      ∃ requires ∈ requirements, leqElsewhere cluster requires = false := by
  -- One requirement at a time looks at the substrate, and their meet does not.
  have each : (∀ requires ∈ requirements, satisfies cluster requires = true) ↔
      (∀ requires ∈ requirements,
        cluster.substrate = requires.substrate ∨ requires.substrate = .regulatory) ∧
      ∀ requires ∈ requirements, leqElsewhere cluster requires = true := by
    simp only [satisfies, leq_iff, forall_and]
  rw [SatisfiesEach, satisfies_meetAll_iff, each]
  by_cases below : ∀ requires ∈ requirements, leqElsewhere cluster requires = true
  · have none : ¬ ∃ requires ∈ requirements, leqElsewhere cluster requires = false := by
      simpa using below
    rw [or_iff_left none]
    constructor
    · intro agree
      exact (agree.mp below).1
    · intro apart
      exact ⟨fun _ => ⟨apart, below⟩, fun _ => below⟩
  · have some : ∃ requires ∈ requirements, leqElsewhere cluster requires = false := by
      simpa using below
    simp [below, some]

/-- Classifications are no lattice, as their substrates meet at the top and join at the bottom:
which laws hold of which of them. -/
theorem classification_laws :
    SemilatticeLaws Classification ∧
    (∀ a b : Classification,
      (MeetAbsorbs a b ↔ a.substrate = b.substrate ∨ a.substrate = .financial ∨
        a.substrate = .regulatory) ∧
      (JoinAbsorbs a b ↔ a.substrate = b.substrate ∨ a.substrate = .financial ∨
        a.substrate = .regulatory) ∧
      (MeetAgrees a b ↔ a.substrate = b.substrate ∨
        (a.substrate ≠ .regulatory ∧ b.substrate ≠ .regulatory) ∨ leqElsewhere a b = false) ∧
      (JoinAgrees a b ↔ a.substrate = b.substrate ∨
        (b.substrate ≠ .regulatory ∧ b.substrate ≠ .financial) ∨ leqElsewhere a b = false)) ∧
    ∀ (cluster : Classification) (requirements : List Classification),
      (satisfies cluster (meetAll requirements) = true ↔
        ∀ requires ∈ requirements, leqElsewhere cluster requires = true) ∧
      (SatisfiesEach cluster requirements ↔
        (∀ requires ∈ requirements,
          cluster.substrate = requires.substrate ∨ requires.substrate = .regulatory) ∨
        ∃ requires ∈ requirements, leqElsewhere cluster requires = false) := by
  refine ⟨semilatticeLaws, fun a b => ?_, fun cluster requirements => ?_⟩
  · exact ⟨meetAbsorbs_iff a b, joinAbsorbs_iff a b, meetAgrees_iff a b, joinAgrees_iff a b⟩
  · exact ⟨satisfies_meetAll_iff cluster requirements, satisfiesEach_iff cluster requirements⟩

/-- A gate on storage. -/
def gateStorage : Classification := { Classification.gateCompute with substrate := .storage }

/-- A gate on computers does not satisfy one on storage, and yet it satisfies the meet of this one
alone. -/
theorem not_isLattice_gateCompute :
    ¬ IsLattice Classification ∧
      ¬ MeetAbsorbs Classification.gateCompute gateStorage ∧
      ¬ MeetAgrees Classification.gateCompute (Lattice.top : Classification) ∧
      ¬ SatisfiesEach Classification.gateCompute [gateStorage] := by
  -- The two join at the bottom, and this meets a substrate at the top.
  have absorbed : ¬ MeetAbsorbs Classification.gateCompute gateStorage := by
    unfold MeetAbsorbs
    decide
  refine ⟨fun laws => absorbed (laws.2 _ _).1, absorbed, ?_, ?_⟩
  · unfold MeetAgrees
    decide
  · unfold SatisfiesEach
    decide

end Tatara.Lattices
