import Tatara.Lib.Agreement
import Tatara.Rust.Float

/-! How the work of a Process is classified, axis by axis, and the algebra of classifications: which
laws of a lattice it keeps, and where it leaves them. -/

namespace Tatara.Crd

open Tatara.Rust

/-- What a point of convergence does with what comes in. -/
inductive ConvergencePointType where
  | transform
  | fork
  | join
  | gate
  | select
  | broadcast
  | reduce
  | observe
  deriving DecidableEq, Repr

/-- What the work is done on. -/
inductive SubstrateType where
  | financial
  | compute
  | network
  | storage
  | security
  | identity
  | observability
  | regulatory
  deriving DecidableEq, Repr

/-- Whether the work comes to an end. -/
inductive HorizonKind where
  | bounded
  | asymptotic
  deriving DecidableEq, Repr

/-- Which way a metric is to go. -/
inductive OptimizationDirection where
  | minimize
  | maximize
  deriving DecidableEq, Repr

/-- How far the work goes; what it is measured by is left out where it comes to an end. -/
structure Horizon where
  kind : HorizonKind := .bounded
  metric : Option String := none
  direction : Option OptimizationDirection := none
  healthyRateThreshold : Option F64 := none
  deriving DecidableEq, Repr

namespace Horizon

/-- `bounded`. -/
def bounded : Horizon := {}

/-- `asymptotic`. -/
def asymptotic (metric : String) (direction : OptimizationDirection) (threshold : F64) : Horizon :=
  { kind := .asymptotic, metric := some metric, direction := some direction
    healthyRateThreshold := some threshold }

end Horizon

/-- Whether the work can go on without coordination. -/
inductive CalmClassification where
  | monotone
  | nonMonotone
  deriving DecidableEq, Repr

/-- How sensitive the data is. -/
inductive DataClassification where
  | pub
  | internal
  | confidential
  | pii
  | phi
  | pci
  deriving DecidableEq, Repr

/-- `sensitivity_rank`. -/
def DataClassification.sensitivityRank : DataClassification → Nat
  | pub => 0
  | internal => 1
  | confidential => 2
  | pii => 3
  | phi => 4
  | pci => 5

/-- A classification along all axes. -/
structure Classification where
  pointType : ConvergencePointType
  substrate : SubstrateType
  horizon : Horizon := .bounded
  calm : CalmClassification := .monotone
  dataClassification : DataClassification := .internal
  deriving DecidableEq, Repr

/-- `gate_compute`. -/
def Classification.gateCompute : Classification := { pointType := .gate, substrate := .compute }

end Tatara.Crd

namespace Tatara.Lattices

open Tatara.Crd Tatara.Rust

/-- `Lattice`: an order with a meet and a join, as far as an implementation keeps the laws. -/
class Lattice (α : Type) where
  meet : α → α → α
  join : α → α → α
  leq : α → α → Bool
  bottom : α
  top : α

open Tatara.Lattices.Lattice (meet join leq)

/-- `meet_all`. -/
def meetAll {α : Type} [Lattice α] (items : List α) : α := items.foldl meet Lattice.top

/-- `total_min_by_key`, which takes the left of two with the same key. -/
def totalMinByKey {α : Type} (key : α → Nat) (a b : α) : α := if key a ≤ key b then a else b

/-- `total_max_by_key`, which takes the left of two with the same key. -/
def totalMaxByKey {α : Type} (key : α → Nat) (a b : α) : α := if key b ≤ key a then a else b

instance : Lattice DataClassification where
  meet := totalMinByKey (·.sensitivityRank)
  join := totalMaxByKey (·.sensitivityRank)
  leq a b := a.sensitivityRank ≤ b.sensitivityRank
  bottom := .pub
  top := .pci

-- Distinct substrates meet at the top and join at the bottom.
instance : Lattice SubstrateType where
  meet a b := if a = b then a else .regulatory
  join a b := if a = b then a else .financial
  leq a b := a = b || b = .regulatory
  bottom := .financial
  top := .regulatory

instance : Lattice CalmClassification where
  meet
    | .monotone, _ | _, .monotone => .monotone
    | _, _ => .nonMonotone
  join
    | .nonMonotone, _ | _, .nonMonotone => .nonMonotone
    | _, _ => .monotone
  leq
    | .monotone, _ | .nonMonotone, .nonMonotone => true
    | _, _ => false
  bottom := .monotone
  top := .nonMonotone

/-- `f64::MIN`. -/
def f64Min : F64 := ⟨0xFFEFFFFFFFFFFFFF⟩

instance : Lattice Horizon where
  meet a b :=
    match a.kind, b.kind with
    | .bounded, _ | _, .bounded => .bounded
    | _, _ => a
  join a b :=
    match a.kind, b.kind with
    | .asymptotic, _ => a
    | _, .asymptotic => b
    | _, _ => .bounded
  leq a b :=
    match a.kind, b.kind with
    | .bounded, _ | .asymptotic, .asymptotic => true
    | _, _ => false
  bottom := .bounded
  top := .asymptotic "" .minimize f64Min

-- The type of the point is left as the first of two has it.
instance : Lattice Classification where
  meet a b :=
    { pointType := a.pointType
      substrate := meet a.substrate b.substrate
      horizon := meet a.horizon b.horizon
      calm := meet a.calm b.calm
      dataClassification := meet a.dataClassification b.dataClassification }
  join a b :=
    { pointType := a.pointType
      substrate := join a.substrate b.substrate
      horizon := join a.horizon b.horizon
      calm := join a.calm b.calm
      dataClassification := join a.dataClassification b.dataClassification }
  leq a b :=
    leq a.substrate b.substrate && leq a.horizon b.horizon && leq a.calm b.calm &&
      leq a.dataClassification b.dataClassification
  bottom :=
    { pointType := .transform, substrate := Lattice.bottom, horizon := Lattice.bottom
      calm := Lattice.bottom, dataClassification := Lattice.bottom }
  top :=
    { pointType := .transform, substrate := Lattice.top, horizon := Lattice.top
      calm := Lattice.top, dataClassification := Lattice.top }

/-- `satisfies`: a cluster has to be at least as strict as what is required of it. -/
def satisfies (cluster requires : Classification) : Bool := leq cluster requires

end Tatara.Lattices
