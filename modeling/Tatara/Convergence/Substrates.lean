import Tatara.Convergence.TopologicalOrder

/-! Substrates, each with a graph of its own, and the one graph that they are composed into. -/

namespace Tatara.Convergence

open Tatara.Digraph

/-- `SubstrateType`, in the order of the derived `Ord`. -/
inductive SubstrateType where
  | financial
  | compute
  | network
  | storage
  | security
  | identity
  | observability
  | regulatory
  deriving DecidableEq, Repr

namespace SubstrateType

/-- The place of a substrate in the order. -/
def place : SubstrateType → Nat
  | financial => 0
  | compute => 1
  | network => 2
  | storage => 3
  | security => 4
  | identity => 5
  | observability => 6
  | regulatory => 7

/-- No two substrates are at one place. -/
theorem place_injective : Function.Injective place := by
  intro a b same
  cases a <;> cases b <;> first | rfl | cases same

instance ord : Ord SubstrateType := ⟨fun a b => compare a.place b.place⟩

instance transOrd : Std.TransOrd SubstrateType :=
  inferInstanceAs <| Std.TransCmp <| compareOn place

instance lawfulEqOrd : Std.LawfulEqOrd SubstrateType where
  eq_of_compare same := place_injective (Std.LawfulEqOrd.eq_of_compare same)

end SubstrateType

/-- `SubstrateDAG`. -/
structure SubstrateDag where
  substrate : SubstrateType
  points : Std.ExtTreeMap PointId ConvergencePoint
  internalEdges : List TypedEdge
  crossEdges : List TypedEdge

/-- `SubstrateManager`. -/
structure SubstrateManager where
  substrates : Std.ExtTreeMap SubstrateType SubstrateDag

namespace ConvergenceGraph

/-- `new`. -/
def new : ConvergenceGraph := ⟨∅, []⟩

/-- `add_point`. -/
def addPoint (graph : ConvergenceGraph) (id : PointId) (point : ConvergencePoint) :
    ConvergenceGraph :=
  { graph with points := graph.points.insert id point }

/-- `add_edge`. -/
def addEdge (graph : ConvergenceGraph) (edge : TypedEdge) : ConvergenceGraph :=
  { graph with edges := graph.edges ++ [edge] }

end ConvergenceGraph

namespace SubstrateDag

/-- The graph of a substrate on its own. -/
def own (dag : SubstrateDag) : ConvergenceGraph := ⟨dag.points, dag.internalEdges⟩

/-- The points and the edges of a substrate are added to a graph. -/
def addTo (dag : SubstrateDag) (graph : ConvergenceGraph) : ConvergenceGraph :=
  let graph := dag.points.toList.foldl (fun graph entry => graph.addPoint entry.1 entry.2) graph
  let graph := dag.internalEdges.foldl ConvergenceGraph.addEdge graph
  dag.crossEdges.foldl ConvergenceGraph.addEdge graph

end SubstrateDag

namespace SubstrateManager

/-- `new`. -/
def new : SubstrateManager := ⟨∅⟩

/-- `add_substrate`. -/
def addSubstrate (manager : SubstrateManager) (dag : SubstrateDag) : SubstrateManager :=
  ⟨manager.substrates.insert dag.substrate dag⟩

/-- A manager with these substrates added, one after the other. -/
def withSubstrates (dags : List SubstrateDag) : SubstrateManager := dags.foldl addSubstrate new

/-- `compose_graph`. -/
def composeGraph (manager : SubstrateManager) : ConvergenceGraph :=
  manager.substrates.toList.foldl (fun graph entry => entry.2.addTo graph) .new

/-- `cross_substrate_edges`. -/
def crossSubstrateEdges (manager : SubstrateManager) :
    List (SubstrateType × SubstrateType × TypedEdge) :=
  manager.substrates.toList.flatMap fun (substrateType, dag) =>
    dag.crossEdges.flatMap fun edge =>
      manager.substrates.toList.filterMap fun (otherType, otherDag) =>
        if otherType ≠ substrateType ∧ edge.to ∈ otherDag.points then
          some (substrateType, otherType, edge)
        else none

end SubstrateManager

namespace SubstrateManager

variable (manager : SubstrateManager)

/-- The graph of a substrate among those of a manager. -/
def Manages (s : SubstrateType) (dag : SubstrateDag) : Prop := manager.substrates[s]? = some dag

/-- An edge crosses from one substrate to another one. -/
def Crosses (s t : SubstrateType) : Prop := ∃ edge, (s, t, edge) ∈ manager.crossSubstrateEdges

/-- The substrates are apart: no point is in two of them, the internal edges of each stay inside,
and its other edges start inside and lead out of it. -/
structure Apart : Prop where
  disjoint : ∀ s t dag other, manager.Manages s dag → manager.Manages t other →
    ∀ id, id ∈ dag.points → id ∈ other.points → s = t
  internal : ∀ s dag, manager.Manages s dag →
    ∀ edge ∈ dag.internalEdges, edge.from ∈ dag.points ∧ edge.to ∈ dag.points
  cross : ∀ s dag, manager.Manages s dag →
    ∀ edge ∈ dag.crossEdges, edge.from ∈ dag.points ∧ edge.to ∉ dag.points

end SubstrateManager

section

variable {dag : SubstrateDag} {graph : ConvergenceGraph} {id : PointId} {edge : TypedEdge}

/-- Edges that are added one after the other are added behind those that are there. -/
theorem foldl_addEdge (edges : List TypedEdge) (graph : ConvergenceGraph) :
    edges.foldl ConvergenceGraph.addEdge graph = { graph with edges := graph.edges ++ edges } := by
  induction edges generalizing graph with
  | nil => simp
  | cons edge edges ih => simp [ih, ConvergenceGraph.addEdge]

/-- What each item of a list may bring about is there at the end if one of them brings it about. -/
theorem foldl_iff {σ ι : Type} {Q : σ → Prop} {R : ι → Prop} {add : σ → ι → σ}
    (one : ∀ s i, Q (add s i) ↔ Q s ∨ R i) (items : List ι) (s : σ) :
    Q (items.foldl add s) ↔ Q s ∨ ∃ i ∈ items, R i := by
  induction items generalizing s with
  | nil => simp
  | cons i items ih => simp [ih, one, or_assoc]

/-- To add points leaves the edges. -/
theorem edges_foldl_addPoint (entries : List (PointId × ConvergencePoint)) :
    (entries.foldl (fun graph entry => graph.addPoint entry.1 entry.2) graph).edges =
      graph.edges := by
  induction entries generalizing graph with
  | nil => rfl
  | cons entry entries ih => exact ih

theorem exists_entry_iff : (∃ entry ∈ dag.points.toList, entry.1 = id) ↔ id ∈ dag.points := by
  rw [← Std.ExtTreeMap.mem_keys, ← Std.ExtTreeMap.map_fst_toList_eq_keys, List.mem_map]

/-- A substrate adds its points to a graph. -/
theorem mem_points_addTo : id ∈ (dag.addTo graph).points ↔ id ∈ graph.points ∨ id ∈ dag.points := by
  -- One point more is one point more in the graph.
  have one (graph : ConvergenceGraph) (entry : PointId × ConvergencePoint) :
      id ∈ (graph.addPoint entry.1 entry.2).points ↔ id ∈ graph.points ∨ entry.1 = id := by
    rw [ConvergenceGraph.addPoint, Std.ExtTreeMap.mem_insert, Std.LawfulEqCmp.compare_eq_iff_eq,
      or_comm]
  simp only [SubstrateDag.addTo, foldl_addEdge]
  rw [foldl_iff (Q := fun graph => id ∈ ConvergenceGraph.points graph) one, exists_entry_iff]

/-- A substrate adds its edges to a graph. -/
theorem mem_edges_addTo : edge ∈ (dag.addTo graph).edges ↔
    edge ∈ graph.edges ∨ edge ∈ dag.internalEdges ∨ edge ∈ dag.crossEdges := by
  simp only [SubstrateDag.addTo, foldl_addEdge, edges_foldl_addPoint, List.mem_append, or_assoc]

end

namespace SubstrateManager

variable {manager : SubstrateManager} {s t : SubstrateType} {dag : SubstrateDag} {id : PointId}
  {edge : TypedEdge}

theorem mem_toList : (s, dag) ∈ manager.substrates.toList ↔ manager.Manages s dag :=
  Std.ExtTreeMap.mem_toList_iff_getElem?_eq_some

/-- The composed graph has the points of all substrates. -/
theorem mem_points_composeGraph : id ∈ manager.composeGraph.points ↔
    ∃ s dag, manager.Manages s dag ∧ id ∈ dag.points := by
  -- Each substrate adds its points.
  have one (graph : ConvergenceGraph) (entry : SubstrateType × SubstrateDag) :
      id ∈ (entry.2.addTo graph).points ↔ id ∈ graph.points ∨ id ∈ entry.2.points :=
    mem_points_addTo
  rw [composeGraph, foldl_iff (Q := fun graph => id ∈ ConvergenceGraph.points graph) one]
  simp only [ConvergenceGraph.new, Std.ExtTreeMap.not_mem_empty, false_or, Prod.exists, mem_toList]

/-- The composed graph has the edges of all substrates. -/
theorem mem_edges_composeGraph : edge ∈ manager.composeGraph.edges ↔
    ∃ s dag, manager.Manages s dag ∧ (edge ∈ dag.internalEdges ∨ edge ∈ dag.crossEdges) := by
  -- Each substrate adds its edges of both kinds.
  have one (graph : ConvergenceGraph) (entry : SubstrateType × SubstrateDag) :
      edge ∈ (entry.2.addTo graph).edges ↔
        edge ∈ graph.edges ∨ edge ∈ entry.2.internalEdges ∨ edge ∈ entry.2.crossEdges :=
    mem_edges_addTo
  rw [composeGraph, foldl_iff (Q := fun graph => edge ∈ ConvergenceGraph.edges graph) one]
  simp only [ConvergenceGraph.new, List.not_mem_nil, false_or, Prod.exists, mem_toList]

/-- An edge crosses where it leads from the one substrate to a point of the other. -/
theorem mem_crossSubstrateEdges : (s, t, edge) ∈ manager.crossSubstrateEdges ↔
    ∃ dag other, manager.Manages s dag ∧ manager.Manages t other ∧ edge ∈ dag.crossEdges ∧
      t ≠ s ∧ edge.to ∈ other.points := by
  simp only [crossSubstrateEdges, List.mem_flatMap, List.mem_filterMap, Prod.exists, mem_toList]
  constructor
  · rintro ⟨s', dag, managed, edge', crosses, t', other, also, found⟩
    -- The filter keeps just the edges whose target is there.
    split at found
    next leads =>
      cases found
      exact ⟨dag, other, managed, also, crosses, leads⟩
    next => cases found
  · rintro ⟨dag, other, managed, also, crosses, leads⟩
    exact ⟨s, dag, managed, edge, crosses, t, other, also, if_pos leads⟩

/-- The points of a substrate keep their order in an order of the whole, and it is one for the graph
of the substrate. -/
theorem isTopologicalOrder_own {order : List PointId} (managed : manager.Manages s dag)
    (internal : ∀ edge ∈ dag.internalEdges, edge.from ∈ dag.points ∧ edge.to ∈ dag.points)
    (ordered : manager.composeGraph.IsTopologicalOrder order) :
    dag.own.IsTopologicalOrder (order.filter fun id => id ∈ dag.points) := by
  have steps : ∀ a b, dag.own.Edge a b →
      manager.composeGraph.Edge a b ∧ decide (a ∈ dag.points) = true := by
    rintro a b ⟨edge, listed, rfl, rfl⟩
    exact ⟨⟨edge, mem_edges_composeGraph.mpr ⟨s, dag, managed, .inl listed⟩, rfl, rfl⟩,
      decide_eq_true (internal edge listed).1⟩
  -- No edge of the substrate has a source that is left out.
  have topological := ordered.topological.filter steps
  have nodup : (order.filter fun id => id ∈ dag.points).Nodup := ordered.nodup.filter _
  have perm : (order.filter fun id => id ∈ dag.points).Perm dag.own.points.keys := by
    refine (List.perm_ext_iff_of_nodup nodup Std.ExtTreeMap.nodup_keys).mpr fun id => ?_
    rw [List.mem_filter, ordered.perm.mem_iff, Std.ExtTreeMap.mem_keys, Std.ExtTreeMap.mem_keys,
      decide_eq_true_eq]
    exact and_iff_right_of_imp fun inside => mem_points_composeGraph.mpr ⟨s, dag, managed, inside⟩
  refine ⟨nodup, perm, fun edge listed => ?_⟩
  have target := perm.mem_iff.mpr (Std.ExtTreeMap.mem_keys.mpr (internal edge listed).2)
  exact topological.idxOf_lt nodup target ⟨edge, listed, rfl, rfl⟩

/-- A substrate whose internal edges stay inside has a valid graph if the whole has one. -/
theorem validate_own (iteration : IterationOrder) (managed : manager.Manages s dag)
    (internal : ∀ edge ∈ dag.internalEdges, edge.from ∈ dag.points ∧ edge.to ∈ dag.points)
    (valid : manager.composeGraph.validate iteration = .ok ()) :
    dag.own.validate iteration = .ok () := by
  obtain ⟨order, -, ordered⟩ := (ConvergenceGraph.validate_exact iteration iteration _).2 valid
  exact (isTopologicalOrder_own managed internal ordered).accepted internal iteration

/-- A substrate without internal edges has a valid graph. -/
theorem validate_own_nil (iteration : IterationOrder) (none_ : dag.internalEdges = []) :
    dag.own.validate iteration = .ok () := by
  -- Without edges there are neither missing endpoints nor circles.
  have unlisted (edge : TypedEdge) : edge ∉ dag.own.edges := by
    rw [SubstrateDag.own, none_]
    exact List.not_mem_nil
  refine (ConvergenceGraph.validate_eq_ok_iff iteration _).mpr
    ⟨fun edge listed => (unlisted edge listed).elim, fun a circle => ?_⟩
  obtain ⟨_, ⟨edge, listed, -⟩, -⟩ := Relation.TransGen.head'_iff.mp circle
  exact unlisted edge listed

section

variable (apart : manager.Apart)
include apart

/-- The endpoints of all edges exist, if those do that edges cross to. -/
theorem endpointsExist_composeGraph (targets : ∀ s dag, manager.Manages s dag →
    ∀ edge ∈ dag.crossEdges, ∃ t other, manager.Manages t other ∧ edge.to ∈ other.points) :
    manager.composeGraph.EndpointsExist := by
  intro edge listed
  -- An internal edge stays at home, and the target of another one is promised.
  obtain ⟨s, dag, managed, internal | crosses⟩ := mem_edges_composeGraph.mp listed
  · obtain ⟨source, target⟩ := apart.internal s dag managed edge internal
    exact ⟨mem_points_composeGraph.mpr ⟨s, dag, managed, source⟩,
      mem_points_composeGraph.mpr ⟨s, dag, managed, target⟩⟩
  · have source := (apart.cross s dag managed edge crosses).1
    exact ⟨mem_points_composeGraph.mpr ⟨s, dag, managed, source⟩,
      mem_points_composeGraph.mpr (targets s dag managed edge crosses)⟩

/-- Every point has a substrate, and only one. -/
theorem exists_home : ∃ home : PointId → SubstrateType, ∀ s dag id, manager.Manages s dag →
    id ∈ dag.points → home id = s := by
  -- The home of a point is chosen among the substrates that have it.
  classical
  refine ⟨fun id => if found : ∃ s dag, manager.Manages s dag ∧ id ∈ dag.points
    then found.choose else .financial, fun s dag id managed inside => ?_⟩
  have found : ∃ s dag, manager.Manages s dag ∧ id ∈ dag.points := ⟨s, dag, managed, inside⟩
  obtain ⟨other, also, there⟩ := found.choose_spec
  exact (dif_pos found).trans (apart.disjoint _ _ _ _ also managed id there inside)

/-- The whole has no circle, if no substrate has one and edges do not cross in a circle. -/
theorem acyclic_composeGraph (between : Acyclic manager.Crosses)
    (own : ∀ s dag, manager.Manages s dag → Acyclic dag.own.Edge)
    (targets : ∀ s dag, manager.Manages s dag →
      ∀ edge ∈ dag.crossEdges, ∃ t other, manager.Manages t other ∧ edge.to ∈ other.points) :
    Acyclic manager.composeGraph.Edge := by
  obtain ⟨home, homes⟩ := exists_home apart
  -- The groups of points are the substrates.
  let inner (s : SubstrateType) (a b : PointId) : Prop :=
    ∃ dag, manager.Manages s dag ∧ dag.own.Edge a b
  have inside (s : SubstrateType) : Acyclic (inner s) := by
    intro a circle
    obtain ⟨_, ⟨dag, managed, -⟩, -⟩ := Relation.TransGen.head'_iff.mp circle
    have only : inner s ≤ dag.own.Edge := by
      rintro b c ⟨other, also, step⟩
      cases Option.some.inj (managed.symm.trans also)
      exact step
    exact own s dag managed a (Relation.TransGen.mono only a a circle)
  refine acyclic_of_groups home (fun a b step => ?_) inside between
  obtain ⟨edge, listed, rfl, rfl⟩ := step
  obtain ⟨s, dag, managed, internal | crosses⟩ := mem_edges_composeGraph.mp listed
  · -- An internal edge stays in its substrate.
    obtain ⟨source, target⟩ := apart.internal s dag managed edge internal
    rw [homes s dag _ managed source, homes s dag _ managed target]
    exact .inl ⟨rfl, dag, managed, edge, internal, rfl, rfl⟩
  · -- The target is in a substrate, and not in this one.
    obtain ⟨source, outside⟩ := apart.cross s dag managed edge crosses
    obtain ⟨t, other, also, target⟩ := targets s dag managed edge crosses
    rw [homes s dag _ managed source, homes t other _ also target]
    refine .inr ⟨edge, mem_crossSubstrateEdges.mpr
      ⟨dag, other, managed, also, crosses, fun same => ?_, target⟩⟩
    rw [same] at also
    cases Option.some.inj (managed.symm.trans also)
    exact outside target

/-- Substrates that are apart, and whose edges do not cross in a circle, are composed into a valid
graph exactly if each of them has a valid graph and every edge that leads out of one leads into
another one. -/
theorem validate_composeGraph_iff (iteration : IterationOrder)
    (between : Acyclic manager.Crosses) :
    manager.composeGraph.validate iteration = .ok () ↔
      (∀ s dag, manager.Manages s dag → dag.own.validate iteration = .ok ()) ∧
        ∀ s dag, manager.Manages s dag → ∀ edge ∈ dag.crossEdges,
          ∃ t other, manager.Manages t other ∧ edge.to ∈ other.points := by
  constructor
  · -- The whole has the endpoints of all edges, and no circle within any substrate.
    intro valid
    obtain ⟨endpoints, -⟩ := (ConvergenceGraph.validate_eq_ok_iff iteration _).mp valid
    refine ⟨fun s dag managed =>
        validate_own iteration managed (apart.internal s dag managed) valid,
      fun s dag managed edge crosses => ?_⟩
    have listed := mem_edges_composeGraph.mpr ⟨s, dag, managed, .inr crosses⟩
    exact mem_points_composeGraph.mp (endpoints edge listed).2
  · -- A circle of the whole would be one within a substrate, or one between substrates.
    rintro ⟨own, targets⟩
    refine (ConvergenceGraph.validate_eq_ok_iff iteration _).mpr
      ⟨endpointsExist_composeGraph apart targets, acyclic_composeGraph apart between ?_ targets⟩
    exact fun s dag managed =>
      ((ConvergenceGraph.validate_eq_ok_iff iteration dag.own).mp (own s dag managed)).2

end

/-- A point without checks. -/
def plainPoint (name : String) : ConvergencePoint := ⟨name, "", ⟨.unknown⟩, ⟨[], [], none⟩⟩

/-- A compute substrate with an edge into the network substrate. -/
def attached : SubstrateManager := withSubstrates
  [⟨.network, .ofList [((2 : PointId), plainPoint "uplink")], [], []⟩,
    ⟨.compute, .ofList [((1 : PointId), plainPoint "worker")], [], [⟨1, 2, .data⟩]⟩]

/-- Two substrates with an edge from one to the other have a valid graph. -/
theorem validate_composeGraph_attached :
    attached.composeGraph.validate ⟨Std.ExtTreeMap.toList, fun _ => .refl _⟩ = .ok () := by
  -- The two substrates are compared by evaluation, one condition at a time.
  have disjoint : ∀ a ∈ attached.substrates.toList, ∀ b ∈ attached.substrates.toList,
      ∀ entry ∈ a.2.points.toList, entry.1 ∈ b.2.points → a.1 = b.1 := by decide +kernel
  have internal : ∀ a ∈ attached.substrates.toList, a.2.internalEdges = [] := by decide +kernel
  have cross : ∀ a ∈ attached.substrates.toList, ∀ edge ∈ a.2.crossEdges,
      (edge.from ∈ a.2.points ∧ edge.to ∉ a.2.points) ∧
        ∃ b ∈ attached.substrates.toList, edge.to ∈ b.2.points := by decide +kernel
  have rises : ∀ c ∈ attached.crossSubstrateEdges, c.1.place < c.2.1.place := by decide +kernel
  have apart : attached.Apart :=
    { disjoint := fun s t dag other managed also id here there => by
        obtain ⟨entry, listed, rfl⟩ := exists_entry_iff.mpr here
        exact disjoint (s, dag) (mem_toList.mpr managed) (t, other) (mem_toList.mpr also) entry
          listed there
      internal := fun s dag managed edge listed => by
        rw [internal (s, dag) (mem_toList.mpr managed)] at listed
        cases listed
      cross := fun s dag managed edge crosses =>
        (cross (s, dag) (mem_toList.mpr managed) edge crosses).1 }
  -- The edges lead from a substrate to one at a higher place.
  have between : Acyclic attached.Crosses :=
    acyclic_of_rank SubstrateType.place fun s t ⟨edge, crosses⟩ => rises (s, t, edge) crosses
  refine (validate_composeGraph_iff apart _ between).mpr
    ⟨fun s dag managed => ?_, fun s dag managed edge crosses => ?_⟩
  · exact validate_own_nil _ (internal (s, dag) (mem_toList.mpr managed))
  · obtain ⟨⟨t, other⟩, listed, target⟩ :=
      (cross (s, dag) (mem_toList.mpr managed) edge crosses).2
    exact ⟨t, other, mem_toList.mp listed, target⟩

end SubstrateManager

end Tatara.Convergence
