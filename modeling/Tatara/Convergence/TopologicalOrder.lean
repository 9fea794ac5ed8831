import Tatara.Convergence.Graph
import Tatara.Lib.Kahn

/-! Kahn's algorithm finds an order of the points exactly when there is one. -/

namespace Tatara.Convergence

open Tatara.Digraph
open Tatara.Kahn (Arc Built State getElem?_foldl_count getElem?_foldl_insertIfNew getD_foldl_push)

namespace ConvergenceGraph

variable (graph : ConvergenceGraph)

/-- There is an edge from one point to the other. -/
def Edge (source target : PointId) : Prop :=
  ∃ edge ∈ graph.edges, edge.from = source ∧ edge.to = target

/-- Every endpoint of an edge is a point. -/
def EndpointsExist : Prop := ∀ edge ∈ graph.edges, edge.from ∈ graph.points ∧ edge.to ∈ graph.points

/-- The edges without their types. -/
def arcs : List (PointId × PointId) := graph.edges.map fun edge => (edge.from, edge.to)

/-- The arcs of the graph are its edges. -/
theorem arc_arcs : Arc graph.arcs = graph.Edge := by
  funext source target
  simp [Arc, arcs, Edge]

/-- The counter of a point starts at the number of edges into it. -/
theorem inDegree_getElem? (p : PointId) :
    graph.inDegree[p]? =
      if p ∈ graph.points ∨ ∃ edge ∈ graph.edges, edge.to = p
      then some (graph.edges.countP fun edge => edge.to = p) else none := by
  -- The edges are counted on top of what the map has to begin with.
  unfold inDegree
  rw [getElem?_foldl_count TypedEdge.to, getElem?_foldl_insertIfNew]
  by_cases target : ∃ edge ∈ graph.edges, edge.to = p
  · by_cases point : p ∈ graph.points <;> simp [target, point]
  · have none_ : graph.edges.countP (fun edge => edge.to = p) = 0 := by simpa using target
    by_cases point : p ∈ graph.points <;> simp [target, point, none_]

/-- The neighbors of a point are the targets of the edges out of it. -/
theorem adjacency_getD (p : PointId) :
    graph.adjacency[p]?.getD [] =
      (graph.edges.filter fun edge => edge.from = p).map TypedEdge.to := by
  -- Where the map has a list to begin with, it is empty.
  unfold adjacency
  rw [getD_foldl_push TypedEdge.from TypedEdge.to, getElem?_foldl_insertIfNew]
  by_cases point : p ∈ graph.points.keys <;> simp [point]

/-- Counters and neighbors are those of the edges. -/
theorem built : Built graph.arcs graph.inDegree graph.adjacency where
  counts p deg found := by
    -- The counters are looked up, and so are the neighbors.
    rw [inDegree_getElem?] at found
    split at found
    · rw [← Option.some.inj found, arcs, List.countP_map]
      rfl
    · cases found
  targets p := by
    rw [adjacency_getD, arcs, List.filter_map, List.map_map]
    rfl

/-- The number of edges into a point whose source has no place in the order yet. -/
def remaining (order : List PointId) (p : PointId) : Nat :=
  graph.edges.countP fun edge => edge.to = p ∧ edge.from ∉ order

/-- As many edges remain as arcs. -/
theorem remaining_eq (order : List PointId) (p : PointId) :
    Tatara.Kahn.remaining graph.arcs order p = graph.remaining order p := by
  rw [Tatara.Kahn.remaining, arcs, List.countP_map]
  rfl

end ConvergenceGraph

namespace Kahn

/-- The state of the loop, as one of the loop over any nodes. -/
def state (s : Kahn) : State PointId := ⟨s.inDegree, s.queue, s.order⟩

/-- Relaxing a neighbor is the same on the state. -/
theorem relax_state (s : Kahn) (neighbor : PointId) :
    (s.relax neighbor).state = s.state.relax neighbor := by
  -- The same entry decides on both sides.
  unfold relax State.relax state
  cases s.inDegree[neighbor]? with
  | none => rfl
  | some deg =>
    dsimp only
    split <;> rfl

/-- Visiting a point is the same on the state. -/
theorem visit_state (adjacency : Std.ExtTreeMap PointId (List PointId)) (s : Kahn) (id : PointId)
    (queue : List PointId) :
    (s.visit adjacency id queue).state = s.state.visit adjacency id queue := by
  unfold visit State.visit
  cases adjacency[id]? with
  | none => rfl
  | some neighbors =>
    -- The counters are counted down one after the other on both sides.
    have both (s : Kahn) :
        (neighbors.foldl relax s).state = neighbors.foldl State.relax s.state := by
      induction neighbors generalizing s with
      | nil => rfl
      | cons neighbor neighbors ih => rw [List.foldl_cons, ih, relax_state, List.foldl_cons]
    exact both _

/-- The loop is the same on the state. -/
theorem loop_state (adjacency : Std.ExtTreeMap PointId (List PointId)) (fuel : Nat) (s : Kahn) :
    (loop adjacency fuel s).state = s.state.loop adjacency fuel := by
  -- The queues are the same, and so is each visit.
  induction fuel generalizing s with
  | zero => rfl
  | succ fuel ih =>
    unfold loop State.loop
    cases waiting : s.queue with
    | nil => simp [state, waiting]
    | cons id queue => simp only [state, waiting]; exact (ih _).trans (by rw [visit_state]; rfl)

/-- What holds whenever the loop looks at its queue. -/
structure Sound (graph : ConvergenceGraph) (s : Kahn) : Prop where
  -- A counter says how many edges its point still waits for.
  counted : ∀ p, s.inDegree[p]? = graph.inDegree[p]?.map fun _ => graph.remaining s.order p
  nodup : (s.order ++ s.queue).Nodup
  ready : ∀ p, p ∈ s.order ++ s.queue ↔ s.inDegree[p]? = some 0
  ordered : Topological graph.Edge s.order

/-- What is sound as a state is sound. -/
theorem sound_of_state {graph : ConvergenceGraph} {s : Kahn}
    (sound : Tatara.Kahn.Sound graph.arcs graph.inDegree s.state) : Sound graph s where
  counted p := by
    have counted := sound.counted p
    simp only [graph.remaining_eq] at counted
    exact counted
  nodup := sound.nodup
  ready := sound.ready
  ordered := graph.arc_arcs ▸ sound.ordered

end Kahn

namespace ConvergenceGraph

/-- An order of all points in which the source of every edge precedes its target. -/
structure IsTopologicalOrder (graph : ConvergenceGraph) (order : List PointId) : Prop where
  nodup : order.Nodup
  perm : order.Perm graph.points.keys
  precedes : ∀ edge ∈ graph.edges, order.idxOf edge.from < order.idxOf edge.to

/-- Such an order can be cut anywhere: the sources of the next point are in front of the cut. -/
theorem IsTopologicalOrder.topological {graph : ConvergenceGraph} {order : List PointId}
    (ordered : graph.IsTopologicalOrder order) : Topological graph.Edge order := by
  -- Each edge leads from a place in front to one behind.
  refine Topological.of_idxOf_lt ordered.nodup ?_
  intro _ _ parts
  obtain ⟨edge, listed, rfl, rfl⟩ := parts
  exact ordered.precedes edge listed

/-- The loop has run to its end, with room for every point that has a counter. -/
theorem kahnEnd_state (iteration : IterationOrder) (graph : ConvergenceGraph) :
    Tatara.Kahn.Sound graph.arcs graph.inDegree (graph.kahnEnd iteration).state ∧
      (graph.kahnEnd iteration).queue = [] := by
  -- The general loop starts from the same counters and the same queue.
  have start : Tatara.Kahn.Sound graph.arcs graph.inDegree (graph.kahnStart iteration).state :=
    Tatara.Kahn.sound_start graph.built (iteration.perm graph.inDegree)
  obtain ⟨sound, ended⟩ := start.loop graph.built graph.inDegree.size (Nat.le_add_left _ _)
  have same : (graph.kahnEnd iteration).state = State.loop graph.adjacency graph.inDegree.size
      (graph.kahnStart iteration).state := Kahn.loop_state _ _ _
  rw [← same] at sound ended
  exact ⟨sound, ended⟩

/-- In the end all is sound, and the queue is empty. -/
theorem kahnEnd_sound (iteration : IterationOrder) (graph : ConvergenceGraph) :
    Kahn.Sound graph (graph.kahnEnd iteration) ∧ (graph.kahnEnd iteration).queue = [] :=
  (graph.kahnEnd_state iteration).imp_left Kahn.sound_of_state

/-- At the end the order has the points that wait for no edge. -/
theorem mem_kahnEnd_order (iteration : IterationOrder) {graph : ConvergenceGraph}
    (endpoints : graph.EndpointsExist) (p : PointId) :
    p ∈ (graph.kahnEnd iteration).order ↔
      p ∈ graph.points ∧ graph.remaining (graph.kahnEnd iteration).order p = 0 := by
  obtain ⟨sound, empty⟩ := graph.kahnEnd_sound iteration
  have ready := sound.ready p
  rw [empty, List.append_nil, sound.counted, graph.inDegree_getElem?] at ready
  -- A target is a point, so that the points are all that have counters.
  have targets : (∃ edge ∈ graph.edges, edge.to = p) → p ∈ graph.points := by
    intro parts
    obtain ⟨edge, listed, rfl⟩ := parts
    exact (endpoints edge listed).2
  rw [ready]
  by_cases point : p ∈ graph.points
  · simp [point]
  · simp [point, mt targets point]

/-- The order has every point if there is no circle. -/
theorem points_mem_kahnEnd (iteration : IterationOrder) {graph : ConvergenceGraph}
    (endpoints : graph.EndpointsExist) (acyclic : Acyclic graph.Edge) {p : PointId}
    (point : p ∈ graph.points) : p ∈ (graph.kahnEnd iteration).order := by
  obtain ⟨sound, empty⟩ := graph.kahnEnd_state iteration
  have counter {q : PointId} (isPoint : q ∈ graph.points) : q ∈ graph.inDegree := by
    rw [Std.ExtTreeMap.mem_iff_isSome_getElem?, graph.inDegree_getElem?, if_pos (.inl isPoint)]
    rfl
  -- No point is behind a circle, and the sources of the edges are points.
  refine (sound.mem_order_iff_not_behind empty (fun q r before => ?_) (counter point)).mpr ?_
  · rw [graph.arc_arcs] at before
    obtain ⟨edge, isEdge, rfl, -⟩ := before
    exact counter (endpoints edge isEdge).1
  · rw [graph.arc_arcs]
    exact acyclic.not_behindCircle p

/-- An order that is as long as there are points is one of all points. -/
theorem isTopologicalOrder_kahnEnd (iteration : IterationOrder) {graph : ConvergenceGraph}
    (endpoints : graph.EndpointsExist)
    (complete : (graph.kahnEnd iteration).order.length = graph.points.size) :
    graph.IsTopologicalOrder (graph.kahnEnd iteration).order := by
  obtain ⟨sound, empty⟩ := graph.kahnEnd_sound iteration
  have nodup := sound.nodup
  rw [empty, List.append_nil] at nodup
  -- Its points are distinct, and there are as many as there are keys.
  have listed : (graph.kahnEnd iteration).order ⊆ graph.points.keys := fun p inOrder =>
    Std.ExtTreeMap.mem_keys.mpr ((mem_kahnEnd_order iteration endpoints p).mp inOrder).1
  have perm : (graph.kahnEnd iteration).order.Perm graph.points.keys := by
    refine (nodup.subperm listed).perm_of_length_le ?_
    rw [complete, Std.ExtTreeMap.length_keys]
  refine ⟨nodup, perm, fun edge isEdge => ?_⟩
  have target := perm.mem_iff.mpr (Std.ExtTreeMap.mem_keys.mpr (endpoints edge isEdge).2)
  exact sound.ordered.idxOf_lt nodup target ⟨edge, isEdge, rfl, rfl⟩

/-- A graph whose points have an order has no circle. -/
theorem IsTopologicalOrder.acyclic {graph : ConvergenceGraph} {order : List PointId}
    (endpoints : graph.EndpointsExist) (ordered : graph.IsTopologicalOrder order) :
    Acyclic graph.Edge := by
  -- The target of every edge has its place.
  refine ordered.topological.acyclic ordered.nodup ?_
  intro _ _ parts
  obtain ⟨edge, isEdge, rfl, rfl⟩ := parts
  exact ordered.perm.mem_iff.mpr (Std.ExtTreeMap.mem_keys.mpr (endpoints edge isEdge).2)

/-- If every endpoint exists, Kahn's order is complete exactly if there is no circle. -/
theorem kahnEnd_length_iff (iteration : IterationOrder) {graph : ConvergenceGraph}
    (endpoints : graph.EndpointsExist) :
    (graph.kahnEnd iteration).order.length = graph.points.size ↔ Acyclic graph.Edge := by
  constructor
  · intro complete
    exact (isTopologicalOrder_kahnEnd iteration endpoints complete).acyclic endpoints
  · -- The order has all points, and nothing else.
    intro acyclic
    obtain ⟨sound, empty⟩ := graph.kahnEnd_sound iteration
    have nodup := sound.nodup
    rw [empty, List.append_nil] at nodup
    rw [← Std.ExtTreeMap.length_keys]
    refine List.Perm.length_eq ((List.perm_ext_iff_of_nodup nodup Std.ExtTreeMap.nodup_keys).mpr ?_)
    intro p
    rw [Std.ExtTreeMap.mem_keys]
    exact ⟨fun inOrder => ((mem_kahnEnd_order iteration endpoints p).mp inOrder).1,
      points_mem_kahnEnd iteration endpoints acyclic⟩

/-- The scan of the edges finds no missing endpoint exactly if all exist. -/
theorem missingEndpoint_eq_none_iff (graph : ConvergenceGraph) :
    graph.missingEndpoint graph.edges = none ↔ graph.EndpointsExist := by
  unfold EndpointsExist
  induction graph.edges with
  | nil => simp [missingEndpoint]
  | cons edge edges ih =>
    rw [missingEndpoint]
    -- The scan passes over an edge with both endpoints.
    by_cases source : edge.from ∈ graph.points
    · by_cases target : edge.to ∈ graph.points <;> simp [source, target, ih]
    · simp [source]

/-- A graph is accepted exactly if every endpoint exists and there is no circle. -/
theorem validate_eq_ok_iff (iteration : IterationOrder) (graph : ConvergenceGraph) :
    graph.validate iteration = .ok () ↔ graph.EndpointsExist ∧ Acyclic graph.Edge := by
  rw [← missingEndpoint_eq_none_iff]
  cases scanned : graph.missingEndpoint graph.edges with
  | some id => simp [validate, scanned]
  | none =>
    -- All endpoints exist, so the order decides.
    have endpoints := (missingEndpoint_eq_none_iff graph).mp scanned
    rw [← kahnEnd_length_iff iteration endpoints]
    simp only [validate, scanned, topologicalOrder]
    by_cases complete : (graph.kahnEnd iteration).order.length = graph.points.size
    · simp [complete, pure, Except.pure, bind, Except.bind]
    · simp [complete, bind, Except.bind]

/-- A graph whose endpoints exist and whose points have an order is accepted. -/
theorem IsTopologicalOrder.accepted {graph : ConvergenceGraph} {order : List PointId}
    (ordered : graph.IsTopologicalOrder order) (endpoints : graph.EndpointsExist)
    (iteration : IterationOrder) : graph.validate iteration = .ok () :=
  -- A graph with an order has no circle.
  (validate_eq_ok_iff iteration graph).mpr ⟨endpoints, ordered.acyclic endpoints⟩

/-- Validation accepts exactly the graphs without missing endpoints and without circles, and Kahn's
algorithm then gives an order of all points that every edge respects. -/
theorem validate_exact (iteration iteration' : IterationOrder) (graph : ConvergenceGraph) :
    (graph.validate iteration = .ok () ↔ graph.EndpointsExist ∧ Acyclic graph.Edge) ∧
      (graph.validate iteration = .ok () →
        ∃ order, graph.topologicalOrder iteration' = .ok order ∧
          graph.IsTopologicalOrder order) := by
  refine ⟨validate_eq_ok_iff iteration graph, fun accepted => ?_⟩
  obtain ⟨endpoints, acyclic⟩ := (validate_eq_ok_iff iteration graph).mp accepted
  -- The order does not depend on how the maps were iterated during validation.
  have complete := (kahnEnd_length_iff iteration' endpoints).mpr acyclic
  exact ⟨(graph.kahnEnd iteration').order, by simp [topologicalOrder, complete],
    isTopologicalOrder_kahnEnd iteration' endpoints complete⟩

end ConvergenceGraph

end Tatara.Convergence
