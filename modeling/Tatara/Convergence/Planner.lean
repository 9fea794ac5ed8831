import Tatara.Convergence.TopologicalOrder
import Tatara.Lib.Digraph

/-! The planner, which looks for the longest chain of points before any of them is executed. -/

namespace Tatara.Convergence

open Tatara.Digraph Tatara.LongestPath

/-- For each point the length of the longest path to it, and the point before it on this path. -/
abbrev Distances := Std.ExtTreeMap PointId (Nat × Option PointId)

/-- The order in which the `HashMap` of distances yields its entries, which can be any. -/
structure DistanceOrder where
  iter : Distances → List (PointId × Nat × Option PointId)
  perm : ∀ entries, (iter entries).Perm entries.toList

/-- Look at one edge, while the distance of a point is carried along the edges out of it. -/
def relaxEdge (id : PointId) (currentDist : Nat) (dist : Distances) (edge : TypedEdge) :
    Distances :=
  if edge.from = id then
    let neighborDist := (dist[edge.to]?.map Prod.fst).getD 0
    if neighborDist < currentDist + 1 then dist.insert edge.to (currentDist + 1, some id) else dist
  else dist

/-- Carry the distance of a point along the edges out of it. -/
def relaxPoint (graph : ConvergenceGraph) (dist : Distances) (id : PointId) : Option Distances := do
  -- A point without an entry would be a panic.
  let entry ← dist[id]?
  return graph.edges.foldl (relaxEdge id entry.1) dist

/-- The entry with the greatest distance, the last one of several. -/
def furthest (entries : List (PointId × Nat × Option PointId)) :
    Option (PointId × Nat × Option PointId) :=
  entries.foldl (fun best entry =>
    match best with
    | none => some entry
    | some best => if best.2.1 ≤ entry.2.1 then some entry else some best) none

/-- The points before a point, from the last one on, if the loop ends within so many rounds. -/
def traceBack (dist : Distances) : Nat → PointId → Option (List PointId)
  | 0, _ => none
  | rounds + 1, current =>
    match dist[current]? with
    | some (_, some prev) => (traceBack dist rounds prev).map (prev :: ·)
    | _ => some []

/-- The longest sequential chain; nothing where the code would panic or never return. -/
def computeCriticalPath (iteration : DistanceOrder) (graph : ConvergenceGraph)
    (topoOrder : List PointId) : Option (List PointId) :=
  if topoOrder.isEmpty then some []
  else do
    let dist := topoOrder.foldl (fun dist id => dist.insert id (1, none)) ∅
    let dist ← topoOrder.foldlM (relaxPoint graph) dist
    let (last, rounds, _) ← furthest (iteration.iter dist)
    let path ← traceBack dist rounds last
    return (last :: path).reverse

/-- What is known of a graph before it is executed. -/
structure ConvergencePlan where
  graph : ConvergenceGraph
  executionOrder : List PointId
  criticalPath : List PointId

/-- Analyze a graph, with the orders in which the maps are iterated on the way. -/
def plan (validation order : IterationOrder) (distances : DistanceOrder)
    (graph : ConvergenceGraph) : Except GraphError (Option ConvergencePlan) := do
  graph.validate validation
  let executionOrder ← graph.topologicalOrder order
  return (computeCriticalPath distances graph executionOrder).map fun criticalPath =>
    { graph, executionOrder, criticalPath }

/-- Points of a graph, each of which an edge joins to the next one. -/
structure ConvergenceGraph.IsPath (graph : ConvergenceGraph) (path : List PointId) : Prop where
  points : ∀ p ∈ path, p ∈ graph.points
  edges : path.IsChain graph.Edge

/-- A path with as many points as any path of the graph has. -/
structure ConvergenceGraph.IsLongestPath (graph : ConvergenceGraph) (path : List PointId) :
    Prop where
  isPath : graph.IsPath path
  longest : ∀ other, graph.IsPath other → other.length ≤ path.length

/-- The labels that the distances are. -/
def labels (dist : Distances) (p : PointId) : Option (Nat × Option PointId) := dist[p]?

/-- An edge out of the point changes the entry of its target, if its distance is not greater. -/
theorem getElem?_relaxEdge (id : PointId) (currentDist : Nat) (dist : Distances) (edge : TypedEdge)
    (p : PointId) :
    (relaxEdge id currentDist dist edge)[p]? =
      if (edge.from = id ∧ edge.to = p) ∧ reach (labels dist) p ≤ currentDist
      then some (currentDist + 1, some id) else dist[p]? := by
  unfold relaxEdge
  by_cases source : edge.from = id
  · by_cases target : edge.to = p
    · -- Less than one more is the same as not greater.
      have lower : (dist[p]?.map Prod.fst).getD 0 < currentDist + 1 ↔
          reach (labels dist) p ≤ currentDist := Nat.lt_succ_iff
      simp only [source, target, if_true, and_self, true_and, lower]
      split <;> simp
    · simp only [source, target, if_true, and_false, false_and, if_false]
      split <;> simp [Std.ExtTreeMap.getElem?_insert, target]
  · simp [source]

/-- One pass over the edges carries a distance to the targets of the edges out of its point. -/
theorem foldl_relaxEdge (id : PointId) (currentDist : Nat) (edges : List TypedEdge)
    (dist : Distances) (p : PointId) :
    (edges.foldl (relaxEdge id currentDist) dist)[p]? =
      if (∃ edge ∈ edges, edge.from = id ∧ edge.to = p) ∧ reach (labels dist) p ≤ currentDist
      then some (currentDist + 1, some id) else dist[p]? := by
  induction edges generalizing dist with
  | nil => simp
  | cons edge edges ih =>
    have step := getElem?_relaxEdge id currentDist dist edge p
    rw [List.foldl_cons, ih]
    simp only [List.exists_mem_cons_iff]
    by_cases here : (edge.from = id ∧ edge.to = p) ∧ reach (labels dist) p ≤ currentDist
    · -- The entry is greater now, so that a second edge does not change it.
      rw [if_pos here] at step
      have high : ¬ reach (labels (relaxEdge id currentDist dist edge)) p ≤ currentDist := by
        have := congrArg (fun l => (l.map Prod.fst).getD 0) step
        simp only [Option.map_some, Option.getD_some] at this
        rw [reach, labels, this]
        omega
      rw [if_neg fun both => high both.2, if_pos ⟨.inl here.1, here.2⟩, step]
    · rw [if_neg here] at step
      have same : reach (labels (relaxEdge id currentDist dist edge)) p =
          reach (labels dist) p := congrArg (fun l => (l.map Prod.fst).getD 0) step
      rw [same, step]
      by_cases lower : reach (labels dist) p ≤ currentDist
      · have other : ¬ (edge.from = id ∧ edge.to = p) := fun both => here ⟨both, lower⟩
        simp only [other, false_or]
      · simp only [lower, and_false, if_false]

section

variable {graph : ConvergenceGraph} {dist : Distances} {order : List PointId}

/-- Relaxing a point raises the labels of the points that edges out of it lead to. -/
theorem relaxPoint_raised {id : PointId} {d : Nat} {before : Option PointId}
    (found : dist[id]? = some (d, before)) :
    ∃ dist', relaxPoint graph dist id = some dist' ∧
      Raised graph.Edge id (labels dist) (labels dist') := by
  -- The distance of the point is looked up once, before the pass over the edges.
  have here : reach (labels dist) id = d := congrArg (fun l => (l.map Prod.fst).getD 0) found
  refine ⟨graph.edges.foldl (relaxEdge id d) dist, by simp [relaxPoint, found], ?_, ?_⟩
  · intro p next lower
    rw [labels, foldl_relaxEdge, ← here, if_pos ⟨next, lower⟩]
  · intro p high
    rw [labels, foldl_relaxEdge, ← here, if_neg fun both => ?_, labels]
    exact absurd (high both.1) (Nat.not_lt_of_le both.2)

/-- Before any edge has been looked at, the points of the order have distances of one. -/
theorem getElem?_start (order : List PointId) (dist : Distances) (p : PointId) :
    (order.foldl (fun dist id => dist.insert id (1, none)) dist)[p]? =
      if p ∈ order then some (1, none) else dist[p]? := by
  -- A point that is listed twice gets the same entry again.
  induction order generalizing dist with
  | nil => simp
  | cons id order ih =>
    rw [List.foldl_cons, ih]
    by_cases same : id = p
    · simp [same]
    · simp [Std.ExtTreeMap.getElem?_insert, same, Ne.symm same]

/-- A point with a distance has an entry. -/
theorem exists_entry {p : PointId} (labelled : 1 ≤ reach (labels dist) p) :
    ∃ before, dist[p]? = some (reach (labels dist) p, before) := by
  -- Without an entry there would be no distance.
  unfold reach labels at *
  cases found : dist[p]? with
  | none => simp [found] at labelled
  | some entry => exact ⟨entry.2, rfl⟩

/-- What holds after a front of the order has been relaxed. -/
structure Relaxed (graph : ConvergenceGraph) (order front : List PointId) (dist : Distances) :
    Prop where
  settled : Settled graph.Edge front (labels dist)
  labelled : ∀ p, 1 ≤ reach (labels dist) p ↔ p ∈ order

/-- At the start every point is a path of its own. -/
theorem relaxed_start (graph : ConvergenceGraph) (order : List PointId) :
    Relaxed graph order [] (order.foldl (fun dist id => dist.insert id (1, none)) ∅) := by
  -- Every entry is a one without a point before it.
  refine ⟨settled_start fun p d before found => ?_, fun p => ?_⟩
  · rw [labels, getElem?_start] at found
    split at found
    · cases found
      exact ⟨rfl, rfl⟩
    · simp at found
  · rw [reach, labels, getElem?_start]
    by_cases listed : p ∈ order <;> simp [listed]

/-- Edges lead out of a front and the point behind it to points that come later. -/
theorem edge_forward (endpoints : graph.EndpointsExist) (ordered : graph.IsTopologicalOrder order)
    {front back : List PointId} {id p : PointId} (split : order = front ++ id :: back)
    (next : graph.Edge id p) : p ∈ order ∧ p ∉ front ++ [id] := by
  obtain ⟨edge, isEdge, rfl, rfl⟩ := next
  have later := ordered.precedes edge isEdge
  have nodup := ordered.nodup
  refine ⟨ordered.perm.mem_iff.mpr (Std.ExtTreeMap.mem_keys.mpr (endpoints edge isEdge).2), ?_⟩
  subst split
  have absent : edge.from ∉ front := fun again =>
    (List.nodup_append.mp nodup).2.2 _ again _ List.mem_cons_self rfl
  rw [List.idxOf_append_of_notMem absent, List.idxOf_cons_self] at later
  intro member
  -- The target would come before its source, or at the same place.
  rcases List.mem_append.mp member with before | same
  · have := List.idxOf_lt_length_of_mem before
    rw [List.idxOf_append_of_mem before] at later
    omega
  · rw [List.mem_singleton.mp same, List.idxOf_append_of_notMem absent, List.idxOf_cons_self]
      at later
    omega

/-- Relaxing the next point of the order. -/
theorem Relaxed.step (endpoints : graph.EndpointsExist) (ordered : graph.IsTopologicalOrder order)
    {front back : List PointId} {id : PointId} (split : order = front ++ id :: back)
    (relaxed : Relaxed graph order front dist) :
    ∃ dist', relaxPoint graph dist id = some dist' ∧ Relaxed graph order (front ++ [id]) dist' := by
  have listed : id ∈ order := by simp [split]
  have labelled := (relaxed.labelled id).mpr listed
  obtain ⟨before, found⟩ := exists_entry labelled
  obtain ⟨dist', done, raised⟩ := @relaxPoint_raised graph dist id _ before found
  have forward (p : PointId) (next : graph.Edge id p) := edge_forward endpoints ordered split next
  refine ⟨dist', done, relaxed.settled.raise raised labelled fun p next => (forward p next).2,
    fun p => ⟨fun labelled' => ?_, fun member => ?_⟩⟩
  · -- A label that is new is that of a target, which is in the order.
    rcases raised.reach_eq p with same | ⟨next, -, -⟩
    · exact (relaxed.labelled p).mp (same ▸ labelled')
    · exact (forward p next).1
  · exact ((relaxed.labelled p).mpr member).trans (raised.reach_le p)

/-- Relaxing all points of the order settles the labels. -/
theorem Relaxed.run (endpoints : graph.EndpointsExist) (ordered : graph.IsTopologicalOrder order)
    {front back : List PointId} (split : order = front ++ back)
    (relaxed : Relaxed graph order front dist) :
    ∃ dist', back.foldlM (relaxPoint graph) dist = some dist' ∧
      Relaxed graph order order dist' := by
  -- The induction moves one point after the other from the back to the front.
  induction back generalizing front dist with
  | nil =>
    rw [List.append_nil] at split
    exact ⟨dist, rfl, split ▸ relaxed⟩
  | cons id back ih =>
    obtain ⟨dist₁, first, relaxed₁⟩ := relaxed.step endpoints ordered split
    obtain ⟨dist', others, relaxed'⟩ := ih (by simp [split]) relaxed₁
    exact ⟨dist', by rw [List.foldlM_cons, first]; exact others, relaxed'⟩

/-- The point that is found has the greatest distance. -/
theorem furthest_spec {entries : List (PointId × Nat × Option PointId)} (some_ : entries ≠ []) :
    ∃ best ∈ entries, furthest entries = some best ∧ ∀ entry ∈ entries, entry.2.1 ≤ best.2.1 := by
  -- The best entry so far is kept, or replaced by one that is as good.
  induction entries using List.reverseRecOn with
  | nil => exact absurd rfl some_
  | append_singleton entries last ih =>
    cases empty : entries with
    | nil => exact ⟨last, by simp, rfl, by simp⟩
    | cons entry rest =>
      rw [← empty]
      obtain ⟨best, member, found, greatest⟩ := ih (by simp [empty])
      have step : furthest (entries ++ [last]) =
          if best.2.1 ≤ last.2.1 then some last else some best := by
        rw [furthest, List.foldl_append]
        change (match furthest entries with | none => _ | some best => _) = _
        rw [found]
      by_cases better : best.2.1 ≤ last.2.1
      · refine ⟨last, by simp, by rw [step, if_pos better], fun entry among => ?_⟩
        rcases List.mem_append.mp among with before | now
        · exact (greatest entry before).trans better
        · rw [List.mem_singleton.mp now]
      · refine ⟨best, List.mem_append_left _ member, by rw [step, if_neg better],
          fun entry among => ?_⟩
        rcases List.mem_append.mp among with before | now
        · exact greatest entry before
        · rw [List.mem_singleton.mp now]
          omega

/-- From a point as many points are traced back as its distance says, each of which an edge joins
to the one before it. -/
theorem traceBack_spec (relaxed : Relaxed graph order order dist) {rounds : Nat} {p : PointId}
    (far : reach (labels dist) p = rounds) (listed : p ∈ order) :
    ∃ path, traceBack dist rounds p = some path ∧ (p :: path).length = rounds ∧
      (∀ q ∈ p :: path, q ∈ order) ∧ (p :: path).IsChain fun a b => graph.Edge b a := by
  have labelled := (relaxed.labelled p).mpr listed
  induction rounds generalizing p with
  | zero => omega
  | succ rounds ih =>
    obtain ⟨before, found⟩ := exists_entry labelled
    rw [far] at found
    cases before with
    | none =>
      have one := relaxed.settled.first p _ found
      exact ⟨[], by rw [traceBack, found], by simp [one], by simpa using listed, .singleton p⟩
    | some prev =>
      -- The point before it has a distance of one less.
      obtain ⟨edge, -, positive, less⟩ := relaxed.settled.next p _ prev found
      have inOrder := (relaxed.labelled prev).mp positive
      obtain ⟨path, traced, long, inside, chain⟩ :=
        ih (Nat.succ.inj less).symm inOrder positive
      refine ⟨prev :: path, ?_, by rw [List.length_cons, long],
        List.forall_mem_cons.mpr ⟨listed, inside⟩, .cons_cons edge chain⟩
      simp only [traceBack, found, traced, Option.map_some]

/-- A path of the graph has no more points than the distance of its last one says. -/
theorem path_length_le (endpoints : graph.EndpointsExist)
    (ordered : graph.IsTopologicalOrder order) (relaxed : Relaxed graph order order dist)
    {path : List PointId} (isPath : graph.IsPath path) {last : PointId}
    (ends : path.getLast? = some last) : path.length ≤ reach (labels dist) last := by
  -- All points have their places in the order, and so have the sources of all edges.
  have member {p : PointId} (point : p ∈ graph.points) : p ∈ order :=
    ordered.perm.mem_iff.mpr (Std.ExtTreeMap.mem_keys.mpr point)
  refine relaxed.settled.length_le ?_ isPath.edges
    (fun p listed => (relaxed.labelled p).mpr (member (isPath.points p listed))) ends
  rintro _ _ ⟨edge, isEdge, rfl, rfl⟩
  exact member (endpoints edge isEdge).1

/-- In whatever order the points are relaxed and the distances looked through, a longest path of
the graph is found. -/
theorem computeCriticalPath_longest (endpoints : graph.EndpointsExist)
    (ordered : graph.IsTopologicalOrder order) (iteration : DistanceOrder) :
    ∃ path, computeCriticalPath iteration graph order = some path ∧ graph.IsLongestPath path := by
  have point {p : PointId} : p ∈ order ↔ p ∈ graph.points := by
    rw [ordered.perm.mem_iff, Std.ExtTreeMap.mem_keys]
  unfold computeCriticalPath
  by_cases empty : order = []
  · -- Without points there is only the empty path.
    rw [if_pos (by simp [empty])]
    refine ⟨[], rfl, ⟨by simp, .nil⟩, fun other isPath => ?_⟩
    have none_ : other = [] := List.eq_nil_iff_forall_not_mem.mpr fun p member => by
      simpa [empty] using point.mpr (isPath.points p member)
    rw [none_]
  · rw [if_neg (by simpa using empty)]
    obtain ⟨dist, run, relaxed⟩ := (relaxed_start graph order).run endpoints ordered rfl
    have entry (p : PointId) (d : Nat) (before : Option PointId) :
        (p, d, before) ∈ iteration.iter dist ↔ dist[p]? = some (d, before) := by
      rw [(iteration.perm dist).mem_iff, Std.ExtTreeMap.mem_toList_iff_getElem?_eq_some]
    have reached {p : PointId} {d : Nat} {before : Option PointId}
        (found : dist[p]? = some (d, before)) : reach (labels dist) p = d :=
      congrArg (fun l => (l.map Prod.fst).getD 0) found
    have some_ : iteration.iter dist ≠ [] := by
      obtain ⟨p, listed⟩ := List.exists_mem_of_ne_nil order empty
      obtain ⟨before, found⟩ := exists_entry ((relaxed.labelled p).mpr listed)
      exact List.ne_nil_of_mem ((entry p _ before).mpr found)
    obtain ⟨⟨last, d, before⟩, member, found, greatest⟩ := furthest_spec some_
    have far := reached ((entry last d before).mp member)
    have positive : 1 ≤ reach (labels dist) last := by
      -- Every entry is one of a point of the order.
      rw [far]
      cases before with
      | none => exact (relaxed.settled.first last d ((entry last d none).mp member)).ge
      | some prev =>
        have := (relaxed.settled.next last d prev ((entry last d _).mp member)).2.2.2
        omega
    obtain ⟨rest, traced, long, inside, chain⟩ :=
      traceBack_spec relaxed far ((relaxed.labelled last).mp positive)
    refine ⟨(last :: rest).reverse, ?_, ⟨fun p listed => ?_, ?_⟩, fun other isPath => ?_⟩
    · simp only [run, found, traced, Option.bind_eq_bind, Option.bind_some, Option.pure_def]
    · exact point.mp (inside p (List.mem_reverse.mp listed))
    · exact List.isChain_reverse.mpr chain
    · rw [List.length_reverse, long]
      cases ends : other.getLast? with
      | none => simp [List.getLast?_eq_none_iff.mp ends]
      | some p =>
        have bounded := path_length_le endpoints ordered relaxed isPath ends
        have listed := point.mpr (isPath.points p (List.mem_of_getLast? ends))
        obtain ⟨before, found⟩ := exists_entry ((relaxed.labelled p).mpr listed)
        exact bounded.trans (greatest _ ((entry p _ before).mpr found))

end

/-- For every graph that validation accepts the planner returns a plan, and the critical path in it
is a longest path of the graph; so is the one for any other topological order. -/
theorem plan_criticalPath (validation order : IterationOrder) (distances : DistanceOrder)
    (graph : ConvergenceGraph) (accepted : graph.validate validation = .ok ()) :
    (∃ planned, plan validation order distances graph = .ok (some planned) ∧
        graph.IsTopologicalOrder planned.executionOrder ∧
        graph.IsLongestPath planned.criticalPath) ∧
      ∀ topoOrder, graph.IsTopologicalOrder topoOrder →
        ∃ path, computeCriticalPath distances graph topoOrder = some path ∧
          graph.IsLongestPath path := by
  -- An accepted graph has no circle, so that Kahn's order is complete.
  obtain ⟨endpoints, acyclic⟩ := (graph.validate_eq_ok_iff validation).mp accepted
  have complete := (ConvergenceGraph.kahnEnd_length_iff order endpoints).mpr acyclic
  have ordered := ConvergenceGraph.isTopologicalOrder_kahnEnd order endpoints complete
  have sorted : graph.topologicalOrder order = .ok (graph.kahnEnd order).order := by
    simp [ConvergenceGraph.topologicalOrder, complete]
  obtain ⟨path, found, longest⟩ := computeCriticalPath_longest endpoints ordered distances
  refine ⟨⟨⟨graph, (graph.kahnEnd order).order, path⟩, ?_, ordered, longest⟩,
    fun topoOrder sorted => computeCriticalPath_longest endpoints sorted distances⟩
  rw [plan, accepted, sorted]
  simp [found, bind, Except.bind, pure, Except.pure]

/-- Maps that yield their entries in the order of the keys. -/
def keyIteration : IterationOrder := ⟨Std.ExtTreeMap.toList, fun _ => .refl _⟩

/-- Distances in the order of their points. -/
def keyDistances : DistanceOrder := ⟨Std.ExtTreeMap.toList, fun _ => .refl _⟩

/-- A point without checks. -/
def uncheckedPoint (name : String) : ConvergencePoint where
  name := name
  description := ""
  state := ⟨.unknown⟩
  boundary := ⟨[], [], none⟩

/-- Two points with an edge between them, and a point on the way. -/
def detour : ConvergenceGraph where
  points := .ofList [((0 : PointId), uncheckedPoint "first"), (1, uncheckedPoint "detour"),
    (2, uncheckedPoint "last")]
  edges := [⟨0, 2, .control⟩, ⟨0, 1, .data⟩, ⟨1, 2, .data⟩]

/-- The planner finds the way over the third point, which is a longest one. -/
theorem plan_criticalPath_detour :
    ∃ planned, plan keyIteration keyIteration keyDistances detour = .ok (some planned) ∧
      detour.IsLongestPath planned.criticalPath ∧ planned.criticalPath.length = 3 := by
  have ordered : detour.IsTopologicalOrder [0, 1, 2] :=
    ⟨by decide, by decide +kernel, by decide⟩
  have endpoints : detour.EndpointsExist := by
    unfold ConvergenceGraph.EndpointsExist
    decide +kernel
  obtain ⟨⟨planned, done, -, longest⟩, others⟩ := plan_criticalPath keyIteration keyIteration
    keyDistances detour (ordered.accepted endpoints keyIteration)
  refine ⟨planned, done, longest, ?_⟩
  -- Longest paths are of one length.
  obtain ⟨path, found, longest'⟩ := others [0, 1, 2] ordered
  have computed : computeCriticalPath keyDistances detour [0, 1, 2] = some [0, 1, 2] := by
    decide +kernel
  obtain rfl := Option.some.inj (found.symm.trans computed)
  exact le_antisymm (longest'.longest _ longest.isPath) (longest.longest _ longest'.isPath)

end Tatara.Convergence
