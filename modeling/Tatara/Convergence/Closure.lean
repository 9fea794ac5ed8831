import Tatara.Convergence.TopologicalOrder
import Tatara.Lib.Digraph
import Std.Data.ExtTreeSet

/-! The closures of a graph: what a point transitively depends on, and what depends on it. -/

namespace Tatara.Convergence

open Tatara.Search
open Tatara.Kahn (getD_foldl_push)

/-- What the loop of a closure changes: the points visited, and the points that wait. -/
structure Walk where
  visited : Std.ExtTreeSet PointId
  queue : List PointId

namespace Walk

/-- One round of the loop, if a point waits. -/
def next (adjacency : Std.ExtTreeMap PointId (List PointId)) (s : Walk) : Option Walk :=
  match s.queue with
  | [] => none
  | id :: queue =>
    -- A point may wait several times, and is passed over after the first time.
    if id ∈ s.visited then some { s with queue }
    else
      let s := { s with visited := s.visited.insert id, queue }
      match adjacency[id]? with
      | none => some s
      | some deps => some { s with queue := s.queue ++ deps }

/-- The loop, for at most so many rounds. -/
def loop (adjacency : Std.ExtTreeMap PointId (List PointId)) : Nat → Walk → Walk
  | 0, s => s
  | rounds + 1, s =>
    match s.next adjacency with
    | none => s
    | some s => loop adjacency rounds s

end Walk

namespace ConvergenceGraph

variable (key value : TypedEdge → PointId) (graph : ConvergenceGraph)

/-- The ends of edges at one side, under the ends at the other side. -/
def grouped : Std.ExtTreeMap PointId (List PointId) :=
  graph.edges.foldl
    (fun entries edge => entries.insert (key edge) (entries[key edge]?.getD [] ++ [value edge])) ∅

/-- Where the loop starts. -/
def walkStart (pointId : PointId) : Walk where
  visited := ∅
  queue := [pointId]

/-- Where the loop ends: each round takes a point out of the queue, and each edge brings one into it
at most once. -/
def walkEnd (pointId : PointId) : Walk :=
  Walk.loop (graph.grouped key value) (graph.edges.length + 1) (walkStart pointId)

/-- The points that are reached from a point, without the point itself. -/
def closure (pointId : PointId) : Std.ExtTreeSet PointId :=
  (graph.walkEnd key value pointId).visited.erase pointId

/-- All points that a point transitively depends on. -/
def forwardClosure (pointId : PointId) : Std.ExtTreeSet PointId :=
  graph.closure TypedEdge.to TypedEdge.from pointId

/-- All points that transitively depend on a point. -/
def reverseClosure (pointId : PointId) : Std.ExtTreeSet PointId :=
  graph.closure TypedEdge.from TypedEdge.to pointId

/-- There is an edge that is followed from one point to the other. -/
def Leads (p q : PointId) : Prop := ∃ edge ∈ graph.edges, key edge = p ∧ value edge = q

variable {key value graph}

/-- A point is grouped with those to which an edge leads. -/
theorem mem_grouped {p q : PointId} :
    q ∈ (graph.grouped key value)[p]?.getD [] ↔ graph.Leads key value p q := by
  -- The entry of a point is filled by the edges that have it at this side.
  rw [grouped, getD_foldl_push]
  simp [Leads, and_assoc]

end ConvergenceGraph

namespace Walk

/-- The points that were visited. -/
def seen (s : Walk) : Set PointId := {p | p ∈ s.visited}

/-- What has been visited after a point is the point and what was visited before. -/
theorem mem_insert {visited : Std.ExtTreeSet PointId} {id p : PointId} :
    p ∈ visited.insert id ↔ p = id ∨ p ∈ visited := by
  rw [Std.ExtTreeSet.mem_insert, Std.LawfulEqCmp.compare_eq_iff_eq, eq_comm]

variable (key : TypedEdge → PointId) {value : TypedEdge → PointId} (graph : ConvergenceGraph)

/-- The rounds that the loop still makes at most: one for each point that waits, and one for each
edge out of a point that was not visited. -/
def roundsLeft (s : Walk) : Nat :=
  (graph.edges.countP fun edge => !decide (key edge ∈ s.visited)) + s.queue.length

variable {key graph} {start : PointId} {s s' : Walk}

/-- A round without a next one has found the queue empty. -/
theorem queue_eq_nil {adjacency : Std.ExtTreeMap PointId (List PointId)}
    (ended : s.next adjacency = none) : s.queue = [] := by
  unfold next at ended
  split at ended
  · assumption
  · -- In every other case there is a next round.
    split at ended
    · cases ended
    · dsimp only at ended
      split at ended <;> cases ended

/-- Visiting a point brings the other ends of its edges into the queue. -/
theorem next_visit {id : PointId} {queue : List PointId} (waiting : s.queue = id :: queue)
    (new : id ∉ s.visited) (adjacency : Std.ExtTreeMap PointId (List PointId)) :
    s.next adjacency =
      some ⟨s.visited.insert id, queue ++ adjacency[id]?.getD []⟩ := by
  -- A point without an entry has no edges to follow.
  rw [next, waiting]
  dsimp only
  rw [if_neg new]
  cases adjacency[id]? <;> simp

/-- A round keeps the search sound, and is one of those that were left. -/
theorem next_spec (round : s.next (graph.grouped key value) = some s')
    (sound : Sound (graph.Leads key value) start s.seen s.queue) :
    Sound (graph.Leads key value) start s'.seen s'.queue ∧
      s.roundsLeft key graph = s'.roundsLeft key graph + 1 := by
  cases waiting : s.queue with
  | nil => simp [next, waiting] at round
  | cons id queue =>
    rw [waiting] at sound
    by_cases before : id ∈ s.visited
    · rw [next, waiting] at round
      dsimp only at round
      rw [if_pos before] at round
      obtain rfl := Option.some.inj round
      refine ⟨sound.skip before, ?_⟩
      simp only [roundsLeft, waiting, List.length_cons]
      omega
    · rw [next_visit waiting before] at round
      obtain rfl := Option.some.inj round
      have seen_ : seen ⟨s.visited.insert id, queue ++ (graph.grouped key value)[id]?.getD []⟩ =
          insert id s.seen := by
        ext p
        exact mem_insert
      refine ⟨?_, ?_⟩
      · rw [seen_]
        exact sound.visit fun q => ConvergenceGraph.mem_grouped
      · -- The edges that are not counted any more are those whose ends wait now.
        have grown (p : PointId) : decide (p ∈ s.visited.insert id) =
            (decide (p ∈ s.visited) || p == id) := by
          rw [Bool.eq_iff_iff, Bool.or_eq_true, decide_eq_true_iff, decide_eq_true_iff, beq_iff_eq,
            mem_insert, or_comm]
        have counted := countP_unvisited key (by simpa using before) grown graph.edges
        have brought : ((graph.grouped key value)[id]?.getD []).length =
            (graph.edges.filter fun edge => key edge = id).length := by
          rw [ConvergenceGraph.grouped, getD_foldl_push]
          simp
        simp only [roundsLeft, waiting, List.length_cons, List.length_append, brought, counted]
        omega

/-- With as many rounds as are left the loop runs until no point waits. -/
theorem loop_spec (sound : Sound (graph.Leads key value) start s.seen s.queue) {rounds : Nat}
    (enough : s.roundsLeft key graph ≤ rounds) :
    let s := loop (graph.grouped key value) rounds s
    Sound (graph.Leads key value) start s.seen s.queue ∧ s.queue = [] := by
  induction rounds generalizing s with
  | zero =>
    -- No round is left, so that none is needed.
    have none_ : s.queue.length = 0 := by
      rw [roundsLeft] at enough
      omega
    exact ⟨sound, List.length_eq_zero_iff.mp none_⟩
  | succ rounds ih =>
    rw [loop]
    split
    · rename_i ended
      exact ⟨sound, queue_eq_nil ended⟩
    · rename_i s' round
      obtain ⟨sound, one⟩ := next_spec round sound
      exact ih sound (by omega)

end Walk

namespace ConvergenceGraph

variable (key value : TypedEdge → PointId) (graph : ConvergenceGraph)

/-- The loop of a closure ends by itself, and has visited what can be reached by then. -/
theorem walkEnd_spec (p : PointId) :
    (graph.walkEnd key value p).queue = [] ∧
      ∀ q, q ∈ (graph.walkEnd key value p).visited ↔
        Relation.ReflTransGen (graph.Leads key value) p q := by
  -- The loop starts with nothing visited, and with one round for each edge and the point.
  have begun : Sound (graph.Leads key value) p (walkStart p).seen (walkStart p).queue := by
    have none_ : (walkStart p).seen = ∅ := by
      ext q
      simp [walkStart, Walk.seen]
    rw [none_]
    exact sound_start _ p
  have enough : (walkStart p).roundsLeft key graph ≤ graph.edges.length + 1 := by
    exact Nat.add_le_add_right List.countP_le_length 1
  obtain ⟨sound, ended⟩ := Walk.loop_spec begun enough
  refine ⟨ended, fun q => ?_⟩
  rw [ended] at sound
  exact sound.visited_iff

/-- A closure has the points other than the first one that a path leads to. -/
theorem mem_closure_iff (p q : PointId) :
    q ∈ graph.closure key value p ↔
      q ≠ p ∧ Relation.TransGen (graph.Leads key value) p q := by
  -- The point itself is reached by no edge at all, and taken out.
  rw [closure, Std.ExtTreeSet.mem_erase, (graph.walkEnd_spec key value p).2]
  simp only [ne_eq, Std.LawfulEqCmp.compare_eq_iff_eq]
  constructor
  · rintro ⟨other, path⟩
    refine ⟨fun same => other same.symm, ?_⟩
    exact (Relation.reflTransGen_iff_eq_or_transGen.mp path).resolve_left fun same =>
      other same.symm
  · rintro ⟨other, path⟩
    exact ⟨fun same => other same.symm, path.to_reflTransGen⟩

variable {key value}

/-- Followed from its target to its source, an edge leads upstream. -/
theorem leads_upstream {p q : PointId} :
    Relation.TransGen (graph.Leads TypedEdge.to TypedEdge.from) p q ↔
      Relation.TransGen graph.Edge q p := by
  -- Paths are turned around edge by edge.
  have swapped : graph.Leads TypedEdge.to TypedEdge.from = Function.swap graph.Edge := by
    funext p q
    exact propext ⟨fun ⟨edge, listed, to_, from_⟩ => ⟨edge, listed, from_, to_⟩,
      fun ⟨edge, listed, from_, to_⟩ => ⟨edge, listed, to_, from_⟩⟩
  rw [swapped, Relation.transGen_swap]

/-- Upstream of a point are the others from which a path leads to it. -/
theorem mem_forwardClosure_iff (p q : PointId) :
    q ∈ graph.forwardClosure p ↔ q ≠ p ∧ Relation.TransGen graph.Edge q p := by
  rw [forwardClosure, mem_closure_iff, leads_upstream]

/-- Downstream of a point are the others to which a path leads. -/
theorem mem_reverseClosure_iff (p q : PointId) :
    q ∈ graph.reverseClosure p ↔ q ≠ p ∧ Relation.TransGen graph.Edge p q :=
  graph.mem_closure_iff TypedEdge.from TypedEdge.to p q

/-- The forward closure of a point has the other points upstream of it, and the reverse closure
those downstream; each is what the other one is from the other side, and both loops end. -/
theorem closures_exact (a b : PointId) :
    (graph.walkEnd TypedEdge.to TypedEdge.from a).queue = [] ∧
      (graph.walkEnd TypedEdge.from TypedEdge.to b).queue = [] ∧
      (b ∈ graph.forwardClosure a ↔ b ≠ a ∧ Relation.TransGen graph.Edge b a) ∧
      (a ∈ graph.reverseClosure b ↔ a ≠ b ∧ Relation.TransGen graph.Edge b a) ∧
      (b ∈ graph.forwardClosure a ↔ a ∈ graph.reverseClosure b) := by
  -- Both memberships come down to one path.
  have upstream := graph.mem_forwardClosure_iff a b
  have downstream := graph.mem_reverseClosure_iff b a
  refine ⟨(graph.walkEnd_spec _ _ a).1, (graph.walkEnd_spec _ _ b).1, upstream, downstream, ?_⟩
  rw [upstream, downstream, ne_comm]

/-- A graph with one edge. -/
def oneEdge : ConvergenceGraph where
  points := ∅
  edges := [⟨1, 2, .data⟩]

/-- The target of the edge is not in the forward closure of its source, nor the source in the
reverse closure of the target. -/
theorem closures_point_back :
    ¬ (∀ (graph : ConvergenceGraph) (a b : PointId),
        b ∈ graph.forwardClosure a ↔ b ≠ a ∧ Relation.TransGen graph.Edge a b) ∧
      ¬ (∀ (graph : ConvergenceGraph) (a b : PointId),
        a ∈ graph.reverseClosure b ↔ a ≠ b ∧ Relation.TransGen graph.Edge a b) := by
  -- From the source no edge leads upstream, and from the target none downstream.
  have path : Relation.TransGen oneEdge.Edge 1 2 :=
    .single ⟨⟨1, 2, .data⟩, List.mem_singleton.mpr rfl, rfl, rfl⟩
  have forward : (2 : PointId) ∉ oneEdge.forwardClosure 1 := by decide +kernel
  have reverse : (1 : PointId) ∉ oneEdge.reverseClosure 2 := by decide +kernel
  exact ⟨fun claim => forward ((claim oneEdge 1 2).mpr ⟨by decide, path⟩),
    fun claim => reverse ((claim oneEdge 1 2).mpr ⟨by decide, path⟩)⟩

end ConvergenceGraph

end Tatara.Convergence
