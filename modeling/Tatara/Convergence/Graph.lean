import Tatara.Rust.Data
import Tatara.Lib.Digraph
import Std.Data.ExtTreeMap

/-! Graphs of convergence points, and Kahn's algorithm for an order of their points. -/

namespace Tatara.Convergence

open Tatara.Rust

/-- A content address of a point: its 32 bytes as one number, the first byte being the highest. -/
abbrev PointId := BitVec 256

namespace PointId

instance transCmp : Std.TransCmp (compare : PointId → PointId → Ordering) := inferInstance

/-- The lowercase hexadecimal form, which `Display` writes as well. -/
def toHex (id : PointId) : String :=
  String.ofList ((List.range 64).map fun place => Nat.digitChar (id.toNat / 16 ^ (63 - place) % 16))

/-- The address of a function, its inputs, and its desired state. -/
def compute (blake3 : ByteArray → BitVec 256) (functionHash : ByteArray)
    (inputHashes : List ByteArray) (desiredStateHash : ByteArray) : PointId :=
  blake3 (inputHashes.foldl (· ++ ·) functionHash ++ desiredStateHash)

end PointId

/-- How far an observed state is from the desired one. -/
inductive ConvergenceDistance where
  | converged
  | partial_ (matching total : UInt32) (pending : List String)
  | diverged (reason : String)
  | unknown
  deriving DecidableEq, Repr

/-- One named check at the boundary of a point. -/
structure BoundaryCheck where
  name : String
  passed : Bool
  deriving DecidableEq, Repr

/-- What has to hold before and after a point converges. -/
structure ConvergenceBoundary where
  preconditions : List BoundaryCheck
  postconditions : List BoundaryCheck
  inputAttestation : Option String
  deriving DecidableEq, Repr

/-- The telemetry of a point. -/
structure ConvergenceState where
  distance : ConvergenceDistance
  deriving DecidableEq, Repr

/-- One verified step of the computation. -/
structure ConvergencePoint where
  name : String
  description : String
  state : ConvergenceState
  boundary : ConvergenceBoundary
  deriving DecidableEq, Repr

/-- The kinds of dependency between two points. -/
inductive EdgeType where
  | data
  | control
  | attestation
  deriving DecidableEq, Repr

/-- A typed edge between two points. -/
structure TypedEdge where
  «from» : PointId
  «to» : PointId
  edgeType : EdgeType
  deriving DecidableEq, Repr

/-- Points by their address, with typed edges between them. -/
structure ConvergenceGraph where
  points : Std.ExtTreeMap PointId ConvergencePoint
  edges : List TypedEdge

/-- What can be wrong with a graph. -/
inductive GraphError where
  | cycleDetected
  | missingPoint (id : PointId)
  deriving DecidableEq, Repr

/-- The order in which a `HashMap` yields its entries, which can be any. -/
structure IterationOrder where
  iter : Std.ExtTreeMap PointId Nat → List (PointId × Nat)
  perm : ∀ entries, (iter entries).Perm entries.toList

/-- What Kahn's loop changes: the edges still to count down for each point, the points that wait,
and the order so far. -/
structure Kahn where
  inDegree : Std.ExtTreeMap PointId Nat
  queue : List PointId
  order : List PointId

namespace Kahn

/-- Count an edge to a neighbor down; with its last edge it joins the queue. -/
def relax (s : Kahn) (neighbor : PointId) : Kahn :=
  match s.inDegree[neighbor]? with
  | none => s
  | some deg =>
    -- A counter that is still to be decremented counts this very edge, and is not zero.
    let deg := deg - 1
    let s := { s with inDegree := s.inDegree.insert neighbor deg }
    if deg = 0 then { s with queue := s.queue ++ [neighbor] } else s

/-- Move the first waiting point to the order, and count its edges down. -/
def visit (adjacency : Std.ExtTreeMap PointId (List PointId)) (s : Kahn) (id : PointId)
    (queue : List PointId) : Kahn :=
  let s := { s with queue, order := s.order ++ [id] }
  match adjacency[id]? with
  | none => s
  | some neighbors => neighbors.foldl relax s

/-- The loop over the queue, for at most so many points. -/
def loop (adjacency : Std.ExtTreeMap PointId (List PointId)) : Nat → Kahn → Kahn
  | 0, s => s
  | fuel + 1, s =>
    match s.queue with
    | [] => s
    | id :: queue => loop adjacency fuel (s.visit adjacency id queue)

end Kahn

namespace ConvergenceGraph

/-- The number of edges into each point. -/
def inDegree (graph : ConvergenceGraph) : Std.ExtTreeMap PointId Nat :=
  -- An edge to somewhere outside the points gets a counter of its own.
  let start := graph.points.keys.foldl (fun counts id => counts.insertIfNew id 0) ∅
  graph.edges.foldl (fun counts edge => counts.insert edge.to (counts[edge.to]?.getD 0 + 1)) start

/-- The targets of the edges out of each point. -/
def adjacency (graph : ConvergenceGraph) : Std.ExtTreeMap PointId (List PointId) :=
  let start := graph.points.keys.foldl (fun targets id => targets.insertIfNew id []) ∅
  graph.edges.foldl
    (fun targets edge => targets.insert edge.from (targets[edge.from]?.getD [] ++ [edge.to])) start

/-- Where Kahn's loop starts. -/
def kahnStart (iteration : IterationOrder) (graph : ConvergenceGraph) : Kahn where
  inDegree := graph.inDegree
  queue := ((iteration.iter graph.inDegree).filter fun entry => entry.2 = 0).map Prod.fst
  order := []

/-- Where Kahn's loop ends: no point with an entry among the counters is visited twice. -/
def kahnEnd (iteration : IterationOrder) (graph : ConvergenceGraph) : Kahn :=
  Kahn.loop graph.adjacency graph.inDegree.size (graph.kahnStart iteration)

/-- An order of the points by Kahn's algorithm. -/
def topologicalOrder (iteration : IterationOrder) (graph : ConvergenceGraph) :
    Except GraphError (List PointId) :=
  -- Points on a circle never come to zero, and are missing from the order.
  let order := (graph.kahnEnd iteration).order
  if order.length ≠ graph.points.size then .error .cycleDetected else .ok order

/-- The first endpoint of an edge that is not a point. -/
def missingEndpoint (graph : ConvergenceGraph) : List TypedEdge → Option PointId
  | [] => none
  | edge :: edges =>
    if edge.from ∉ graph.points then some edge.from
    else if edge.to ∉ graph.points then some edge.to
    else graph.missingEndpoint edges

/-- All endpoints exist, and there is an order of the points. -/
def validate (iteration : IterationOrder) (graph : ConvergenceGraph) : Except GraphError Unit :=
  match graph.missingEndpoint graph.edges with
  | some id => .error (.missingPoint id)
  | none => do
    let _ ← graph.topologicalOrder iteration
    return ()

end ConvergenceGraph

end Tatara.Convergence
