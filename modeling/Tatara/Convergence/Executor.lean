import Tatara.Convergence.Graph
import Std.Data.ExtTreeSet

/-! The executor, which takes the points of a graph through their boundaries one after the other. -/

namespace Tatara.Convergence

/-- What comes of a point. -/
inductive ConvergenceOutcome where
  | converged
  | failed (reason : String)
  | degraded (achieved : ConvergenceDistance) (missing : List String)
  deriving DecidableEq, Repr

/-- The phases of a boundary. -/
inductive BoundaryPhase where
  | pending
  | preparing
  | executing
  | verifying
  | attested
  | failed (reason : String)
  deriving DecidableEq, Repr

/-- What the execution of one point reports; durations are in milliseconds. -/
structure PointExecutionResult where
  pointId : PointId
  outcome : ConvergenceOutcome
  attestation : Option String
  duration : Int
  phase : BoundaryPhase
  deriving DecidableEq, Repr

/-- What the execution of a graph reports. -/
structure DagExecutionResult where
  outcomes : Std.ExtTreeMap PointId PointExecutionResult
  totalDuration : Int
  finalAttestation : Option String
  convergedCount : Nat
  failedCount : Nat
  degradedCount : Nat

/-- What the loop over the points changes. -/
structure Execution where
  outcomes : Std.ExtTreeMap PointId PointExecutionResult := ∅
  attestationChain : Std.ExtTreeMap PointId String := ∅
  converged : Nat := 0
  failed : Nat := 0
  degraded : Nat := 0
  failedPoints : Std.ExtTreeSet PointId := ∅

/-- The scheme that hashes carry in front. -/
def blake3SchemePrefix : String := "blake3:"

section

variable (blake3 : ByteArray → BitVec 256)

/-- The hash of a pillar, in its display form. -/
def pillarHash (bytes : ByteArray) : String :=
  blake3SchemePrefix ++ PointId.toHex (blake3 bytes)

/-- Take one point through its four phases, while the clock measures the given duration. -/
def executePoint (point : ConvergencePoint) (inputAttestation : Option String) (elapsed : Int) :
    PointExecutionResult :=
  let report (outcome : ConvergenceOutcome) (attestation : Option String) (phase : BoundaryPhase) :
      PointExecutionResult :=
    { pointId := PointId.compute blake3 point.name.toUTF8 [] point.description.toUTF8
      outcome, attestation, duration := elapsed, phase }
  -- The input is compared where there is one, and not missed where there is none.
  let mismatch : Option (String × String) := do
    let input ← inputAttestation
    let expected ← point.boundary.inputAttestation
    if input ≠ expected then some (expected, input) else none
  match mismatch with
  | some (expected, input) =>
    report
      (.failed ("input attestation mismatch: expected " ++ expected ++ ", got " ++ input)) none
      (.failed "attestation mismatch")
  | none =>
    match point.boundary.preconditions.find? (!·.passed) with
    | some check =>
      report (.failed ("precondition failed: " ++ check.name)) none
        (.failed ("precondition: " ++ check.name))
    | none =>
      match point.boundary.postconditions.find? (!·.passed) with
      -- What does not verify is degraded, and leaves no attestation.
      | some check => report (.degraded point.state.distance [check.name]) none .verifying
      | none =>
        let attestationData := point.name ++ ":" ++ inputAttestation.getD "genesis" ++ ":" ++
          toString point.boundary.postconditions.length
        report .converged (some (pillarHash blake3 attestationData.toUTF8)) .attested

/-- The report of a point that is not executed, because one before it has failed. -/
def skipped (pointId : PointId) : PointExecutionResult where
  pointId := pointId
  outcome := .failed "upstream dependency failed"
  attestation := none
  duration := 0
  phase := .failed "blocked by upstream failure"

/-- The sources of the edges into a point, in the order of the edges. -/
def ConvergenceGraph.upstream (graph : ConvergenceGraph) (pointId : PointId) : List PointId :=
  (graph.edges.filter fun edge => edge.to = pointId).map TypedEdge.from

/-- The attestations of several points as one input. -/
def combine (attestations : List String) : Option String :=
  if attestations.isEmpty then none else some (String.intercalate ":" attestations)

namespace Execution

/-- Pass over a point that is blocked. -/
def skip (s : Execution) (pointId : PointId) : Execution :=
  { s with
    failedPoints := s.failedPoints.insert pointId
    failed := s.failed + 1
    outcomes := s.outcomes.insert pointId (skipped pointId) }

/-- Note what the execution of a point has reported. -/
def record (s : Execution) (pointId : PointId) (result : PointExecutionResult) : Execution :=
  let s := match result.attestation with
    | some attestation =>
      { s with attestationChain := s.attestationChain.insert pointId attestation }
    | none => s
  let s := match result.outcome with
    | .converged => { s with converged := s.converged + 1 }
    | .failed _ =>
      { s with failedPoints := s.failedPoints.insert pointId, failed := s.failed + 1 }
    | .degraded _ _ => { s with degraded := s.degraded + 1 }
  { s with outcomes := s.outcomes.insert pointId result }

/-- One round of the loop. -/
def step (graph : ConvergenceGraph) (s : Execution) (input : Int × PointId) :
    Except String Execution :=
  let (elapsed, pointId) := input
  match graph.points[pointId]? with
  | none => .error ("point " ++ pointId.toHex ++ " not in graph")
  | some point =>
    if (graph.upstream pointId).any (· ∈ s.failedPoints) then .ok (s.skip pointId)
    else
      -- A point before this one that has left no attestation is passed over.
      let inputAttestations := (graph.upstream pointId).filterMap (s.attestationChain[·]?)
      .ok (s.record pointId (executePoint blake3 point (combine inputAttestations) elapsed))

/-- What is reported when the loop has ended. -/
def finish (s : Execution) (executionOrder : List (Int × PointId)) (totalDuration : Int) :
    DagExecutionResult where
  outcomes := s.outcomes
  totalDuration := totalDuration
  -- The attestation of the last point in the order stands for the whole.
  finalAttestation := executionOrder.getLast?.bind fun input => s.attestationChain[input.2]?
  convergedCount := s.converged
  failedCount := s.failed
  degradedCount := s.degraded

end Execution

/-- Execute a graph in the given order; with each point comes the time that its execution takes. -/
def executeGraph (graph : ConvergenceGraph) (executionOrder : List (Int × PointId))
    (totalDuration : Int) : Except String DagExecutionResult := do
  let s ← executionOrder.foldlM (Execution.step blake3 graph) {}
  return s.finish executionOrder totalDuration

end

end Tatara.Convergence
