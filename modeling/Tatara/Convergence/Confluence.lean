import Tatara.Convergence.Executor
import Tatara.Convergence.TopologicalOrder

/-! Execution comes to the same end in every topological order, and failures spread downstream. -/

namespace Tatara.Convergence

open Tatara.Digraph

variable {blake3 : ByteArray → BitVec 256} {graph : ConvergenceGraph}

/-- The three kinds of outcome that are counted. -/
inductive OutcomeKind where
  | converged
  | failed
  | degraded
  deriving DecidableEq

/-- The kind of an outcome. -/
def ConvergenceOutcome.kind : ConvergenceOutcome → OutcomeKind
  | .converged => .converged
  | .failed _ => .failed
  | .degraded _ _ => .degraded

/-- The kind of outcome that is reported, if there is a report. -/
def reported (known : Option PointExecutionResult) : Option OutcomeKind :=
  known.map fun result => result.outcome.kind

/-- The report without the time that was measured. -/
def PointExecutionResult.untimed (result : PointExecutionResult) : PointExecutionResult :=
  { result with duration := 0 }

namespace ConvergenceGraph

/-- The points upstream are the sources of the edges. -/
theorem mem_upstream {p q : PointId} : q ∈ graph.upstream p ↔ graph.Edge q p := by
  -- An edge into the point has its source in the list.
  simp [upstream, Edge, and_comm, and_left_comm]

/-- A point upstream has failed. -/
def blocked (graph : ConvergenceGraph) (known : PointId → Option PointExecutionResult)
    (p : PointId) : Bool :=
  (graph.upstream p).any fun q => reported (known q) = some .failed

/-- What the points upstream have attested, combined. -/
def inputOf (graph : ConvergenceGraph) (known : PointId → Option PointExecutionResult)
    (p : PointId) : Option String :=
  combine ((graph.upstream p).filterMap fun q => (known q).bind PointExecutionResult.attestation)

/-- What comes of a point, given what has come of the points upstream. -/
def settle (blake3 : ByteArray → BitVec 256) (graph : ConvergenceGraph)
    (known : PointId → Option PointExecutionResult) (p : PointId) (point : ConvergencePoint)
    (elapsed : Int) : PointExecutionResult :=
  if graph.blocked known p then skipped p
  else executePoint blake3 point (graph.inputOf known p) elapsed

/-- The point fails by its own checks, given what the points upstream have attested. -/
def FailsAlone (blake3 : ByteArray → BitVec 256) (graph : ConvergenceGraph)
    (known : PointId → Option PointExecutionResult) (p : PointId) : Prop :=
  ∃ point, graph.points[p]? = some point ∧ ∀ elapsed,
    (executePoint blake3 point (graph.inputOf known p) elapsed).outcome.kind = .failed

/-- What a report says of failure and of an attestation does not depend on the time. -/
theorem reads_untimed {known known' : Option PointExecutionResult}
    (same : known.map PointExecutionResult.untimed = known'.map PointExecutionResult.untimed) :
    reported known = reported known' ∧
      known.bind PointExecutionResult.attestation =
        known'.bind PointExecutionResult.attestation := by
  -- Both reports are missing, or both are there and differ in the duration at most.
  cases known with
  | none =>
    have absent := Option.map_eq_none_iff.mp same.symm
    simp [reported, absent]
  | some result =>
    obtain ⟨result', rfl, equal⟩ := Option.map_eq_some_iff.mp same.symm
    simp only [PointExecutionResult.untimed, PointExecutionResult.mk.injEq] at equal
    obtain ⟨-, outcome, attestation, -⟩ := equal
    simp [reported, outcome, attestation]

/-- Only what has come of the points upstream decides what comes of a point. -/
theorem settle_congr {known known' : PointId → Option PointExecutionResult} {p : PointId}
    (same : ∀ q, graph.Edge q p →
      (known q).map PointExecutionResult.untimed = (known' q).map PointExecutionResult.untimed)
    (point : ConvergencePoint) (elapsed : Int) :
    settle blake3 graph known p point elapsed = settle blake3 graph known' p point elapsed := by
  -- Of a point upstream only its failure and its attestation are read.
  have reads (q : PointId) (listed : q ∈ graph.upstream p) :=
    reads_untimed (same q (mem_upstream.mp listed))
  have blocks : graph.blocked known p = graph.blocked known' p := by
    rw [Bool.eq_iff_iff, blocked, blocked, List.any_eq_true, List.any_eq_true]
    refine exists_congr fun q => and_congr_right fun listed => ?_
    rw [(reads q listed).1]
  have inputs : graph.inputOf known p = graph.inputOf known' p := by
    rw [inputOf, inputOf, List.filterMap_congr fun q listed => (reads q listed).2]
  rw [settle, settle, blocks, inputs]

/-- The clock changes nothing but the duration in the report of an execution. -/
theorem executePoint_untimed (blake3 : ByteArray → BitVec 256) (point : ConvergencePoint)
    (input : Option String) (elapsed elapsed' : Int) :
    (executePoint blake3 point input elapsed).untimed =
      (executePoint blake3 point input elapsed').untimed := by
  -- Every report carries the duration as it was measured.
  unfold executePoint
  dsimp only
  split
  · rfl
  · split
    · rfl
    · split <;> rfl

/-- The clock changes nothing but the duration. -/
theorem settle_untimed (known : PointId → Option PointExecutionResult) (p : PointId)
    (point : ConvergencePoint) (elapsed elapsed' : Int) :
    (settle blake3 graph known p point elapsed).untimed =
      (settle blake3 graph known p point elapsed').untimed := by
  unfold settle
  -- A point behind a failure is skipped without the clock.
  split
  · rfl
  · exact executePoint_untimed blake3 point _ elapsed elapsed'

end ConvergenceGraph

/-- The counter of a kind of outcome. -/
def Execution.count (s : Execution) : OutcomeKind → Nat
  | .converged => s.converged
  | .failed => s.failed
  | .degraded => s.degraded

/-- What the loop holds after it has taken the points of a list. -/
structure Execution.Settled (blake3 : ByteArray → BitVec 256) (graph : ConvergenceGraph)
    (done : List PointId) (s : Execution) : Prop where
  listed : ∀ p : PointId, s.outcomes[p]?.isSome ↔ p ∈ done
  failed_iff : ∀ p : PointId, p ∈ s.failedPoints ↔ reported s.outcomes[p]? = some .failed
  chain : ∀ p : PointId,
    s.attestationChain[p]? = s.outcomes[p]?.bind PointExecutionResult.attestation
  counted : ∀ kind, s.count kind =
    done.countP fun p : PointId => reported s.outcomes[p]? = some kind
  -- Every point has come to what the points upstream make of it.
  solves : ∀ p ∈ done, ∃ point elapsed, graph.points[p]? = some point ∧
    s.outcomes[p]? = some (graph.settle blake3 (s.outcomes[·]?) p point elapsed)

namespace Execution

/-- To pass over a point is to note that it was skipped. -/
theorem skip_eq_record (s : Execution) (p : PointId) : s.skip p = s.record p (skipped p) := rfl

/-- A report is kept under its point. -/
@[simp] theorem record_outcomes (s : Execution) (p : PointId) (result : PointExecutionResult) :
    (s.record p result).outcomes = s.outcomes.insert p result := by
  unfold record
  cases result.attestation <;> cases result.outcome <;> rfl

/-- A report of failure makes its point a failed one. -/
theorem mem_record_failedPoints (s : Execution) (p q : PointId) (result : PointExecutionResult) :
    q ∈ (s.record p result).failedPoints ↔
      (p = q ∧ result.outcome.kind = .failed) ∨ q ∈ s.failedPoints := by
  unfold record
  cases result.attestation <;> cases result.outcome <;>
    simp [ConvergenceOutcome.kind]

/-- An attestation joins the chain under its point. -/
theorem record_attestationChain (s : Execution) (p q : PointId) (result : PointExecutionResult) :
    (s.record p result).attestationChain[q]? =
      if p = q ∧ result.attestation.isSome then result.attestation
      else s.attestationChain[q]? := by
  unfold record
  cases result.attestation <;> cases result.outcome <;>
    simp [Std.ExtTreeMap.getElem?_insert]

/-- A report counts once, for its kind. -/
theorem record_count (s : Execution) (p : PointId) (result : PointExecutionResult)
    (kind : OutcomeKind) :
    (s.record p result).count kind =
      s.count kind + if result.outcome.kind = kind then 1 else 0 := by
  unfold record
  cases result.attestation <;> cases result.outcome <;> cases kind <;>
    simp [count, ConvergenceOutcome.kind]

/-- One round of the loop gives its point what the points upstream make of it. -/
theorem Settled.step_eq {s : Execution} {done : List PointId} {p : PointId}
    {point : ConvergencePoint} (settled : Settled blake3 graph done s)
    (found : graph.points[p]? = some point) (elapsed : Int) :
    Execution.step blake3 graph s (elapsed, p) =
      .ok (s.record p (graph.settle blake3 (s.outcomes[·]?) p point elapsed)) := by
  -- The set of failures and the chain say the same as the reports.
  have blocks : (graph.upstream p).any (· ∈ s.failedPoints) =
      graph.blocked (s.outcomes[·]?) p := by
    simp only [ConvergenceGraph.blocked, settled.failed_iff]
  have inputs : combine ((graph.upstream p).filterMap (s.attestationChain[·]?)) =
      graph.inputOf (s.outcomes[·]?) p := by
    simp only [ConvergenceGraph.inputOf, settled.chain]
  simp only [step, found, blocks, inputs, skip_eq_record, ConvergenceGraph.settle]
  split <;> rfl

/-- Noting what the points upstream make of a point keeps what the loop holds. -/
theorem Settled.record {s : Execution} {done : List PointId} {p : PointId}
    {point : ConvergencePoint} (settled : Settled blake3 graph done s)
    (ordered : Topological graph.Edge (done ++ [p])) (new : p ∉ done)
    (found : graph.points[p]? = some point) (elapsed : Int) :
    Settled blake3 graph (done ++ [p])
      (s.record p (graph.settle blake3 (s.outcomes[·]?) p point elapsed)) := by
  generalize result_eq : graph.settle blake3 (s.outcomes[·]?) p point elapsed = result
  -- The point has no report yet, so that nothing is overwritten.
  have absent : s.outcomes[p]? = none := by
    rw [← Option.not_isSome_iff_eq_none, settled.listed]
    exact new
  have at_ (q : PointId) : (s.record p result).outcomes[q]? =
      if p = q then some result else s.outcomes[q]? := by
    simp [Std.ExtTreeMap.getElem?_insert]
  have other {q : PointId} (early : q ∈ done) : p ≠ q := fun same => new (same ▸ early)
  -- What was made of a point stands, since the new point is not upstream of it.
  have stands (q : PointId) (sources : ∀ r, graph.Edge r q → r ∈ done) (point : ConvergencePoint)
      (elapsed : Int) :
      graph.settle blake3 (s.outcomes[·]?) q point elapsed =
        graph.settle blake3 ((s.record p result).outcomes[·]?) q point elapsed := by
    refine ConvergenceGraph.settle_congr (fun r before => ?_) point elapsed
    rw [at_, if_neg (other (sources r before))]
  refine ⟨fun q => ?_, fun q => ?_, fun q => ?_, fun kind => ?_, fun q isDone => ?_⟩
  · -- One point more has a report.
    rw [at_, List.mem_append, List.mem_singleton, ← settled.listed]
    by_cases same : p = q
    · simp [same]
    · simp [same, Ne.symm same]
  · -- It joins the failures if its report is one.
    rw [mem_record_failedPoints, settled.failed_iff, at_]
    by_cases same : p = q
    · subst same
      simp [absent, reported]
    · simp [same]
  · -- It joins the chain with its attestation, if it has one.
    rw [record_attestationChain, settled.chain, at_]
    by_cases same : p = q
    · subst same
      cases attested : result.attestation <;> simp [absent, attested]
    · simp [same]
  · -- It counts for its own kind, and the others count as before.
    rw [record_count, settled.counted, List.countP_append, List.countP_singleton]
    congr 1
    · refine List.countP_congr fun q early => ?_
      rw [at_, if_neg (other early)]
    · simp [reported]
  · -- The earlier points have come to the same, and the new one to what is noted.
    obtain early | same := List.mem_append.mp isDone
    · obtain ⟨point, elapsed, known, solved⟩ := settled.solves q early
      refine ⟨point, elapsed, known, ?_⟩
      rw [at_, if_neg (other early), solved]
      exact congrArg some (stands q (fun r before => ordered.front.source_mem early before) _ _)
    · obtain rfl := List.mem_singleton.mp same
      refine ⟨point, elapsed, found, ?_⟩
      rw [at_, if_pos rfl, ← stands q (fun r before => ordered done q [] rfl r before), result_eq]

/-- The loop takes all points of a list in order, and each comes to what the points upstream make
of it. -/
theorem foldlM_settled (blake3 : ByteArray → BitVec 256) (order : List (Int × PointId))
    (ordered : Topological graph.Edge (order.map Prod.snd)) (nodup : (order.map Prod.snd).Nodup)
    (points : ∀ p ∈ order.map Prod.snd, p ∈ graph.points) :
    ∃ s, order.foldlM (step blake3 graph) {} = .ok s ∧
      Settled blake3 graph (order.map Prod.snd) s := by
  induction order using List.reverseRecOn with
  | nil =>
    refine ⟨{}, rfl, ⟨by simp, by simp [reported], by simp, fun kind => ?_, by simp⟩⟩
    cases kind <;> rfl
  | append_singleton order input ih =>
    obtain ⟨elapsed, p⟩ := input
    simp only [List.map_append, List.map_cons, List.map_nil] at ordered nodup points ⊢
    obtain ⟨s, ran, settled⟩ := ih ordered.front (List.nodup_append.mp nodup).1
      fun q listed => points q (List.mem_append_left _ listed)
    -- The last point is new, and it is one of the graph.
    have new : p ∉ order.map Prod.snd := fun again =>
      (List.nodup_append.mp nodup).2.2 p again p (by simp) rfl
    obtain ⟨point, found⟩ := Option.isSome_iff_exists.mp
      (Std.ExtTreeMap.mem_iff_isSome_getElem?.mp (points p (by simp)))
    refine ⟨_, ?_, settled.record ordered new found elapsed⟩
    rw [List.foldlM_append, ran]
    change (step blake3 graph s (elapsed, p) >>= pure) = _
    rw [settled.step_eq found elapsed]
    rfl

end Execution

/-- The report is not one of an execution. -/
def NotExecuted (blake3 : ByteArray → BitVec 256) (report : PointExecutionResult) : Prop :=
  ∀ point input elapsed, (executePoint blake3 point input elapsed).phase ≠ report.phase

/-- Failures spread exactly as far as the edges reach. -/
structure DagExecutionResult.Propagates (blake3 : ByteArray → BitVec 256)
    (graph : ConvergenceGraph) (result : DagExecutionResult) : Prop where
  everyPoint : ∀ p : PointId, result.outcomes[p]?.isSome ↔ p ∈ graph.points
  failed_iff : ∀ p : PointId, p ∈ graph.points →
    (reported result.outcomes[p]? = some .failed ↔
      ∃ origin, Relation.ReflTransGen graph.Edge origin p ∧
        graph.FailsAlone blake3 (result.outcomes[·]?) origin)
  downstream : ∀ p q : PointId, reported result.outcomes[p]? = some .failed →
    Relation.TransGen graph.Edge p q →
    ∃ report, result.outcomes[q]? = some report ∧ NotExecuted blake3 report ∧
      report.attestation = none
  total : result.convergedCount + result.failedCount + result.degradedCount = graph.points.size

/-- Two results that differ in nothing but the times, and in which point was the last. -/
structure DagExecutionResult.Agrees (left right : DagExecutionResult) : Prop where
  outcomes : ∀ p : PointId, left.outcomes[p]?.map PointExecutionResult.untimed =
    right.outcomes[p]?.map PointExecutionResult.untimed
  converged : left.convergedCount = right.convergedCount
  failed : left.failedCount = right.failedCount
  degraded : left.degradedCount = right.degradedCount

/-- No execution ends in the phase of a point that was skipped. -/
theorem notExecuted_skipped (p : PointId) : NotExecuted blake3 (skipped p) := by
  intro point input elapsed
  unfold executePoint skipped
  dsimp only
  split
  · simp
  · split
    · -- The reason would have to start with another letter.
      rename_i check _
      intro same
      have reasons := congrArg String.toList (BoundaryPhase.failed.inj same)
      simp at reasons
    · split <;> simp

namespace Execution.Settled

variable {s : Execution} {order : List PointId}

/-- A point fails if one upstream has failed, or else by its own checks. -/
theorem failed_cases (settled : Settled blake3 graph order s) {p : PointId} (listed : p ∈ order) :
    reported s.outcomes[p]? = some .failed ↔
      (∃ q, graph.Edge q p ∧ reported s.outcomes[q]? = some .failed) ∨
        graph.FailsAlone blake3 (s.outcomes[·]?) p := by
  obtain ⟨point, elapsed, found, solved⟩ := settled.solves p listed
  have blocks : (∃ q, graph.Edge q p ∧ reported s.outcomes[q]? = some .failed) ↔
      graph.blocked (s.outcomes[·]?) p = true := by
    simp [ConvergenceGraph.blocked, ConvergenceGraph.mem_upstream]
  rw [blocks, solved, ConvergenceGraph.settle]
  -- A point that is blocked fails by being skipped, and has no say of its own.
  cases graph.blocked (s.outcomes[·]?) p with
  | true => simp [reported, skipped, ConvergenceOutcome.kind]
  | false =>
    -- The outcome does not depend on the time that was measured.
    have outcome (elapsed' : Int) :
        (executePoint blake3 point (graph.inputOf (s.outcomes[·]?) p) elapsed').outcome =
          (executePoint blake3 point (graph.inputOf (s.outcomes[·]?) p) elapsed).outcome := by
      have same := congrArg PointExecutionResult.outcome
        (ConvergenceGraph.executePoint_untimed blake3 point (graph.inputOf (s.outcomes[·]?) p)
          elapsed' elapsed)
      exact same
    simp [ConvergenceGraph.FailsAlone, reported, found, outcome]

/-- A point fails exactly if it or one that it comes from fails by its own checks. -/
theorem failed_iff_origin (settled : Settled blake3 graph order s)
    (ordered : Topological graph.Edge order) (p : PointId) (listed : p ∈ order) :
    reported s.outcomes[p]? = some .failed ↔
      ∃ origin, Relation.ReflTransGen graph.Edge origin p ∧
        graph.FailsAlone blake3 (s.outcomes[·]?) origin := by
  -- By induction along the order: a path to the point is trivial, or it ends with an edge.
  revert p
  refine ordered.induction fun p listed ih => ?_
  rw [settled.failed_cases listed]
  constructor
  · -- The failure of a point upstream comes from somewhere, and an edge leads on from there.
    rintro (⟨q, before, failed⟩ | alone)
    · obtain ⟨origin, path, alone⟩ := (ih q before).mp failed
      exact ⟨origin, path.tail before, alone⟩
    · exact ⟨p, .refl, alone⟩
  · rintro ⟨origin, path, alone⟩
    obtain rfl | ⟨q, path, before⟩ := path.cases_tail
    · exact .inr alone
    · exact .inl ⟨q, before, (ih q before).mpr ⟨origin, path, alone⟩⟩

/-- Everything downstream of a failed point is skipped. -/
theorem downstream_skipped (settled : Settled blake3 graph order s)
    (targets : ∀ p q, graph.Edge p q → q ∈ order) {p q : PointId}
    (failed : reported s.outcomes[p]? = some .failed) (path : Relation.TransGen graph.Edge p q) :
    s.outcomes[q]? = some (skipped q) := by
  -- The point before it on the path has failed, at the latest because it was skipped.
  have blocked_ {a b : PointId} (before : graph.Edge a b)
      (failed : reported s.outcomes[a]? = some .failed) : s.outcomes[b]? = some (skipped b) := by
    obtain ⟨point, elapsed, -, solved⟩ := settled.solves b (targets a b before)
    have blocks : graph.blocked (s.outcomes[·]?) b = true := by
      rw [ConvergenceGraph.blocked, List.any_eq_true]
      exact ⟨a, ConvergenceGraph.mem_upstream.mpr before, by simpa using failed⟩
    rw [solved, ConvergenceGraph.settle, if_pos blocks]
  induction path with
  | single before => exact blocked_ before failed
  | tail _ before ih => exact blocked_ before (by rw [ih]; rfl)

/-- The three counters add up to the number of points that were taken. -/
theorem count_total (settled : Settled blake3 graph order s) :
    s.converged + s.failed + s.degraded = order.length := by
  -- Every point that was taken has a report.
  have each (p : PointId) (listed : p ∈ order) : (reported s.outcomes[p]?).isSome := by
    simpa [reported] using (settled.listed p).mpr listed
  have converged := settled.counted .converged
  have failed := settled.counted .failed
  have degraded := settled.counted .degraded
  simp only [Execution.count] at converged failed degraded
  rw [converged, failed, degraded]
  -- Each point is counted for exactly one kind.
  clear converged failed degraded settled
  induction order with
  | nil => rfl
  | cons p order ih =>
    have rest := ih fun q listed => each q (List.mem_cons_of_mem p listed)
    obtain ⟨kind, is⟩ := Option.isSome_iff_exists.mp (each p (by simp))
    cases kind <;> simp [is] <;> omega

end Execution.Settled

/-- Execution in a topological order runs to its end, where each point has come to what the points
upstream make of it. -/
theorem executeGraph_settled (blake3 : ByteArray → BitVec 256) (order : List (Int × PointId))
    (ordered : graph.IsTopologicalOrder (order.map Prod.snd)) (total : Int) :
    ∃ s : Execution, executeGraph blake3 graph order total = .ok (s.finish order total) ∧
      s.Settled blake3 graph (order.map Prod.snd) := by
  -- Each point is handled behind those upstream of it.
  obtain ⟨s, ran, settled⟩ := Execution.foldlM_settled blake3 order ordered.topological
    ordered.nodup fun p listed => Std.ExtTreeMap.mem_keys.mp (ordered.perm.mem_iff.mp listed)
  refine ⟨s, ?_, settled⟩
  rw [executeGraph, ran]
  rfl

/-- Failures spread as far as the edges reach, in whatever order the points are taken. -/
theorem Execution.Settled.propagates {s : Execution} {order : List (Int × PointId)}
    (settled : s.Settled blake3 graph (order.map Prod.snd)) (endpoints : graph.EndpointsExist)
    (ordered : graph.IsTopologicalOrder (order.map Prod.snd)) (total : Int) :
    (s.finish order total).Propagates blake3 graph where
  everyPoint p := by
    -- The order has the points of the graph.
    rw [← Std.ExtTreeMap.mem_keys, ← ordered.perm.mem_iff]
    exact settled.listed p
  failed_iff p point :=
    settled.failed_iff_origin ordered.topological p
      (ordered.perm.mem_iff.mpr (Std.ExtTreeMap.mem_keys.mpr point))
  downstream p q failed path := by
    -- The target of an edge is a point, and so the loop has come to it.
    have targets (a b : PointId) (before : graph.Edge a b) : b ∈ order.map Prod.snd := by
      obtain ⟨edge, listed, -, rfl⟩ := before
      exact ordered.perm.mem_iff.mpr (Std.ExtTreeMap.mem_keys.mpr (endpoints edge listed).2)
    exact ⟨skipped q, settled.downstream_skipped targets failed path, notExecuted_skipped q, rfl⟩
  total := by
    rw [← Std.ExtTreeMap.length_keys, ← ordered.perm.length_eq]
    exact settled.count_total

/-- Two orders make the same of every point. -/
theorem Execution.Settled.untimed_eq {left right : Execution} {order order' : List PointId}
    (settled : left.Settled blake3 graph order) (settled' : right.Settled blake3 graph order')
    (ordered : Topological graph.Edge order) (perm : order.Perm order') (p : PointId) :
    left.outcomes[p]?.map PointExecutionResult.untimed =
      right.outcomes[p]?.map PointExecutionResult.untimed := by
  by_cases listed : p ∈ order
  · -- Along the first order: the points upstream have come to the same.
    revert p
    refine ordered.induction fun p listed ih => ?_
    obtain ⟨point, elapsed, found, solved⟩ := settled.solves p listed
    obtain ⟨point', elapsed', found', solved'⟩ := settled'.solves p (perm.mem_iff.mp listed)
    rw [found, Option.some.injEq] at found'
    subst found'
    rw [solved, solved', Option.map_some, Option.map_some,
      ConvergenceGraph.settle_congr ih point elapsed,
      ConvergenceGraph.settle_untimed _ p point elapsed elapsed']
  · -- A point that neither order takes has no report in either.
    have absent : left.outcomes[p]? = none := by
      rw [← Option.not_isSome_iff_eq_none, settled.listed]
      exact listed
    have absent' : right.outcomes[p]? = none := by
      rw [← Option.not_isSome_iff_eq_none, settled'.listed, ← perm.mem_iff]
      exact listed
    rw [absent, absent']

/-- Two orders come to the same counts. -/
theorem Execution.Settled.count_eq {left right : Execution} {order order' : List PointId}
    (settled : left.Settled blake3 graph order) (settled' : right.Settled blake3 graph order')
    (ordered : Topological graph.Edge order) (perm : order.Perm order') (kind : OutcomeKind) :
    left.count kind = right.count kind := by
  -- The points are the same, and what has come of each is.
  rw [settled.counted, settled'.counted, ← perm.countP_eq]
  refine List.countP_congr fun p _ => ?_
  rw [(ConvergenceGraph.reads_untimed (settled.untimed_eq settled' ordered perm p)).1]

/-- Execution comes to the same in every topological order of a valid graph, and failures spread
exactly as far as the edges reach. -/
theorem executeGraph_confluent (blake3 : ByteArray → BitVec 256) (iteration : IterationOrder)
    (graph : ConvergenceGraph) (accepted : graph.validate iteration = .ok ())
    (left right : List (Int × PointId)) (leftTotal rightTotal : Int)
    (leftOrder : graph.IsTopologicalOrder (left.map Prod.snd))
    (rightOrder : graph.IsTopologicalOrder (right.map Prod.snd)) :
    ∃ leftResult rightResult,
      executeGraph blake3 graph left leftTotal = .ok leftResult ∧
      executeGraph blake3 graph right rightTotal = .ok rightResult ∧
      leftResult.Agrees rightResult ∧ leftResult.Propagates blake3 graph := by
  obtain ⟨endpoints, -⟩ := (ConvergenceGraph.validate_eq_ok_iff iteration graph).mp accepted
  obtain ⟨s, ran, settled⟩ := executeGraph_settled blake3 left leftOrder leftTotal
  obtain ⟨s', ran', settled'⟩ := executeGraph_settled blake3 right rightOrder rightTotal
  -- Both orders have the points of the graph, and nothing else.
  have perm := leftOrder.perm.trans rightOrder.perm.symm
  have count := settled.count_eq settled' leftOrder.topological perm
  refine ⟨_, _, ran, ran', ⟨?_, ?_, ?_, ?_⟩, settled.propagates endpoints leftOrder leftTotal⟩
  · exact settled.untimed_eq settled' leftOrder.topological perm
  · exact count .converged
  · exact count .failed
  · exact count .degraded

/-- A point with one precondition and no other checks. -/
def pointWith (name : String) (ready : Bool) : ConvergencePoint where
  name := name
  description := ""
  state := ⟨.unknown⟩
  boundary := ⟨[⟨"ready", ready⟩], [], none⟩

/-- Two sources, the first of which is not ready, and a target of both. -/
def twoSources : ConvergenceGraph where
  points := .ofList [((0 : PointId), pointWith "first" false), (1, pointWith "second" true),
    (2, pointWith "target" true)]
  edges := [⟨0, 2, .control⟩, ⟨1, 2, .data⟩]

/-- The orders of the two sources are as good as each other. -/
theorem executeGraph_confluent_twoSources :
    ∃ leftResult rightResult,
      executeGraph (fun _ => 0) twoSources [(10, 0), (20, 1), (30, 2)] 60 = .ok leftResult ∧
      executeGraph (fun _ => 0) twoSources [(5, 1), (4, 0), (3, 2)] 12 = .ok rightResult ∧
      leftResult.Agrees rightResult ∧ leftResult.Propagates (fun _ => 0) twoSources := by
  have leftOrder : twoSources.IsTopologicalOrder [0, 1, 2] :=
    ⟨by decide, by decide +kernel, by decide⟩
  have rightOrder : twoSources.IsTopologicalOrder [1, 0, 2] :=
    ⟨by decide, by decide +kernel, by decide⟩
  have endpoints : twoSources.EndpointsExist := by
    unfold ConvergenceGraph.EndpointsExist
    decide +kernel
  -- Any order of iteration will do.
  let iteration : IterationOrder := ⟨Std.ExtTreeMap.toList, fun _ => .refl _⟩
  exact executeGraph_confluent (fun _ => 0) iteration twoSources
    (leftOrder.accepted endpoints iteration) _ _ 60 12 leftOrder rightOrder

end Tatara.Convergence
