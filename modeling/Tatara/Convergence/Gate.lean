import Tatara.Convergence.Confluence

/-! When a declared input attestation keeps a point from being attested without it. -/

namespace Tatara.Convergence

open Tatara.Digraph

variable {blake3 : ByteArray → BitVec 256} {graph : ConvergenceGraph}

/-- What all points upstream have attested, combined, if each of them has attested something. -/
def ConvergenceGraph.fullInput (graph : ConvergenceGraph)
    (known : PointId → Option PointExecutionResult) (p : PointId) : Option String :=
  if (graph.upstream p).all fun q => ((known q).bind PointExecutionResult.attestation).isSome
  then graph.inputOf known p else none

/-- A point that declares the input it expects is attested only with this very input from all points
upstream. -/
def DagExecutionResult.GateHolds (graph : ConvergenceGraph) (result : DagExecutionResult) : Prop :=
  ∀ p point expected, graph.points[p]? = some point →
    point.boundary.inputAttestation = some expected →
    (result.outcomes[p]?.bind PointExecutionResult.attestation).isSome →
    graph.fullInput (result.outcomes[·]?) p = some expected

/-- All checks of the point have passed. -/
def ConvergencePoint.checksPass (point : ConvergencePoint) : Bool :=
  point.boundary.preconditions.all (·.passed) && point.boundary.postconditions.all (·.passed)

/-- The next round gets a point past its gate: nothing blocks it, an attestation is missing, and
those that are there do not show it. -/
structure Execution.Bypasses (graph : ConvergenceGraph) (s : Execution) (p : PointId)
    (point : ConvergencePoint) (expected : String) : Prop where
  passes : point.checksPass = true
  free : ∀ q ∈ graph.upstream p, q ∉ s.failedPoints
  missing : graph.upstream p = [] ∨ ∃ q ∈ graph.upstream p, s.attestationChain[q]? = none
  unnoticed : (graph.upstream p).filterMap (s.attestationChain[·]?) = [] ∨
    String.intercalate ":" ((graph.upstream p).filterMap (s.attestationChain[·]?)) = expected

/-- No round of the loop gets a point past its gate. -/
def NoBypass (blake3 : ByteArray → BitVec 256) (graph : ConvergenceGraph)
    (order : List (Int × PointId)) : Prop :=
  ∀ front elapsed p back s point expected, order = front ++ (elapsed, p) :: back →
    front.foldlM (Execution.step blake3 graph) {} = .ok s → graph.points[p]? = some point →
    point.boundary.inputAttestation = some expected → ¬ s.Bypasses graph p point expected

/-- A point is attested exactly if its checks pass and its input is not another than it expects. -/
theorem executePoint_attests (point : ConvergencePoint) (input : Option String) (elapsed : Int)
    {expected : String} (declared : point.boundary.inputAttestation = some expected) :
    (executePoint blake3 point input elapsed).attestation.isSome ↔
      point.checksPass = true ∧ (input = none ∨ input = some expected) := by
  -- All checks have passed exactly if the search for one that has not comes back empty.
  have passed (checks : List BoundaryCheck) :
      checks.all (·.passed) = (checks.find? (!·.passed)).isNone := by
    rw [Bool.eq_iff_iff]
    simp
  unfold executePoint ConvergencePoint.checksPass
  rw [passed, passed, declared]
  cases input with
  | none =>
    cases point.boundary.preconditions.find? (!·.passed) <;>
      cases point.boundary.postconditions.find? (!·.passed) <;> simp
  | some input =>
    -- An input that is there is compared.
    by_cases same : input = expected
    · cases point.boundary.preconditions.find? (!·.passed) <;>
        cases point.boundary.postconditions.find? (!·.passed) <;> simp [same]
    · simp [same]

/-- Several attestations make no input, or the expected one, exactly if there are none or they read
as expected. -/
theorem combine_unnoticed (attestations : List String) (expected : String) :
    (combine attestations = none ∨ combine attestations = some expected) ↔
      (attestations = [] ∨ String.intercalate ":" attestations = expected) := by
  unfold combine
  -- An empty list makes no input, and any other makes one.
  cases attestations with
  | nil => simp
  | cons first rest => simp

/-- An input that is none or the expected one lacks an attestation exactly if the full input is
not the expected one. -/
theorem missing_iff {upstream : List PointId} {attested : PointId → Option String}
    {expected : String} (unnoticed : combine (upstream.filterMap attested) = none ∨
      combine (upstream.filterMap attested) = some expected) :
    (upstream = [] ∨ ∃ q ∈ upstream, attested q = none) ↔
      (if upstream.all fun q => (attested q).isSome
        then combine (upstream.filterMap attested) else none) ≠ some expected := by
  by_cases complete : ∃ q ∈ upstream, attested q = none
  · -- One is missing, so there is no full input.
    have notAll : (upstream.all fun q => (attested q).isSome) = false := by
      rw [List.all_eq_false]
      obtain ⟨q, listed, none_⟩ := complete
      exact ⟨q, listed, by simp [none_]⟩
    simp [complete, notAll]
  · -- Nothing is missing, and the full input is the one that was combined.
    have all : (upstream.all fun q => (attested q).isSome) = true := by
      rw [List.all_eq_true]
      exact fun q listed => Option.isSome_iff_ne_none.mpr fun none_ => complete ⟨q, listed, none_⟩
    simp only [complete, all, or_false, if_true]
    cases upstream with
    | nil => simp [combine]
    | cons first rest =>
      -- The first one is there, so there is an input, and it is the expected one.
      obtain ⟨attestation, is⟩ := Option.isSome_iff_exists.mp
        (List.all_eq_true.mp all first (by simp))
      obtain none_ | same := unnoticed
      · simp [combine, is] at none_
      · simp [same]

namespace Execution

/-- The rest of the loop leaves the points that it does not come to. -/
theorem foldlM_outcomes {rest : List (Int × PointId)} {s s' : Execution}
    (ran : rest.foldlM (step blake3 graph) s = .ok s') {q : PointId}
    (other : q ∉ rest.map Prod.snd) : s'.outcomes[q]? = s.outcomes[q]? := by
  -- By induction over the rounds that are left.
  induction rest generalizing s with
  | nil =>
    obtain rfl : s = s' := Except.ok.inj ran
    rfl
  | cons input rest ih =>
    obtain ⟨elapsed, p⟩ := input
    obtain ⟨notFirst, notLater⟩ : q ≠ p ∧ q ∉ rest.map Prod.snd := by simpa using other
    rw [List.foldlM_cons] at ran
    cases first : step blake3 graph s (elapsed, p) with
    | error => simp [first, bind, Except.bind] at ran
    | ok next =>
      -- Each round notes a report of its own point.
      have noted : ∃ report, next = s.record p report := by
        unfold step at first
        dsimp only at first
        split at first
        · cases first
        · split at first
          · exact ⟨skipped p, (Except.ok.inj first).symm⟩
          · exact ⟨_, (Except.ok.inj first).symm⟩
      obtain ⟨report, rfl⟩ := noted
      rw [first] at ran
      rw [ih ran notLater, record_outcomes, Std.ExtTreeMap.getElem?_insert]
      simp [Ne.symm notFirst]

/-- Before the loop comes to a point, the points upstream have come to their ends. -/
theorem before_eq {order : List (Int × PointId)} {s : Execution}
    (ordered : graph.IsTopologicalOrder (order.map Prod.snd))
    (ran : order.foldlM (step blake3 graph) {} = .ok s) {front back : List (Int × PointId)}
    {elapsed : Int} {p : PointId} (split : order = front ++ (elapsed, p) :: back) :
    ∃ before, front.foldlM (step blake3 graph) {} = .ok before ∧
      Settled blake3 graph (front.map Prod.snd) before ∧
      ∀ q ∈ graph.upstream p, s.outcomes[q]? = before.outcomes[q]? := by
  subst split
  -- The front of the order is itself one that the loop can be run in.
  rw [List.map_append, List.map_cons] at ordered
  have topological := ordered.topological
  have nodup := ordered.nodup
  obtain ⟨before, ranFront, settled⟩ := foldlM_settled blake3 front topological.front
    (List.nodup_append.mp nodup).1 fun q listed => Std.ExtTreeMap.mem_keys.mp
      (ordered.perm.mem_iff.mp (List.mem_append_left _ listed))
  refine ⟨before, ranFront, settled, fun q listed => ?_⟩
  rw [List.foldlM_append, ranFront] at ran
  change ((elapsed, p) :: back).foldlM (step blake3 graph) before = .ok s at ran
  refine foldlM_outcomes ran fun later => ?_
  -- A point upstream has its place in front, and only there.
  have early := topological (front.map Prod.snd) p (back.map Prod.snd) rfl q
    (ConvergenceGraph.mem_upstream.mp listed)
  exact (List.nodup_append.mp nodup).2.2 q early q (by simpa using later) rfl

end Execution

/-- A point that is taken is attested exactly if nothing blocks it, its checks pass, and its input
is not another than it expects. -/
theorem attested_iff {order : List PointId} {s : Execution}
    (settled : s.Settled blake3 graph order) {p : PointId} (listed : p ∈ order)
    {point : ConvergencePoint} {expected : String} (found : graph.points[p]? = some point)
    (declared : point.boundary.inputAttestation = some expected) :
    (s.outcomes[p]?.bind PointExecutionResult.attestation).isSome ↔
      graph.blocked (s.outcomes[·]?) p = false ∧ point.checksPass = true ∧
        (graph.inputOf (s.outcomes[·]?) p = none ∨
          graph.inputOf (s.outcomes[·]?) p = some expected) := by
  obtain ⟨point', elapsed, found', solved⟩ := settled.solves p listed
  rw [found, Option.some.injEq] at found'
  subst found'
  rw [solved, Option.bind_some, ConvergenceGraph.settle]
  -- A point that is skipped leaves no attestation.
  cases graph.blocked (s.outcomes[·]?) p with
  | true => simp [skipped]
  | false => simpa using executePoint_attests point _ elapsed declared

/-- A round gets its point past the gate exactly if the point ends attested without the full input
that it expects. -/
theorem bypasses_iff {order done : List PointId} {s before : Execution}
    (settled : s.Settled blake3 graph order) (settledBefore : before.Settled blake3 graph done)
    {p : PointId} (listed : p ∈ order)
    (same : ∀ q ∈ graph.upstream p, s.outcomes[q]? = before.outcomes[q]?)
    {point : ConvergencePoint} {expected : String} (found : graph.points[p]? = some point)
    (declared : point.boundary.inputAttestation = some expected) :
    before.Bypasses graph p point expected ↔
      (s.outcomes[p]?.bind PointExecutionResult.attestation).isSome ∧
        graph.fullInput (s.outcomes[·]?) p ≠ some expected := by
  -- What the round reads of the points upstream is what they have come to in the end.
  have chain (q : PointId) (up : q ∈ graph.upstream p) : before.attestationChain[q]? =
      s.outcomes[q]?.bind PointExecutionResult.attestation := by
    rw [settledBefore.chain, same q up]
  have free : (∀ q ∈ graph.upstream p, q ∉ before.failedPoints) ↔
      graph.blocked (s.outcomes[·]?) p = false := by
    rw [ConvergenceGraph.blocked, List.any_eq_false]
    refine forall₂_congr fun q up => ?_
    rw [settledBefore.failed_iff, same q up]
    simp
  have missing : (graph.upstream p = [] ∨
        ∃ q ∈ graph.upstream p, before.attestationChain[q]? = none) ↔
      (graph.upstream p = [] ∨ ∃ q ∈ graph.upstream p,
        s.outcomes[q]?.bind PointExecutionResult.attestation = none) := by
    refine or_congr_right (exists_congr fun q => and_congr_right fun up => ?_)
    rw [chain q up]
  have inputs := List.filterMap_congr chain
  rw [attested_iff settled listed found declared]
  constructor
  · -- Past the gate: the input says nothing of the attestation that is missing.
    rintro ⟨passes, isFree, isMissing, unnoticed⟩
    rw [inputs, ← combine_unnoticed] at unnoticed
    exact ⟨⟨free.mp isFree, passes, unnoticed⟩,
      (missing_iff unnoticed).mp (missing.mp isMissing)⟩
  · rintro ⟨⟨isFree, passes, unnoticed⟩, lacking⟩
    refine ⟨passes, free.mpr isFree, missing.mpr ((missing_iff unnoticed).mpr lacking), ?_⟩
    rw [inputs, ← combine_unnoticed]
    exact unnoticed

/-- In every topological order the gates hold exactly if no round of the loop gets a point past its
gate. -/
theorem gateHolds_iff_noBypass (blake3 : ByteArray → BitVec 256) (graph : ConvergenceGraph)
    (order : List (Int × PointId)) (total : Int)
    (ordered : graph.IsTopologicalOrder (order.map Prod.snd)) :
    ∃ result, executeGraph blake3 graph order total = .ok result ∧
      (result.GateHolds graph ↔ NoBypass blake3 graph order) := by
  obtain ⟨s, ran, settled⟩ := Execution.foldlM_settled blake3 order ordered.topological
    ordered.nodup fun p listed => Std.ExtTreeMap.mem_keys.mp (ordered.perm.mem_iff.mp listed)
  refine ⟨s.finish order total, by rw [executeGraph, ran]; rfl, ?_⟩
  constructor
  · -- A round that gets a point past its gate leaves it attested without its input.
    intro holds front elapsed p back before point expected split ranFront found declared bypasses
    obtain ⟨before', ranFront', settledBefore, same⟩ := Execution.before_eq ordered ran split
    obtain rfl : before = before' := Except.ok.inj (ranFront.symm.trans ranFront')
    have listed : p ∈ order.map Prod.snd := by simp [split]
    obtain ⟨attested, lacking⟩ :=
      (bypasses_iff settled settledBefore listed same found declared).mp bypasses
    exact lacking (holds p point expected found declared attested)
  · intro never p point expected found declared attested
    -- A point that is attested was taken in some round.
    have listed : p ∈ order.map Prod.snd := by
      rw [← settled.listed]
      obtain ⟨result, is, -⟩ := Option.bind_eq_some_iff.mp
        (Option.isSome_iff_exists.mp attested).choose_spec
      exact Option.isSome_iff_exists.mpr ⟨result, is⟩
    obtain ⟨⟨elapsed, _⟩, isInput, rfl⟩ := List.mem_map.mp listed
    obtain ⟨front, back, split⟩ := List.append_of_mem isInput
    obtain ⟨before, ranFront, settledBefore, same⟩ := Execution.before_eq ordered ran split
    by_contra lacking
    exact never front elapsed _ back before point expected split ranFront found declared
      ((bypasses_iff settled settledBefore listed same found declared).mpr ⟨attested, lacking⟩)

/-- A point without checks that declares the input it expects. -/
def expecting (expected : String) : ConvergencePoint where
  name := "expecting"
  description := ""
  state := ⟨.unknown⟩
  boundary := ⟨[], [], some expected⟩

/-- A point that expects the attestation of the one point upstream. -/
def chained : ConvergenceGraph where
  points := .ofList [((0 : PointId), pointWith "first" true),
    (1, expecting (pillarHash (fun _ => 0) "first:genesis:0".toUTF8))]
  edges := [⟨0, 1, .attestation⟩]

/-- The gate of a chain of two points. -/
theorem gateHolds_iff_noBypass_chained :
    ∃ result, executeGraph (fun _ => 0) chained [(0, 0), (0, 1)] 0 = .ok result ∧
      (result.GateHolds chained ↔ NoBypass (fun _ => 0) chained [(0, 0), (0, 1)]) :=
  gateHolds_iff_noBypass (fun _ => 0) chained [(0, 0), (0, 1)] 0
    ⟨by decide, by decide +kernel, by decide⟩

/-- A point that expects an input, and no point upstream to get it from. -/
def alone : ConvergenceGraph where
  points := .ofList [((0 : PointId), expecting "expected")]
  edges := []

/-- A point without points upstream is attested in spite of the input that it declares. -/
theorem not_gateHolds_alone :
    ¬ ∀ (blake3 : ByteArray → BitVec 256) (iteration : IterationOrder) (graph : ConvergenceGraph)
      (order : List (Int × PointId)) (total : Int) (result : DagExecutionResult),
      graph.validate iteration = .ok () → graph.IsTopologicalOrder (order.map Prod.snd) →
      executeGraph blake3 graph order total = .ok result → result.GateHolds graph := by
  intro always
  have ordered : alone.IsTopologicalOrder [0] := ⟨by decide, by decide +kernel, by decide⟩
  have endpoints : alone.EndpointsExist := fun edge listed => by simp [alone] at listed
  let iteration : IterationOrder := ⟨Std.ExtTreeMap.toList, fun _ => .refl _⟩
  have accepted := ordered.accepted endpoints iteration
  obtain ⟨s, ran, -⟩ := executeGraph_settled (fun _ => 0) [(0, 0)] ordered 0
  have holds := always (fun _ => 0) iteration alone [(0, 0)] 0 _ accepted ordered ran
  -- The point is attested, and nothing was combined for it.
  have attested : (executeGraph (fun _ => 0) alone [(0, 0)] 0).toOption.map (fun result =>
      (result.outcomes[(0 : PointId)]?.bind PointExecutionResult.attestation).isSome) =
        some true := by
    decide +kernel
  rw [ran] at attested
  have full := holds 0 (expecting "expected") "expected" (by decide +kernel) rfl
    (Option.some.inj attested)
  have empty : alone.upstream 0 = [] := rfl
  rw [ConvergenceGraph.fullInput, ConvergenceGraph.inputOf, empty] at full
  cases full

end Tatara.Convergence
