import Tatara.Domain.Allocation
import Tatara.Lib.Program

/-! The evaluator, which places the allocations of a job that is new. -/

namespace Tatara.Scheduling

open Tatara.Domain Tatara.Rust

/-- How nodes are filled: one after the other, or evenly. -/
inductive SchedulingStrategy where
  | binPack
  | spread
  deriving DecidableEq, Repr

/-- `regex_match`, which knows no more than one star. -/
def regexMatch (value pattern : List Char) : Bool :=
  if pattern = ['*'] then true
  else
    match stripPrefix ['*'] pattern with
    | some suffix => decide (suffix <:+ value)
    | none =>
      match stripSuffix ['*'] pattern with
      | some front => decide (front <+: value)
      | none => value = pattern

/-- A comparison of two numbers, of which nothing holds unless both texts are numbers. -/
def compareNumbers (holds : F64 → F64 → Bool) (a b : String) : Bool :=
  match F64.parse a.toList, F64.parse b.toList with
  | some x, some y => holds x y
  | _, _ => false

/-- The value of an attribute of a node; the three that every node has are empty if it lacks
them. -/
def attributeOf (node : Node) (attr : String) : Option String :=
  if attr = "os" ∨ attr = "$\x7battr.os\x7d" then some (node.attributes["os"]?.getD "")
  else if attr = "arch" ∨ attr = "$\x7battr.arch\x7d" then some (node.attributes["arch"]?.getD "")
  else if attr = "hostname" ∨ attr = "$\x7battr.hostname\x7d" then
    some (node.attributes["hostname"]?.getD "")
  else
    let key := ((stripPrefix "$\x7battr.".toList attr.toList).bind
      (stripSuffix ['\x7d'])).getD attr.toList
    node.attributes[String.ofList key]?

/-- `constraint_matches`. -/
def constraintMatches (node : Node) (constraint : Constraint) : Bool :=
  match attributeOf node constraint.attribute with
  | none => constraint.operator = "!="
  | some attrValue =>
    match constraint.operator with
    | "=" | "==" => attrValue = constraint.value
    | "!=" => attrValue ≠ constraint.value
    | ">" => compareNumbers (fun a b => F64.lt b a) attrValue constraint.value
    | "<" => compareNumbers F64.lt attrValue constraint.value
    | ">=" => compareNumbers (fun a b => F64.le b a) attrValue constraint.value
    | "<=" => compareNumbers F64.le attrValue constraint.value
    | "regexp" | "~" => regexMatch attrValue.toList constraint.value.toList
    | "set_contains" =>
      (attrValue.toList.splitOn ',').any fun v => trimText v = constraint.value.toList
    -- An operator that is not known is taken for equality.
    | _ => attrValue = constraint.value

/-- `constraints_match`. -/
def constraintsMatch (node : Node) (constraints : List Constraint) : Bool :=
  constraints.all (constraintMatches node)

/-- `resources_sufficient`. -/
def resourcesSufficient (available required : Resources) : Bool :=
  if required.cpuMhz = 0 ∧ required.memoryMb = 0 then true
  else
    (required.cpuMhz = 0 || required.cpuMhz ≤ available.cpuMhz) &&
      (required.memoryMb = 0 || required.memoryMb ≤ available.memoryMb)

/-- `saturating_sub`. -/
def saturatingSub (a b : UInt64) : UInt64 := if a < b then 0 else a - b

/-- What is left of the resources of a node. -/
def Resources.without (available required : Resources) : Resources :=
  { cpuMhz := saturatingSub available.cpuMhz required.cpuMhz
    memoryMb := saturatingSub available.memoryMb required.memoryMb }

/-- The score of a node: how full it is after the allocation, or how empty. -/
def score (strategy : SchedulingStrategy) (node : Node) (available required : Resources) : F64 :=
  let remaining := Resources.without available required
  let part (remaining total : UInt64) : F64 :=
    (F64.ofU64 remaining).div (F64.ofU64 (max total 1))
  let cpu := part remaining.cpuMhz node.totalResources.cpuMhz
  let mem := part remaining.memoryMb node.totalResources.memoryMb
  match strategy with
  | .binPack =>
    let used (headroom : F64) : F64 := (F64.ofU64 1).sub headroom
    ((used cpu).add (used mem)).div (F64.ofU64 2)
  | .spread => (cpu.add mem).div (F64.ofU64 2)

/-- The body of the loop of `pick_node`. -/
def betterCandidate (required : Resources) (constraints : List Constraint)
    (strategy : SchedulingStrategy) (best : Option (Nat × F64))
    (candidate : (Node × Resources) × Nat) : Option (Nat × F64) :=
  let ((node, available), idx) := candidate
  if !resourcesSufficient available required then best
  else if !constraintsMatch node constraints then best
  else
    let score := score strategy node available required
    match best with
    | none => some (idx, score)
    -- Of equal scores the first one stays.
    | some (_, bestScore) => if bestScore.lt score then some (idx, score) else best

/-- `pick_node`. -/
def pickNode (candidates : List (Node × Resources)) (required : Resources)
    (constraints : List Constraint) (strategy : SchedulingStrategy) : Option (Node × Nat) :=
  let best := candidates.zipIdx.foldl (betterCandidate required constraints strategy) none
  best.bind fun (idx, _) => candidates[idx]?.map fun candidate => (candidate.1, idx)

/-- The best candidate so far is one that satisfies the constraints. -/
def Qualifies (candidates : List (Node × Resources)) (constraints : List Constraint)
    (best : Option (Nat × F64)) : Prop :=
  ∀ idx score, best = some (idx, score) →
    ∃ candidate, candidates[idx]? = some candidate ∧ constraintsMatch candidate.1 constraints

/-- A candidate has what is required and satisfies the constraints. -/
def Fitting (required : Resources) (constraints : List Constraint) (candidate : Node × Resources) :
    Prop :=
  resourcesSufficient candidate.2 required = true ∧ constraintsMatch candidate.1 constraints = true

instance (required : Resources) (constraints : List Constraint) (candidate : Node × Resources) :
    Decidable (Fitting required constraints candidate) :=
  inferInstanceAs (Decidable (_ ∧ _))

/-- Only a candidate that has passed both checks takes the place of the best one, and it does so
where there is none. -/
theorem betterCandidate_cases (required : Resources) (constraints : List Constraint)
    (strategy : SchedulingStrategy) (best : Option (Nat × F64))
    (candidate : (Node × Resources) × Nat) :
    (Fitting required constraints candidate.1 ∧
      ∃ score, betterCandidate required constraints strategy best candidate =
        some (candidate.2, score)) ∨
    (betterCandidate required constraints strategy best candidate = best ∧
      (best = none → ¬ Fitting required constraints candidate.1)) := by
  -- The checks are made in their order, and the score only counts behind both.
  obtain ⟨⟨node, available⟩, idx⟩ := candidate
  simp only [betterCandidate, Fitting]
  by_cases enough : resourcesSufficient available required
  · by_cases matched : constraintsMatch node constraints
    · simp only [enough, matched, Bool.not_true, Bool.false_eq_true, if_false]
      cases best with
      | none => exact .inl ⟨⟨trivial, trivial⟩, _, rfl⟩
      | some previous =>
        dsimp only
        split
        · exact .inl ⟨⟨trivial, trivial⟩, _, rfl⟩
        · exact .inr ⟨rfl, nofun⟩
    · exact .inr (by simp [enough, matched])
  · exact .inr (by simp [enough])

/-- A candidate that takes the place matches the constraints as the one before did. -/
theorem qualifies_betterCandidate {candidates : List (Node × Resources)} {required : Resources}
    {constraints : List Constraint} {strategy : SchedulingStrategy} {best : Option (Nat × F64)}
    {candidate : (Node × Resources) × Nat} (present : candidates[candidate.2]? = some candidate.1)
    (qualifies : Qualifies candidates constraints best) :
    Qualifies candidates constraints
      (betterCandidate required constraints strategy best candidate) := by
  -- The candidate takes the place, and then it has passed, or the best one stays.
  rcases betterCandidate_cases required constraints strategy best candidate with
    ⟨fits, score, chosen⟩ | ⟨kept, -⟩
  · intro idx s same
    cases chosen.symm.trans same
    exact ⟨_, present, fits.2⟩
  · rw [kept]
    exact qualifies

/-- The node that is picked is the candidate at its index, and it satisfies the constraints. -/
theorem pickNode_spec {candidates : List (Node × Resources)} {required : Resources}
    {constraints : List Constraint} {strategy : SchedulingStrategy} {node : Node} {idx : Nat}
    (picked : pickNode candidates required constraints strategy = some (node, idx)) :
    ∃ available, candidates[idx]? = some (node, available) ∧ constraintsMatch node constraints := by
  -- The invariant goes through the loop over the numbered candidates.
  have qualifies : Qualifies candidates constraints
      (candidates.zipIdx.foldl (betterCandidate required constraints strategy) none) :=
    List.foldlRecOn _ _ (by simp [Qualifies]) fun _ kept _ among =>
      qualifies_betterCandidate (List.mem_zipIdx_iff_getElem?.mp among) kept
  simp only [pickNode, Option.bind_eq_some_iff, Option.map_eq_some_iff] at picked
  obtain ⟨⟨best, score⟩, found, candidate, present, same⟩ := picked
  cases same
  obtain ⟨_, present', matched⟩ := qualifies _ _ found
  rw [present] at present'
  cases present'
  exact ⟨candidate.2, present, matched⟩

/-- The best candidate of all is one that fits. -/
theorem fitting_of_best {candidates : List (Node × Resources)} {required : Resources}
    {constraints : List Constraint} {strategy : SchedulingStrategy} {idx : Nat} {score : F64}
    (best : candidates.zipIdx.foldl (betterCandidate required constraints strategy) none =
      some (idx, score)) :
    ∃ candidate, candidates[idx]? = some candidate ∧ Fitting required constraints candidate := by
  -- What is kept as the best candidate is one that has passed both checks.
  let Chosen (best : Option (Nat × F64)) : Prop := ∀ i s, best = some (i, s) →
    ∃ candidate, candidates[i]? = some candidate ∧ Fitting required constraints candidate
  have chosen : Chosen (candidates.zipIdx.foldl
      (betterCandidate required constraints strategy) none) := by
    refine List.foldlRecOn (motive := Chosen) _ _ nofun fun best kept entry among => ?_
    rcases betterCandidate_cases required constraints strategy best entry with
      ⟨fits, score, taken⟩ | ⟨same, -⟩
    · intro i s now
      cases taken.symm.trans now
      exact ⟨_, List.mem_zipIdx_iff_getElem?.mp among, fits⟩
    · rw [same]
      exact kept
  exact chosen idx score best

/-- The node that is picked has what is required. -/
theorem fitting_of_pickNode {candidates : List (Node × Resources)} {required : Resources}
    {constraints : List Constraint} {strategy : SchedulingStrategy} {node : Node} {idx : Nat}
    (picked : pickNode candidates required constraints strategy = some (node, idx)) :
    ∃ available, candidates[idx]? = some (node, available) ∧
      Fitting required constraints (node, available) := by
  -- The best entry is among the candidates under its number.
  simp only [pickNode, Option.bind_eq_some_iff, Option.map_eq_some_iff] at picked
  obtain ⟨⟨best, score⟩, found, candidate, present, same⟩ := picked
  cases same
  obtain ⟨_, present', fits⟩ := fitting_of_best found
  rw [present] at present'
  cases present'
  exact ⟨candidate.2, present, fits⟩

/-- Once there is a best candidate, there is one to the end. -/
theorem foldl_betterCandidate_eq_none {required : Resources} {constraints : List Constraint}
    {strategy : SchedulingStrategy} {entries : List ((Node × Resources) × Nat)}
    {best : Option (Nat × F64)}
    (nobody : entries.foldl (betterCandidate required constraints strategy) best = none) :
    best = none ∧ ∀ entry ∈ entries, ¬ Fitting required constraints entry.1 := by
  -- The first candidate does not fit, as it would be the best one else.
  induction entries generalizing best with
  | nil => exact ⟨nobody, by simp⟩
  | cons entry entries ih =>
    obtain ⟨here, others⟩ := ih nobody
    rcases betterCandidate_cases required constraints strategy best entry with
      ⟨-, score, taken⟩ | ⟨same, unfit⟩
    · rw [taken] at here
      cases here
    · rw [same] at here
      exact ⟨here, List.forall_mem_cons.mpr ⟨unfit here, others⟩⟩

/-- A node is picked wherever there is one that fits. -/
theorem pickNode_eq_none_iff {candidates : List (Node × Resources)} {required : Resources}
    {constraints : List Constraint} {strategy : SchedulingStrategy} :
    pickNode candidates required constraints strategy = none ↔
      ∀ candidate ∈ candidates, ¬ Fitting required constraints candidate := by
  constructor
  · intro unpicked candidate among
    obtain ⟨idx, present⟩ := List.mem_iff_getElem?.mp among
    have nobody : candidates.zipIdx.foldl (betterCandidate required constraints strategy) none =
        none := by
      -- The best candidate would have been the node that is picked.
      by_contra somebody
      obtain ⟨⟨i, score⟩, best⟩ := Option.ne_none_iff_exists'.mp somebody
      obtain ⟨found, there, -⟩ := fitting_of_best best
      simp [pickNode, best, there] at unpicked
    exact (foldl_betterCandidate_eq_none nobody).2 (candidate, idx)
      (List.mem_zipIdx_iff_getElem?.mpr present)
  · intro unfit
    cases picked : pickNode candidates required constraints strategy with
    | none => rfl
    | some found =>
      obtain ⟨available, present, fits⟩ := fitting_of_pickNode picked
      exact absurd fits (unfit _ (List.mem_of_getElem? present))

/-- What an update writes into a job. -/
structure JobUpdate where
  groups : List TaskGroup
  constraints : List Constraint
  «meta» : Std.ExtTreeMap String String
  specHash : String
  version : UInt64

/-- The calls to the surroundings that placing makes. -/
inductive Call where
  | newUuid
  | now
  | listAllocationsForJob (jobId : String)
  | listNodes
  | listJobs
  | putAllocation (alloc : Allocation)
  | startAllocation (alloc : Allocation)
  | stopAllocation (allocId : Uuid) (secs : Nat)
  | evalExpr (expr : String)
  | updateJob (jobId : String) (update : JobUpdate)
  | updateJobStatus (jobId : String) (status : JobStatus)

/-- What each call is answered with. -/
abbrev Answer : Call → Type
  | .newUuid => Uuid
  | .now => DateTime
  | .listAllocationsForJob _ => List Allocation
  | .listNodes => List Node
  | .listJobs => List Job
  | .putAllocation _ | .startAllocation _ | .stopAllocation _ _ | .updateJob _ _
  | .updateJobStatus _ _ => Except String Unit
  | .evalExpr _ => Except String JobSpec

/-- A part of the engine, as far as it calls its surroundings. -/
abbrev Task := Program Call Answer

/-- A part of the engine that may fail. -/
abbrev Handler := ExceptT String Task

/-- A new allocation of a task group on a node. -/
def allocate (jobId : String) (group : TaskGroup) (nodeId : String) : Task Allocation := do
  let id ← Program.call .newUuid
  let createdAt ← Program.call .now
  return Allocation.new id createdAt jobId group.name nodeId (group.tasks.map (·.name))

/-- The nodes that take work. -/
def readyNodes (nodes : List Node) : List Node := nodes.filter Node.isReady

/-- How many instances of a group a job is to have. -/
def desiredCount (job : Job) (group : TaskGroup) (ready : List Node) : UInt32 :=
  match job.jobType with
  | .system => UInt32.ofNat ready.length
  | _ => group.count

/-- The node of one instance of a group, and what the nodes have left behind it. -/
def placeInstance (strategy : SchedulingStrategy) (job : Job) (group : TaskGroup)
    (ready : List Node) (available : List (Node × Resources)) (i : Nat) :
    Option (Node × List (Node × Resources)) :=
  match job.jobType with
  -- The job goes to every node, whatever its constraints are.
  | .system => ready[i]?.map fun node => (node, available)
  | _ =>
    (pickNode available group.resources job.constraints strategy).map fun (node, idx) =>
      (node, available.modify idx fun (n, left) => (n, Resources.without left group.resources))

/-- The loop of `evaluate_job` over the instances of a group. -/
def placeInstances (strategy : SchedulingStrategy) (job : Job) (group : TaskGroup)
    (ready : List Node) : List Nat → List (Node × Resources) → Task (List Allocation)
  | [], _ => return []
  | i :: rest, available =>
    match placeInstance strategy job group ready available i with
    | none => placeInstances strategy job group ready rest available
    | some (node, available) => do
      let alloc ← allocate job.id group node.id
      let allocations ← placeInstances strategy job group ready rest available
      return alloc :: allocations

/-- The loop of `evaluate_job` over the groups. -/
def evaluateGroup (strategy : SchedulingStrategy) (job : Job) (ready : List Node)
    (group : TaskGroup) : Task (List Allocation) :=
  placeInstances strategy job group ready (List.range (desiredCount job group ready).toNat)
    (ready.map fun n => (n, n.availableResources))

/-- `evaluate_job`. -/
def evaluateJob (strategy : SchedulingStrategy) (job : Job) (nodes : List Node) :
    Task (List Allocation) := do
  let ready := readyNodes nodes
  if ready.isEmpty then return []
  let allocations ← job.groups.mapM (evaluateGroup strategy job ready)
  return allocations.flatten

end Tatara.Scheduling
