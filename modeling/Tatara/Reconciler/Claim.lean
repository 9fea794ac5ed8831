import Mathlib.Data.Prod.Lex
import Mathlib.Data.String.Basic
import Tatara.Lib.Least
import Tatara.Reconciler.PhaseMachine

/-! Who gets a stable name: the decision for one entry of the registry, and the controller of the
table, which decides all of them. -/

namespace Tatara.Reconciler

open Tatara.Rust Tatara.Crd

/-- A Process that asks for a stable name. -/
structure Candidate where
  processRef : String
  pid : String
  priority : Int
  phase : ProcessPhase
  createdAt : DateTime
  deriving DecidableEq

/-- `LIVE_PHASES_FOR_CLAIM`. -/
def livePhasesForClaim : List ProcessPhase := [.running, .attested]

namespace Candidate

/-- `is_live`. -/
def isLive (c : Candidate) : Bool := c.phase ∈ livePhasesForClaim

/-- `matches_holder`. -/
def matchesHolder (c : Candidate) (holder : ClaimRecord) : Bool :=
  c.processRef = holder.holder && c.pid = holder.pid

/-- The entry of a candidate that is granted the name. -/
def record (c : Candidate) (now : DateTime) : ClaimRecord :=
  { holder := c.processRef, pid := c.pid, grantedAt := now, priority := c.priority }

/-- The better one of two candidates. -/
def better (a b : Candidate) : Candidate :=
  if a.priority ≠ b.priority then
    if b.priority < a.priority then a else b
  -- Of the same priority the older one is better.
  else if a.createdAt ≠ b.createdAt then
    if a.createdAt.nanos < b.createdAt.nanos then a else b
  else if a.processRef < b.processRef then a else b

end Candidate

/-- `best_candidate`, which is never asked about no candidates at all. -/
def bestCandidate : List Candidate → Option Candidate
  | [] => none
  | c :: candidates => some (candidates.foldl Candidate.better c)

/-- What becomes of an entry of the registry. -/
inductive ClaimDecision where
  | hold
  | transfer (next : ClaimRecord)
  | vacate
  deriving DecidableEq

/-- `decide_claim_for`. -/
def decideClaimFor (current : Option ClaimRecord) (candidates : List Candidate) (now : DateTime) :
    ClaimDecision :=
  match bestCandidate (candidates.filter (·.isLive)) with
  | none => .vacate
  | some winner =>
    match current with
    | some holder =>
      if winner.matchesHolder holder then .hold else .transfer (winner.record now)
    | none => .transfer (winner.record now)

namespace Candidate

/-- The place of a candidate in line: the smaller, the better. -/
def rank (c : Candidate) : ℤ ×ₗ ℤ ×ₗ String :=
  toLex (-c.priority, toLex (c.createdAt.nanos, c.processRef))

/-- One candidate is in front of another by its priority, or by its age, or else by its name. -/
theorem rank_lt_iff {a b : Candidate} :
    a.rank < b.rank ↔
      b.priority < a.priority ∨
        a.priority = b.priority ∧ (a.createdAt.nanos < b.createdAt.nanos ∨
          a.createdAt = b.createdAt ∧ a.processRef < b.processRef) := by
  -- The rank puts the highest priority first, which is why its sign is turned.
  have stamps : a.createdAt = b.createdAt ↔ a.createdAt.nanos = b.createdAt.nanos := by
    cases a.createdAt
    cases b.createdAt
    simp
  have higher : -a.priority < -b.priority ↔ b.priority < a.priority := by omega
  have level : -a.priority = -b.priority ↔ a.priority = b.priority := by omega
  simp only [rank, Prod.Lex.toLex_lt_toLex, higher, level, stamps]

/-- The comparison of the source picks the one that is in front. -/
theorem better_eq (a b : Candidate) : a.better b = lesserBy rank a b := by
  unfold better lesserBy
  have whole := @rank_lt_iff a b
  -- Every level of the comparison decides, or else leaves it to the next one.
  by_cases priority : a.priority = b.priority
  · by_cases created : a.createdAt = b.createdAt
    · simp only [priority, created, ne_eq, not_true_eq_false, if_false, whole, lt_irrefl, true_and,
        false_or]
    · simp only [priority, created, ne_eq, not_true_eq_false, not_false_eq_true, if_true, if_false,
        whole, lt_irrefl, true_and, false_and, false_or, or_false]
  · simp only [priority, ne_eq, not_false_eq_true, if_true, whole, false_and, or_false]

end Candidate

/-- The best candidate is the least one by the rank. -/
theorem bestCandidate_eq (candidates : List Candidate) :
    bestCandidate candidates = leastBy Candidate.rank candidates := by
  -- The two comparisons are one, so that folding either gives the same.
  have same : Candidate.better = lesserBy Candidate.rank := by
    funext a b
    exact Candidate.better_eq a b
  cases candidates with
  | nil => rfl
  | cons c candidates => rw [bestCandidate, leastBy, same]

/-- The key of a hostname in the registry. -/
def claimKey (config : Config) (hostname : RoutingHostname) : String :=
  hostname.clusterOr config.cluster ++ "/" ++ hostname.app

/-- A Process as a candidate, by the time of its creation. -/
def candidate (p : Process) (routing : RoutingSpec) (createdAt : DateTime) : Candidate :=
  { processRef := p.qualifiedRef
    pid := p.observedPid.getD ""
    priority := routing.priority
    phase := p.observedPhaseOrPending
    createdAt }

/-- The candidacies of a Process: one for each of its hostnames, where it asks for stable names. -/
def candidacies (config : Config) (p : Process) : Task (List (String × Candidate)) := do
  match p.spec.routing with
  | none => return []
  | some routing =>
    if !routing.stableNameClaim then return []
    else
      -- `created_at_or_now` looks at the clock whether or not the stamp is there.
      let now ← utcNow
      return routing.hostnames.map fun hostname =>
        (claimKey config hostname, candidate p routing (p.createdAtOr now))

/-- Candidates under the keys of the names they ask for. -/
abbrev Groups := Std.ExtTreeMap String (List Candidate)

/-- Put a candidate behind the others that ask for the same name. -/
def Groups.push (groups : Groups) (entry : String × Candidate) : Groups :=
  groups.insert entry.1 (groups.getD entry.1 [] ++ [entry.2])

/-- The candidates, grouped by key. -/
def groupCandidates (entries : List (String × Candidate)) : Groups := entries.foldl Groups.push ∅

/-- What one key adds to the new registry. -/
def arbitrateKey (current : Claims) (groups : Groups) (now : DateTime) (claims : Claims)
    (key : String) : Claims :=
  match decideClaimFor current[key]? (groups.getD key []) now with
  | .hold =>
    match current[key]? with
    | some holder => claims.insert key holder
    | none => claims
  | .transfer next => claims.insert key next
  -- A name that nobody gets has no entry.
  | .vacate => claims

/-- The new registry: every key that has an entry or a candidate is decided. -/
def arbitrate (current : Claims) (groups : Groups) (now : DateTime) : Claims :=
  let allKeys := (current.keys ++ groups.keys).foldl
    (fun keys key => keys.insert key ()) (∅ : Std.ExtTreeMap String Unit)
  allKeys.keys.foldl (arbitrateKey current groups now) ∅

/-- The registry that a look at the table comes to, where a failure counts as an empty one. -/
def currentClaims : Except String (Option ProcessTable) → Claims
  | .ok (some table) => table.claims.getD ∅
  | _ => ∅

/-- `reconcile` of the table, once the Processes are listed. -/
def reconcileClaims (config : Config) (processes : List Process) : Task Action := do
  let entries ← processes.mapM (candidacies config)
  let current := currentClaims (← send .getProcessTable)
  let now ← utcNow
  let claims := arbitrate current (groupCandidates entries.flatten) now
  if claims ≠ current then
    -- A patch that fails is left to the next reconcile.
    let _ ← send (.applyClaims claims)
    return heartbeat
  else return heartbeat

/-- `reconcile` of the table. -/
def reconcileTable (config : Config) : Task (Except String Action) := do
  match ← send .listProcesses with
  | .error e => return .error e
  | .ok processes => return .ok (← reconcileClaims config processes)

end Tatara.Reconciler
