import Mathlib.Data.Prod.Lex
import Mathlib.Data.String.Basic
import Tatara.Crd.Allocation
import Tatara.Lib.Least

/-! Which pool an allocation goes to, and what is decided about it. -/

namespace Tatara.Allocation

open Tatara.Crd Tatara.Rust

/-- A pool that a request matches, and how much the pool asks for. -/
structure MatchedPool where
  pool : EphemeralPool
  specificity : Nat

/-- The body of the loop of `best_match`. -/
def betterMatch (key : MatchKey) (best : Option MatchedPool) (pool : EphemeralPool) :
    Option MatchedPool :=
  if !pool.spec.selector.matchesKey key then best
  else
    let score := pool.spec.selector.specificity
    match best with
    | none => some { pool, specificity := score }
    | some b =>
      -- Of equally specific pools the one with the first name is taken.
      if b.specificity < score ∨
          (score = b.specificity ∧ pool.metadata.name < b.pool.metadata.name) then
        some { pool, specificity := score }
      else best

/-- `best_match`. -/
def bestMatch (candidates : List EphemeralPool) (key : MatchKey) : Option MatchedPool :=
  candidates.foldl (betterMatch key) none

/-- `match_key_from_requestor`, with the labels. -/
def matchKeyFromRequestor (r : Requestor) : MatchKey :=
  { repo := r.repo.getD "", branch := r.branch.getD "", prLabels := r.prLabels, kind := r.kind }

/-- `resolve_pool`. -/
def resolvePool (alloc : EphemeralAllocation) (candidatePools : List EphemeralPool) :
    Option EphemeralPool :=
  match alloc.spec.poolRef with
  | some ref =>
    -- A pool that is named is looked for by its name and its namespace, and by nothing else.
    candidatePools.find? fun pool =>
      pool.metadata.name = ref.name ∧ pool.metadata.ns = some ref.ns
  | none =>
    (bestMatch candidatePools (matchKeyFromRequestor alloc.spec.requestor)).map (·.pool)

/-- What is to be done about an allocation. -/
inductive AllocationDecision where
  | bind (pool : AllocationRef) (memberProcessName : String)
  | wait (pool : AllocationRef)
  | noMatchingPool
  | heartbeatBound
  | release (memberProcessName : String) (pool : AllocationRef)
  | noOp
  deriving DecidableEq, Repr

/-- What the decision on an allocation goes by. -/
structure AllocationConvergenceCtx where
  phase : AllocationPhase
  beingDeleted : Bool
  expiresAt : Option DateTime
  assignedProcess : Option String
  boundPool : Option AllocationRef
  now : DateTime
  matchedPool : Option AllocationRef
  freeMember : Option String

namespace AllocationConvergenceCtx

/-- `observe`. -/
def observe (alloc : EphemeralAllocation) (candidatePools : List EphemeralPool)
    (poolMembers : EphemeralPool → List PoolMember) (now : DateTime) :
    AllocationConvergenceCtx :=
  let phase := alloc.observedPhaseOrPending
  let beingDeleted := alloc.isBeingDeleted
  -- A pool is looked for only where there may be a member to bind.
  let pool :=
    if phase.needsPoolRouting && !beingDeleted then resolvePool alloc candidatePools else none
  { phase, beingDeleted, now
    expiresAt := alloc.observedExpiresAt
    assignedProcess := alloc.assignedProcess.map (·.name)
    boundPool := alloc.observedBoundPool
    matchedPool :=
      pool.map fun pool => { name := pool.metadata.name, ns := pool.metadata.ns.getD "" }
    freeMember :=
      pool.bind fun pool =>
        ((poolMembers pool).find? fun m => m.state = .free).map (·.processName) }

/-- `decide`. -/
def decide (ctx : AllocationConvergenceCtx) : AllocationDecision :=
  -- What has come to its end stays as it is, even while it is being deleted.
  if ctx.phase.isTerminal then .noOp
  else if ctx.beingDeleted then
    match ctx.assignedProcess, ctx.boundPool with
    | some member, some pool => .release member pool
    | _, _ => .noOp
  else if ctx.phase = .bound then
    match ctx.expiresAt with
    | none => .heartbeatBound
    | some expiresAt =>
      if expiresAt.nanos ≤ ctx.now.nanos then
        match ctx.assignedProcess, ctx.boundPool with
        | some member, some pool => .release member pool
        | _, _ => .heartbeatBound
      else .heartbeatBound
  else
    -- The phase `Releasing` comes here as well, and has no pool.
    match ctx.matchedPool with
    | none => .noMatchingPool
    | some pool =>
      match ctx.freeMember with
      | some member => .bind pool member
      | none => .wait pool

end AllocationConvergenceCtx

/-- `decide_allocation_reconcile`. -/
def decideAllocationReconcile (alloc : EphemeralAllocation) (candidatePools : List EphemeralPool)
    (poolMembers : EphemeralPool → List PoolMember) (now : DateTime) : AllocationDecision :=
  (AllocationConvergenceCtx.observe alloc candidatePools poolMembers now).decide

/-- The place of a pool in line, by how much it asks for and then by its name: the smaller, the
better. -/
def matchRank (pool : EphemeralPool) : ℤ ×ₗ String :=
  toLex (-(pool.spec.selector.specificity : ℤ), pool.metadata.name)

theorem matchRank_lt_iff {a b : EphemeralPool} :
    matchRank a < matchRank b ↔
      b.spec.selector.specificity < a.spec.selector.specificity ∨
        a.spec.selector.specificity = b.spec.selector.specificity ∧
          a.metadata.name < b.metadata.name := by
  -- The order of the negated numbers is the other way round.
  have more : -(a.spec.selector.specificity : ℤ) < -(b.spec.selector.specificity : ℤ) ↔
      b.spec.selector.specificity < a.spec.selector.specificity := by omega
  have level : -(a.spec.selector.specificity : ℤ) = -(b.spec.selector.specificity : ℤ) ↔
      a.spec.selector.specificity = b.spec.selector.specificity := by omega
  simp only [matchRank, Prod.Lex.toLex_lt_toLex, more, level]

/-- Of the pools that have been looked at, this is the one to take. -/
def IsBestMatch (key : MatchKey) (seen : List EphemeralPool) : Option MatchedPool → Prop
  | none => ∀ pool ∈ seen, pool.spec.selector.matchesKey key = false
  | some best =>
    best.specificity = best.pool.spec.selector.specificity ∧
      IsLeastBy matchRank (seen.filter fun pool => pool.spec.selector.matchesKey key) best.pool

/-- A look at one more pool keeps the best of those that have been looked at. -/
theorem IsBestMatch.step {key : MatchKey} {seen : List EphemeralPool} {best : Option MatchedPool}
    (isBest : IsBestMatch key seen best) (pool : EphemeralPool) :
    IsBestMatch key (seen ++ [pool]) (betterMatch key best pool) := by
  unfold betterMatch
  cases matching : pool.spec.selector.matchesKey key with
  | false =>
    -- The pool does not count, neither among the ones that match nor for the loop.
    simp only [Bool.not_false, if_true]
    cases best with
    | none =>
      intro other among
      rcases List.mem_append.mp among with earlier | last
      · exact isBest other earlier
      · rw [List.mem_singleton.mp last]
        exact matching
    | some b => simpa [IsBestMatch, List.filter_append, matching] using isBest
  | true =>
    simp only [Bool.not_true, Bool.false_eq_true, if_false]
    cases best with
    | none =>
      -- It is the first one that matches.
      have none : (seen.filter fun pool => pool.spec.selector.matchesKey key) = [] := by
        rw [List.filter_eq_nil_iff]
        intro other among
        simp [isBest other among]
      refine ⟨rfl, ?_⟩
      simp [IsLeastBy, List.filter_append, matching, none]
    | some b =>
      -- The loop compares it with the best so far as the ranks do.
      obtain ⟨score, least⟩ := isBest
      have further := least.append pool
      have whole : (seen ++ [pool]).filter (fun pool => pool.spec.selector.matchesKey key) =
          (seen.filter fun pool => pool.spec.selector.matchesKey key) ++ [pool] := by
        simp [List.filter_append, matching]
      simp only [score, ← matchRank_lt_iff]
      rw [lesserBy] at further
      split
      · rename_i better
        rw [if_pos better] at further
        exact ⟨rfl, whole ▸ further⟩
      · rename_i notBetter
        rw [if_neg notBetter] at further
        exact ⟨score, whole ▸ further⟩

/-- `best_match` takes the best of the pools that match, and none where none does. -/
theorem bestMatch_isBest (candidates : List EphemeralPool) (key : MatchKey) :
    IsBestMatch key candidates (bestMatch candidates key) := by
  -- The loop has looked at the pools up to where it is.
  have general : ∀ (seen rest : List EphemeralPool) (best : Option MatchedPool),
      IsBestMatch key seen best →
        IsBestMatch key (seen ++ rest) (rest.foldl (betterMatch key) best) := by
    intro seen rest
    induction rest generalizing seen with
    | nil =>
      intro best isBest
      rw [List.append_nil]
      exact isBest
    | cons pool rest ih =>
      intro best isBest
      have further := ih (seen ++ [pool]) _ (isBest.step pool)
      rw [List.append_assoc] at further
      exact further
  exact general [] candidates none (by simp [IsBestMatch])

/-- What is bound is the member that was found free, to the pool that was matched. -/
theorem AllocationConvergenceCtx.decide_bind {ctx : AllocationConvergenceCtx} {ref : AllocationRef}
    {member : String} (decided : ctx.decide = .bind ref member) :
    ctx.beingDeleted = false ∧ ctx.matchedPool = some ref ∧ ctx.freeMember = some member := by
  unfold AllocationConvergenceCtx.decide at decided
  -- Every branch but the last one ends in some other decision.
  split at decided
  · cases decided
  · split at decided
    · split at decided <;> cases decided
    · rename_i kept
      split at decided
      · split at decided
        · cases decided
        · split at decided
          · split at decided <;> cases decided
          · cases decided
      · split at decided
        · cases decided
        · rename_i matched
          split at decided
          · rename_i free
            cases decided
            exact ⟨by simpa using kept, matched, free⟩
          · cases decided

/-- A member is bound only for an allocation that waits for one and is not being deleted, and only
one that is shown as free in the pool that the allocation resolves to. -/
theorem decideAllocationReconcile_bind {alloc : EphemeralAllocation} {pools : List EphemeralPool}
    {poolMembers : EphemeralPool → List PoolMember} {now : DateTime} {ref : AllocationRef}
    {member : String}
    (decided : decideAllocationReconcile alloc pools poolMembers now = .bind ref member) :
    alloc.observedPhaseOrPending.needsPoolRouting = true ∧ alloc.isBeingDeleted = false ∧
      ∃ pool, resolvePool alloc pools = some pool ∧
        ref = { name := pool.metadata.name, ns := pool.metadata.ns.getD "" } ∧
          ∃ m ∈ poolMembers pool, m.processName = member ∧ m.state = .free := by
  obtain ⟨kept, matched, free⟩ := AllocationConvergenceCtx.decide_bind decided
  simp only [AllocationConvergenceCtx.observe] at kept matched free
  obtain ⟨pool, found, same⟩ := Option.map_eq_some_iff.mp matched
  rw [found] at free
  -- Without a look for a pool none would have been found.
  split at found
  · rename_i waiting
    obtain ⟨m, first, name⟩ := Option.map_eq_some_iff.mp free
    have present := List.mem_of_find?_eq_some first
    have state := List.find?_some first
    exact ⟨by simpa [kept] using waiting, kept, pool, found, same.symm, m, present, name,
      by simpa using state⟩
  · cases found

end Tatara.Allocation
