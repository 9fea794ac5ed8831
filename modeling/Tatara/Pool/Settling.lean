import Tatara.Pool.Decide

/-! What becomes of a pool that carries out its decisions, tick after tick. -/

namespace Tatara.Pool

open Tatara.Crd Tatara.Rust PoolMember

/-- The members that are left when so many of the free ones are reaped, the first ones first. -/
def reapFree : Nat → List PoolMember → List PoolMember
  | 0, members => members
  | _, [] => []
  | count + 1, m :: members =>
    if m.state = .free then reapFree count members else m :: reapFree (count + 1) members

/-- The members once a decision is carried out; the ones that are spawned get these names. -/
def carryOut (names : Nat → String) (now : DateTime) (members : List PoolMember) :
    PoolDecision → List PoolMember
  | .noOp => members
  | .spawn count =>
    members ++ (List.range count).map fun slot => .unallocated (names slot) .free now
  | .reapExcess count => reapFree count members
  | .replaceMembers processNames => members.filter fun m => m.processName ∉ processNames
  | .drain => []

/-- What a pool meets from tick to tick: the clock, which of the spawning members come up, and the
names that its new members get. -/
structure Surroundings where
  clock : Nat → DateTime
  comesUp : PoolMember → Bool
  names : List PoolMember → Nat → String

/-- A spawning member that comes up is free from then on. -/
def arrive (comesUp : PoolMember → Bool) (now : DateTime) (m : PoolMember) : PoolMember :=
  if m.state = .spawning ∧ comesUp m then { m with state := .free, enteredStateAt := now } else m

section

variable [Crates]

/-- One tick: the pool decides and carries out its decision, and spawning members come up. -/
def tick (pool : EphemeralPool) (env : Surroundings) (now : DateTime)
    (members : List PoolMember) : List PoolMember :=
  (carryOut (env.names members) now members (decidePoolReconcile pool members now)).map
    (arrive env.comesUp now)

/-- The members after so many ticks. -/
def population (pool : EphemeralPool) (env : Surroundings) (members : List PoolMember) :
    Nat → List PoolMember
  | 0 => members
  | k + 1 => tick pool env (env.clock k) (population pool env members k)

/-- What the pool decides after so many ticks. -/
def decisionAt (pool : EphemeralPool) (env : Surroundings) (members : List PoolMember) (k : Nat) :
    PoolDecision :=
  decidePoolReconcile pool (population pool env members k) (env.clock k)

/-- From some tick on the pool has nothing to do. -/
def SettlesBy (pool : EphemeralPool) (env : Surroundings) (members : List PoolMember)
    (n : Nat) : Prop :=
  ∀ k, n ≤ k → decisionAt pool env members k = .noOp

/-- No member has failed, and none goes stale as the clock moves on. -/
structure KeepsFresh (pool : EphemeralPool) (env : Surroundings) (members : List PoolMember) :
    Prop where
  kept : pool.isBeingDeleted = false
  noneFailed : inState .failed members = []
  noneStale : ∀ k, staleFree pool (population pool env members k) (env.clock k) = []

end

/-- How many of the spawning members never come up. -/
def stuck (comesUp : PoolMember → Bool) (members : List PoolMember) : Nat :=
  members.countP fun m => m.state = .spawning ∧ ¬ comesUp m

/-- How many members are in states that no decision about sizes touches. -/
def busy (members : List PoolMember) : Nat :=
  countState .allocated members + countState .returning members

/-- The desired size, with the members that stay busy or stuck, lies between floor and ceiling. -/
def FitsLimits (spec : PoolSpec) (comesUp : PoolMember → Bool) (members : List PoolMember) :
    Prop :=
  let size := max spec.desiredSize (stuck comesUp members) + busy members
  spec.minSize ≤ size ∧ (spec.maxSize = 0 ∨ size ≤ spec.maxSize)

/-- Reaping takes free members as long as there are any. -/
theorem countState_free_reapFree (count : Nat) (members : List PoolMember) :
    countState .free (reapFree count members) = countState .free members - count := by
  -- A free member is taken as long as the count has not come down to zero.
  fun_induction reapFree count members with
  | case1 members => rfl
  | case2 count _ => simp [countState]
  | case3 count m members free ih =>
    simp only [countState, List.countP_cons, free] at ih ⊢
    simp [ih]
  | case4 count m members held ih =>
    simp only [countState, List.countP_cons, held] at ih ⊢
    simp [ih]

/-- Reaping takes no members but free ones. -/
theorem countP_reapFree {p : PoolMember → Bool} (spared : ∀ m, m.state = .free → p m = false)
    (count : Nat) (members : List PoolMember) :
    (reapFree count members).countP p = members.countP p := by
  -- Only the third case drops a member, and it is a free one.
  fun_induction reapFree count members with
  | case1 members => rfl
  | case2 count _ => rfl
  | case3 count m members free ih => simp [ih, spared m free]
  | case4 count m members held ih => simp [List.countP_cons, ih]

/-- A decision by the sizes leaves every member alone that is not free. -/
theorem countP_carryOut {p : PoolMember → Bool} (spared : ∀ m, m.state = .free → p m = false)
    (names : Nat → String) (now : DateTime) (members : List PoolMember) (spec : PoolSpec)
    (b : Buckets) :
    (carryOut names now members (decideSize spec b)).countP p = members.countP p := by
  rcases decideSize_cases spec b with decided | ⟨count, decided⟩ | ⟨count, decided⟩ <;> rw [decided]
  · rfl
  · -- The members that are spawned are free.
    simp [carryOut, PoolMember.unallocated, spared]
  · exact countP_reapFree spared count members

/-- How many members are free once a decision by the sizes is carried out. -/
def nextFree (spec : PoolSpec) (b : Buckets) : Nat :=
  match decideSize spec b with
  | .spawn count => b.free + count
  | .reapExcess count => b.free - count
  | _ => b.free

/-- Carrying out a decision leaves as many free members as it says. -/
theorem countState_free_carryOut (names : Nat → String) (now : DateTime)
    (members : List PoolMember) (spec : PoolSpec) (b : Buckets)
    (counted : b.free = countState .free members) :
    countState .free (carryOut names now members (decideSize spec b)) = nextFree spec b := by
  rcases decideSize_cases spec b with decided | ⟨count, decided⟩ | ⟨count, decided⟩ <;>
    simp only [nextFree, decided, counted]
  · rfl
  · -- Every one of the new members is free.
    have all : countState .free ((List.range count).map fun slot =>
        PoolMember.unallocated (names slot) .free now) = count := by
      rw [countState, List.countP_eq_length.mpr (by simp [PoolMember.unallocated])]
      simp
    exact (List.countP_append ..).trans (congrArg _ all)
  · exact countState_free_reapFree count members

/-- The members that go on spawning are the ones that never come up. -/
theorem countState_spawning_arrive (comesUp : PoolMember → Bool) (now : DateTime)
    (members : List PoolMember) :
    countState .spawning (members.map (arrive comesUp now)) = stuck comesUp members := by
  -- A member that comes up is free from then on.
  rw [countState, stuck, List.countP_map]
  refine List.countP_congr fun m _ => ?_
  cases up : comesUp m <;> cases entered : m.state <;> simp [arrive, up, entered]

/-- The members that come up leave the spawning ones for the free ones. -/
theorem countState_free_arrive (comesUp : PoolMember → Bool) (now : DateTime)
    (members : List PoolMember) :
    countState .free (members.map (arrive comesUp now)) + stuck comesUp members =
      countState .free members + countState .spawning members := by
  induction members with
  | nil => rfl
  | cons m members ih =>
    -- Only a spawning member can move, and it does so when it comes up.
    cases up : comesUp m <;> cases entered : m.state <;>
      simp [countState, stuck, arrive, up, entered] at ih ⊢ <;> omega

/-- Nothing else is counted otherwise once members have come up. -/
theorem countP_arrive {p : PoolMember → Bool} (comesUp : PoolMember → Bool) (now : DateTime)
    (blind : ∀ m, p (arrive comesUp now m) = p m) (members : List PoolMember) :
    (members.map (arrive comesUp now)).countP p = members.countP p := by
  rw [List.countP_map]
  exact List.countP_congr fun m _ => by simp [blind]

/-- The pool has nothing to do exactly at the desired size, if this is within the limits. -/
theorem decideSize_eq_noOp_iff (spec : PoolSpec) (b : Buckets) :
    decideSize spec b = .noOp ↔
      b.free = spec.desiredSize - b.spawning ∧ spec.desiredSize ≤ b.free + b.spawning ∧
        spec.minSize ≤ b.active ∧ (spec.maxSize = 0 ∨ b.active ≤ spec.maxSize) := by
  simp only [decideSize]
  -- Whichever rule decides, its own condition is enough to tell whether the sizes agree.
  split_ifs <;> simp only [false_iff, true_iff] <;> omega

/-- Where the desired size is within the limits, one decision reaches it or stops at a limit. -/
theorem nextFree_cases {spec : PoolSpec} {b : Buckets} {rest : Nat}
    (others : b.active = b.free + b.spawning + rest)
    (floor : spec.minSize ≤ max spec.desiredSize b.spawning + rest)
    (ceiling : spec.maxSize = 0 ∨ max spec.desiredSize b.spawning + rest ≤ spec.maxSize) :
    nextFree spec b = spec.desiredSize - b.spawning ∨
      nextFree spec b + b.spawning + rest = spec.minSize ∨
        0 < spec.maxSize ∧ nextFree spec b + b.spawning + rest = spec.maxSize := by
  -- The first two rules stop at the floor and at the ceiling, the others at the desired size.
  simp only [nextFree, decideSize]
  split_ifs <;> simp only <;> omega

/-- From a limit the next decision reaches the desired size, and at the desired size it stays. -/
theorem nextFree_eq {spec : PoolSpec} {b : Buckets} {rest : Nat}
    (others : b.active = b.free + b.spawning + rest)
    (floor : spec.minSize ≤ max spec.desiredSize b.spawning + rest)
    (ceiling : spec.maxSize = 0 ∨ max spec.desiredSize b.spawning + rest ≤ spec.maxSize)
    (close : b.free = spec.desiredSize - b.spawning ∨
      b.free + b.spawning + rest = spec.minSize ∨
        0 < spec.maxSize ∧ b.free + b.spawning + rest = spec.maxSize) :
    nextFree spec b = spec.desiredSize - b.spawning := by
  -- At a limit neither of the first two rules applies, so that one on the desired size does.
  simp only [nextFree, decideSize]
  split_ifs <;> simp only <;> omega

section

variable [Crates] {pool : EphemeralPool} {env : Surroundings} {members : List PoolMember}

/-- What a tick of a calm pool leaves alone: whom it cannot move, and who never comes up. -/
theorem tick_keeps (env : Surroundings) {now : DateTime} (calm : Calm pool members now) :
    busy (tick pool env now members) = busy members ∧
      stuck env.comesUp (tick pool env now members) = stuck env.comesUp members ∧
        inState .failed (tick pool env now members) = [] := by
  -- A count that neither sees the free members nor the spawning ones that come up is kept.
  have kept {p : PoolMember → Bool} (spared : ∀ m, m.state = .free → p m = false)
      (blind : ∀ m, p (arrive env.comesUp now m) = p m) :
      (tick pool env now members).countP p = members.countP p := by
    rw [tick, decidePoolReconcile_of_calm calm, countP_arrive _ _ blind, countP_carryOut spared]
  have state (state : MemberState) (held : state ≠ .free) (still : state ≠ .spawning) :
      countState state (tick pool env now members) = countState state members := by
    refine kept (fun m free => by simp [free, Ne.symm held]) fun m => ?_
    cases up : env.comesUp m <;> cases entered : m.state <;>
      simp [arrive, up, entered, Ne.symm held, Ne.symm still]
  refine ⟨?_, ?_, ?_⟩
  · -- The busy members are counted in two states, and each of the counts is kept.
    rw [busy, busy, state .allocated (by simp) (by simp), state .returning (by simp) (by simp)]
  · refine kept (fun m free => by simp [free]) fun m => ?_
    cases up : env.comesUp m <;> cases entered : m.state <;> simp [arrive, up, entered]
  · -- No member has failed, so none of the members that are left has.
    have failed := state .failed (by simp) (by simp)
    simp only [countState, List.countP_eq_length_filter] at failed
    exact List.eq_nil_of_length_eq_zero (failed.trans (congrArg List.length calm.noneFailed))

/-- After a tick the members that spawn are those that never come up, and the others are free. -/
theorem tick_moves (env : Surroundings) {now : DateTime} (calm : Calm pool members now) :
    countState .spawning (tick pool env now members) = stuck env.comesUp members ∧
      countState .free (tick pool env now members) + stuck env.comesUp members =
        nextFree pool.spec (bucket pool members now) + countState .spawning members := by
  have spawning : countState .spawning (carryOut (env.names members) now members
      (decideSize pool.spec (bucket pool members now))) = countState .spawning members :=
    countP_carryOut (fun m free => by simp [free]) ..
  have still : stuck env.comesUp (carryOut (env.names members) now members
      (decideSize pool.spec (bucket pool members now))) = stuck env.comesUp members :=
    countP_carryOut (fun m free => by simp [free]) ..
  have free := countState_free_carryOut (env.names members) now members pool.spec
    (bucket pool members now) (by rw [bucket_eq])
  rw [tick, decidePoolReconcile_of_calm calm]
  -- The decision is carried out first, and then the members come up.
  refine ⟨(countState_spawning_arrive ..).trans still, ?_⟩
  rw [← still, countState_free_arrive, free, spawning]

/-- A pool that keeps fresh is calm at every tick, with as many members busy and stuck as ever. -/
theorem KeepsFresh.run (fresh : KeepsFresh pool env members) (k : Nat) :
    Calm pool (population pool env members k) (env.clock k) ∧
      busy (population pool env members k) = busy members ∧
        stuck env.comesUp (population pool env members k) = stuck env.comesUp members := by
  -- One tick keeps all three of them, so any number of ticks does.
  induction k with
  | zero => exact ⟨⟨fresh.kept, fresh.noneFailed, fresh.noneStale 0⟩, rfl, rfl⟩
  | succ k ih =>
    obtain ⟨calm, busy, stuck⟩ := ih
    obtain ⟨stillBusy, stillStuck, noneFailed⟩ := tick_keeps env calm
    exact ⟨⟨fresh.kept, noneFailed, fresh.noneStale (k + 1)⟩, stillBusy.trans busy,
      stillStuck.trans stuck⟩

/-- The buckets of a pool after so many ticks. -/
def bucketsAt (pool : EphemeralPool) (env : Surroundings) (members : List PoolMember) (k : Nat) :
    Buckets :=
  bucket pool (population pool env members k) (env.clock k)

/-- What a pool that keeps fresh decides is up to its sizes. -/
theorem KeepsFresh.decisionAt_eq (fresh : KeepsFresh pool env members) (k : Nat) :
    decisionAt pool env members k = decideSize pool.spec (bucketsAt pool env members k) :=
  decidePoolReconcile_of_calm (fresh.run k).1

/-- The members that are neither free nor spawning are the busy ones. -/
theorem KeepsFresh.active_bucketsAt (fresh : KeepsFresh pool env members) (k : Nat) :
    (bucketsAt pool env members k).active =
      (bucketsAt pool env members k).free + (bucketsAt pool env members k).spawning +
        busy members := by
  -- The busy members of a tick are those of the start.
  rw [← (fresh.run k).2.1]
  simp only [bucketsAt, bucket_eq, Buckets.active, busy]
  omega

/-- From the first tick on the spawning members are the ones that are stuck. -/
theorem KeepsFresh.spawning_succ (fresh : KeepsFresh pool env members) (k : Nat) :
    (bucketsAt pool env members (k + 1)).spawning = stuck env.comesUp members := by
  rw [bucketsAt, bucket_eq]
  exact (tick_moves env (fresh.run k).1).1.trans (fresh.run k).2.2

/-- From the first tick on a tick changes the free members as the decision says. -/
theorem KeepsFresh.free_succ (fresh : KeepsFresh pool env members) (k : Nat) :
    (bucketsAt pool env members (k + 2)).free =
      nextFree pool.spec (bucketsAt pool env members (k + 1)) := by
  have moved := (tick_moves env (fresh.run (k + 1)).1).2
  -- After the first tick only those are spawning that never come up.
  have spawning : countState .spawning (population pool env members (k + 1)) =
      stuck env.comesUp members := by
    have known := fresh.spawning_succ k
    rwa [bucketsAt, bucket_eq] at known
  rw [(fresh.run (k + 1)).2.2, spawning] at moved
  rw [bucketsAt, bucket_eq]
  exact Nat.add_right_cancel moved

/-- A tick after the first that has nothing to do finds the desired size within the limits. -/
theorem KeepsFresh.fits_of_noOp (fresh : KeepsFresh pool env members) {k : Nat}
    (idle : decisionAt pool env members (k + 1) = .noOp) :
    FitsLimits pool.spec env.comesUp members := by
  rw [fresh.decisionAt_eq, decideSize_eq_noOp_iff, fresh.active_bucketsAt,
    -- The decision is made by the sizes, and none of them calls for anything.
    fresh.spawning_succ k] at idle
  obtain ⟨free, enough, floor, ceiling⟩ := idle
  rw [free] at floor ceiling
  refine ⟨?_, ?_⟩ <;> omega

/-- Two ticks after the first the free members make up the desired size, and they keep to it. -/
theorem KeepsFresh.free_eq (fresh : KeepsFresh pool env members)
    (fits : FitsLimits pool.spec env.comesUp members) (k : Nat) :
    (bucketsAt pool env members (k + 3)).free =
      pool.spec.desiredSize - stuck env.comesUp members := by
  obtain ⟨floor, ceiling⟩ := fits
  rw [fresh.free_succ (k + 1), ← fresh.spawning_succ (k + 1)]
  refine nextFree_eq (fresh.active_bucketsAt (k + 2)) ?_ ?_ ?_ <;>
    rw [fresh.spawning_succ (k + 1)]
  · exact floor
  · exact ceiling
  · -- The tick before has come as close as one decision gets.
    rw [fresh.free_succ k, ← fresh.spawning_succ k]
    refine nextFree_cases (fresh.active_bucketsAt (k + 1)) ?_ ?_ <;> rw [fresh.spawning_succ k]
    · exact floor
    · exact ceiling

/-- A pool that keeps fresh settles exactly where the desired size is within its limits, and then
within three ticks; otherwise it is at work at every tick after the first. -/
theorem KeepsFresh.settles_iff (fresh : KeepsFresh pool env members) :
    (SettlesBy pool env members 3 ↔ FitsLimits pool.spec env.comesUp members) ∧
      ((∃ n, SettlesBy pool env members n) ↔ FitsLimits pool.spec env.comesUp members) ∧
        (¬ FitsLimits pool.spec env.comesUp members →
          ∀ k, decisionAt pool env members (k + 1) ≠ .noOp) := by
  have settles (fits : FitsLimits pool.spec env.comesUp members) :
      SettlesBy pool env members 3 := by
    intro k late
    obtain ⟨k, rfl⟩ := Nat.exists_eq_add_of_le' late
    -- With the desired size reached, none of the rules on sizes applies.
    have size := fresh.active_bucketsAt (k + 3)
    have free := fresh.free_eq fits k
    obtain ⟨floor, ceiling⟩ := fits
    rw [fresh.decisionAt_eq, decideSize_eq_noOp_iff, size, free, fresh.spawning_succ (k + 2)]
    omega
  -- A pool that has settled has nothing to do at some tick after the first.
  have fits (n : Nat) (settled : SettlesBy pool env members n) :
      FitsLimits pool.spec env.comesUp members :=
    fresh.fits_of_noOp (settled (n + 1) (Nat.le_succ n))
  refine ⟨⟨fits 3, settles⟩, ⟨?_, ?_⟩, ?_⟩
  · intro settled
    obtain ⟨n, settled⟩ := settled
    exact fits n settled
  · intro within
    exact ⟨3, settles within⟩
  · intro outside k idle
    exact outside (fresh.fits_of_noOp idle)

end

/-- Surroundings in which the clock stands still and every spawning member comes up. -/
def plainSurroundings : Surroundings where
  clock _ := ⟨0⟩
  comesUp _ := true
  names _ slot := "pool-" ++ String.ofList (renderNat slot)

/-- No member goes stale in a pool whose time to live does not parse. -/
theorem keepsFresh_plain (desiredSize minSize maxSize : Nat) :
    let _ := plainCrates
    KeepsFresh (sizedPool desiredSize minSize maxSize) plainSurroundings [] := by
  let _ := plainCrates
  refine ⟨rfl, rfl, fun k => ?_⟩
  have unparsed : (sizedPool desiredSize minSize maxSize).spec.freeTtlDuration = none := rfl
  simp [staleFree, isStale, unparsed]

/-- The pool of the documentation settles from nothing within three ticks. -/
theorem settles_iff_empty :
    let _ := plainCrates
    SettlesBy (sizedPool 3 1 5) plainSurroundings [] 3 := by
  -- The limits are numbers here.
  let _ := plainCrates
  have fits : FitsLimits (sizedPool 3 1 5).spec plainSurroundings.comesUp [] :=
    ⟨by decide, by decide⟩
  exact ((keepsFresh_plain 3 1 5).settles_iff).1.mpr fits

/-- A pool whose floor is above its desired size spawns and reaps by turns for ever. -/
theorem alternates_below_floor :
    let _ := plainCrates
    (∀ k, decisionAt (sizedPool 0 2 0) plainSurroundings [] (2 * k) = .spawn 2 ∧
      decisionAt (sizedPool 0 2 0) plainSurroundings [] (2 * k + 1) = .reapExcess 2) ∧
        ¬ ∃ n, SettlesBy (sizedPool 0 2 0) plainSurroundings [] n := by
  let _ := plainCrates
  have empty (k : Nat) : population (sizedPool 0 2 0) plainSurroundings [] (2 * k) = [] := by
    induction k with
    | zero => rfl
    | succ k ih =>
      -- Two members are spawned at the one tick and reaped at the next.
      rw [Nat.mul_succ, population, population, ih]
      rfl
  have spawns (k : Nat) :
      decisionAt (sizedPool 0 2 0) plainSurroundings [] (2 * k) = .spawn 2 := by
    rw [decisionAt, empty]
    rfl
  refine ⟨fun k => ⟨spawns k, ?_⟩, ?_⟩
  · rw [decisionAt, population, empty]
    rfl
  · intro settled
    obtain ⟨n, settled⟩ := settled
    -- There are even ticks as late as one likes.
    have idle := settled (2 * n) (by omega)
    rw [spawns] at idle
    cases idle

end Tatara.Pool
