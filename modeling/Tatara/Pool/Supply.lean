import Tatara.Lib.Interleaving
import Tatara.Pool.InUse

/-! How many members a pool with a desired count has while these come up at their own speed. -/

namespace Tatara.Pool

open Tatara.Crd Tatara.Rust Program

/-- The next phase of a member that comes up. -/
inductive ComesUp : ProcessPhase → ProcessPhase → Prop where
  | forking : ComesUp .pending .forking
  | execing : ComesUp .forking .execing
  | running : ComesUp .execing .running
  | attested : ComesUp .running .attested

/-- A phase on the way up. -/
def isRising : ProcessPhase → Bool
  | .pending | .forking | .execing | .running | .attested => true
  | _ => false

/-- What the Processes of a namespace do by themselves: a member of the pool comes up, or others
change in some way. -/
inductive Drifts (pool : EphemeralPool) : List Process → List Process → Prop where
  | comesUp {front back : List Process} {p q : Process} (same : q.metadata = p.metadata)
      (up : ComesUp p.observedPhaseOrPending q.observedPhaseOrPending) :
      Drifts pool (front ++ p :: back) (front ++ q :: back)
  | others {processes changed : List Process}
      (kept : ownedBy pool changed = ownedBy pool processes) : Drifts pool processes changed

/-- How the API server answers, and what it stores afterwards; any request may fail. -/
inductive Serves : List Process → (c : Call) → Answer c → List Process → Prop where
  | now (processes : List Process) (now : DateTime) : Serves processes .now now processes
  | listed (processes : List Process) (ns : String) :
      Serves processes (.listProcesses ns) (.ok processes) processes
  | unlisted (processes : List Process) (ns error : String) :
      Serves processes (.listProcesses ns) (.error error) processes
  | created (processes : List Process) (p : Process) (now : DateTime)
      (fresh : ∀ q ∈ processes, q.metadata.name ≠ p.metadata.name) :
      Serves processes (.createProcess p) (.ok ())
        (processes ++ [{ p with metadata.creationTimestamp := some now }])
  | uncreated (processes : List Process) (p : Process) (error : CreateError) :
      Serves processes (.createProcess p) (.error error) processes
  | deleted (processes : List Process) (ns name : String) (now : DateTime) :
      Serves processes (.deleteProcess ns name) (.ok ()) (processes.map fun p =>
        if p.metadata.name = name then { p with metadata.deletionTimestamp := some now } else p)
  | undeleted (processes : List Process) (ns name error : String) :
      Serves processes (.deleteProcess ns name) (.error error) processes
  | patched (processes : List Process) (ns name : String) (status : PoolStatus)
      (answer : Except String Unit) :
      Serves processes (.mergePoolStatus ns name status) answer processes

/-- How many members of a pool have not exited. -/
def alive (pool : EphemeralPool) (processes : List Process) : Nat :=
  (ownedBy pool processes).countP fun p => p.observedPhaseOrPending.isAlive

/-- How many members of a pool are healthy. -/
def healthy (pool : EphemeralPool) (processes : List Process) : Nat :=
  (ownedBy pool processes).countP fun p => p.observedPhaseOrPending.isRunning

/-- How many members of a pool have not exited and are not healthy yet. -/
def inFlight (pool : EphemeralPool) (processes : List Process) : Nat :=
  (ownedBy pool processes).countP fun p =>
    p.observedPhaseOrPending.isAlive && !p.observedPhaseOrPending.isRunning

/-- A member that has not exited is healthy or in flight. -/
theorem alive_eq (pool : EphemeralPool) (processes : List Process) :
    alive pool processes = healthy pool processes + inFlight pool processes := by
  simp only [alive, healthy, inFlight]
  -- Each member counts on both sides or on neither.
  induction ownedBy pool processes with
  | nil => rfl
  | cons p owned ih =>
    simp only [List.countP_cons, ih]
    cases p.observedPhaseOrPending <;> simp [ProcessPhase.isAlive, ProcessPhase.isRunning] <;> omega

/-- Every member of a pool is on its way up. -/
def AllRising (pool : EphemeralPool) (processes : List Process) : Prop :=
  ∀ p ∈ ownedBy pool processes, isRising p.observedPhaseOrPending = true

/-- A member that comes up stays alive, and healthy once it is. -/
theorem ComesUp.keeps {phase next : ProcessPhase} (up : ComesUp phase next) :
    isRising next = true ∧ phase.isAlive = true ∧ next.isAlive = true ∧
      (phase.isRunning = true → next.isRunning = true) := by
  cases up <;> decide

/-- What happens by itself keeps the number of the members, and none gets less healthy. -/
theorem Drifts.keeps {pool : EphemeralPool} {processes changed : List Process}
    (drifts : Drifts pool processes changed) (rising : AllRising pool processes) :
    AllRising pool changed ∧ alive pool changed = alive pool processes ∧
      healthy pool processes ≤ healthy pool changed := by
  cases drifts with
  | others kept =>
    simp only [AllRising, alive, healthy, kept]
    exact ⟨rising, trivial, Nat.le_refl _⟩
  | @comesUp front back p q same up =>
    obtain ⟨rises, before, after, stays⟩ := up.keeps
    -- The member keeps its annotations, so it belongs to the pool as before.
    have labelled : q.annotation annotationPool = p.annotation annotationPool := by
      rw [ Process.annotation, Process.annotation, same]
    have belongs : processBelongsToPool pool.metadata.name q =
        processBelongsToPool pool.metadata.name p := by
      rw [processBelongsToPool, processBelongsToPool, labelled]
    cases member : processBelongsToPool pool.metadata.name p with
    | false =>
      -- A Process of another pool is not counted.
      simp [AllRising, alive, healthy, ownedBy, belongs, member] at rising ⊢
      exact rising
    | true =>
      simp only [AllRising, alive, healthy, ownedBy, List.filter_append, List.filter_cons, belongs,
        member, if_true, List.mem_append, List.mem_cons, List.countP_append, List.countP_cons] at *
      refine ⟨?_, by rw [before, after], ?_⟩
      · intro r member
        rcases member with early | rfl | late
        · exact rising r (.inl early)
        · exact rises
        · exact rising r (.inr (.inr late))
      · by_cases running : p.observedPhaseOrPending.isRunning = true
        · simp [running, stays running]
        · simp [running]

/-- A new member is one more that is on its way up. -/
theorem created_keeps {pool : EphemeralPool} {processes : List Process} {p : Process}
    (unstarted : p.status = none) (rising : AllRising pool processes) :
    AllRising pool (processes ++ [p]) ∧ alive pool (processes ++ [p]) ≤ alive pool processes + 1 ∧
      healthy pool (processes ++ [p]) = healthy pool processes := by
  -- What has just been created is pending, whichever pool it belongs to.
  have pending : p.observedPhaseOrPending = .pending := by
    simp [Process.observedPhaseOrPending, Process.observedPhase, unstarted]
  cases member : processBelongsToPool pool.metadata.name p with
  | false =>
    simp [AllRising, alive, healthy, ownedBy, member] at rising ⊢
    exact rising
  | true =>
    simp [AllRising, alive, healthy, ownedBy, member, List.countP_append, pending,
      ProcessPhase.isRunning, or_imp, forall_and] at rising ⊢
    exact ⟨⟨rising, rfl⟩, by decide⟩

/-- What the calls of a reconcile cost that only supplies members: one for each new one. -/
def supplyCost : Call → Option Nat
  | .createProcess p => if p.status.isNone then some 1 else none
  | .listProcesses _ | .deleteProcess _ _ => none
  | .now | .mergePoolStatus _ _ _ => some 0

/-- The decision on a pool that is short of members and has none that have exited. -/
theorem decide_of_rising {ctx : PoolConvergenceCtx} (rising : ctx.failed = [])
    (short : ctx.healthy.length ≤ ctx.desired) :
    ctx.decide = List.replicate (ctx.desired - ctx.healthy.length) .createMember := by
  have unreaped : ctx.reaped = [] := by
    simp [PoolConvergenceCtx.reaped, rising]
  simp only [PoolConvergenceCtx.decide, rising, unreaped, ne_eq, not_true_eq_false, and_false,
    if_false, List.map_nil, List.nil_append]
  -- With nobody exited the pool neither pauses nor reaps, and only the count decides.
  split_ifs with fewer more
  · rfl
  · omega
  · simp [Nat.sub_eq_zero_of_le (Nat.le_of_not_lt fewer)]

/-- Looking at the clock and patching the status cost nothing. -/
theorem memberRow_spends (p : Process) : Spends supplyCost (memberRow p) 0 :=
  ⟨0, rfl, Nat.le_refl 0, fun _ => trivial⟩

theorem snapshot_spends (p : Process) : Spends supplyCost (snapshot p) 0 :=
  ⟨0, rfl, Nat.le_refl 0, fun _ => trivial⟩

/-- The status is written for nothing too. -/
theorem mergeObservedStatus_spends (pool : EphemeralPool) (ns : String)
    (members : List PoolMember) : Spends supplyCost (mergeObservedStatus pool ns members) 0 :=
  ⟨0, rfl, Nat.le_refl 0, fun _ => ⟨0, rfl, Nat.le_refl 0, fun _ => trivial⟩⟩

section

variable [Slugs]

/-- Creating members costs one for each. -/
theorem createMembers_spends (pool : EphemeralPool) (ns poolName : String)
    (occupied : List String) (count nextSlot : Nat) :
    Spends supplyCost (applyConvergenceActions pool ns poolName occupied nextSlot
      (List.replicate count .createMember)).run count := by
  induction count generalizing nextSlot with
  | zero => exact Spends.pure _ _
  | succ count ih =>
    rw [List.replicate_succ, applyConvergenceActions, Nat.add_comm count]
    split
    · -- Where no slot is left, nothing is spent.
      exact Spends.pure _ _
    · refine Spends.liftBind (Spends.call rfl) fun _ created _ => ?_
      cases created with
      | ok _ => exact ih _
      | error e =>
        cases e with
        | conflict => exact ih _
        | other _ => exact Spends.pure _ _

variable [Crates]

/-- A reconcile that finds all members on their way up creates what is missing of healthy ones. -/
theorem reconcileOwned_spends {pool : EphemeralPool} {ns : String} {processes : List Process}
    (counted : 0 < pool.spec.desired) (rising : AllRising pool processes)
    (short : healthy pool processes ≤ pool.spec.desired) :
    Spends supplyCost (reconcileOwned pool ns processes).run
      (pool.spec.desired - healthy pool processes) := by
  rw [reconcileOwned, ← Nat.zero_add (pool.spec.desired - _)]
  refine Spends.liftBind (Spends.mapM _ memberRow_spends) fun _ members _ => ?_
  rw [if_pos counted, ← Nat.zero_add (pool.spec.desired - _)]
  refine Spends.liftBind (Spends.mapM _ snapshot_spends) fun _ snapshots taken => ?_
  rw [← Nat.zero_add (pool.spec.desired - _)]
  refine Spends.liftBind (Spends.call rfl) fun _ now _ => ?_
  -- The snapshots have the phases of the Processes, so they show as many healthy members.
  have phases := map_phase_snapshots
    ((runs_mapM taken).imp fun _ _ found => isSnapshot_of_runs found.choose_spec)
  have count : (PoolConvergenceCtx.observe pool snapshots).healthy.length =
      healthy pool processes :=
    calc
      _ = snapshots.countP (·.isHealthy) := List.countP_eq_length_filter.symm
      _ = (snapshots.map (·.phase)).countP (·.isRunning) := (List.countP_map ..).symm
      _ = healthy pool processes := by rw [phases, List.countP_map]; rfl
  -- A member on its way up has not exited.
  have none : (PoolConvergenceCtx.observe pool snapshots).failed = [] := by
    refine List.filter_eq_nil_iff.mpr fun m among exited => ?_
    have phase : m.phase ∈ snapshots.map (·.phase) := List.mem_map_of_mem among
    rw [phases] at phase
    obtain ⟨p, owned, same⟩ := List.mem_map.mp phase
    have up := rising p owned
    rw [same] at up
    revert up exited
    simp only [PoolMemberSnapshot.isFailed]
    cases m.phase <;> decide
  rw [decidePoolConvergence, decide_of_rising none (count ▸ short), count,
    ← Nat.add_zero (pool.spec.desired - _)]
  exact Spends.tryBind (createMembers_spends ..) fun _ =>
    (mergeObservedStatus_spends pool ns members).bind fun _ => Spends.pure _ 0

/-- The controller of a pool and the members that come up beside it. -/
def poolSystem (pool : EphemeralPool) :
    System (List Process) Unit Call Answer (Except String Unit) where
  starts _ _ x := x = (reconcile pool).run
  answers store _ := Serves store
  drifts := Drifts pool

/-- The state of a pool, with what is left of the reconcile under way. -/
abbrev PoolWorld := World (List Process) Unit Call Answer (Except String Unit)

/-- A listing that finds too few healthy members finds none in flight. -/
def Orderly (pool : EphemeralPool) (w : PoolWorld) : Unit × Event → Prop
  | (_, ⟨.listProcesses _, .ok _⟩) =>
    pool.spec.desired ≤ healthy pool w.store ∨ inFlight pool w.store = 0
  | _ => True

/-- A call that creates or deletes a member. -/
def Event.acts : Event → Bool
  | ⟨.createProcess _, _⟩ | ⟨.deleteProcess _ _, _⟩ => true
  | _ => false

/-- Where a pool is kept in supply: its members are on their way up, and together with what the
reconcile under way may still create they are not more than desired. -/
structure Supplied (pool : EphemeralPool) (w : PoolWorld) : Prop where
  rising : AllRising pool w.store
  bounded : alive pool w.store ≤ pool.spec.desired
  reserved : ∀ i x, w.running i = some x → x = (reconcile pool).run ∨
    ∃ budget, Spends supplyCost x budget ∧ alive pool w.store + budget ≤ pool.spec.desired

variable {pool : EphemeralPool} {ns : String}

/-- A reconcile starts with the listing. -/
theorem reconcile_run (placed : pool.metadata.ns = some ns) :
    (reconcile pool).run = .ask (.listProcesses ns) fun
      -- An error of the listing ends the reconcile, and else it goes on with the pool's own
      -- members.
      | .ok processes => (reconcileOwned pool ns processes).run
      | .error e => .done (.error ("list Processes in " ++ ns ++ ": " ++ e)) := by
  rw [reconcile, placed]
  refine congrArg (Program.ask _) (funext fun answer => ?_)
  cases answer <;> rfl

/-- A step that is no call keeps a pool in supply, and its members healthy. -/
theorem Supplied.silent {w v : PoolWorld} (supplied : Supplied pool w)
    (step : System.Step (poolSystem pool) w none v) :
    Supplied pool v ∧ healthy pool w.store ≤ healthy pool v.store := by
  cases step with
  | start idle starts =>
    -- A reconcile that has just started has not listed the Processes yet.
    refine ⟨⟨supplied.rising, supplied.bounded, fun i x busy => ?_⟩, Nat.le_refl _⟩
    cases (Function.update_self i _ w.running).symm.trans busy
    exact .inl starts
  | leave busy =>
    refine ⟨⟨supplied.rising, supplied.bounded, fun i x busy => ?_⟩, Nat.le_refl _⟩
    cases (Function.update_self i _ w.running).symm.trans busy
  | drift drifts =>
    obtain ⟨rising, same, healthier⟩ := drifts.keeps supplied.rising
    refine ⟨⟨rising, same ▸ supplied.bounded, fun i x busy => ?_⟩, healthier⟩
    rw [same]
    exact supplied.reserved i x busy

/-- A call that is made where it may be keeps a pool in supply, and its members healthy. -/
theorem Supplied.call {w v : PoolWorld} {made : Unit × Event} (counted : 0 < pool.spec.desired)
    (placed : pool.metadata.ns = some ns) (supplied : Supplied pool w)
    (step : System.Step (poolSystem pool) w (some made) v) (orderly : Orderly pool w made) :
    Supplied pool v ∧ healthy pool w.store ≤ healthy pool v.store ∧
      (pool.spec.desired ≤ healthy pool w.store → made.2.acts = false) := by
  have total := alive_eq pool w.store
  have bounded := supplied.bounded
  cases step with
  | @call i c next answer store busy answers =>
    -- What is left of the reconcile keeps to what is left of its budget.
    have goes (budget : Nat) (rising : AllRising pool store)
        (spends : Spends supplyCost (next answer) budget)
        (room : alive pool store + budget ≤ pool.spec.desired) :
        Supplied pool
          { store, running := Function.update w.running i (some (next answer)) } := by
      refine ⟨rising, Nat.le_of_add_right_le room, fun j x left => .inr ?_⟩
      cases (Function.update_self i _ w.running).symm.trans left
      exact ⟨budget, spends, room⟩
    rcases supplied.reserved i _ busy with fresh | ⟨budget, ⟨price, priced, affordable, rest⟩, room⟩
    · -- The first call of a reconcile is the listing, and it fixes the budget.
      rw [reconcile_run placed] at fresh
      cases fresh
      cases answers with
      | listed =>
        -- What is missing of healthy members is what the others leave room for.
        have missing : alive pool w.store + (pool.spec.desired - healthy pool w.store) ≤
            pool.spec.desired := by
          rcases orderly with enough | settled <;> omega
        exact ⟨goes _ supplied.rising
          (reconcileOwned_spends counted supplied.rising (by omega)) missing,
          Nat.le_refl _, fun _ => rfl⟩
      | unlisted error =>
        exact ⟨goes 0 supplied.rising trivial (by omega), Nat.le_refl _, fun _ => rfl⟩
    · cases answers with
      | now | patched =>
        cases priced
        exact ⟨goes budget supplied.rising (rest _) room, Nat.le_refl _, fun _ => rfl⟩
      | listed | unlisted | deleted | undeleted =>
        -- No reconcile that supplies members makes one of these calls.
        cases priced
      | created p now fresh =>
        simp only [supplyCost] at priced
        split at priced
        · rename_i unstarted
          cases priced
          have new := created_keeps (p := { p with metadata.creationTimestamp := some now })
            (Option.isNone_iff_eq_none.mp unstarted) supplied.rising
          refine ⟨goes (budget - 1) new.1 (rest _) (by have := new.2.1; omega), new.2.2.ge, ?_⟩
          -- With all of them healthy there is no room for another one.
          intro enough
          omega
        · cases priced
      | uncreated p error =>
        simp only [supplyCost] at priced
        split at priced
        · cases priced
          refine ⟨goes (budget - 1) supplied.rising (rest _) (by omega), Nat.le_refl _, ?_⟩
          intro enough
          omega
        · cases priced

/-- From an empty pool on, a run in which no listing finds members in flight beside too few healthy
ones never has more members than desired, and acts no more once these are healthy. -/
theorem supply_bounded (pool : EphemeralPool) (ns : String) (counted : 0 < pool.spec.desired)
    (placed : pool.metadata.ns = some ns) {others : List Process} (empty : ownedBy pool others = [])
    {before after : List (Unit × Event)} {w v : PoolWorld}
    (first : System.Run (poolSystem pool) (Orderly pool) ⟨others, fun _ => none⟩ before w)
    (second : System.Run (poolSystem pool) (Orderly pool) w after v) :
    alive pool v.store ≤ pool.spec.desired ∧
      (pool.spec.desired ≤ healthy pool w.store → ∀ made ∈ after, made.2.acts = false) := by
  have start : Supplied pool ⟨others, fun _ => none⟩ :=
    ⟨by simp [AllRising, empty], by simp [alive, empty], by simp⟩
  have supplied := first.invariant start (fun _ _ holds step => (holds.silent step).1)
    fun _ _ _ holds step orderly => (holds.call counted placed step orderly).1
  have still := second.invariant supplied (fun _ _ holds step => (holds.silent step).1)
    fun _ _ _ holds step orderly => (holds.call counted placed step orderly).1
  refine ⟨still.bounded, fun enough => ?_⟩
  -- The members that are healthy stay so, and then every reconcile has nothing to do.
  refine second.forall_calls
    (I := fun u => Supplied pool u ∧ pool.spec.desired ≤ healthy pool u.store)
    ⟨supplied, enough⟩ ?_ ?_
  · intro _ _ holds step
    obtain ⟨kept, healthier⟩ := holds.1.silent step
    exact ⟨kept, holds.2.trans healthier⟩
  · intro _ _ _ holds step orderly
    obtain ⟨kept, healthier, idle⟩ := holds.1.call counted placed step orderly
    exact ⟨⟨kept, holds.2.trans healthier⟩, idle holds.2⟩

end

/-- A server on which every request succeeds at once. -/
def serveAll (processes : List Process) : (c : Call) → Answer c × List Process
  | .now => (⟨0⟩, processes)
  | .listProcesses _ => (.ok processes, processes)
  | .createProcess p =>
    if processes.all fun q => q.metadata.name ≠ p.metadata.name then
      (.ok (), processes ++ [{ p with metadata.creationTimestamp := some ⟨0⟩ }])
    else (.error .conflict, processes)
  | .deleteProcess _ name =>
    (.ok (), processes.map fun p =>
      if p.metadata.name = name then { p with metadata.deletionTimestamp := some ⟨0⟩ } else p)
  | .mergePoolStatus _ _ _ => (.ok (), processes)

/-- The server that always answers with success is one that serves the calls. -/
theorem serves_serveAll (processes : List Process) (c : Call) :
    Serves processes c (serveAll processes c).1 (serveAll processes c).2 := by
  -- Only a creation may fail, where the name is taken.
  cases c with
  | now => exact .now ..
  | listProcesses ns => exact .listed ..
  | createProcess p =>
    simp only [serveAll]
    split
    · rename_i fresh
      exact .created processes p ⟨0⟩ (by simpa using fresh)
    · exact .uncreated ..
  | deleteProcess ns name => exact .deleted ..
  | mergePoolStatus ns name status => exact .patched ..

/-- The Processes that are left by one reconcile after another while no member comes up. -/
def afterReconciles [Slugs] [Crates] (pool : EphemeralPool) : Nat → List Process
  | 0 => []
  | n + 1 => (reconcile pool).run.drive serveAll (afterReconciles pool n)

/-- Some run does one reconcile after another. -/
theorem exists_run_afterReconciles [Slugs] [Crates] (pool : EphemeralPool) (n : Nat) :
    ∃ calls, System.Run (poolSystem pool) (fun _ _ => True) ⟨[], fun _ => none⟩ calls
      ⟨afterReconciles pool n, fun _ => none⟩ := by
  induction n with
  | zero => exact ⟨[], .refl⟩
  | succ n ih =>
    -- The last reconcile starts where the ones before it have ended.
    obtain ⟨calls, run⟩ := ih
    have starts : (poolSystem pool).starts (afterReconciles pool n) () (reconcile pool).run := rfl
    obtain ⟨more, rest⟩ := System.Run.alone (fun _ _ => True) starts
      (drivesWithin_of_forall (fun store c => ⟨serves_serveAll store c, trivial⟩) _ _)
    exact ⟨_, run.trans rest⟩

/-- Whether a call is in order, by what is stored alone. -/
def OrderlyAt (pool : EphemeralPool) (processes : List Process) : Unit × Event → Prop :=
  Orderly pool ⟨processes, fun _ => none⟩

/-- Calls are judged by what is stored, not by what runs. -/
theorem orderly_eq (pool : EphemeralPool) :
    (fun w : PoolWorld => OrderlyAt pool w.store) = Orderly pool := by
  funext w made
  -- Only an answered listing is judged, and it is judged by the store.
  obtain ⟨-, c, answer⟩ := made
  cases c with
  | listProcesses => cases answer <;> rfl
  | _ => rfl

/-- What only supplies members lists nothing, and so is in order whatever it finds. -/
theorem drivesWithin_of_spends [Slugs] [Crates] (pool : EphemeralPool)
    {x : Program Call Answer (Except String Unit)} {budget : Nat}
    (spends : Spends supplyCost x budget) (processes : List Process) :
    x.DrivesWithin serveAll (fun before exchange after =>
      (poolSystem pool).answers before () exchange.1 exchange.2 after ∧
        OrderlyAt pool before ((), exchange)) processes := by
  -- Each call has a price, which a listing has not.
  induction x generalizing budget processes with
  | done a => trivial
  | ask c next ih =>
    obtain ⟨price, priced, -, rest⟩ := spends
    refine ⟨⟨serves_serveAll processes c, ?_⟩, ih _ (rest _) _⟩
    cases c with
    | listProcesses => cases priced
    | now | createProcess | deleteProcess | mergePoolStatus => trivial

/-- A reconcile whose listing is in order can run to its end. -/
theorem exists_run_reconcile [Slugs] [Crates] {pool : EphemeralPool} {ns : String}
    (placed : pool.metadata.ns = some ns) (counted : 0 < pool.spec.desired)
    {processes : List Process} (rising : AllRising pool processes)
    (short : healthy pool processes ≤ pool.spec.desired)
    (orderly : pool.spec.desired ≤ healthy pool processes ∨ inFlight pool processes = 0) :
    ∃ calls, System.Run (poolSystem pool) (Orderly pool) ⟨processes, fun _ => none⟩
      (((), ⟨.listProcesses ns, .ok processes⟩) :: calls)
      ⟨(reconcile pool).run.drive serveAll processes, fun _ => none⟩ := by
  -- The listing is the first call, and the only one that may be out of order.
  obtain ⟨next, asks, goes⟩ : ∃ next, (reconcile pool).run = .ask (.listProcesses ns) next ∧
      next (.ok processes) = (reconcileOwned pool ns processes).run :=
    ⟨_, reconcile_run placed, rfl⟩
  have start : System.Step (poolSystem pool) ⟨processes, fun _ => none⟩ none
      ⟨processes, Function.update (fun _ => none) () (some (.ask (.listProcesses ns) next))⟩ :=
    .start rfl asks.symm
  have list : System.Step (poolSystem pool)
      ⟨processes, Function.update (fun _ => none) () (some (.ask (.listProcesses ns) next))⟩
      (some ((), ⟨.listProcesses ns, .ok processes⟩)) ⟨processes, Function.update
        (Function.update (fun _ => none) () (some (.ask (.listProcesses ns) next))) ()
        (some (next (.ok processes)))⟩ :=
    .call rfl (.listed processes ns)
  rw [Function.update_idem, goes] at list
  -- What is left of it cannot list anything.
  have spends : Spends supplyCost (reconcileOwned pool ns processes).run _ :=
    reconcileOwned_spends counted rising short
  obtain ⟨calls, rest⟩ := System.Run.drive (OrderlyAt pool) () (fun _ => none) _ _
    (drivesWithin_of_spends pool spends processes)
  rw [orderly_eq] at rest
  have listed : System.Run (poolSystem pool) (Orderly pool) ⟨processes, fun _ => none⟩
      [((), ⟨.listProcesses ns, .ok processes⟩)] _ :=
    (System.Run.refl.silent start).call list orderly
  have left : (reconcile pool).run.drive serveAll processes =
      (reconcileOwned pool ns processes).run.drive serveAll processes := by
    rw [asks, drive, ← goes]
    rfl
  rw [left, ← Function.update_eq_self () (fun _ : Unit => none)]
  exact ⟨calls, listed.trans rest⟩

/-- A Process in this phase. -/
def inPhase (phase : ProcessPhase) (p : Process) : Process := { p with status := some { phase } }

/-- A Process that is pending can come up on its own until it is attested. -/
theorem exists_run_comesUp [Slugs] [Crates] (pool : EphemeralPool) {p : Process}
    (pending : p.observedPhaseOrPending = .pending) :
    System.Run (poolSystem pool) (Orderly pool) ⟨[p], fun _ => none⟩ []
      ⟨[inPhase .attested p], fun _ => none⟩ := by
  -- One step for each phase on the way.
  have step {q : Process} {next : ProcessPhase} (up : ComesUp q.observedPhaseOrPending next) :
      System.Step (poolSystem pool) ⟨[q], fun _ => none⟩ none ⟨[inPhase next q], fun _ => none⟩ :=
    .drift (show Drifts pool ([] ++ q :: []) ([] ++ inPhase next q :: []) from .comesUp rfl up)
  have forking := step (q := p) (pending ▸ ComesUp.forking)
  have execing := step (q := inPhase .forking p) ComesUp.execing
  have running := step (q := inPhase .execing p) ComesUp.running
  have attested := step (q := inPhase .running p) ComesUp.attested
  exact (((System.Run.refl.silent forking).silent execing).silent running).silent attested

/-- A pool of one: a member is made, comes up, and is found healthy by a reconcile that leaves
everything as it is. -/
theorem supply_bounded_one :
    let _ := plainCrates
    let _ := plainSlugs
    ∃ (before after : List (Unit × Event)) (w v : PoolWorld),
      System.Run (poolSystem (countedPool 1)) (Orderly (countedPool 1)) ⟨[], fun _ => none⟩ before
        w ∧
      System.Run (poolSystem (countedPool 1)) (Orderly (countedPool 1)) w after v ∧
      healthy (countedPool 1) w.store = 1 ∧
      ((), ⟨.listProcesses "pools", .ok w.store⟩) ∈ after ∧
      alive (countedPool 1) v.store ≤ 1 ∧ ∀ made ∈ after, made.2.acts = false := by
  intro _ _
  let pool := countedPool 1
  have empty : inFlight pool [] = 0 := rfl
  -- The first reconcile finds nobody and makes one member, which is pending.
  have nobody : AllRising pool [] := fun _ among => by cases among
  have placed : pool.metadata.ns = some "pools" := rfl
  obtain ⟨before, first⟩ :=
    exists_run_reconcile placed (by decide) nobody (by decide) (.inr empty)
  have one : ((reconcile pool).run.drive serveAll []).length = 1 := by decide +kernel
  have new : ∀ p ∈ (reconcile pool).run.drive serveAll [], p.observedPhaseOrPending = .pending ∧
      processBelongsToPool pool.metadata.name p = true := by decide +kernel
  obtain ⟨p, made⟩ := List.length_eq_one_iff.mp one
  rw [made] at first new
  obtain ⟨pending, belongs⟩ := new p List.mem_cons_self
  have up := first.trans (exists_run_comesUp pool pending)
  -- Once it is attested it is healthy, and the only member.
  have owned : ownedBy pool [inPhase .attested p] = [inPhase .attested p] :=
    List.filter_cons_of_pos belongs
  have healthy_ : healthy pool [inPhase .attested p] = 1 := by
    rw [healthy, owned]
    rfl
  have rising : AllRising pool [inPhase .attested p] := by
    rw [AllRising, owned]
    exact List.forall_mem_singleton.mpr rfl
  obtain ⟨after, second⟩ :=
    exists_run_reconcile placed (by decide) rising healthy_.le (.inl healthy_.ge)
  obtain ⟨bounded, quiet⟩ := supply_bounded pool "pools" (by decide) rfl rfl up second
  exact ⟨_, _, _, _, up, second, healthy_, List.mem_cons_self, bounded, quiet healthy_.ge⟩

/-- A second reconcile that comes before the first member is healthy creates another one. -/
theorem oversupplies :
    let _ := plainCrates
    let _ := plainSlugs
    ∃ calls w,
      System.Run (poolSystem (countedPool 1)) (fun _ _ => True) ⟨[], fun _ => none⟩ calls w ∧
        alive (countedPool 1) w.store = 2 := by
  intro _ _
  -- Nothing comes up between the two reconciles.
  obtain ⟨calls, run⟩ := exists_run_afterReconciles (countedPool 1) 2
  exact ⟨calls, _, run, by decide +kernel⟩

end Tatara.Pool
