import Tatara.Lib.Delimited
import Tatara.Lib.Interleaving
import Tatara.Reconciler.PhaseMachine

/-! The PIDs of Processes whose reconciles share the counter of the ProcessTable. -/

namespace Tatara.Reconciler

open Tatara.Rust Tatara.Crd Program
open Tatara.Delimited (append_mark_inj)

/-- What the API server stores of the ProcessTable and the Processes, and the copies of these that
the controller goes by. -/
structure PidStore (ι : Type) where
  table : Option ProcessTable
  process : ι → Process
  copy : ι → Process

/-- What a reconcile that forks has done about the PID. -/
inductive PidStage where
  | waiting
  | looking
  | found (n : UInt32)
  | holding (n : UInt32)
  | settled
  deriving DecidableEq

/-- A PID with this number as its last segment. -/
def pidPath (base : String) (n : UInt32) : String :=
  base ++ "." ++ String.ofList (renderNat n.toNat)

/-- Every PID ends in the number that it was allocated with. -/
theorem allocatePid_eq (identity : Identity) (parentPid : Option String) (n : UInt32) :
    ∃ base, allocatePid identity parentPid n = pidPath base n := by
  -- Without a parent, or with an empty one, the name comes before the number.
  unfold allocatePid
  split
  · split
    · exact ⟨identity.name, rfl⟩
    · exact ⟨_, rfl⟩
  · exact ⟨identity.name, rfl⟩

/-- The number is what stands behind the last dot, however many dots come before. -/
theorem pidPath_number {base base' : String} {n n' : UInt32}
    (same : pidPath base n = pidPath base' n') : n = n' := by
  have dotless (m : Nat) : '.' ∉ (renderNat m).reverse := by
    intro member
    have digit := renderNat_isDigit (List.mem_reverse.mp member)
    simp [Char.isDigit] at digit
  have texts := congrArg (fun text : String => text.toList.reverse) same
  simp only [pidPath, String.toList_append, String.toList_ofList, List.reverse_append,
    show (".".toList.reverse : List Char) = ['.'] from rfl, List.singleton_append] at texts
  -- Read from the end, the digits come before the first dot.
  obtain ⟨digits, -⟩ := append_mark_inj (dotless _) (dotless _) texts
  have numbers : some n.toNat = some n'.toNat := by
    rw [← parseNat_renderNat, ← parseNat_renderNat, List.reverse_inj.mp digits]
  exact UInt32.toNat_inj.mp (Option.some.inj numbers)

/-- How a reconcile goes about a PID: it finds the counter, moves it on, and records the number. -/
def pidProtocol : Protocol Call Answer PidStage where
  allows
    -- The clock and the dependencies may be looked at whenever there is reason to.
    | _, .now | _, .request (.getProcess _ _) => True
    | .waiting, .request .getProcessTable => True
    | .looking, .request .createProcessTable => True
    -- What is written follows the number that was read, wherever the counter is by now.
    | .found n, .request (.mergeNextSequence sequence) => sequence = n + 1
    | .holding n, .request (.mergeStatus patch) => ∃ base, patch.pid = some (pidPath base n)
    | _, .request (.mergeStatus patch) => patch.pid = none
    | _, _ => False
  next
    | .waiting, .request .getProcessTable, .ok (some table) => .found table.nextSequence
    | .waiting, .request .getProcessTable, .ok none => .looking
    | .looking, .request .createProcessTable, .ok table => .found table.nextSequence
    | .found n, .request (.mergeNextSequence _), .ok _ => .holding n
    | .holding _, .request (.mergeStatus _), _ => .settled
    | stage, _, _ => stage

/-- The calls of the protocol: some at every stage, and one that leads to the next. -/
theorem pidProtocol_allows {stage : PidStage} {c : Call} (allowed : pidProtocol.allows stage c) :
    c = .now ∨ (∃ ns name, c = .request (.getProcess ns name)) ∨
      (stage = .waiting ∧ c = .request .getProcessTable) ∨
      (stage = .looking ∧ c = .request .createProcessTable) ∨
      (∃ n, stage = .found n ∧ c = .request (.mergeNextSequence (n + 1))) ∨
      (∃ n base patch, stage = .holding n ∧ patch.pid = some (pidPath base n) ∧
        c = .request (.mergeStatus patch)) ∨
      ∃ patch, (∀ n, stage ≠ .holding n) ∧ patch.pid = none ∧
        c = .request (.mergeStatus patch) := by
  cases c with
  | now => exact .inl rfl
  | request r =>
    cases r with
    | getProcess ns name => exact .inr (.inl ⟨ns, name, rfl⟩)
    | getProcessTable =>
      cases stage with
      | waiting => exact .inr (.inr (.inl ⟨rfl, rfl⟩))
      | _ => exact False.elim allowed
    | createProcessTable =>
      cases stage with
      | looking => exact .inr (.inr (.inr (.inl ⟨rfl, rfl⟩)))
      | _ => exact False.elim allowed
    | mergeNextSequence sequence =>
      cases stage with
      | found n =>
        obtain rfl : sequence = n + 1 := allowed
        exact .inr (.inr (.inr (.inr (.inl ⟨n, rfl, rfl⟩))))
      | _ => exact False.elim allowed
    | mergeStatus patch =>
      -- Only a reconcile that holds a number writes a PID.
      cases stage with
      | holding n =>
        obtain ⟨base, path⟩ := allowed
        exact .inr (.inr (.inr (.inr (.inr (.inl ⟨n, base, patch, rfl, path, rfl⟩)))))
      | _ =>
        exact .inr (.inr (.inr (.inr (.inr (.inr ⟨patch, by simp, allowed, rfl⟩)))))
    | _ => cases stage <;> exact False.elim allowed

section

variable [Crates]

omit [Crates] in
/-- Looking at the dependencies does not bear on the PID. -/
theorem checkDependsOn_follows (p : Process) (deps : List DependsOn) (stage : PidStage) :
    Follows pidProtocol (fun last _ => last = stage) (checkDependsOn p deps) stage := by
  -- One dependency after the other is fetched, and the stage stays.
  induction deps with
  | nil => exact Follows.pure rfl
  | cons dep deps ih =>
    have kept (answer : Except String (Option Process)) : pidProtocol.next stage
        (.request (.getProcess (dep.ns.getD p.namespaceOrDefault) dep.name)) answer = stage := by
      cases stage <;> rfl
    have get : Follows pidProtocol (fun last _ => last = stage)
        (send (.getProcess (dep.ns.getD p.namespaceOrDefault) dep.name)) stage :=
      Follows.call (by cases stage <;> trivial) kept
    refine get.bind fun last answer same => ?_
    subst same
    exact ih.bind fun last unmet same => Follows.pure same

omit [Crates] in
/-- A request whose error is reported. -/
theorem errCtx_follows {α : Type} {context : String} {task : Task (Except String α)}
    {stage : PidStage} {ends : PidStage → Except String α → Prop}
    (follows : Follows pidProtocol ends task stage)
    (renamed : ∀ last error error', ends last (.error error) → ends last (.error error')) :
    Follows pidProtocol ends (errCtx context task).run stage := by
  -- Only the text of an error is different afterwards.
  refine follows.bind fun last result ended => ?_
  cases result with
  | ok a => exact Follows.pure ended
  | error error => exact Follows.pure (renamed _ _ _ ended)

omit [Crates] in
/-- Where the table is found or created, its number is the one that goes on. -/
theorem ensureProcessTable_follows :
    Follows pidProtocol
      (fun last result => ∀ table, result = .ok table → last = .found table.nextSequence)
      ensureProcessTable .waiting := by
  refine ⟨trivial, fun answer => ?_⟩
  match answer with
  | .error e => exact Follows.pure (by simp)
  | .ok (some table) => exact Follows.pure (by simp [pidProtocol])
  | .ok none =>
    -- There is no table yet, so one is created.
    refine ⟨trivial, fun answer => ?_⟩
    cases answer with
    | error e => exact Follows.pure (by simp)
    | ok table => exact Follows.pure (by simp [pidProtocol])

/-- Giving a Process its PID. -/
theorem assignPid_follows (p : Process) :
    Follows pidProtocol
      (fun last result => result.isOk → last = .waiting ∨ last = .settled)
      (assignPid p).run .waiting := by
  unfold assignPid
  split
  · -- The copy of the Process has a PID already.
    exact Follows.pure fun _ => .inl rfl
  · refine Follows.tryBind (errCtx_follows ensureProcessTable_follows ?_) ?_ ?_
    · simp
    · intro _ _ _ impossible
      cases impossible
    intro stage table found
    rw [found table rfl]
    -- The counter moves on before the number is used.
    refine ⟨rfl, fun answer => ?_⟩
    cases answer with
    | error e => exact Follows.pure fun impossible => by cases impossible
    | ok _ =>
      refine ⟨?_, fun answer => ?_⟩
      · -- The PID is made of the number that was found in the table.
        obtain ⟨base, path⟩ := allocatePid_eq (p.observedIdentity.getD (deriveIdentity p.spec))
          p.declaredParentPid table.nextSequence
        exact ⟨base, congrArg some path⟩
      · cases answer with
        | error e => exact Follows.pure fun impossible => by cases impossible
        | ok _ => exact Follows.pure fun _ => .inr rfl

/-- A reconcile that forks keeps to the protocol. -/
theorem handleForking_follows (p : Process) :
    Follows pidProtocol (fun _ _ => True) (handleForking p).run .waiting := by
  unfold handleForking
  refine Follows.liftBind (checkDependsOn_follows p _ .waiting) fun stage unmet same => ?_
  subst same
  split
  · -- An unmet dependency is only reported.
    exact ⟨rfl, fun _ => trivial⟩
  · refine Follows.tryBind (assignPid_follows p) (fun _ _ _ => trivial) fun stage _ ended => ?_
    -- What is left only writes the phase.
    rcases ended rfl with rfl | rfl
    all_goals
      refine ⟨trivial, fun _ => ⟨rfl, fun answer => ?_⟩⟩
      cases answer <;> trivial

end

/-- The table with `bootstrap_process_table_spec`. -/
def bootstrapProcessTable : ProcessTable := { nextSequence := 1, claims := none }

namespace PidStore

variable {ι : Type} [DecidableEq ι]

/-- The PID that is stored of a Process. -/
def pid (store : PidStore ι) (i : ι) : Option String := (store.process i).observedPid

/-- The store once a request for a Process has been carried out. -/
def carriedOut (store : PidStore ι) (i : ι) : Request → PidStore ι
  | .createProcessTable =>
    -- A table that is there already stays as it is.
    { store with table := store.table <|> some bootstrapProcessTable }
  | .mergeNextSequence sequence =>
    { store with table := store.table.map fun table => { table with nextSequence := sequence } }
  | .mergeStatus patch =>
    let patched := Event.effect ⟨.request (.mergeStatus patch), .ok ()⟩ (store.process i)
    { store with process := Function.update store.process i patched }
  -- A reconcile that forks sends no other request that changes anything.
  | _ => store

/-- The replies to a request that succeeds. -/
def Replies (store : PidStore ι) : (r : Request) → r.Reply → Prop
  | .getProcessTable, table => table = store.table
  -- Of several requests to create the table, the first one succeeds.
  | .createProcessTable, table => store.table = none ∧ table = bootstrapProcessTable
  | .mergeNextSequence _, _ => store.table.isSome
  | _, _ => True

/-- How the API server answers a call for a Process, and what it stores afterwards. -/
inductive Serves (store : PidStore ι) (i : ι) : (c : Call) → Answer c → PidStore ι → Prop where
  | now (time : DateTime) : Serves store i .now time store
  | done (r : Request) (reply : r.Reply) (replies : store.Replies r reply) :
      Serves store i (.request r) (.ok reply) (store.carriedOut i r)
  | failed (r : Request) (error : String) : Serves store i (.request r) (.error error) store
  /-- A request may be carried out although its answer is lost. -/
  | lost (r : Request) (error : String) :
      Serves store i (.request r) (.error error) (store.carriedOut i r)

/-- What changes beside the reconciles that fork: a copy is brought up to date, or something that is
neither the counter nor a PID is changed. -/
inductive Drifts (store : PidStore ι) : PidStore ι → Prop where
  | copied (i : ι) :
      Drifts store { store with copy := Function.update store.copy i (store.process i) }
  | changed (table : Option ProcessTable) (process : ι → Process)
      (counter : table.map (·.nextSequence) = store.table.map (·.nextSequence))
      (pids : ∀ i, (process i).observedPid = store.pid i) :
      Drifts store { store with table, process }

end PidStore

section

variable {ι : Type} [DecidableEq ι]

/-- Processes that are forked side by side, one reconcile at a time for each of them. -/
def pidSystem (ι : Type) [DecidableEq ι] [Crates] :
    System (PidStore ι) ι Call Answer (Except String Action) where
  starts store i x :=
    (store.copy i).observedPhaseOrPending = .forking ∧ x = (handleForking (store.copy i)).run
  answers := PidStore.Serves
  drifts := PidStore.Drifts

/-- The state of the Processes, with what is left of the reconciles under way. -/
abbrev PidWorld (ι : Type) := World (PidStore ι) ι Call Answer (Except String Action)

/-- A reconcile looks at the table only for a Process without a PID, and moves the counter on from
where it is. -/
def PidStore.Unraced (store : PidStore ι) : ι × Event → Prop
  | (i, ⟨.request .getProcessTable, _⟩) => store.pid i = none
  | (_, ⟨.request (.mergeNextSequence sequence), _⟩) =>
    ∀ table, store.table = some table → sequence.toNat = table.nextSequence.toNat + 1
  | _ => True

/-- The counter has passed a number. -/
def PidStore.Passed (store : PidStore ι) (n : UInt32) : Prop :=
  ∃ table, store.table = some table ∧ n.toNat < table.nextSequence.toNat

/-- A Process has a number: its reconcile is about to record it, or it ends the PID. -/
def Takes (store : PidStore ι) (stage : ι → PidStage) (i : ι) (n : UInt32) : Prop :=
  stage i = .holding n ∨ ∃ base, store.pid i = some (pidPath base n)

/-- A reconcile is about to give its Process a PID. -/
def PidStage.isAllocating : PidStage → Bool
  | waiting | settled => false
  | looking | found _ | holding _ => true

/-- Numbers are handed out in order, to one Process each. -/
structure HandedOut (store : PidStore ι) (stage : ι → PidStage) : Prop where
  numbered : ∀ i pid, store.pid i = some pid → ∃ base n, pid = pidPath base n
  passed : ∀ i n, Takes store stage i n → store.Passed n
  single : ∀ i j n, Takes store stage i n → Takes store stage j n → i = j
  unassigned : ∀ i, (stage i).isAllocating = true → store.pid i = none

namespace HandedOut

variable {store changed : PidStore ι} {stage : ι → PidStage}

omit [DecidableEq ι] in
/-- Nothing is handed out by changes that keep the PIDs and do not put back the counter. -/
theorem keep (handed : HandedOut store stage) (pids : ∀ i, changed.pid i = store.pid i)
    (counter : ∀ n, store.Passed n → changed.Passed n) : HandedOut changed stage := by
  -- Who has which number goes by the stages and the PIDs alone.
  have same (i : ι) (n : UInt32) : Takes changed stage i n ↔ Takes store stage i n := by
    rw [Takes, Takes, pids]
  constructor
  · intro i pid stored
    exact handed.numbered i pid (pids i ▸ stored)
  · intro i n takes
    exact counter n (handed.passed i n ((same i n).mp takes))
  · intro i j n first second
    exact handed.single i j n ((same i n).mp first) ((same j n).mp second)
  · intro i allocating
    rw [pids]
    exact handed.unassigned i allocating

/-- A reconcile that goes to a stage without a number takes none. -/
theorem move (handed : HandedOut store stage) (i : ι) (next : PidStage)
    (free : ∀ n, next ≠ .holding n)
    (unassigned : next.isAllocating = true → store.pid i = none) :
    HandedOut store (Function.update stage i next) := by
  -- Whoever has a number now had it before.
  have before (j : ι) (n : UInt32) (takes : Takes store (Function.update stage i next) j n) :
      Takes store stage j n := by
    rcases takes with holds | stored
    · by_cases same : j = i
      · subst same
        rw [Function.update_self] at holds
        exact absurd holds (free n)
      · rw [Function.update_of_ne same] at holds
        exact .inl holds
    · exact .inr stored
  constructor
  · exact handed.numbered
  · intro j n takes
    exact handed.passed j n (before j n takes)
  · intro j k n first second
    exact handed.single j k n (before j n first) (before k n second)
  · intro j allocating
    by_cases same : j = i
    · subst same
      rw [Function.update_self] at allocating
      exact unassigned allocating
    · rw [Function.update_of_ne same] at allocating
      exact handed.unassigned j allocating

/-- The reconcile that moves the counter on takes the number that was there. -/
theorem hold (handed : HandedOut store stage) {i : ι} {n : UInt32} {table : ProcessTable}
    (stored : store.table = some table) (current : table.nextSequence = n)
    (unassigned : store.pid i = none) (counter : changed.Passed n)
    (passed : ∀ m, store.Passed m → changed.Passed m) (pids : ∀ j, changed.pid j = store.pid j) :
    HandedOut changed (Function.update stage i (.holding n)) := by
  -- The number is new, as the counter has not passed it.
  have new (j : ι) : ¬ Takes store stage j n := by
    intro takes
    obtain ⟨table', stored', below⟩ := handed.passed j n takes
    rw [stored, Option.some.injEq] at stored'
    rw [← stored', current] at below
    exact Nat.lt_irrefl _ below
  have before (j : ι) (m : UInt32)
      (takes : Takes changed (Function.update stage i (.holding n)) j m) :
      j = i ∧ m = n ∨ Takes store stage j m := by
    -- The Process itself has no PID, so it has no other number than the new one.
    by_cases same : j = i
    · subst same
      rw [Takes, Function.update_self, pids, unassigned] at takes
      rcases takes with holds | ⟨_, impossible⟩
      · exact .inl ⟨rfl, (PidStage.holding.inj holds).symm⟩
      · cases impossible
    · rw [Takes, Function.update_of_ne same, pids] at takes
      exact .inr takes
  constructor
  · intro j pid stored
    exact handed.numbered j pid (pids j ▸ stored)
  · intro j m takes
    rcases before j m takes with ⟨_, rfl⟩ | earlier
    · exact counter
    · exact passed m (handed.passed j m earlier)
  · intro j k m first second
    rcases before j m first with ⟨rfl, rfl⟩ | earlier
    · -- Another one that had the number would have had it before.
      rcases before k m second with ⟨rfl, _⟩ | other
      · rfl
      · exact absurd other (new k)
    · rcases before k m second with ⟨rfl, rfl⟩ | other
      · exact absurd earlier (new j)
      · exact handed.single j k m earlier other
  · intro j allocating
    rw [pids]
    by_cases same : j = i
    · exact same ▸ unassigned
    · rw [Function.update_of_ne same] at allocating
      exact handed.unassigned j allocating

/-- A number that is recorded passes from the reconcile to the PID. -/
theorem record (handed : HandedOut store stage) {i : ι} {n : UInt32} {base : String}
    (holds : stage i = .holding n) (assigned : changed.pid i = some (pidPath base n))
    (others : ∀ j, j ≠ i → changed.pid j = store.pid j) (table : changed.table = store.table) :
    HandedOut changed (Function.update stage i .settled) := by
  have before (j : ι) (m : UInt32) (takes : Takes changed (Function.update stage i .settled) j m) :
      Takes store stage j m := by
    by_cases same : j = i
    · subst same
      rw [Takes, Function.update_self, assigned] at takes
      rcases takes with impossible | ⟨base', path⟩
      · cases impossible
      · -- The PID ends in no other number than the one that was taken.
        rw [← pidPath_number (Option.some.inj path)]
        exact .inl holds
    · rw [Takes, Function.update_of_ne same, others j same] at takes
      exact takes
  constructor
  · intro j pid stored
    by_cases same : j = i
    · rw [same, assigned] at stored
      exact ⟨base, n, (Option.some.inj stored).symm⟩
    · exact handed.numbered j pid (others j same ▸ stored)
  · intro j m takes
    rw [PidStore.Passed, table]
    exact handed.passed j m (before j m takes)
  · intro j k m first second
    exact handed.single j k m (before j m first) (before k m second)
  · intro j allocating
    by_cases same : j = i
    · rw [same, Function.update_self] at allocating
      cases allocating
    · rw [Function.update_of_ne same] at allocating
      rw [others j same]
      exact handed.unassigned j allocating

/-- A patch of the status leaves a PID behind that it has, and else the one that is there. -/
theorem pid_mergeStatus (store : PidStore ι) (i j : ι) (patch : StatusPatch) :
    (store.carriedOut i (.mergeStatus patch)).pid j =
      if j = i then patch.pid <|> store.pid i else store.pid j := by
  simp only [PidStore.carriedOut, PidStore.pid]
  split
  · rename_i same
    subst same
    rw [Function.update_self]
    -- A Process without a status has no PID, and neither have the defaults.
    simp only [Event.effect]
    simp only [Process.observedPid, StatusPatch.merge, Option.bind_some]
    cases (store.process j).status <;> rfl
  · rename_i other
    rw [Function.update_of_ne other]

/-- Where the counter is moved on from where it is, every number that it has passed stays passed. -/
theorem passed_mergeNextSequence {i : ι} {sequence : UInt32} {m : UInt32}
    (forward : ∀ table, store.table = some table →
      sequence.toNat = table.nextSequence.toNat + 1) (passed : store.Passed m) :
    (store.carriedOut i (.mergeNextSequence sequence)).Passed m := by
  obtain ⟨table, stored, below⟩ := passed
  -- The counter goes up by one, so what is below it stays below.
  have moved := forward table stored
  refine ⟨{ table with nextSequence := sequence }, ?_, ?_⟩
  · simp [PidStore.carriedOut, stored]
  · show m.toNat < sequence.toNat
    omega

/-- The reconcile of a Process has gone on to a stage: the numbers are still apart, and the PIDs
that there were are kept. -/
structure GoesOn (store changed : PidStore ι) (stage : ι → PidStage) (i : ι) (next : PidStage) :
    Prop where
  handed : HandedOut changed (Function.update stage i next)
  kept : ∀ j pid, store.pid j = some pid → changed.pid j = some pid

/-- Where nothing is stored and no number is taken, a stage follows in which the Process may still
be without a PID. -/
theorem goesOn (handed : HandedOut store stage) (i : ι) {next : PidStage}
    (free : ∀ n, next ≠ .holding n) (unassigned : next.isAllocating = true → store.pid i = none) :
    GoesOn store store stage i next :=
  ⟨handed.move i next free unassigned, fun _ _ stored => stored⟩

/-- A stage that stays as it is goes on from what is stored to what is. -/
theorem stays (handed : HandedOut store stage) (i : ι) : GoesOn store store stage i (stage i) := by
  refine ⟨?_, fun _ _ stored => stored⟩
  rw [Function.update_eq_self]
  exact handed

/-- A look at the table is for a Process without a PID, whatever is found. -/
theorem getProcessTable {i : ι} {answer : Answer (.request .getProcessTable)}
    (handed : HandedOut store stage)
    (serves : store.Serves i (.request .getProcessTable) answer changed)
    (unassigned : store.pid i = none) :
    GoesOn store changed stage i
      (pidProtocol.next .waiting (.request .getProcessTable) answer) := by
  -- Nothing is stored, and the stage goes on without a number.
  cases serves with
  | done _ reply replies =>
    cases reply with
    | none => exact handed.goesOn i (by simp [pidProtocol]) fun _ => unassigned
    | some table => exact handed.goesOn i (by simp [pidProtocol]) fun _ => unassigned
  | failed | lost => exact handed.goesOn i (by simp [pidProtocol]) fun _ => unassigned

/-- A table that is created has passed no number yet, and one that is there stays. -/
theorem createProcessTable {i : ι} {answer : Answer (.request .createProcessTable)}
    (handed : HandedOut store stage) (looking : stage i = .looking)
    (serves : store.Serves i (.request .createProcessTable) answer changed) :
    GoesOn store changed stage i
      (pidProtocol.next .looking (.request .createProcessTable) answer) := by
  -- Whoever looks for a table has no PID.
  have unassigned : store.pid i = none := handed.unassigned i (by rw [looking]; rfl)
  -- The table that is created passes no number; one that is there is not replaced.
  have created : HandedOut (store.carriedOut i .createProcessTable) stage := by
    refine handed.keep (fun _ => rfl) fun m passed => ?_
    obtain ⟨table, stored, below⟩ := passed
    exact ⟨table, by simp [PidStore.carriedOut, stored], below⟩
  -- A lost answer leaves the table created, and the stage is the same.
  cases serves with
  | done => exact ⟨created.move i _ (by simp [pidProtocol]) fun _ => unassigned, fun _ _ h => h⟩
  | lost => exact ⟨created.move i _ (by simp [pidProtocol]) fun _ => unassigned, fun _ _ h => h⟩
  | failed => exact handed.goesOn i (by simp [pidProtocol]) fun _ => unassigned

/-- The counter is moved on from where it was read, or the request fails, or its answer is lost. -/
theorem mergeNextSequence {i : ι} {n : UInt32}
    {answer : Answer (.request (.mergeNextSequence (n + 1)))} (handed : HandedOut store stage)
    (found : stage i = .found n)
    (serves : store.Serves i (.request (.mergeNextSequence (n + 1))) answer changed)
    (forward : ∀ table, store.table = some table →
      (n + 1).toNat = table.nextSequence.toNat + 1) :
    GoesOn store changed stage i
      (pidProtocol.next (.found n) (.request (.mergeNextSequence (n + 1))) answer) := by
  have unassigned : store.pid i = none := handed.unassigned i (by rw [found]; rfl)
  have passed (m : UInt32) := passed_mergeNextSequence (i := i) (m := m) forward
  cases serves with
  | done _ _ present =>
    obtain ⟨table, stored⟩ := Option.isSome_iff_exists.mp present
    -- The counter is where it was when it was read, and does not wrap around.
    have moved := forward table stored
    have small := n.toNat_lt
    have current : table.nextSequence = n := by
      apply UInt32.toNat_inj.mp
      rw [UInt32.toNat_add] at moved
      simp at moved
      omega
    have counter : (store.carriedOut i (.mergeNextSequence (n + 1))).Passed n := by
      refine ⟨{ table with nextSequence := n + 1 }, by simp [PidStore.carriedOut, stored], ?_⟩
      show n.toNat < (n + 1).toNat
      rw [← current] at moved ⊢
      omega
    exact ⟨handed.hold stored current unassigned counter passed fun _ => rfl, fun _ _ h => h⟩
  | failed => exact handed.goesOn i (by simp [pidProtocol]) fun _ => unassigned
  | lost =>
    have moved : HandedOut (store.carriedOut i (.mergeNextSequence (n + 1))) stage :=
      handed.keep (fun _ => rfl) passed
    exact ⟨moved.move i _ (by simp [pidProtocol]) fun _ => unassigned, fun _ _ h => h⟩

/-- The number that is held is recorded in the PID, and nobody else's PID changes. -/
theorem mergePid {i : ι} {n : UInt32} {base : String} {patch : StatusPatch}
    {answer : Answer (.request (.mergeStatus patch))} (handed : HandedOut store stage)
    (holding : stage i = .holding n) (path : patch.pid = some (pidPath base n))
    (serves : store.Serves i (.request (.mergeStatus patch)) answer changed) :
    GoesOn store changed stage i
      (pidProtocol.next (.holding n) (.request (.mergeStatus patch)) answer) := by
  -- Whoever holds a number has no PID yet.
  have unassigned : store.pid i = none := handed.unassigned i (by rw [holding]; rfl)
  -- The patch gives the PID to this Process alone.
  have assigned : (store.carriedOut i (.mergeStatus patch)).pid i = some (pidPath base n) := by
    rw [pid_mergeStatus, if_pos rfl, path]
    rfl
  have others (j : ι) (other : j ≠ i) :
      (store.carriedOut i (.mergeStatus patch)).pid j = store.pid j := by
    rw [pid_mergeStatus, if_neg other]
  have kept (j : ι) (pid : String) (stored : store.pid j = some pid) :
      (store.carriedOut i (.mergeStatus patch)).pid j = some pid := by
    rw [others j fun same => by rw [same, unassigned] at stored; cases stored]
    exact stored
  -- The number goes from the stage to the PID, so that nobody else can have it.
  have recorded := handed.record holding assigned others rfl
  cases serves with
  | done => exact ⟨recorded, kept⟩
  | lost => exact ⟨recorded, kept⟩
  | failed =>
    exact handed.goesOn i (by simp [pidProtocol]) (by simp [pidProtocol, PidStage.isAllocating])

/-- A patch of the status without a PID leaves the PID that is there, and the stage. -/
theorem mergeStatus {i : ι} {patch : StatusPatch} {answer : Answer (.request (.mergeStatus patch))}
    (handed : HandedOut store stage) (pidless : patch.pid = none)
    (serves : store.Serves i (.request (.mergeStatus patch)) answer changed) :
    GoesOn store changed stage i (stage i) := by
  -- Without a PID in the patch, every Process keeps its own.
  have pids (j : ι) : (store.carriedOut i (.mergeStatus patch)).pid j = store.pid j := by
    rw [pid_mergeStatus, pidless]
    split
    · rename_i same
      rw [same]
      rfl
    · rfl
  -- The stage is that from before.
  have patched : HandedOut (store.carriedOut i (.mergeStatus patch))
      (Function.update stage i (stage i)) :=
    (handed.stays i).handed.keep pids fun _ passed => passed
  cases serves with
  | done => exact ⟨patched, fun j _ stored => (pids j).trans stored⟩
  | lost => exact ⟨patched, fun j _ stored => (pids j).trans stored⟩
  | failed => exact handed.stays i

/-- A call that is made where it may be keeps the numbers apart, and the PIDs that there are. -/
theorem serve {i : ι} {c : Call} {answer : Answer c} (handed : HandedOut store stage)
    (serves : store.Serves i c answer changed) (allowed : pidProtocol.allows (stage i) c)
    (unraced : store.Unraced (i, ⟨c, answer⟩)) :
    GoesOn store changed stage i (pidProtocol.next (stage i) c answer) := by
  -- The protocol leaves these calls, of which only the last few change anything.
  rcases pidProtocol_allows allowed with rfl | ⟨ns, name, rfl⟩ | ⟨waiting, rfl⟩ | ⟨looking, rfl⟩ |
    ⟨n, found, rfl⟩ | ⟨n, base, patch, holding, path, rfl⟩ | ⟨patch, other, pidless, rfl⟩
  · -- A look at the clock or at a dependency changes nothing.
    have same : pidProtocol.next (stage i) .now answer = stage i := by cases stage i <;> rfl
    rw [same]
    cases serves
    exact handed.stays i
  · have same : pidProtocol.next (stage i) (.request (.getProcess ns name)) answer = stage i := by
      cases stage i <;> rfl
    rw [same]
    cases serves <;> exact handed.stays i
  · rw [waiting]
    exact handed.getProcessTable serves unraced
  · rw [looking]
    exact handed.createProcessTable looking serves
  · rw [found]
    exact handed.mergeNextSequence found serves unraced
  · rw [holding]
    exact handed.mergePid holding path serves
  · have same : pidProtocol.next (stage i) (.request (.mergeStatus patch)) answer = stage i := by
      cases now : stage i with
      | holding n => exact absurd now (other n)
      | _ => rfl
    rw [same]
    exact handed.mergeStatus pidless serves

end HandedOut

/-- Numbers are handed out in order, and the PIDs that there once were are still the same. -/
structure KeptPids (once store : PidStore ι) (stage : ι → PidStage) : Prop where
  handed : HandedOut store stage
  kept : ∀ i pid, once.pid i = some pid → store.pid i = some pid

/-- Reconciles that do not race keep the numbers apart, and the PIDs that there are. -/
theorem stable_keptPids [Crates] (once : PidStore ι) :
    System.Stable (pidSystem ι) pidProtocol .waiting .settled PidStore.Unraced (KeptPids once) where
  starts store stage i x holds starts := by
    -- A reconcile that starts holds no number.
    obtain ⟨-, rfl⟩ := starts
    have handed := holds.handed.move i .waiting (by simp) (by simp [PidStage.isAllocating])
    exact ⟨handleForking_follows _, handed, holds.kept⟩
  leaves store stage i holds :=
    ⟨holds.handed.move i .settled (by simp) (by simp [PidStage.isAllocating]), holds.kept⟩
  drifts store stage changed holds drifts := by
    cases drifts with
    | copied i =>
      -- The copies are no part of what is handed out.
      exact ⟨holds.handed.keep (fun _ => rfl) fun _ passed => passed, holds.kept⟩
    | changed table process counter pids =>
      refine ⟨holds.handed.keep pids fun n passed => ?_, fun i pid stored => ?_⟩
      · obtain ⟨old, stored, below⟩ := passed
        rw [stored, Option.map_some, Option.map_eq_some_iff] at counter
        obtain ⟨new, there, same⟩ := counter
        exact ⟨new, there, same ▸ below⟩
      · exact (pids i).trans (holds.kept i pid stored)
  calls store stage i c answer changed holds allowed serves unraced := by
    obtain ⟨handed, kept⟩ := holds.handed.serve serves allowed unraced
    exact ⟨handed, fun j pid stored => kept j pid (holds.kept j pid stored)⟩

/-- From Processes without PIDs on, a run in which the reconciles do not race gives no two Processes
the same PID, and every Process that has one keeps it. -/
theorem pids_unique [Crates] {store : PidStore ι} (fresh : ∀ i, store.pid i = none)
    {before after : List (ι × Event)} {w v : PidWorld ι}
    (first : System.Run (pidSystem ι) (·.store.Unraced) ⟨store, fun _ => none⟩ before w)
    (second : System.Run (pidSystem ι) (·.store.Unraced) w after v) :
    (∀ i j pid, v.store.pid i = some pid → v.store.pid j = some pid → i = j) ∧
      ∀ i pid, w.store.pid i = some pid → v.store.pid i = some pid := by
  -- Without PIDs and reconciles there are no numbers to keep apart.
  have handed : HandedOut store fun _ : ι => .waiting := by
    refine ⟨?_, ?_, ?_, fun i _ => fresh i⟩
    · intro i pid stored
      rw [fresh] at stored
      cases stored
    all_goals simp [Takes, fresh]
  obtain ⟨stage, ⟨middle, _⟩, follows⟩ := (stable_keptPids store).run first
    ⟨⟨handed, fun _ _ stored => stored⟩, fun _ _ busy => by cases busy⟩
  -- From where the first run ends, the PIDs that are there are kept as well.
  obtain ⟨_, ⟨last, kept⟩, _⟩ := (stable_keptPids w.store).run second
    ⟨⟨middle, fun _ _ stored => stored⟩, follows⟩
  refine ⟨fun i j pid one other => ?_, kept⟩
  obtain ⟨base, n, rfl⟩ := last.numbered i pid one
  exact last.single i j n (.inr ⟨base, one⟩) (.inr ⟨base, other⟩)

end

/-- A server on which every request of a reconcile that forks succeeds at once. -/
def PidStore.serveAll {ι : Type} [DecidableEq ι] (i : ι) (store : PidStore ι) :
    (c : Call) → Answer c × PidStore ι
  | .now => (⟨0⟩, store)
  | .request .getProcessTable => (.ok store.table, store)
  | .request (.mergeNextSequence sequence) =>
    if store.table.isSome then (.ok (), store.carriedOut i (.mergeNextSequence sequence))
    else (.error "not found", store)
  | .request (.mergeStatus patch) => (.ok (), store.carriedOut i (.mergeStatus patch))
  | .request _ => (.error "unavailable", store)

/-- What the server does is one of the things that may happen. -/
theorem PidStore.serves_serveAll {ι : Type} [DecidableEq ι] (i : ι) (store : PidStore ι)
    (c : Call) : store.Serves i c (store.serveAll i c).1 (store.serveAll i c).2 := by
  -- One case for each kind of call that the server knows, and one for the others.
  unfold PidStore.serveAll
  split
  · exact .now _
  · exact .done .getProcessTable _ rfl
  · split
    · rename_i present
      exact .done (.mergeNextSequence _) () present
    · exact .failed _ _
  · exact .done (.mergeStatus _) () trivial
  · exact .failed _ _

/-- Two Processes with one parent, both of them forking. -/
def sibling (left : Bool) : Process :=
  { metadata := { name := if left then "left" else "right" }
    spec := { identity := { parent := some "seph.1" }, intent := { flux := some .null }
              rest := .null }
    status := some { phase := .forking } }

/-- A new table, and the Processes as they are. -/
def siblings : PidStore Bool :=
  { table := some bootstrapProcessTable, process := sibling, copy := sibling }

/-- One reconcile that forks may run to its end by itself. -/
theorem exists_run_fork [Crates] {ι : Type} [DecidableEq ι] (may : PidStore ι → ι × Event → Prop)
    (i : ι) (store : PidStore ι) (forking : (store.copy i).observedPhaseOrPending = .forking)
    (within : (handleForking (store.copy i)).run.DrivesWithin (PidStore.serveAll i)
      (fun before event _ => may before (i, event)) store) :
    ∃ calls, System.Run (pidSystem ι) (fun w => may w.store) ⟨store, fun _ => none⟩ calls
      ⟨(handleForking (store.copy i)).run.drive (PidStore.serveAll i) store, fun _ => none⟩ :=
  System.Run.alone may ⟨forking, rfl⟩
    ((drivesWithin_of_forall (PidStore.serves_serveAll i) _ _).and within)

/-- A reconcile that forks alone gives its Process the first PID. -/
theorem pids_unique_sibling :
    let _ := plainCrates
    ∃ calls w, System.Run (pidSystem Bool) (·.store.Unraced) ⟨siblings, fun _ => none⟩ calls w ∧
      w.store.pid true = some "seph.1.1" ∧
        ∀ i j pid, w.store.pid i = some pid → w.store.pid j = some pid → i = j := by
  intro _
  have fresh (left : Bool) : siblings.pid left = none := rfl
  have within : (handleForking (sibling true)).run.DrivesWithin (PidStore.serveAll true)
      (fun before event _ => before.Unraced (true, event)) siblings := by
    -- The look at the table and the move of the counter are the two calls that matter.
    refine ⟨rfl, ?_, trivial, trivial, trivial, trivial⟩
    intro table stored
    cases stored
    rfl
  obtain ⟨calls, run⟩ := exists_run_fork PidStore.Unraced true siblings rfl within
  exact ⟨calls, _, run, by decide +kernel, (pids_unique fresh run .refl).1⟩

/-- One reconcile may run from its start to its end when another one has found the counter and has
not moved it on. -/
theorem exists_run_race [Crates] {ι : Type} [DecidableEq ι] {i j : ι} (store : PidStore ι)
    (apart : j ≠ i) {next : Answer (.request .getProcessTable) → Task (Except String Action)}
    (looks : (handleForking (store.copy i)).run = .ask (.request .getProcessTable) next)
    (first : (store.copy i).observedPhaseOrPending = .forking)
    (second : (store.copy j).observedPhaseOrPending = .forking) :
    ∃ calls, System.Run (pidSystem ι) (fun _ _ => True) ⟨store, fun _ => none⟩ calls
      ⟨(next (.ok store.table)).drive (PidStore.serveAll i)
        ((handleForking (store.copy j)).run.drive (PidStore.serveAll j) store), fun _ => none⟩ := by
  let begun : ι → Option (Task (Except String Action)) :=
    Function.update (fun _ => none) i (some (.ask (.request .getProcessTable) next))
  let left : ι → Option (Task (Except String Action)) :=
    Function.update begun i (some (next (.ok store.table)))
  have start : System.Step (pidSystem ι) ⟨store, fun _ => none⟩ none ⟨store, begun⟩ :=
    .start rfl ⟨first, looks.symm⟩
  have busy : begun i = some (.ask (.request .getProcessTable) next) := Function.update_self ..
  have look : System.Step (pidSystem ι) ⟨store, begun⟩
      (some (i, ⟨.request .getProcessTable, .ok store.table⟩)) ⟨store, left⟩ :=
    .call busy (.done .getProcessTable store.table rfl)
  have idle : left j = none :=
    (Function.update_of_ne apart _ _).trans (Function.update_of_ne apart _ _)
  have begin : System.Step (pidSystem ι) ⟨store, left⟩ none
      ⟨store, Function.update left j (some (handleForking (store.copy j)).run)⟩ :=
    .start idle ⟨second, rfl⟩
  obtain ⟨more, whole⟩ : ∃ calls, System.Run (pidSystem ι) (fun _ _ => True)
      ⟨store, Function.update left j (some (handleForking (store.copy j)).run)⟩ calls
      ⟨(handleForking (store.copy j)).run.drive (PidStore.serveAll j) store,
        Function.update left j none⟩ :=
    System.Run.drive (fun _ _ => True) j left _ store
      (drivesWithin_of_forall (fun store c => ⟨PidStore.serves_serveAll j store c, trivial⟩) _ _)
  have alone : Function.update left j none = left :=
    Function.update_eq_iff.mpr ⟨idle.symm, fun _ _ => rfl⟩
  rw [alone] at whole
  -- The one that has found the counter goes on with a number that is taken by now.
  obtain ⟨last, rest⟩ : ∃ calls, System.Run (pidSystem ι) (fun _ _ => True)
      ⟨(handleForking (store.copy j)).run.drive (PidStore.serveAll j) store, left⟩ calls
      ⟨(next (.ok store.table)).drive (PidStore.serveAll i)
        ((handleForking (store.copy j)).run.drive (PidStore.serveAll j) store),
        Function.update begun i none⟩ :=
    System.Run.drive (fun _ _ => True) i begun _ _
      (drivesWithin_of_forall (fun store c => ⟨PidStore.serves_serveAll i store c, trivial⟩) _ _)
  have ended : Function.update begun i none = fun _ => none :=
    (Function.update_idem ..).trans (Function.update_eq_self ..)
  rw [ended] at rest
  exact ⟨_, ((((System.Run.refl.silent start).call look trivial).silent begin).trans whole).trans
    rest⟩

/-- Two Processes that are forked side by side may get one PID, and a Process whose copy is out of
date gets another one. -/
theorem not_pids_unique :
    let _ := plainCrates
    (∃ calls w, System.Run (pidSystem Bool) (fun _ _ => True) ⟨siblings, fun _ => none⟩ calls w ∧
      w.store.pid true = some "seph.1.1" ∧ w.store.pid false = some "seph.1.1") ∧
    ∃ before w after v,
      System.Run (pidSystem Bool) (fun _ _ => True) ⟨siblings, fun _ => none⟩ before w ∧
        System.Run (pidSystem Bool) (fun _ _ => True) w after v ∧
          w.store.pid true = some "seph.1.1" ∧ v.store.pid true = some "seph.1.2" := by
  intro _
  constructor
  · obtain ⟨calls, run⟩ := exists_run_race (i := true) (j := false) siblings (by decide) rfl rfl rfl
    exact ⟨calls, _, run, by decide +kernel, by decide +kernel⟩
  · have anything (store : PidStore Bool) :
        (handleForking (store.copy true)).run.DrivesWithin (PidStore.serveAll true)
          (fun _ _ _ => True) store :=
      drivesWithin_of_forall (fun _ _ => trivial) _ _
    obtain ⟨before, first⟩ := exists_run_fork (fun _ _ => True) true siblings rfl (anything _)
    let forked : PidStore Bool :=
      (handleForking (sibling true)).run.drive (PidStore.serveAll true) siblings
    -- The copy of the Process is still the one from before.
    have stale : forked.copy true = sibling true := by rfl
    obtain ⟨after, second⟩ :=
      exists_run_fork (fun _ _ => True) true forked (by rw [stale]; rfl) (anything forked)
    exact ⟨before, _, after, _, first, second, by decide +kernel, by decide +kernel⟩

end Tatara.Reconciler
