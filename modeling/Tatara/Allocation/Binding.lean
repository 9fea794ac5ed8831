import Tatara.Allocation.Controller
import Tatara.Lib.Interleaving
import Tatara.Pool.InUse

/-! Which members allocations have that are reconciled side by side with their pools. -/

namespace Tatara.Allocation

open Tatara.Crd Tatara.Rust Program

/-- What the API server stores, by names and namespaces. -/
structure Cluster where
  pools : AllocationRef → Option EphemeralPool
  allocations : AllocationRef → Option EphemeralAllocation
  processes : AllocationRef → Option Process

/-- The items are the objects of a namespace, each of them once. -/
def IsListing {α : Type} (objects : AllocationRef → Option α) (ns : String) (items : List α) :
    Prop :=
  ∃ names : List String, names.Nodup ∧ (∀ name, name ∈ names ↔ (objects ⟨name, ns⟩).isSome) ∧
    items = names.filterMap fun name => objects ⟨name, ns⟩

/-- An object is changed, if it is there. -/
def modify {α : Type} (objects : AllocationRef → Option α) (ref : AllocationRef) (f : α → α) :
    AllocationRef → Option α :=
  -- Where there is no such object, there is none afterwards.
  Function.update objects ref ((objects ref).map f)

/-- Where a Process is to be created. -/
def processRef (p : Process) : AllocationRef :=
  { name := p.metadata.name, ns := p.metadata.ns.getD "" }

namespace Cluster

/-- The store once a call has been carried out at a time. -/
def carriedOut (store : Cluster) (time : DateTime) : Call → Cluster
  | .pool (.createProcess p) =>
    -- A Process that is there already stays as it is.
    let there := store.processes (processRef p) <|>
      some { p with metadata.creationTimestamp := some time }
    { store with processes := Function.update store.processes (processRef p) there }
  | .pool (.deleteProcess ns name) =>
    let deleted (p : Process) := { p with metadata.deletionTimestamp := some time }
    { store with processes := modify store.processes ⟨name, ns⟩ deleted }
  | .pool (.mergePoolStatus ns name status) =>
    let patched (pool : EphemeralPool) := { pool with status := some status }
    { store with pools := modify store.pools ⟨name, ns⟩ patched }
  | .mergeProcess ns name lifetime annotations =>
    let merged := mergedProcess lifetime annotations
    { store with processes := modify store.processes ⟨name, ns⟩ merged }
  | .mergeAllocationStatus ns name status =>
    -- Nothing is asked of the status that is there before.
    { store with allocations := modify store.allocations ⟨name, ns⟩ (mergedAllocation status) }
  | .pool .now | .pool (.listProcesses _) | .now | .listPools _ => store

/-- The answers to a call that is carried out. -/
def Replies (store : Cluster) : (c : Call) → Answer c → Prop
  | .pool (.listProcesses ns), .ok items => IsListing store.processes ns items
  | .listPools ns, .ok items => IsListing store.pools ns items
  | .pool (.createProcess p), .ok _ => store.processes (processRef p) = none
  | .pool (.deleteProcess ns name), .ok _ => (store.processes ⟨name, ns⟩).isSome
  | .pool (.mergePoolStatus ns name _), .ok _ => (store.pools ⟨name, ns⟩).isSome
  | .mergeProcess ns name _ _, .ok _ => (store.processes ⟨name, ns⟩).isSome
  | .mergeAllocationStatus ns name _, .ok _ => (store.allocations ⟨name, ns⟩).isSome
  -- A request may be carried out although its answer is lost.
  | _, _ => True

/-- The answer reports an error. -/
def IsFailure : (c : Call) → Answer c → Prop
  | .pool (.listProcesses _), .error _ | .listPools _, .error _ => True
  | .pool (.createProcess _), .error _ | .pool (.deleteProcess _ _), .error _ => True
  | .pool (.mergePoolStatus _ _ _), .error _ | .mergeProcess _ _ _ _, .error _ => True
  | .mergeAllocationStatus _ _ _, .error _ => True
  | _, _ => False

/-- How the API server answers a call, and what it stores afterwards. -/
inductive Serves (store : Cluster) : (c : Call) → Answer c → Cluster → Prop where
  | done (c : Call) (answer : Answer c) (time : DateTime) (replies : store.Replies c answer) :
      Serves store c answer (store.carriedOut time c)
  | failed (c : Call) (answer : Answer c) (failure : IsFailure c answer) :
      Serves store c answer store

end Cluster

/-- The allocation that holds a Process, as its lifetime and its annotations have it. -/
def heldBy (p : Process) : Option String :=
  -- A member that is free is permanent, whatever its annotations say.
  if p.spec.lifetime.isEphemeral then p.annotation annotationAllocation else none

/-- The Process that is assigned to an allocation which is bound. -/
def boundProcess (alloc : EphemeralAllocation) : Option AllocationRef :=
  if alloc.observedPhaseOrPending = .bound then alloc.assignedProcess else none

namespace Cluster

/-- The Process that the allocation of this name is bound to. -/
def boundProcess (store : Cluster) (a : AllocationRef) : Option AllocationRef :=
  (store.allocations a).bind Allocation.boundProcess

/-- What changes beside the reconciles of allocations and pools: Processes go on or go away, and
allocations and pools are made, asked for something else, or removed. -/
inductive Drifts (store : Cluster) : Cluster → Prop where
  -- A bind is the only thing that writes the lifetime of a member or the annotation in question.
  | processes (processes : AllocationRef → Option Process)
      (same : ∀ ref q, processes ref = some q →
        ∃ p, store.processes ref = some p ∧ heldBy q = heldBy p) :
      Drifts store { store with processes }
  | allocations (allocations : AllocationRef → Option EphemeralAllocation)
      (same : ∀ ref b, allocations ref = some b → b.status = none ∨
        ∃ a, store.allocations ref = some a ∧ b.status = a.status) :
      Drifts store { store with allocations }
  | pools (pools : AllocationRef → Option EphemeralPool)
      (same : ∀ ref q, pools ref = some q → q.status = none ∨
        ∃ p, store.pools ref = some p ∧ q.status = p.status) :
      Drifts store { store with pools }

/-- No member is assigned to two allocations that are both bound. -/
def Exclusive (store : Cluster) : Prop :=
  ∀ a b ref, store.boundProcess a = some ref → store.boundProcess b = some ref → a = b

end Cluster

/-- The object that a reconcile is for. -/
inductive Place where
  | pool (ref : AllocationRef)
  | allocation (ref : AllocationRef)
  deriving DecidableEq

/-- A reconcile of a pool among those of the allocations. -/
def poolReconcile [Pool.Slugs] [Crates] (pool : EphemeralPool) : Task (Except String Unit) :=
  (Pool.reconcile pool).run.through Call.pool fun _ answer => answer

/-- Allocations and pools that are reconciled side by side, each on the copy that its controller
has of it. -/
def bindingSystem [Pool.Slugs] [Crates] :
    System Cluster Place Call Answer (Except String Unit) where
  starts _ place x :=
    match place with
    | .pool ref => ∃ pool, pool.metadata.name = ref.name ∧ pool.metadata.ns = some ref.ns ∧
        x = poolReconcile pool
    | .allocation ref => ∃ alloc, alloc.metadata.name = ref.name ∧
        alloc.metadata.ns = some ref.ns ∧ x = (reconcile alloc).run
  answers store _ := store.Serves
  drifts := Cluster.Drifts

/-- A bind finds a Process that no other allocation holds, the allocation that has bound it still
holds it when this is recorded, and no Process is created that a bound allocation has. -/
def Cluster.Fenced (store : Cluster) : Place × Event → Prop
  | (_, ⟨.mergeProcess ns name (some _) annotations, _⟩) =>
    -- An allocation may well bind what it holds once more, after an answer that was lost.
    ∀ p holder, store.processes ⟨name, ns⟩ = some p → heldBy p = some holder →
      annotations.lookup annotationAllocation = some holder
  | (_, ⟨.mergeAllocationStatus _ name status, _⟩) =>
    status.phase = .bound → ∀ ref, status.assignedProcess = some ref →
      ∃ p, store.processes ref = some p ∧ heldBy p = some name
  | (_, ⟨.pool (.createProcess p), _⟩) => ∀ a, store.boundProcess a ≠ some (processRef p)
  | _ => True

/-- What the calls of a reconcile look like: only a bind writes who holds a Process, and what is
recorded as bound is a Process of the same namespace. -/
def bindingProtocol : Protocol Call Answer Unit where
  allows
    | _, .mergeProcess _ _ none annotations => annotations.lookup annotationAllocation = none
    | _, .mergeAllocationStatus ns _ status =>
      status.phase = .bound → ∃ member, status.assignedProcess = some ⟨member, ns⟩
    | _, _ => True
  next _ _ _ := ()

section

variable [Crates]

omit [Crates] in
/-- A patch that says why there is no member yet. -/
theorem postpone_follows (alloc : EphemeralAllocation) (ns : String)
    (boundPool : Option AllocationRef) {phase : AllocationPhase} (message : String)
    (unbound : phase ≠ .bound) :
    Follows bindingProtocol (fun _ _ => True) (postpone alloc ns boundPool phase message) () :=
  ⟨trivial, fun _ => ⟨fun bound => absurd bound unbound, fun _ => trivial⟩⟩

omit [Crates] in
/-- To release a member binds nothing. -/
theorem release_follows (alloc : EphemeralAllocation) (ns member : String) (pool : AllocationRef) :
    Follows bindingProtocol (fun _ _ => True) (release alloc ns member pool) () := by
  -- The trigger is another annotation, and the phase that is written is another one.
  have silent : [(annotationReturnTrigger, "true")].lookup annotationAllocation = none := by decide
  refine ⟨silent, fun _ => ⟨trivial, fun _ => ⟨fun bound => ?_, fun _ => trivial⟩⟩⟩
  cases bound

/-- To bind is to record a member behind the patch of its Process. -/
theorem bind_follows (alloc : EphemeralAllocation) (ns : String) (pools : List EphemeralPool)
    (pool : AllocationRef) (member : String) :
    Follows bindingProtocol (fun _ _ => True) (bind alloc ns pools pool member) () := by
  -- Where the patch of the Process fails, nothing is recorded.
  refine ⟨trivial, fun answer => ?_⟩
  cases answer with
  | error e => exact Follows.pure trivial
  | ok _ => exact ⟨trivial, fun _ => ⟨fun _ => ⟨member, rfl⟩, fun _ => trivial⟩⟩

/-- Every decision is carried out by such calls. -/
theorem reconcile_follows (alloc : EphemeralAllocation) :
    Follows bindingProtocol (fun _ _ => True) (reconcile alloc).run () := by
  unfold reconcile
  split
  · exact Follows.pure trivial
  · rename_i ns placed
    refine ⟨trivial, fun answer => ?_⟩
    cases answer with
    | error e => exact Follows.pure trivial
    | ok pools =>
      -- Whatever is decided on these pools, the calls are of the kind that is allowed.
      refine ⟨trivial, fun now => ?_⟩
      have applied (decision : AllocationDecision) : Follows bindingProtocol (fun _ _ => True)
          (applyDecision alloc ns pools decision) () := by
        cases decision with
        | noOp | heartbeatBound => exact Follows.pure trivial
        | noMatchingPool | wait => exact postpone_follows _ _ _ _ (by decide)
        | bind => exact bind_follows ..
        | release => exact release_follows ..
      exact (applied _).bind fun _ _ _ => Follows.pure trivial

end

/-- The lookup of a key passes over entries that have other keys. -/
theorem lookup_filter {α β : Type} [DecidableEq α] {key : α} {keeps : α × β → Bool}
    (kept : ∀ b, keeps (key, b) = true) (entries : List (α × β)) :
    (entries.filter keeps).lookup key = entries.lookup key := by
  -- The entries that the filter drops are not the ones that the lookup stops at.
  induction entries with
  | nil => rfl
  | cons entry entries ih =>
    obtain ⟨k, b⟩ := entry
    rw [List.filter_cons]
    by_cases same : key = k
    · subst same
      simp [kept]
    · have other : (key == k) = false := by simpa using same
      split
      · simp only [List.lookup_cons, other, ih]
      · simp only [List.lookup_cons, other, ih]

/-- What a patch writes of an annotation takes the place of what was there. -/
theorem annotation_mergedProcess (lifetime : Option EphemeralLifetime)
    (annotations : List (String × String)) (p : Process) (key : String) :
    Process.annotation (mergedProcess lifetime annotations p) key =
      (annotations.lookup key <|> p.annotation key) := by
  simp only [ Process.annotation, mergedProcess, List.lookup_append]
  cases found : annotations.lookup key with
  | some value => rfl
  | none =>
    -- An annotation that the patch does not have is among the others.
    have absent : key ∉ annotations.map (·.1) := by
      intro member
      obtain ⟨entry, among, same⟩ := List.mem_map.mp member
      have different := List.lookup_eq_none_iff.mp found entry among
      simp [same] at different
    exact lookup_filter (by simpa using absent) p.metadata.annotations

/-- A Process that is bound is held by the allocation in the annotations that are written. -/
theorem heldBy_bind {annotations : List (String × String)} {holder : String}
    (written : annotations.lookup annotationAllocation = some holder)
    (lifetime : EphemeralLifetime) (p : Process) :
    heldBy (mergedProcess (some lifetime) annotations p) = some holder := by
  -- The slot of the ephemeral lifetime is written, so the annotation counts.
  have ephemeral : (mergedProcess (some lifetime) annotations p).spec.lifetime.isEphemeral = true :=
    rfl
  rw [heldBy, if_pos ephemeral, annotation_mergedProcess, written]
  rfl

/-- A patch of other annotations leaves a Process with the one that holds it. -/
theorem heldBy_annotate {annotations : List (String × String)}
    (silent : annotations.lookup annotationAllocation = none) (p : Process) :
    heldBy (mergedProcess none annotations p) = heldBy p := by
  have same : (mergedProcess none annotations p).spec.lifetime.isEphemeral =
      p.spec.lifetime.isEphemeral := rfl
  rw [heldBy, heldBy, same, annotation_mergedProcess, silent]
  rfl

/-- What is found after a change is either the changed object or another one. -/
theorem modify_eq_some {α : Type} {objects : AllocationRef → Option α} {ref other : AllocationRef}
    {f : α → α} {b : α} (found : modify objects ref f other = some b) :
    (other = ref ∧ ∃ a, objects ref = some a ∧ b = f a) ∨
      (other ≠ ref ∧ objects other = some b) := by
  -- Only the one object is changed.
  by_cases same : other = ref
  · subst same
    rw [modify, Function.update_self] at found
    obtain ⟨a, there, changed⟩ := Option.map_eq_some_iff.mp found
    exact .inl ⟨rfl, a, there, changed.symm⟩
  · rw [modify, Function.update_of_ne same] at found
    exact .inr ⟨same, found⟩

/-- Who is bound to a Process holds it, as long as it is there, and nobody else is bound to it. -/
structure Bindings (store : Cluster) : Prop where
  near : ∀ a ref, store.boundProcess a = some ref → ref.ns = a.ns
  held : ∀ a ref p, store.boundProcess a = some ref → store.processes ref = some p →
    heldBy p = some a.name
  exclusive : store.Exclusive

namespace Bindings

variable {store : Cluster}

/-- Processes may change as long as those that are bound stay with the ones that hold them. -/
theorem processes (bindings : Bindings store) {processes : AllocationRef → Option Process}
    (held : ∀ a ref q, store.boundProcess a = some ref → processes ref = some q →
      heldBy q = some a.name) :
    Bindings { store with processes } :=
  ⟨bindings.near, held, bindings.exclusive⟩

/-- Allocations may change as long as none becomes bound. -/
theorem allocations (bindings : Bindings store)
    {allocations : AllocationRef → Option EphemeralAllocation}
    (old : ∀ a ref, (allocations a).bind boundProcess = some ref →
      store.boundProcess a = some ref) :
    Bindings { store with allocations } := by
  -- Every allocation that is bound now has been bound in the same way before.
  constructor
  · intro a ref bound
    exact bindings.near a ref (old a ref bound)
  · intro a ref p bound stored
    exact bindings.held a ref p (old a ref bound) stored
  · intro a b ref one other
    exact bindings.exclusive a b ref (old a ref one) (old b ref other)

/-- An allocation with a patched status is bound if the patch says so, and to what it says. -/
theorem boundProcess_merged {status : AllocationStatus} {alloc : EphemeralAllocation}
    {ref : AllocationRef} (bound : boundProcess (mergedAllocation status alloc) = some ref) :
    status.phase = .bound ∧
      ∀ assigned, status.assignedProcess = some assigned → ref = assigned := by
  -- A merge always writes the phase, and a slot that the patch has.
  rw [boundProcess] at bound
  split at bound
  · rename_i phase
    refine ⟨phase, fun assigned written => ?_⟩
    have same : (status.assignedProcess <|> (alloc.status.getD {}).assignedProcess) = some ref :=
      bound
    rw [written] at same
    exact (Option.some.inj same).symm
  · cases bound

/-- The one that holds a Process is bound to it, and could not be if another one were. -/
theorem record (bindings : Bindings store) {ns name : String} {status : AllocationStatus}
    {member : String} {p : Process} (written : status.assignedProcess = some ⟨member, ns⟩)
    (there : store.processes ⟨member, ns⟩ = some p) (holds : heldBy p = some name) :
    Bindings { store with
      allocations := modify store.allocations ⟨name, ns⟩ (mergedAllocation status) } := by
  -- Whoever else is bound to the Process holds it, and so is the same allocation.
  have only (a : AllocationRef) (bound : store.boundProcess a = some ⟨member, ns⟩) :
      a = ⟨name, ns⟩ := by
    -- Names tell allocations of one namespace apart.
    have holder := bindings.held a _ p bound there
    have space := bindings.near a _ bound
    rw [holds] at holder
    obtain rfl : name = a.name := Option.some.inj holder
    obtain rfl : ns = a.ns := space
    rfl
  -- Nobody is bound afterwards who was not before, apart from the one that is recorded.
  have either (a ref : AllocationRef)
      (bound : (modify store.allocations ⟨name, ns⟩ (mergedAllocation status) a).bind
        boundProcess = some ref) :
      (a = ⟨name, ns⟩ ∧ ref = ⟨member, ns⟩) ∨ store.boundProcess a = some ref := by
    obtain ⟨new, found, now⟩ := Option.bind_eq_some_iff.mp bound
    rcases modify_eq_some found with ⟨same, alloc, -, rfl⟩ | ⟨-, before⟩
    · exact .inl ⟨same, (boundProcess_merged now).2 _ written⟩
    · exact .inr (Option.bind_eq_some_iff.mpr ⟨new, before, now⟩)
  constructor
  · intro a ref bound
    rcases either a ref bound with ⟨rfl, rfl⟩ | old
    · rfl
    · exact bindings.near a ref old
  · intro a ref q bound stored
    rcases either a ref bound with ⟨rfl, rfl⟩ | old
    · have same : some p = some q := there.symm.trans stored
      rw [← Option.some.inj same]
      exact holds
    · exact bindings.held a ref q old stored
  · intro a b ref one other
    -- Of two that are bound to one Process, the one that is recorded rules out any other.
    rcases either a ref one with ⟨rfl, rfl⟩ | old
    · rcases either b _ other with ⟨same, -⟩ | old
      · exact same.symm
      · exact (only b old).symm
    · rcases either b ref other with ⟨rfl, rfl⟩ | old'
      · exact only a old
      · exact bindings.exclusive a b ref old old'

/-- A call that is made where it may be keeps all this, whether its answer arrives or not. -/
theorem carriedOut (bindings : Bindings store) {c : Call} (place : Place) (answer : Answer c)
    (time : DateTime) (allowed : bindingProtocol.allows () c)
    (fenced : store.Fenced (place, ⟨c, answer⟩)) : Bindings (store.carriedOut time c) := by
  cases c with
  | now | listPools => exact bindings
  | pool call =>
    cases call with
    | now | listProcesses => exact bindings
    | mergePoolStatus ns name status =>
      -- What a pool says of its members binds none of them.
      exact ⟨bindings.near, bindings.held, bindings.exclusive⟩
    | createProcess p =>
      -- No allocation is bound to the Process that is new.
      refine bindings.processes fun a ref q bound stored => ?_
      by_cases same : ref = processRef p
      · subst same
        exact absurd bound (fenced a)
      · rw [Function.update_of_ne same] at stored
        exact bindings.held a ref q bound stored
    | deleteProcess ns name =>
      -- A Process that is to be deleted is held by the same allocation as before.
      refine bindings.processes fun a ref q bound stored => ?_
      rcases modify_eq_some stored with ⟨rfl, p, there, rfl⟩ | ⟨-, before⟩
      · exact bindings.held a _ p bound there
      · exact bindings.held a ref q bound before
  | mergeProcess ns name lifetime annotations =>
    refine bindings.processes fun a ref q bound stored => ?_
    rcases modify_eq_some stored with ⟨rfl, p, there, rfl⟩ | ⟨-, before⟩
    · have holder := bindings.held a _ p bound there
      cases lifetime with
      | none =>
        rw [heldBy_annotate allowed]
        exact holder
      -- The bind is one by the allocation that holds the Process already.
      | some lifetime => exact heldBy_bind (fenced p _ there holder) lifetime p
    · exact bindings.held a ref q bound before
  | mergeAllocationStatus ns name status =>
    by_cases phase : status.phase = .bound
    · -- The Process is still held by the allocation that is recorded as bound.
      obtain ⟨member, written⟩ := allowed phase
      obtain ⟨p, there, holds⟩ := fenced phase _ written
      exact bindings.record written there holds
    · -- A patch with another phase makes nothing bound.
      refine bindings.allocations fun a ref bound => ?_
      obtain ⟨new, found, now⟩ := Option.bind_eq_some_iff.mp bound
      rcases modify_eq_some found with ⟨-, alloc, -, rfl⟩ | ⟨-, before⟩
      · exact absurd (boundProcess_merged now).1 phase
      · exact Option.bind_eq_some_iff.mpr ⟨new, before, now⟩

/-- What drifts makes no allocation bound, and takes no Process from the one that holds it. -/
theorem drifts (bindings : Bindings store) {changed : Cluster} (drifts : store.Drifts changed) :
    Bindings changed := by
  cases drifts with
  | processes processes same =>
    refine bindings.processes fun a ref q bound stored => ?_
    obtain ⟨p, there, holder⟩ := same ref q stored
    rw [holder]
    exact bindings.held a ref p bound there
  | allocations allocations same =>
    refine bindings.allocations fun a ref bound => ?_
    obtain ⟨new, found, now⟩ := Option.bind_eq_some_iff.mp bound
    rcases same a new found with unset | ⟨alloc, there, status⟩
    · -- An allocation without a status is pending.
      simp [boundProcess, EphemeralAllocation.observedPhaseOrPending, unset] at now
    · have same : boundProcess alloc = boundProcess new := by
        cases new
        cases alloc
        cases status
        rfl
      exact Option.bind_eq_some_iff.mpr ⟨alloc, there, same.trans now⟩
  | pools pools same => exact ⟨bindings.near, bindings.held, bindings.exclusive⟩

end Bindings

/-- Reconciles of allocations and pools keep the bindings exclusive, where they are fenced. -/
theorem stable_bindings [Pool.Slugs] [Crates] :
    System.Stable bindingSystem bindingProtocol () () Cluster.Fenced
      fun store (_ : Place → Unit) => Bindings store where
  starts store stage place x bindings starts := by
    -- A start leaves the store as it is, and pools make none of the calls in question.
    refine ⟨?_, bindings⟩
    cases place with
    | pool ref =>
      obtain ⟨pool, -, -, rfl⟩ := starts
      exact Follows.through (fun _ _ => trivial) _ _
    | allocation ref =>
      obtain ⟨alloc, -, -, rfl⟩ := starts
      exact reconcile_follows alloc
  leaves store stage place bindings := bindings
  drifts store stage changed bindings drifts := bindings.drifts drifts
  calls store stage place c answer changed bindings allowed serves fenced := by
    cases serves with
    | done time => exact bindings.carriedOut place answer time allowed fenced
    | failed => exact bindings

/-- From allocations on none of which is bound, a run in which the binds are fenced never assigns a
member to two allocations that are both bound. -/
theorem binding_exclusive [Pool.Slugs] [Crates] {store : Cluster}
    (unbound : ∀ a, store.boundProcess a = none) {calls : List (Place × Event)}
    {w : World Cluster Place Call Answer (Except String Unit)}
    (run : System.Run bindingSystem (·.store.Fenced) ⟨store, fun _ => none⟩ calls w) :
    w.store.Exclusive := by
  -- Where nothing is bound, all that is asked of bindings holds.
  have start : Bindings store := by
    constructor <;> simp [Cluster.Exclusive, unbound]
  have keeps : System.Keeps bindingProtocol (fun store (_ : Place → Unit) => Bindings store)
      (⟨store, fun _ => none⟩ : World Cluster Place Call Answer (Except String Unit))
      fun _ => () :=
    ⟨start, fun _ _ busy => by cases busy⟩
  obtain ⟨-, bindings, -⟩ := stable_bindings.run run keeps
  exact bindings.exclusive

/-- A server of one pool and one Process, on which every request succeeds at once. -/
def serveAll (store : Cluster) (c : Call) : Answer c × Cluster :=
  match c with
  | .pool .now | .now => (⟨0⟩, store)
  | .pool (.listProcesses ns) => (.ok (store.processes ⟨"pool-0", ns⟩).toList, store)
  | .listPools ns => (.ok (store.pools ⟨"pool", ns⟩).toList, store)
  | .pool (.createProcess _) => (.error (.other "forbidden"), store)
  | .pool (.deleteProcess ns name) =>
    if (store.processes ⟨name, ns⟩).isSome then
      (.ok (), store.carriedOut ⟨0⟩ (.pool (.deleteProcess ns name)))
    else (.error "not found", store)
  | .pool (.mergePoolStatus ns name status) =>
    if (store.pools ⟨name, ns⟩).isSome then
      (.ok (), store.carriedOut ⟨0⟩ (.pool (.mergePoolStatus ns name status)))
    else (.error "not found", store)
  | .mergeProcess ns name lifetime annotations =>
    if (store.processes ⟨name, ns⟩).isSome then
      (.ok (), store.carriedOut ⟨0⟩ (.mergeProcess ns name lifetime annotations))
    else (.error "not found", store)
  | .mergeAllocationStatus ns name status =>
    if (store.allocations ⟨name, ns⟩).isSome then
      (.ok (), store.carriedOut ⟨0⟩ (.mergeAllocationStatus ns name status))
    else (.error "not found", store)

/-- There are no other pools and Processes. -/
structure Cluster.Small (store : Cluster) : Prop where
  pools : ∀ ref, (store.pools ref).isSome → ref.name = "pool"
  processes : ∀ ref, (store.processes ref).isSome → ref.name = "pool-0"

/-- A change neither makes an object nor takes one away. -/
theorem isSome_modify {α : Type} (objects : AllocationRef → Option α) (ref other : AllocationRef)
    (f : α → α) : (modify objects ref f other).isSome = (objects other).isSome := by
  unfold modify
  by_cases same : other = ref
  · subst same
    rw [Function.update_self, Option.isSome_map]
  · rw [Function.update_of_ne same]

/-- Where all objects have one name, at most one is listed of each namespace. -/
theorem isListing_single {α : Type} {objects : AllocationRef → Option α} {only : String}
    (single : ∀ ref, (objects ref).isSome → ref.name = only) (ns : String) :
    IsListing objects ns (objects ⟨only, ns⟩).toList := by
  cases there : objects ⟨only, ns⟩ with
  | none =>
    -- An object of the namespace would have that name.
    refine ⟨[], List.nodup_nil, fun name => ?_, rfl⟩
    simp only [List.not_mem_nil, false_iff]
    intro found
    have named : name = only := single _ found
    rw [named, there] at found
    cases found
  | some a =>
    refine ⟨[only], List.nodup_singleton only, fun name => ?_, by simp [there]⟩
    rw [List.mem_singleton]
    constructor
    · intro named
      rw [named, there]
      rfl
    · exact fun found => single _ found

/-- The server answers as it should, and no pool or Process is added. -/
theorem serves_serveAll {store : Cluster} (small : store.Small) (c : Call) :
    store.Serves c (serveAll store c).1 (serveAll store c).2 ∧ (serveAll store c).2.Small := by
  -- What the store is left with has its pools and Processes under the same names.
  have patched {pools : AllocationRef → Option EphemeralPool}
      {processes : AllocationRef → Option Process}
      {allocations : AllocationRef → Option EphemeralAllocation}
      (samePools : ∀ ref, (pools ref).isSome = (store.pools ref).isSome)
      (sameProcesses : ∀ ref, (processes ref).isSome = (store.processes ref).isSome) :
      Cluster.Small { pools, allocations, processes } :=
    ⟨fun ref found => small.pools ref (samePools ref ▸ found),
      fun ref found => small.processes ref (sameProcesses ref ▸ found)⟩
  cases c with
  | now => exact ⟨.done .now _ ⟨0⟩ trivial, small⟩
  | listPools ns =>
    exact ⟨.done (.listPools ns) _ ⟨0⟩ (isListing_single small.pools ns), small⟩
  | pool call =>
    cases call with
    | now => exact ⟨.done (.pool .now) _ ⟨0⟩ trivial, small⟩
    | listProcesses ns =>
      exact ⟨.done (.pool (.listProcesses ns)) _ ⟨0⟩ (isListing_single small.processes ns), small⟩
    | createProcess p => exact ⟨.failed _ _ trivial, small⟩
    | deleteProcess ns name =>
      simp only [serveAll]
      split
      · rename_i there
        exact ⟨.done (.pool (.deleteProcess ns name)) _ ⟨0⟩ there,
          patched (fun _ => rfl) fun ref => isSome_modify ..⟩
      · exact ⟨.failed _ _ trivial, small⟩
    | mergePoolStatus ns name status =>
      simp only [serveAll]
      split
      · rename_i there
        exact ⟨.done (.pool (.mergePoolStatus ns name status)) _ ⟨0⟩ there,
          patched (fun ref => isSome_modify ..) fun _ => rfl⟩
      · exact ⟨.failed _ _ trivial, small⟩
  | mergeProcess ns name lifetime annotations =>
    simp only [serveAll]
    split
    · rename_i there
      exact ⟨.done (.mergeProcess ns name lifetime annotations) _ ⟨0⟩ there,
        patched (fun _ => rfl) fun ref => isSome_modify ..⟩
    · exact ⟨.failed _ _ trivial, small⟩
  | mergeAllocationStatus ns name status =>
    simp only [serveAll]
    split
    · rename_i there
      exact ⟨.done (.mergeAllocationStatus ns name status) _ ⟨0⟩ there,
        patched (fun _ => rfl) fun _ => rfl⟩
    · exact ⟨.failed _ _ trivial, small⟩

/-- All that a reconcile asks of such a server is answered as it should be. -/
theorem answered_serveAll {store : Cluster} (small : store.Small)
    (x : Task (Except String Unit)) :
    x.DrivesWithin serveAll (fun before event after => before.Serves event.1 event.2 after) store :=
  drivesWithin_of_good (G := Cluster.Small) (fun _ c small => serves_serveAll small c) x small

section

variable [Pool.Slugs] [Crates]

/-- A reconcile may run to its end by itself, on the server of one pool and one Process. -/
theorem exists_run_reconcile (place : Place) {store : Cluster} (small : store.Small)
    {x : Task (Except String Unit)} (starts : bindingSystem.starts store place x) :
    (∃ calls, System.Run bindingSystem (fun _ _ => True) ⟨store, fun _ => none⟩ calls
      ⟨x.drive serveAll store, fun _ => none⟩) ∧ (x.drive serveAll store).Small := by
  -- Nothing is asked of the calls.
  have free : x.DrivesWithin serveAll (fun _ _ _ => True) store :=
    drivesWithin_of_forall (fun _ _ => trivial) x store
  exact ⟨System.Run.alone (fun _ _ => True) starts ((answered_serveAll small x).and free),
    drive_good (G := Cluster.Small) (fun _ c small => (serves_serveAll small c).2) x small⟩

end

/-- A request for any member there is. -/
def request (name : String) : EphemeralAllocation :=
  { metadata := { name, ns := some "pools" }, spec := { requestor := { kind := "manual" } } }

/-- A pool with one member, and two requests for it. -/
def warmCluster : Cluster where
  pools ref := if ref = ⟨"pool", "pools"⟩ then some (Pool.sizedPool 1 0 0) else none
  allocations ref :=
    if ref = ⟨"first", "pools"⟩ then some (request "first")
    else if ref = ⟨"second", "pools"⟩ then some (request "second")
    else none
  processes ref :=
    if ref = ⟨"pool-0", "pools"⟩ then
      some (Pool.attestedMember "pool-0" 0 { permanent := some () })
    else none

/-- On the server of the example there is one pool and one Process. -/
theorem small_warmCluster : warmCluster.Small where
  pools ref found := by
    simp only [warmCluster] at found
    split at found
    · rename_i same
      rw [same]
    · cases found
  processes ref found := by
    simp only [warmCluster] at found
    split at found
    · rename_i same
      rw [same]
    · cases found

/-- On the server of the example nothing is bound. -/
theorem unbound_warmCluster (a : AllocationRef) : warmCluster.boundProcess a = none := by
  simp only [Cluster.boundProcess, warmCluster]
  split
  · rfl
  · split <;> rfl

/-- The same when the pool has written its status. -/
def listedCluster : Cluster :=
  warmCluster.carriedOut ⟨0⟩ (.pool (.mergePoolStatus "pools" "pool"
    (.observedFrom (Pool.sizedPool 1 0 0) [.unallocated "pool-0" .free ⟨0⟩] ⟨0⟩)))

/-- One request for the member that is free is bound to it. -/
theorem binding_exclusive_request :
    let _ := plainCrates
    let _ := Pool.plainSlugs
    ∃ calls w,
      System.Run bindingSystem (·.store.Fenced) ⟨listedCluster, fun _ => none⟩ calls w ∧
        w.store.boundProcess ⟨"first", "pools"⟩ = some ⟨"pool-0", "pools"⟩ ∧
          w.store.Exclusive := by
  intro _ _
  have small : listedCluster.Small := by
    refine ⟨fun ref found => ?_, small_warmCluster.processes⟩
    exact small_warmCluster.pools ref ((isSome_modify ..).symm.trans found)
  have starts : bindingSystem.starts listedCluster (.allocation ⟨"first", "pools"⟩)
      (reconcile (request "first")).run := ⟨request "first", rfl, rfl, rfl⟩
  have fenced : (reconcile (request "first")).run.DrivesWithin serveAll
      (fun before event _ => before.Fenced (.allocation ⟨"first", "pools"⟩, event))
      listedCluster := by
    -- Of the calls only the two patches may be made under a condition.
    refine ⟨trivial, trivial, ?_, trivial, ?_, trivial⟩
    · -- The member is not ephemeral yet.
      intro p holder there held
      cases there
      cases held
    · -- By then it is, and its annotation names the request.
      intro _ ref assigned
      cases assigned
      exact ⟨_, rfl, rfl⟩
  have unbound (a : AllocationRef) : listedCluster.boundProcess a = none := unbound_warmCluster a
  obtain ⟨calls, run⟩ := System.Run.alone Cluster.Fenced starts
    ((answered_serveAll small _).and fenced)
  exact ⟨calls, _, run, by decide +kernel, binding_exclusive unbound run⟩

/-- The second of two requests finds the member free in the status of the pool that the first one
has been bound to. -/
theorem not_binding_exclusive :
    let _ := plainCrates
    let _ := Pool.plainSlugs
    (∀ a, warmCluster.boundProcess a = none) ∧
      ∃ calls w, System.Run bindingSystem (fun _ _ => True) ⟨warmCluster, fun _ => none⟩ calls w ∧
        ¬ w.store.Exclusive := by
  intro _ _
  constructor
  · exact unbound_warmCluster
  · -- The pool writes its status, and then one request is reconciled after the other.
    obtain ⟨⟨_, listing⟩, small⟩ := exists_run_reconcile (.pool ⟨"pool", "pools"⟩)
      small_warmCluster ⟨Pool.sizedPool 1 0 0, rfl, rfl, rfl⟩
    obtain ⟨⟨_, first⟩, small⟩ := exists_run_reconcile (.allocation ⟨"first", "pools"⟩)
      small ⟨request "first", rfl, rfl, rfl⟩
    obtain ⟨⟨_, second⟩, -⟩ := exists_run_reconcile (.allocation ⟨"second", "pools"⟩)
      small ⟨request "second", rfl, rfl, rfl⟩
    refine ⟨_, _, (listing.trans first).trans second, fun exclusive => ?_⟩
    have same := exclusive ⟨"first", "pools"⟩ ⟨"second", "pools"⟩ ⟨"pool-0", "pools"⟩
      (by decide +kernel) (by decide +kernel)
    exact absurd same (by decide)

end Tatara.Allocation
