import Tatara.Allocation.Release
import Tatara.Crd.Lifetime

/-! A member of a pool in the hands of an allocation: what a bind makes of its lifetime. -/

namespace Tatara.Allocation

open Tatara.Crd Tatara.Rust Program

section

variable [ExportFormat]

/-- A Process in JSON, as far as its lifetime goes; the other fields may be any. -/
def storedProcess (p : Process) (spec others : List (String × Json)) : Json :=
  .object (Json.insertField "spec" (withLifetime p.spec.lifetime spec) others)

/-- The lifetime that a bind asks for. -/
def boundLifetime (ttl : String) : EphemeralLifetime :=
  { ttl, teardownPolicy := .always, exports := [] }

/-- The annotations that a bind asks for. -/
def boundAnnotations (alloc : EphemeralAllocation) (ns : String) : List (String × String) :=
  [(annotationRequestor, qualifiedProcessRef ns alloc.metadata.name),
    (annotationAllocation, alloc.metadata.name),
    (annotationRequestorKind, alloc.spec.requestor.kind)]

/-- `proc_patch` of a bind. -/
def bindPatch (alloc : EphemeralAllocation) (ns ttl : String) : Json :=
  .ofFields
    [("spec", .ofFields
        [("lifetime", Lifetime.serialize { ephemeral := some (boundLifetime ttl) } 0)]),
      ("metadata", .ofFields
        [("annotations", .ofFields
          ((boundAnnotations alloc ns).map fun entry => (entry.1, .string entry.2)))])]

/-- What a bind writes into the ephemeral slot. -/
def boundSlot (ttl : String) : Json :=
  .object [("maxConcurrent", .ofU64 0), ("teardownPolicy", .string "Always"),
    ("ttl", .string ttl)]

/-- The patch names the metadata and the spec, and in the spec one slot of the lifetime. -/
theorem bindPatch_eq (alloc : EphemeralAllocation) (ns ttl : String) :
    ∃ metadata, bindPatch alloc ns ttl =
      .object [("metadata", metadata),
        ("spec", .object [("lifetime", .object [("ephemeral", boundSlot ttl)])])] :=
  ⟨_, rfl⟩

/-- A stored Process reads back with the lifetime of the patch in it. -/
theorem field_lifetime_mergePatch (p : Process) (spec others : List (String × Json))
    (metadata lifetime : Json) :
    ∃ patched, (Json.mergePatch (storedProcess p spec others)
        (.object [("metadata", metadata), ("spec", .object [("lifetime", lifetime)])])).field
          "spec" = some patched ∧
      patched.field "lifetime" = Json.patchedField
        (if p.spec.lifetime.isDefault then none
          else some (p.spec.lifetime.serialize defaultEphemeralMaxConcurrent)) (some lifetime) := by
  -- The two objects are merged one level after the other.
  have stored : (storedProcess p spec others).field "spec" =
      some (withLifetime p.spec.lifetime spec) := by
    simp [storedProcess, Json.field, Json.lookup_insertField]
  have among : (withLifetime p.spec.lifetime spec).field "lifetime" =
      if p.spec.lifetime.isDefault then none
        else some (p.spec.lifetime.serialize defaultEphemeralMaxConcurrent) := by
    unfold withLifetime
    split <;> simp [Json.field, Json.lookup_insertField, Json.lookup_removeField]
  refine ⟨Json.mergePatch (withLifetime p.spec.lifetime spec) (.object [("lifetime", lifetime)]),
    ?_, ?_⟩
  · rw [Json.field_mergePatch (by simp), stored]
    simp [Json.lookup_cons_eq, Json.patchedField]
  · rw [Json.field_mergePatch (by simp), among]
    simp

/-- What a bind asks for reads back as it is. -/
theorem deserialize_boundSlot (ttl : String) :
    EphemeralLifetime.deserialize (boundSlot ttl) = some (boundLifetime ttl) := rfl

/-- Laid into a lifetime that has no ephemeral slot, it leaves the other slot alone. -/
theorem deserialize_mergePatch {value : Json} (unbound : value.field "ephemeral" = none)
    (ttl : String) :
    Lifetime.deserialize (Json.mergePatch value (.object [("ephemeral", boundSlot ttl)])) =
      (optionalField value "permanent" readPermanent).map fun permanent =>
        { permanent, ephemeral := some (boundLifetime ttl) } := by
  have permanent : (Json.mergePatch value (.object [("ephemeral", boundSlot ttl)])).field
      "permanent" = value.field "permanent" := by
    rw [Json.field_mergePatch (by simp)]
    simp [Json.lookup_cons_eq, Json.patchedField]
  -- Laid into nothing, the slot is the value itself.
  have laid : Json.mergePatch .null (boundSlot ttl) = boundSlot ttl := rfl
  have ephemeral : (Json.mergePatch value (.object [("ephemeral", boundSlot ttl)])).field
      "ephemeral" = some (boundSlot ttl) := by
    rw [Json.field_mergePatch (by simp), unbound, Json.lookup_cons_eq, if_pos rfl]
    exact congrArg some laid
  have read : optionalField (Json.mergePatch value (.object [("ephemeral", boundSlot ttl)]))
      "ephemeral" EphemeralLifetime.deserialize = some (some (boundLifetime ttl)) := by
    rw [optionalField, ephemeral]
    exact congrArg (Option.map some) (deserialize_boundSlot ttl)
  have kept : optionalField (Json.mergePatch value (.object [("ephemeral", boundSlot ttl)]))
      "permanent" readPermanent = optionalField value "permanent" readPermanent := by
    rw [optionalField, permanent, optionalField]
  rw [Json.mergePatch] at read kept ⊢
  simp only [Lifetime.deserialize, read, kept]
  cases optionalField value "permanent" readPermanent <;> rfl

/-- A bind sets the ephemeral slot of an unbound Process and leaves the permanent one. -/
theorem readLifetime_bind {p : Process} (unbound : p.spec.lifetime.ephemeral = none)
    (alloc : EphemeralAllocation) (ns ttl : String) (annotations : List (String × String))
    (spec others : List (String × Json)) :
    readLifetime (Json.mergePatch (storedProcess p spec others) (bindPatch alloc ns ttl)) =
      some (mergedProcess (some (boundLifetime ttl)) annotations p).spec.lifetime := by
  obtain ⟨metadata, patch⟩ := bindPatch_eq alloc ns ttl
  obtain ⟨patched, found, among⟩ := field_lifetime_mergePatch p spec others metadata
    (.object [("ephemeral", boundSlot ttl)])
  have merged : (mergedProcess (some (boundLifetime ttl)) annotations p).spec.lifetime =
      { permanent := p.spec.lifetime.permanent, ephemeral := some (boundLifetime ttl) } := by
    simp [mergedProcess, mergeEphemeral, boundLifetime, unbound]
  rw [patch, readLifetime, found, merged]
  simp only [Option.bind_eq_bind, Option.bind_some, fieldOr, among]
  cases marked : p.spec.lifetime.permanent with
  | none =>
    -- A lifetime with no slot set is not stored at all.
    have untouched : p.spec.lifetime.isDefault = true := by
      simp [Lifetime.isDefault, marked, unbound]
    rw [untouched]
    exact deserialize_mergePatch rfl ttl
  | some marker =>
    have marking : p.spec.lifetime.isDefault = false := by simp [Lifetime.isDefault, marked]
    have written : p.spec.lifetime.serialize defaultEphemeralMaxConcurrent =
        .object [("permanent", .object [])] := by
      simp [Lifetime.serialize, marked, unbound, Json.ofFields, Json.insertField]
    rw [marking, written]
    exact deserialize_mergePatch rfl ttl

end

section

variable [Crates]

/-- A lifetime with both slots set is ambiguous, and its clock never goes off. -/
theorem lifetimeClock_of_ambiguous {p : Process} {marker : Unit}
    (marked : p.spec.lifetime.permanent = some marker) (phase : ProcessPhase) (now : DateTime) :
    lifetimeClock p phase now = .skip := by
  -- With the permanent slot set, no lifetime resolves.
  have unresolved : p.spec.lifetime.resolvedEphemeral = none := by
    simp [Lifetime.resolvedEphemeral, marked]
  simp only [lifetimeClock, unresolved]

/-- Without the marker, what a bind asks for tears down an attested member at once. -/
theorem lifetimeClock_of_bound {p : Process} {ttl : String}
    (resolved : p.spec.lifetime.resolvedEphemeral = some (boundLifetime ttl)) (now : DateTime) :
    lifetimeClock p .attested now = .now (.teardownPolicy .always .attested) := by
  simp [lifetimeClock, resolved, boundLifetime, TeardownPolicy.shouldTeardownOn]

/-- A bind asks for the lifetime of the patch, and records when the allocation expires. -/
theorem runs_bind {alloc : EphemeralAllocation} {ns memberProcessName : String}
    {pools : List EphemeralPool} {pool : AllocationRef} {events : List Event}
    (runs : Runs (bind alloc ns pools pool memberProcessName) events ()) :
    let ttl := ttlOf alloc pools pool
    ∃ answer rest, events = ⟨.mergeProcess ns memberProcessName (some (boundLifetime ttl))
        (boundAnnotations alloc ns), answer⟩ :: rest ∧
      ∀ event ∈ rest, ∀ status, statusPatch event = some status →
        ∃ now : DateTime, (⟨.now, now⟩ : Event) ∈ rest ∧ status.allocatedAt = some now ∧
          status.expiresAt = some (expiryOf ttl now) := by
  unfold bind at runs
  obtain ⟨answer, patched, last, asked, after, rfl⟩ := runs_bind_iff.mp runs
  obtain rfl := runs_call_iff.mp asked
  refine ⟨_, last, rfl, fun event among status shown => ?_⟩
  -- A patch that fails is all there is.
  cases patched with
  | error error =>
    obtain ⟨rfl, -⟩ := runs_pure_iff.mp after
    cases among
  | ok _ =>
    obtain ⟨_, now, back, clock, recorded, rfl⟩ := runs_bind_iff.mp after
    obtain rfl := runs_call_iff.mp clock
    obtain ⟨_, answer, done, asked, ended, rfl⟩ := runs_bind_iff.mp recorded
    obtain rfl := runs_call_iff.mp asked
    obtain ⟨rfl, -⟩ := runs_pure_iff.mp ended
    simp only [List.singleton_append, List.append_nil, List.mem_cons, List.not_mem_nil,
      or_false] at among
    rcases among with rfl | rfl
    · cases shown
    · cases shown
      exact ⟨now, by simp, rfl, rfl⟩

variable [ExportFormat]

/-- A member of a pool that has attested. -/
def attestedMember (pool : EphemeralPool) (processName : String) (slot : Nat) (poolName : String)
    (created : DateTime) (status : ProcessStatus) : Process :=
  let member := Pool.buildMemberProcess pool processName slot poolName
  { member with
    metadata.creationTimestamp := some created
    status := some { status with phase := .attested } }

/-- The lifetime of a stored Process is that of its allocation: it has this time to live, and its
clock goes off from when it expires on and not before. -/
def LivesAsLong (p : Process) (object : Json) (ttl : String) (bound expiry : DateTime) : Prop :=
  ∃ lifetime e, readLifetime object = some lifetime ∧ lifetime.resolvedEphemeral = some e ∧
    e.ttl = ttl ∧ ∀ now : DateTime, bound.nanos ≤ now.nanos →
      (lifetimeClock { p with spec.lifetime := lifetime } .attested now = .skip ↔
        now.nanos < expiry.nanos)

/-- A bound member keeps the marker of its permanent lifetime, so that it does not live by its
allocation at all. -/
theorem not_livesAsLong (pool : EphemeralPool) (processName : String) (slot : Nat)
    (poolName : String) (created : DateTime) (status : ProcessStatus)
    (spec others : List (String × Json)) (alloc : EphemeralAllocation) (ns : String)
    (pools : List EphemeralPool) (poolRef : AllocationRef) (bound : DateTime) :
    let member := attestedMember pool processName slot poolName created status
    let ttl := ttlOf alloc pools poolRef
    ¬ LivesAsLong member
      (Json.mergePatch (storedProcess member spec others) (bindPatch alloc ns ttl)) ttl bound
      (expiryOf ttl bound) := by
  intro member ttl lives
  obtain ⟨lifetime, e, stored, resolved, -⟩ := lives
  have unbound : member.spec.lifetime.ephemeral = none := rfl
  rw [readLifetime_bind unbound alloc ns ttl []] at stored
  cases stored
  -- Both slots are set now.
  cases resolved

end

/-- Durations of a minute, which parse as they do in the crate, and no others. -/
@[reducible] def minuteCrates : Crates :=
  { plainCrates with
    parseDuration := fun text => if text = "1m" then some 60000000000 else none }

/-- A format without any export. -/
@[reducible] def noExports : ExportFormat where
  serialize _ := .null
  deserialize _ := none

/-- The member that a pool of one has at hand. -/
def atHand : Process :=
  attestedMember (Pool.sizedPool 1 0 0) "pool-0" 0 "pool" ⟨0⟩ { phase := .attested }

/-- A request for any member, for a minute. -/
def forMinute : EphemeralAllocation :=
  { metadata := { name := "first", ns := some "pools" }
    spec := { requestor := { kind := "manual" }, ttl := some "1m" } }

/-- A member that is bound for a minute has both slots set, and is never torn down. -/
theorem not_livesAsLong_minute :
    let _ := minuteCrates
    let _ := noExports
    let patched := Json.mergePatch (storedProcess atHand [] []) (bindPatch forMinute "pools" "1m")
    ttlOf forMinute [Pool.sizedPool 1 0 0] ⟨"pool", "pools"⟩ = "1m" ∧
      expiryOf "1m" ⟨0⟩ = ⟨60000000000⟩ ∧
      readLifetime patched =
        some { permanent := some (), ephemeral := some (boundLifetime "1m") } ∧
      (∀ lifetime, readLifetime patched = some lifetime → ∀ now,
        lifetimeClock { atHand with spec.lifetime := lifetime } .attested now = .skip) ∧
      ¬ LivesAsLong atHand patched "1m" ⟨0⟩ ⟨60000000000⟩ := by
  intro _ _ patched
  -- The patch fills the slot that was free, and the other one is still set.
  have unbound : atHand.spec.lifetime.ephemeral = none := rfl
  have stored : readLifetime patched =
      some { permanent := some (), ephemeral := some (boundLifetime "1m") } :=
    readLifetime_bind unbound forMinute "pools" "1m" [] [] []
  refine ⟨rfl, by decide, stored, fun lifetime found now => ?_, ?_⟩
  · rw [stored] at found
    cases found
    exact lifetimeClock_of_ambiguous rfl .attested now
  · rintro ⟨lifetime, e, found, resolved, -⟩
    rw [stored] at found
    cases found
    cases resolved

end Tatara.Allocation
