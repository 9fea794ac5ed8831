import Mathlib.Data.List.Nodup
import Mathlib.Logic.Function.Basic
import Tatara.Lib.Machine
import Tatara.Rust.Data

/-! The service catalog, and in which runs it is a map of the instances by their ids. -/

namespace Tatara.Engine

open Tatara.Rust Tatara.Steps

/-- Health status of a service instance. -/
inductive ServiceHealth where
  | passing
  | warning
  | critical
  | maintenance
  deriving DecidableEq, Repr

/-- A registered service instance. -/
structure ServiceEntry where
  serviceName : String
  serviceId : String
  nodeId : String
  address : String
  port : UInt16
  tags : List String
  «meta» : Std.ExtTreeMap String String
  health : ServiceHealth
  registeredAt : DateTime
  allocId : Option String

/-- Query parameters for lookups. -/
structure ServiceQuery where
  service : String
  tag : Option String := none
  healthyOnly : Bool := false
  near : Option String := none

/-- `matches`. -/
def ServiceEntry.matchesQuery (e : ServiceEntry) (q : ServiceQuery) : Bool :=
  if e.serviceName ≠ q.service then false
  else if q.tag.any fun tag => !e.tags.contains tag then false
  else if q.healthyOnly && e.health ≠ .passing then false
  else true

/-- The instances, by the names of their services. -/
abbrev Catalog := Std.ExtTreeMap String (List ServiceEntry)

namespace Catalog

/-- `register`. -/
def register (services : Catalog) (entry : ServiceEntry) : Catalog :=
  services.insert entry.serviceName (services.getD entry.serviceName [] ++ [entry])

/-- Keep some instances of every service, and drop the services that have none left. -/
def retain (services : Catalog) (keep : ServiceEntry → Bool) : Catalog :=
  (services.map fun _ instances => instances.filter keep).filter
    fun _ instances => !instances.isEmpty

/-- `deregister`. -/
def deregister (services : Catalog) (serviceId : String) : Catalog :=
  services.retain fun e => e.serviceId ≠ serviceId

/-- `deregister_allocation`. -/
def deregisterAllocation (services : Catalog) (allocId : String) : Catalog :=
  services.retain fun e => e.allocId ≠ some allocId

/-- Set the health of the first instance that has the id, if one has it. -/
def updateFirst (serviceId : String) (health : ServiceHealth) :
    List ServiceEntry → Option (List ServiceEntry)
  | [] => none
  | e :: rest =>
    if e.serviceId = serviceId then some ({ e with health } :: rest)
    else (updateFirst serviceId health rest).map (e :: ·)

/-- `update_health`, with the services in the order in which the map yields them. -/
def updateHealth (services : Catalog) (serviceId : String) (health : ServiceHealth) :
    List String → Catalog
  | [] => services
  | name :: rest =>
    match updateFirst serviceId health (services.getD name []) with
    | some instances => services.insert name instances
    | none => services.updateHealth serviceId health rest

/-- `get_service`. -/
def getService (services : Catalog) (name : String) : List ServiceEntry := services.getD name []

/-- `list_services`. -/
def listServices (services : Catalog) : List String := services.keys

/-- `query`. -/
def query (services : Catalog) (q : ServiceQuery) : List ServiceEntry :=
  let results := (services.getD q.service []).filter (·.matchesQuery q)
  match q.near with
  | some near =>
    -- The instances on the node come first.
    results.mergeSort fun a b => decide (decide (b.nodeId = near) ≤ decide (a.nodeId = near))
  | none => results

end Catalog

/-- A call that changes the catalog; a health update comes with the order that the map has then. -/
inductive CatalogCall where
  | register (entry : ServiceEntry)
  | deregister (serviceId : String)
  | deregisterAllocation (allocId : String)
  | updateHealth (serviceId : String) (health : ServiceHealth) (order : Catalog → List String)
      (perm : ∀ services, (order services).Perm services.keys)

/-- What a call makes of the catalog. -/
def Catalog.serve (services : Catalog) : CatalogCall → Catalog
  | .register entry => services.register entry
  | .deregister serviceId => services.deregister serviceId
  | .deregisterAllocation allocId => services.deregisterAllocation allocId
  | .updateHealth serviceId health order _ =>
    services.updateHealth serviceId health (order services)

/-- What is registered, by service id. -/
abbrev ServiceMap := String → Option ServiceEntry

/-- What a call makes of a map by service id. -/
def ServiceMap.serve (registered : ServiceMap) : CatalogCall → ServiceMap
  | .register entry => Function.update registered entry.serviceId (some entry)
  | .deregister serviceId => Function.update registered serviceId none
  | .deregisterAllocation allocId => fun id =>
    (registered id).filter fun e => e.allocId ≠ some allocId
  | .updateHealth serviceId health _ _ =>
    Function.update registered serviceId
      ((registered serviceId).map fun e => { e with health })

/-- The catalog has each registered instance once, under the name of its service, and no other. -/
structure Catalog.Holds (services : Catalog) (registered : ServiceMap) : Prop where
  once : ∀ name, ((services.getService name).map ServiceEntry.serviceId).Nodup
  entries : ∀ name e, e ∈ services.getService name ↔
    registered e.serviceId = some e ∧ e.serviceName = name

/-- The catalog is a map by service id after these calls, and each query and listing shows it. -/
structure IsServiceMap (calls : List CatalogCall) : Prop where
  holds : (calls.foldl Catalog.serve ∅).Holds (calls.foldl ServiceMap.serve fun _ => none)
  health : ∀ front serviceId health order perm,
    calls = front ++ [.updateHealth serviceId health order perm] →
      ∀ q, ∀ e ∈ (calls.foldl Catalog.serve ∅).query q, e.serviceId = serviceId → e.health = health
  listed : ∀ name ∈ (calls.foldl Catalog.serve ∅).listServices,
    (calls.foldl Catalog.serve ∅).getService name ≠ []

/-- A registration is of an id that the catalog has no instance of. -/
def Fresh (services : Catalog) : CatalogCall → Prop
  | .register entry => ∀ name, ∀ e ∈ services.getService name, e.serviceId ≠ entry.serviceId
  | .deregister _ | .deregisterAllocation _ | .updateHealth .. => True

section

variable {services : Catalog} {registered : ServiceMap} {name serviceId : String}
  {health : ServiceHealth}

/-- A registration adds to the instances of its own service only. -/
theorem Catalog.getService_register (entry : ServiceEntry) :
    (services.register entry).getService name =
      if entry.serviceName = name then services.getService name ++ [entry]
      else services.getService name := by
  -- The entry goes to the end of the instances of its service.
  by_cases own : entry.serviceName = name
  · subst own
    simp [Catalog.register, Catalog.getService]
  · simp [Catalog.register, Catalog.getService, Std.ExtTreeMap.getD_insert, own]

/-- Of each service the instances are left that are kept. -/
theorem Catalog.getService_retain (keep : ServiceEntry → Bool) :
    (services.retain keep).getService name = (services.getService name).filter keep := by
  -- A service without instances is the same as one that is not there.
  unfold Catalog.retain Catalog.getService
  rw [Std.ExtTreeMap.getD_eq_getD_getElem?, Std.ExtTreeMap.getD_eq_getD_getElem?,
    Std.ExtTreeMap.getElem?_filter', Std.ExtTreeMap.getElem?_map]
  cases services[name]? with
  | none => simp
  | some instances =>
    cases kept : instances.filter keep <;> simp [kept, Option.filter]

/-- What a health update makes of an instance. -/
def setHealth (serviceId : String) (health : ServiceHealth) (e : ServiceEntry) : ServiceEntry :=
  if e.serviceId = serviceId then { e with health } else e

/-- A health update changes no id. -/
theorem serviceId_setHealth (e : ServiceEntry) :
    (setHealth serviceId health e).serviceId = e.serviceId := by
  unfold setHealth
  split <;> rfl

/-- Neither does it change a name. -/
theorem serviceName_setHealth (e : ServiceEntry) :
    (setHealth serviceId health e).serviceName = e.serviceName := by
  unfold setHealth
  split <;> rfl

/-- Instances that are all of other ids stay as they are. -/
theorem map_setHealth_of_ne {instances : List ServiceEntry}
    (others : ∀ e ∈ instances, e.serviceId ≠ serviceId) :
    instances.map (setHealth serviceId health) = instances := by
  refine (List.map_congr_left fun e among => ?_).trans instances.map_id
  simp [setHealth, others e among]

/-- The first instance with the id is the only one where the ids are distinct. -/
theorem Catalog.updateFirst_spec {instances : List ServiceEntry}
    (distinct : (instances.map ServiceEntry.serviceId).Nodup) :
    match Catalog.updateFirst serviceId health instances with
    | some updated => updated = instances.map (setHealth serviceId health) ∧
        ∃ e ∈ instances, e.serviceId = serviceId
    | none => ∀ e ∈ instances, e.serviceId ≠ serviceId := by
  -- By induction on the instances, those in front of the first one being of other ids.
  induction instances with
  | nil => simp [Catalog.updateFirst]
  | cons e rest ih =>
    rw [List.map_cons, List.nodup_cons] at distinct
    by_cases own : e.serviceId = serviceId
    · have others : ∀ later ∈ rest, later.serviceId ≠ serviceId := by
        intro later among same
        exact distinct.1 (own ▸ same ▸ List.mem_map_of_mem among)
      simp [Catalog.updateFirst, own, setHealth, map_setHealth_of_ne others]
    · have behind := ih distinct.2
      cases found : Catalog.updateFirst serviceId health rest with
      | none => simpa [Catalog.updateFirst, own, found] using behind
      | some updated =>
        simp only [found] at behind
        simpa [Catalog.updateFirst, own, found, setHealth, behind.1] using behind.2

/-- Two instances of one id are under one name. -/
theorem Catalog.Holds.name_eq (held : services.Holds registered) {name' : String}
    {e e' : ServiceEntry} (there : e ∈ services.getService name)
    (there' : e' ∈ services.getService name') (same : e.serviceId = e'.serviceId) :
    name = name' := by
  -- Both are what is registered under the id, and that has one name.
  obtain ⟨found, rfl⟩ := (held.entries name e).mp there
  obtain ⟨found', rfl⟩ := (held.entries name' e').mp there'
  rw [same, found'] at found
  rw [Option.some.inj found]

/-- A health update reaches the instance of the id, under whichever name it comes first. -/
theorem Catalog.getService_updateHealth (held : services.Holds registered) {order : List String}
    (covers : ∀ name, name ∉ order → ∀ e ∈ services.getService name, e.serviceId ≠ serviceId) :
    (services.updateHealth serviceId health order).getService name =
      (services.getService name).map (setHealth serviceId health) := by
  -- By induction on the names that are still to be looked at.
  induction order with
  | nil =>
    rw [map_setHealth_of_ne (covers name (by simp))]
    rfl
  | cons first rest ih =>
    have spec := @Catalog.updateFirst_spec serviceId health _ (held.once first)
    have step : services.updateHealth serviceId health (first :: rest) =
        match Catalog.updateFirst serviceId health (services.getService first) with
        | some instances => services.insert first instances
        | none => services.updateHealth serviceId health rest := rfl
    rw [step]
    cases found : Catalog.updateFirst serviceId health (services.getService first) with
    | none =>
      -- The name has no instance of the id, so one of the others is looked for.
      simp only [found] at spec
      refine ih fun other outside => ?_
      by_cases same : other = first
      · rwa [same]
      · exact covers other (by simp [same, outside])
    | some updated =>
      simp only [found] at spec
      obtain ⟨rfl, e, there, own⟩ := spec
      by_cases same : first = name
      · subst same
        simp [Catalog.getService]
      · have elsewhere : ∀ other ∈ services.getService name, other.serviceId ≠ serviceId :=
          fun other among alike => same (held.name_eq there among (own.trans alike.symm))
        rw [map_setHealth_of_ne elsewhere]
        simp [Catalog.getService, Std.ExtTreeMap.getD_insert, same]

/-- Names that the map does not yield have no instances. -/
theorem Catalog.covers_of_perm {order : List String} (perm : order.Perm services.keys) :
    ∀ name, name ∉ order → ∀ e ∈ services.getService name, e.serviceId ≠ serviceId := by
  intro name outside e among
  rw [perm.mem_iff, Std.ExtTreeMap.mem_keys] at outside
  simp [Catalog.getService, Std.ExtTreeMap.getD_eq_fallback outside] at among

/-- A registration of a new id registers it. -/
theorem Catalog.Holds.register (held : services.Holds registered) {entry : ServiceEntry}
    (fresh : Fresh services (.register entry)) :
    (services.register entry).Holds (registered.serve (.register entry)) where
  once name := by
    rw [Catalog.getService_register]
    split
    · rw [List.map_append, List.nodup_append]
      refine ⟨held.once name, by simp, ?_⟩
      simpa using fresh name
    · exact held.once name
  entries name e := by
    rw [Catalog.getService_register, ServiceMap.serve, Function.update_apply]
    by_cases same : e.serviceId = entry.serviceId
    · -- Nothing else had the id, so it is the new entry.
      have new : e ∉ services.getService name := fun there => fresh name e there same
      rw [if_pos same, Option.some.injEq]
      split
      · rename_i own
        rw [List.mem_append, List.mem_singleton]
        constructor
        · rintro (there | rfl)
          · exact absurd there new
          · exact ⟨rfl, own⟩
        · rintro ⟨rfl, -⟩
          exact .inr rfl
      · rename_i other
        refine iff_of_false new ?_
        rintro ⟨rfl, own⟩
        exact other own
    · have differs : e ≠ entry := fun equal => same (congrArg ServiceEntry.serviceId equal)
      rw [if_neg same, ← held.entries]
      split
      · simp [differs]
      · rfl

/-- The instances that are kept are those that the map keeps. -/
theorem Catalog.Holds.retain (held : services.Holds registered) {keep : ServiceEntry → Bool}
    {kept : ServiceMap} (same : ∀ e, kept e.serviceId = some e ↔
      registered e.serviceId = some e ∧ keep e = true) :
    (services.retain keep).Holds kept where
  -- What is kept of a list has no repetitions if the list has none.
  once name := by
    rw [Catalog.getService_retain]
    exact (held.once name).sublist (List.filter_sublist.map _)
  entries name e := by
    rw [Catalog.getService_retain, List.mem_filter, held.entries, same]
    tauto

/-- A health update changes what is registered under the id. -/
theorem Catalog.Holds.updateHealth (held : services.Holds registered)
    {order : Catalog → List String} (perm : ∀ services, (order services).Perm services.keys) :
    (services.updateHealth serviceId health (order services)).Holds
      (registered.serve (.updateHealth serviceId health order perm)) where
  once name := by
    rw [Catalog.getService_updateHealth held (Catalog.covers_of_perm (perm services)), List.map_map]
    have ids : ServiceEntry.serviceId ∘ setHealth serviceId health = ServiceEntry.serviceId :=
      funext serviceId_setHealth
    rw [ids]
    exact held.once name
  entries name e := by
    rw [Catalog.getService_updateHealth held (Catalog.covers_of_perm (perm services)),
      List.mem_map, ServiceMap.serve, Function.update_apply]
    constructor
    · rintro ⟨old, there, rfl⟩
      obtain ⟨found, named⟩ := (held.entries name old).mp there
      rw [serviceId_setHealth, serviceName_setHealth]
      refine ⟨?_, named⟩
      by_cases own : old.serviceId = serviceId
      · -- The old instance was the registered one of the id.
        rw [if_pos own, ← own, found]
        simp [setHealth]
      · rw [if_neg own, found]
        simp [setHealth, own]
    · rintro ⟨found, named⟩
      split at found
      · -- The instance is the registered one with the new health.
        rename_i own
        obtain ⟨old, there, rfl⟩ := Option.map_eq_some_iff.mp found
        refine ⟨old, (held.entries name old).mpr ⟨?_, named⟩, ?_⟩
        · have same : old.serviceId = serviceId := own
          rw [same, there]
        · have same : old.serviceId = serviceId := own
          simp [setHealth, same]
      · rename_i other
        exact ⟨e, (held.entries name e).mpr ⟨found, named⟩, by simp [setHealth, other]⟩

/-- A call keeps the catalog a map, unless it registers an id that is there. -/
theorem Catalog.Holds.serve (held : services.Holds registered) {call : CatalogCall}
    (fresh : Fresh services call) : (services.serve call).Holds (registered.serve call) := by
  -- A removal keeps what the map keeps; the other calls have been looked at.
  cases call with
  | register entry => exact held.register fresh
  | deregister id =>
    refine held.retain fun e => ?_
    rw [ServiceMap.serve, Function.update_apply]
    by_cases own : e.serviceId = id <;> simp [own]
  | deregisterAllocation allocId =>
    refine held.retain fun e => ?_
    rw [ServiceMap.serve, Option.filter_eq_some_iff]
  | updateHealth id health order perm => exact held.updateHealth perm

/-- No call leaves a service without instances in the listing. -/
theorem Catalog.getService_ne_nil_serve {call : CatalogCall}
    (listed : ∀ name ∈ services, services.getService name ≠ []) :
    ∀ name ∈ services.serve call, (services.serve call).getService name ≠ [] := by
  intro name there
  -- A registration adds to a list, and whatever takes away drops the lists that are empty.
  cases call with
  | register entry =>
    rw [Catalog.serve, Catalog.getService_register]
    split
    · simp
    · rename_i other
      have before : name ∈ services := by
        simpa [Catalog.serve, Catalog.register, Std.ExtTreeMap.mem_insert, other] using there
      exact listed name before
  | deregister id => exact retained there
  | deregisterAllocation allocId => exact retained there
  | updateHealth id health order perm =>
    exact updated (order services) there
where
  retained {name : String} {keep : ServiceEntry → Bool} (there : name ∈ services.retain keep) :
      (services.retain keep).getService name ≠ [] := by
    -- What is left without instances has been dropped.
    obtain ⟨instances, found⟩ := Option.isSome_iff_exists.mp
      (Std.ExtTreeMap.mem_iff_isSome_getElem?.mp there)
    rw [Catalog.getService, Std.ExtTreeMap.getD_eq_getD_getElem?, found]
    rw [Catalog.retain, Std.ExtTreeMap.getElem?_filter', Option.filter_eq_some_iff] at found
    simpa using found.2
  updated {name id : String} {health : ServiceHealth} (order : List String)
      (there : name ∈ services.updateHealth id health order) :
      (services.updateHealth id health order).getService name ≠ [] := by
    induction order with
    | nil => exact listed name there
    | cons first rest ih =>
      rw [Catalog.updateHealth] at there ⊢
      cases found : Catalog.updateFirst id health (services.getD first []) with
      | none =>
        simp only [found] at there ⊢
        exact ih there
      | some instances =>
        simp only [found] at there ⊢
        rw [Catalog.getService, Std.ExtTreeMap.getD_insert]
        split
        · -- An instance has been found, so there is one.
          rintro rfl
          cases before : services.getD first [] with
          | nil => simp [before, Catalog.updateFirst] at found
          | cons e rest =>
            rw [before, Catalog.updateFirst] at found
            split at found
            · simp at found
            · simp at found
        · rename_i other
          have before : name ∈ services := by
            simpa [Std.ExtTreeMap.mem_insert, show first ≠ name by simpa using other] using there
          exact listed name before

end

/-- What a query reports is among the instances of the service. -/
theorem Catalog.mem_getService_of_query {services : Catalog} {q : ServiceQuery} {e : ServiceEntry}
    (reported : e ∈ services.query q) : e ∈ services.getService q.service := by
  -- Sorted by node or not, the instances come from the list of the service.
  unfold Catalog.query at reported
  cases near : q.near with
  | none =>
    simp only [near] at reported
    exact List.mem_of_mem_filter reported
  | some node =>
    simp only [near, List.mem_mergeSort] at reported
    exact List.mem_of_mem_filter reported

/-- As long as each registration is of a new id, the catalog is the map of what is registered. -/
theorem holds_of_fresh {calls : List CatalogCall} (fresh : EachStep Catalog.serve Fresh ∅ calls) :
    (calls.foldl Catalog.serve ∅).Holds (calls.foldl ServiceMap.serve fun _ => none) := by
  -- By induction on the calls, from the last one.
  induction calls using List.reverseRecOn with
  | nil =>
    refine ⟨fun name => ?_, fun name e => ?_⟩
    · simp [Catalog.getService]
    · simp [Catalog.getService]
  | append_singleton calls call ih =>
    rw [List.foldl_append, List.foldl_append]
    refine (ih fun front a part => fresh front a ?_).serve (fresh calls call (List.prefix_refl _))
    exact part.trans (List.prefix_append _ _)

/-- No run leaves a service without instances in the listing. -/
theorem listed_of_calls (calls : List CatalogCall) :
    ∀ name ∈ calls.foldl Catalog.serve ∅, (calls.foldl Catalog.serve ∅).getService name ≠ [] := by
  -- No call after the others does.
  induction calls using List.reverseRecOn with
  | nil => simp
  | append_singleton calls call ih =>
    rw [List.foldl_append]
    exact Catalog.getService_ne_nil_serve ih

/-- The catalog is a map by service id throughout the runs in which each registration is of an id
that no instance has. -/
theorem isServiceMap_iff_fresh (calls : List CatalogCall) :
    (∀ front, front <+: calls → IsServiceMap front) ↔ EachStep Catalog.serve Fresh ∅ calls := by
  constructor
  · intro each front call part
    cases call with
    | register entry =>
      intro name e there same
      have after := (each _ part).holds
      rw [List.foldl_append, List.foldl_append] at after
      dsimp only [List.foldl_cons, List.foldl_nil, Catalog.serve] at after
      -- The old instance is still there, so it is the new one, and the list has it twice.
      have still : e ∈ ((front.foldl Catalog.serve ∅).register entry).getService name := by
        rw [Catalog.getService_register]
        split
        · exact List.mem_append_left _ there
        · exact there
      obtain ⟨found, named⟩ := (after.entries name e).mp still
      rw [ServiceMap.serve, same, Function.update_self] at found
      obtain rfl := Option.some.inj found
      have twice := after.once name
      rw [Catalog.getService_register, if_pos named, List.map_append, List.nodup_append] at twice
      exact twice.2.2 _ (List.mem_map_of_mem there) _ (by simp) rfl
    | deregister | deregisterAllocation | updateHealth => trivial
  · intro fresh front part
    have held := holds_of_fresh fun before a inner => fresh before a (inner.trans part)
    refine ⟨held, ?_, fun name among => ?_⟩
    · -- What is reported is registered, and the last call has set its health.
      rintro before serviceId health order perm rfl q e reported same
      obtain ⟨found, -⟩ := (held.entries _ e).mp (Catalog.mem_getService_of_query reported)
      rw [List.foldl_append, same] at found
      dsimp only [List.foldl_cons, List.foldl_nil, ServiceMap.serve] at found
      rw [Function.update_self] at found
      obtain ⟨old, -, rfl⟩ := Option.map_eq_some_iff.mp found
      rfl
    · exact listed_of_calls front name (Std.ExtTreeMap.mem_keys.mp among)

/-- An instance of a service. -/
def webInstance : ServiceEntry :=
  { serviceName := "web", serviceId := "web-i-1", nodeId := "node-1", address := "127.0.0.1"
    port := 8080, tags := [], «meta» := ∅, health := .passing, registeredAt := ⟨0⟩
    allocId := some "1" }

/-- Registered again on another port, the instance is there twice. -/
theorem not_isServiceMap_registered_again :
    ¬ IsServiceMap [.register webInstance, .register { webInstance with port := 8081 }] := by
  -- If the listing were that of the map, the instance would be there once.
  intro is
  have twice := is.holds.once "web"
  simp only [List.foldl_cons, List.foldl_nil, Catalog.serve, Catalog.getService_register] at twice
  simp [webInstance, List.nodup_append] at twice

end Tatara.Engine
