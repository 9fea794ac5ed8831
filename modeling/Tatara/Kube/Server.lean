import Mathlib.Data.List.Nodup
import Tatara.Lib.Writes
import Tatara.Rust.JsonPath

/-! Kubernetes resources, and an API server as the live objects that it holds. -/

namespace Tatara.Kube

open Rust (Json)

/-- Labels applied to every managed resource. -/
def labelManagedBy : String := "tatara.pleme.io/managed-by"
def labelManagedByValue : String := "tatara-kube"
def labelCluster : String := "tatara.pleme.io/cluster"
def labelGeneration : String := "tatara.pleme.io/generation"
def annotationContentHash : String := "tatara.pleme.io/content-hash"
def annotationAppliedAt : String := "tatara.pleme.io/applied-at"

/-- Unique identity of a Kubernetes resource. -/
structure ResourceIdentity where
  apiVersion : String
  kind : String
  namespace_ : Option String
  name : String
  deriving DecidableEq, Repr

/-- What can go wrong, with the texts that the errors show. -/
inductive KubeError
  | nixEvalFailed (reason : String)
  | metadataFetchFailed (reason : String)
  | applyFailed (kind name reason : String)
  | resourceParseFailed (reason : String)
  | pruneFailed (kind name reason : String)
  | discoveryFailed (apiVersion kind reason : String)
  | other (reason : String)
  deriving DecidableEq, Repr

/-- Where the objects of a kind live. -/
inductive Scope
  | cluster | namespaced
  deriving DecidableEq, Repr

/-- The labels of an object. -/
abbrev Labels := Std.ExtTreeMap String String

/-- An object that the server holds. -/
structure LiveObject where
  identity : ResourceIdentity
  labels : Labels

/-- The kinds that the server serves, with their scopes. -/
abbrev Kinds := String → String → Option Scope

/-- Where an apply puts a resource: a namespaced one without a namespace goes to `default`. -/
def target (scope : Scope) (identity : ResourceIdentity) : ResourceIdentity :=
  match scope with
  | .namespaced => { identity with namespace_ := some (identity.namespace_.getD "default") }
  | .cluster => { identity with namespace_ := none }

theorem target_target (scope : Scope) (identity : ResourceIdentity) :
    target scope (target scope identity) = target scope identity := by
  cases scope <;> rfl

/-- The place that the server has for a resource. -/
def placeOf (kinds : Kinds) (identity : ResourceIdentity) : ResourceIdentity :=
  match kinds identity.apiVersion identity.kind with
  | some scope => target scope identity
  | none => identity

theorem placeOf_eq_target {kinds : Kinds} {identity : ResourceIdentity} {scope : Scope}
    (served : kinds identity.apiVersion identity.kind = some scope) :
    placeOf kinds identity = target scope identity := by
  rw [placeOf, served]

theorem placeOf_placeOf (kinds : Kinds) (identity : ResourceIdentity) :
    placeOf kinds (placeOf kinds identity) = placeOf kinds identity := by
  -- The kind of a resource is the same at its place.
  cases served : kinds identity.apiVersion identity.kind with
  | none =>
    have own : placeOf kinds identity = identity := by rw [placeOf, served]
    rw [own, own]
  | some scope =>
    have same : kinds (target scope identity).apiVersion (target scope identity).kind =
        some scope := by
      cases scope <;> exact served
    rw [placeOf_eq_target served, placeOf_eq_target same, target_target]

/-- The objects of a server: no two of one identity, and each at its place. -/
structure Server (kinds : Kinds) where
  objects : List LiveObject
  distinct : (objects.map LiveObject.identity).Nodup
  placed : ∀ object ∈ objects, placeOf kinds object.identity = object.identity

namespace Server

variable {kinds : Kinds}

/-- Put labels onto an object, each in place of the one of its name. -/
def relabel (given : List (String × String)) (object : LiveObject) : LiveObject :=
  { object with labels := Writes.writeAll object.labels given }

/-- The objects after a patch: those of the identity are relabelled, and one is made if there is
none. -/
def patched (objects : List LiveObject) (identity : ResourceIdentity)
    (given : List (String × String)) : List LiveObject :=
  if identity ∈ objects.map LiveObject.identity then
    objects.map fun object => if object.identity = identity then relabel given object else object
  else objects ++ [relabel given ⟨identity, ∅⟩]

theorem identity_ite_relabel (identity : ResourceIdentity) (given : List (String × String))
    (object : LiveObject) :
    (if object.identity = identity then relabel given object else object).identity =
      object.identity := by
  split <;> rfl

/-- A patch keeps the identities, and adds its own if it is new. -/
theorem map_identity_patched (objects : List LiveObject) (identity : ResourceIdentity)
    (given : List (String × String)) :
    (patched objects identity given).map LiveObject.identity =
      if identity ∈ objects.map LiveObject.identity then objects.map LiveObject.identity
      else objects.map LiveObject.identity ++ [identity] := by
  unfold patched
  split
  · rw [List.map_map]
    exact List.map_congr_left fun object _ => identity_ite_relabel identity given object
  · simp [relabel]

/-- Apply labels to the object at the place of an identity. -/
def patch (server : Server kinds) (identity : ResourceIdentity)
    (given : List (String × String)) : Server kinds where
  objects := patched server.objects (placeOf kinds identity) given
  distinct := by
    rw [map_identity_patched]
    split
    · exact server.distinct
    · rename_i new
      exact List.nodup_append.mpr ⟨server.distinct, List.nodup_singleton _, by
        rintro _ among _ own rfl
        exact new (List.mem_singleton.mp own ▸ among)⟩
  placed := by
    intro object listed
    have among : object.identity ∈ (patched server.objects (placeOf kinds identity) given).map
        LiveObject.identity := List.mem_map_of_mem listed
    rw [map_identity_patched] at among
    have old (among : object.identity ∈ server.objects.map LiveObject.identity) :
        placeOf kinds object.identity = object.identity := by
      obtain ⟨held, there, same⟩ := List.mem_map.mp among
      rw [← same]
      exact server.placed held there
    split at among
    · exact old among
    · rcases List.mem_append.mp among with among | own
      · exact old among
      · rw [List.mem_singleton.mp own, placeOf_placeOf]

/-- Delete the object of an identity. -/
def delete (server : Server kinds) (identity : ResourceIdentity) : Server kinds where
  objects := server.objects.filter fun object => object.identity ≠ identity
  distinct := server.distinct.sublist ((List.filter_sublist).map _)
  placed object listed := server.placed object (List.mem_filter.mp listed).1

/-- Objects of one identity are the same object. -/
theorem eq_of_identity (server : Server kinds) {object other : LiveObject}
    (listed : object ∈ server.objects) (listed' : other ∈ server.objects)
    (same : object.identity = other.identity) : object = other :=
  List.inj_on_of_nodup_map server.distinct listed listed' same

theorem mem_delete_iff {server : Server kinds} {identity : ResourceIdentity}
    {object : LiveObject} :
    object ∈ (server.delete identity).objects ↔
      object ∈ server.objects ∧ object.identity ≠ identity := by
  simp [delete]

end Server

end Tatara.Kube
