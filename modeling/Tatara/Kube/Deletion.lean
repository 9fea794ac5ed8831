import Tatara.Kube.Prune
import Tatara.Lib.StableSort

/-! Whether orphans are deleted in the reverse of the order in which they were applied. -/

namespace Tatara.Kube

open StableSort (Before before_mergeSort_iff before_mergeSort_of_not_le)
open Rust (Json)

/-- Resources are compared by tier, namespace and name, one after the other. -/
instance : Std.TransCmp resourceOrder :=
  inferInstanceAs <| Std.TransCmp <| compareLex (compareOn effectiveTier) <|
    compareLex (compareOn (·.identity.namespace_)) (compareOn (·.identity.name))

/-- A resource of a smaller tier is applied first. -/
theorem topologicalSort_before {resources : List ManagedResource} {a b : ManagedResource}
    (less : effectiveTier a < effectiveTier b) : Before (topologicalSort resources) a b := by
  refine before_mergeSort_of_not_le (fun _ _ _ => Std.TransCmp.isLE_trans) ?_ ?_
  · intro x y
    have swapped : resourceOrder y x = (resourceOrder x y).swap := Std.OrientedCmp.eq_swap
    rw [swapped]
    cases resourceOrder x y <;> rfl
  · -- The tiers decide before anything else is compared.
    have greater : compare (effectiveTier b) (effectiveTier a) = .gt := Nat.compare_eq_gt.mpr less
    simp [resourceOrder, greater]

section

variable {kinds : Kinds} (answers : Answers kinds) (server : Server kinds)
  (clusterName generation : String)

/-- The orphans as they are found: kind by kind in the order of discovery, and each kind as the
server lists it. -/
def listedOrphans : List ResourceIdentity :=
  match answers.discovered with
  | .error _ => []
  | .ok found =>
    (found.flatMap (orphansOfKind answers server clusterName generation)).map Prod.fst

/-- Of two resources that are both orphans the one that is applied first, because of the tiers, is
deleted last. -/
def Mirrors (resources : List ManagedResource) : Prop :=
  ∀ orphans, findOrphans answers server clusterName generation = .ok orphans →
    ∀ a ∈ resources, ∀ b ∈ resources, effectiveTier a < effectiveTier b →
      Before (topologicalSort resources) a b →
        placeOf kinds a.identity ∈ orphans.map Prod.fst →
          placeOf kinds b.identity ∈ orphans.map Prod.fst →
            Before (orphans.map Prod.fst) (placeOf kinds b.identity) (placeOf kinds a.identity)

/-- The kinds of resources that are both orphans are in the order of their tiers, or they are of
one priority and the server lists them the other way round. -/
def KindsMirror (resources : List ManagedResource) : Prop :=
  let listed := listedOrphans answers server clusterName generation
  ∀ a ∈ resources, ∀ b ∈ resources, effectiveTier a < effectiveTier b →
    placeOf kinds a.identity ∈ listed → placeOf kinds b.identity ∈ listed →
      kindPriority a.identity.kind < kindPriority b.identity.kind ∨
        kindPriority a.identity.kind = kindPriority b.identity.kind ∧
          Before listed (placeOf kinds b.identity) (placeOf kinds a.identity)

variable {answers server clusterName generation}

/-- The orphans are those that are listed, sorted by the priorities of their kinds. -/
theorem map_fst_findOrphans {orphans : List (ResourceIdentity × Scope)}
    (found : findOrphans answers server clusterName generation = .ok orphans) :
    orphans.map Prod.fst =
      (listedOrphans answers server clusterName generation).mergeSort
        fun a b => kindPriority b.kind ≤ kindPriority a.kind := by
  cases discovered : answers.discovered with
  | error e =>
    rw [findOrphans, discovered] at found
    cases found
  | ok kinds' =>
    rw [findOrphans, discovered] at found
    cases found
    rw [listedOrphans, discovered]
    exact List.map_mergeSort fun _ _ _ _ => rfl

/-- An apply puts a resource to an object of its kind. -/
theorem kind_placeOf (identity : ResourceIdentity) :
    (placeOf kinds identity).kind = identity.kind := by
  unfold placeOf
  split
  · rename_i scope _
    cases scope <;> rfl
  · rfl

/-- Of two orphans the one whose kind has the greater priority comes first, and of one priority the
one that is listed first. -/
theorem before_findOrphans_iff {orphans : List (ResourceIdentity × Scope)}
    (found : findOrphans answers server clusterName generation = .ok orphans)
    {x y : ResourceIdentity} (present : x ∈ listedOrphans answers server clusterName generation)
    (present' : y ∈ listedOrphans answers server clusterName generation) :
    Before (orphans.map Prod.fst) x y ↔
      kindPriority y.kind < kindPriority x.kind ∨
        kindPriority y.kind = kindPriority x.kind ∧
          Before (listedOrphans answers server clusterName generation) x y := by
  rw [map_fst_findOrphans found, before_mergeSort_iff ?_ ?_ present present']
  · simp only [decide_eq_true_eq]
    -- What is not greater is equal, when it is at least as great.
    constructor
    · rintro ⟨atLeast, level⟩
      rcases Nat.lt_or_eq_of_le atLeast with less | same
      · exact .inl less
      · exact .inr ⟨same, level same.symm.le⟩
    · rintro (less | ⟨same, before⟩)
      · exact ⟨less.le, fun atLeast => absurd less atLeast.not_gt⟩
      · exact ⟨same.le, fun _ => before⟩
  · intro a b c
    simp only [decide_eq_true_eq]
    omega
  · intro a b
    simp only [Bool.or_eq_true, decide_eq_true_eq]
    omega

end

section

/-- A manifest with this tier in its annotations. -/
def tieredManifest (apiVersion kind name tier : String) : Json :=
  .object [("apiVersion", .string apiVersion), ("kind", .string kind),
    ("metadata", .object [("name", .string name), ("namespace", .string "web"),
      ("annotations", .object [("tatara.pleme.io/tier", .string tier)])])]

/-- The resource of such a manifest. -/
def tieredResource (apiVersion kind name tier : String) : ManagedResource :=
  ⟨tieredManifest apiVersion kind name tier, ⟨apiVersion, kind, some "web", name⟩, "digest"⟩

/-- A server that serves settings maps and deployments. -/
def webKinds : Kinds := fun apiVersion kind =>
  if (apiVersion, kind) ∈ [("v1", "ConfigMap"), ("apps/v1", "Deployment")] then some .namespaced
  else none

/-- An object as an earlier tick for the cluster has left it. -/
def earlierObject (apiVersion kind name : String) : LiveObject where
  identity := ⟨apiVersion, kind, some "web", name⟩
  labels := Writes.writeAll ∅ (managementLabels "plo" "earlier")

/-- A server that holds a settings map and a deployment. -/
def webServer : Server webKinds where
  objects := [earlierObject "v1" "ConfigMap" "settings", earlierObject "apps/v1" "Deployment" "app"]
  distinct := by decide
  placed := by
    simp only [List.forall_mem_cons, List.not_mem_nil, false_implies, implies_true, and_true]
    exact ⟨rfl, rfl⟩

/-- The flake gives nothing any more. -/
def webAnswers : Answers webKinds where
  metadata := .ok "1a2b3c"
  eval := .ok []
  now := "2026-01-01T00:00:00+00:00"
  patches _ := .ok ()
  discovered := .ok [("v1", "ConfigMap"), ("apps/v1", "Deployment")]
  lists _ _ := true
  deletes _ := .ok ()

end

end Tatara.Kube
