import Tatara.Kube.Server
import Tatara.Rust.Text

/-! One reconciliation tick: parse, label, order, apply, prune. -/

namespace Tatara.Kube

open Rust (Json JsonValue JsonText)
open Rust.Json (field insertField valueAt)

/-- `Value::as_str`, of a place that may be missing. -/
def asStr : Option Json → Option String
  | some (.string s) => some s
  | _ => none

/-- The hash function, as the text of its digests. -/
class Sha256 where
  hex : String → String

/-- A Kubernetes resource from the output of the evaluation. -/
structure ManagedResource where
  manifest : Json
  identity : ResourceIdentity
  contentHash : String

section

variable [JsonText] [Sha256]

/-- Parse a value into a resource. -/
def ManagedResource.fromValue (value : Json) : Except KubeError ManagedResource :=
  match asStr (value.field "apiVersion") with
  | none => .error (.resourceParseFailed "missing apiVersion")
  | some apiVersion =>
    match asStr (value.field "kind") with
    | none => .error (.resourceParseFailed "missing kind")
    | some kind =>
      match asStr (valueAt ["metadata", "name"] value) with
      | none => .error (.resourceParseFailed "missing metadata.name")
      | some name =>
        .ok
          { manifest := value
            identity := ⟨apiVersion, kind, asStr (valueAt ["metadata", "namespace"] value), name⟩
            contentHash := Sha256.hex (JsonText.text value) }

/-- The resources of the raw values; what does not parse is skipped. -/
def parseAll (raw : List JsonValue) : List ManagedResource :=
  raw.filterMap fun v => (ManagedResource.fromValue v.json).toOption

/-- The hash over the hashes of the resources. -/
def generationHash (resources : List ManagedResource) : String :=
  Sha256.hex (":".intercalate (resources.map ManagedResource.contentHash))

end

/-- Insert entries into a field that is an object, or that is missing; any other is left alone. -/
def insertInto (key : String) (entries : List (String × String)) (fields : List (String × Json)) :
    List (String × Json) :=
  match fields.lookup key with
  | none => insertField key (.object (addTo [])) fields
  | some (.object old) => insertField key (.object (addTo old)) fields
  | some _ => fields
where
  addTo (old : List (String × Json)) : List (String × Json) :=
    entries.foldl (fun placed entry => insertField entry.1 (.string entry.2) placed) old

/-- The labels that management puts on a resource. -/
def managementLabels (clusterName generation : String) : List (String × String) :=
  [(labelManagedBy, labelManagedByValue), (labelCluster, clusterName),
    (labelGeneration, generation)]

/-- Inject the management labels and annotations into a manifest. -/
def injectManagementLabels (manifest : Json) (clusterName generation contentHash now : String) :
    Json :=
  match manifest with
  | .object fields =>
    match fields.lookup "metadata" with
    | some (.object metadata) =>
      let labelled := insertInto "labels" (managementLabels clusterName generation) metadata
      let annotated := insertInto "annotations"
        [(annotationContentHash, contentHash), (annotationAppliedAt, now)] labelled
      .object (insertField "metadata" (.object annotated) fields)
    | _ => manifest
  | _ => manifest

/-- Priority tiers of the kinds: the lower number is applied first, and deleted last. -/
def kindPriority (kind : String) : Nat :=
  if kind = "Namespace" then 0
  else if kind = "CustomResourceDefinition" then 10
  else if kind ∈ ["PriorityClass", "StorageClass"] then 15
  else if kind ∈ ["ClusterRole", "ClusterRoleBinding"] then 20
  else if kind ∈ ["ServiceAccount", "Role", "RoleBinding"] then 30
  else if kind ∈ ["ConfigMap", "Secret"] then 40
  else if kind = "ExternalSecret" then 42
  else if kind = "PersistentVolume" then 44
  else if kind = "PersistentVolumeClaim" then 45
  else if kind ∈ ["LimitRange", "ResourceQuota"] then 50
  else if kind = "NetworkPolicy" then 55
  else if kind = "Service" then 60
  else if kind = "DatabaseMigration" then 65
  else if kind ∈ ["Deployment", "StatefulSet", "DaemonSet", "ReplicaSet"] then 70
  else if kind ∈ ["Job", "CronJob"] then 75
  else if kind ∈ ["HorizontalPodAutoscaler", "PodDisruptionBudget"] then 80
  else if kind = "ScaledObject" then 82
  else if kind ∈ ["ServiceMonitor", "PodMonitor", "PrometheusRule"] then 90
  else if kind ∈ ["PeerAuthentication", "DestinationRule"] then 95
  else if kind ∈ ["MutatingWebhookConfiguration", "ValidatingWebhookConfiguration"] then 98
  else 100

/-- `str::parse::<u32>`, which admits a plus sign in front. -/
def parseU32 (text : String) : Option Nat :=
  let digits := match text.toList with
    | '+' :: digits => digits
    | digits => digits
  (Rust.parseNat digits).bind fun n => if n < 2 ^ 32 then some n else none

/-- The tier of a resource, which an annotation overrides. -/
def effectiveTier (resource : ManagedResource) : Nat :=
  ((asStr (valueAt ["metadata", "annotations", "tatara.pleme.io/tier"] resource.manifest)).bind
    parseU32).getD (kindPriority resource.identity.kind)

/-- By tier, then by namespace, then by name. -/
def resourceOrder (a b : ManagedResource) : Ordering :=
  (compare (effectiveTier a) (effectiveTier b)).then <|
    (compare a.identity.namespace_ b.identity.namespace_).then
      (compare a.identity.name b.identity.name)

/-- Sort resources into the order of application. -/
def topologicalSort (resources : List ManagedResource) : List ManagedResource :=
  resources.mergeSort fun a b => (resourceOrder a b).isLE

/-- The labels that a manifest gives: none where there is no field or a null, and no answer where
the field is not a map of texts. -/
def givenLabels (manifest : Json) : Option (List (String × String)) :=
  match valueAt ["metadata", "labels"] manifest with
  | none => some []
  | some .null => some []
  | some (.object labels) => labels.mapM fun entry =>
      (asStr (some entry.2)).map fun text => (entry.1, text)
  | some _ => none

/-- What the world answers during a tick: the flake, and the API server to each request. -/
structure Answers (kinds : Kinds) where
  /-- The revision that the flake's metadata shows. -/
  metadata : Except KubeError String
  /-- The manifests that the evaluation gives. -/
  eval : Except KubeError (List JsonValue)
  /-- The instant that annotations show. -/
  now : String
  /-- Whether the patch of a place in the order of application is accepted. -/
  patches : Nat → Except String Unit
  /-- The kinds that discovery finds. -/
  discovered : Except String (List (String × String))
  /-- Whether the objects of a kind can be listed. -/
  lists : String → String → Bool
  /-- Whether the deletion of an object is accepted. -/
  deletes : ResourceIdentity → Except String Unit

section

variable {kinds : Kinds}

/-- Apply a single resource with the server's answer to the patch. -/
def serverSideApply (server : Server kinds) (resource : ManagedResource)
    (answer : Except String Unit) : Except KubeError (Server kinds) :=
  match kinds resource.identity.apiVersion resource.identity.kind with
  | none =>
    .error (.discoveryFailed resource.identity.apiVersion resource.identity.kind "not served")
  | some _ =>
    match givenLabels resource.manifest with
    | none => .error (.applyFailed resource.identity.kind resource.identity.name "invalid labels")
    | some given =>
      match answer with
      | .error reason =>
        .error (.applyFailed resource.identity.kind resource.identity.name reason)
      | .ok () =>
        -- A namespaced resource goes to its namespace, and any other to none.
        .ok (server.patch resource.identity given)

/-- What the loop over the resources has come to. -/
structure Progress (kinds : Kinds) where
  server : Server kinds
  applied : Nat
  errors : Nat

/-- Apply the resources one after the other, from a place in their order on. -/
def applyFrom (answers : Answers kinds) (place : Nat) (progress : Progress kinds) :
    List ManagedResource → Progress kinds
  | [] => progress
  | resource :: rest =>
    match serverSideApply progress.server resource (answers.patches place) with
    | .ok server => applyFrom answers (place + 1) ⟨server, progress.applied + 1, progress.errors⟩ rest
    | .error _ => applyFrom answers (place + 1) { progress with errors := progress.errors + 1 } rest

/-- The selector of the objects that are managed for a cluster. -/
def managed (clusterName : String) (object : LiveObject) : Bool :=
  object.labels[labelManagedBy]? == some labelManagedByValue &&
    object.labels[labelCluster]? == some clusterName

/-- The managed objects of a kind whose generation is not the current one, with the scope. -/
def orphansOfKind (answers : Answers kinds) (server : Server kinds) (clusterName : String)
    (currentGeneration : String) (kind : String × String) : List (ResourceIdentity × Scope) :=
  match kinds kind.1 kind.2, answers.lists kind.1 kind.2 with
  | some scope, true =>
    let stale := server.objects.filter fun object =>
      object.identity.apiVersion == kind.1 && object.identity.kind == kind.2 &&
        managed clusterName object &&
        (object.labels[labelGeneration]?).getD "" != currentGeneration
    stale.map fun object => (object.identity, scope)
  | _, _ => []

/-- Find the managed objects whose generation does not match, in reverse dependency order. -/
def findOrphans (answers : Answers kinds) (server : Server kinds)
    (clusterName currentGeneration : String) :
    Except KubeError (List (ResourceIdentity × Scope)) :=
  match answers.discovered with
  | .error reason => .error (.other reason)
  | .ok found =>
    let orphans := found.flatMap (orphansOfKind answers server clusterName currentGeneration)
    .ok (orphans.mergeSort fun a b => kindPriority b.1.kind ≤ kindPriority a.1.kind)

/-- Where a deletion goes: to the namespace of a namespaced object, and else to none. -/
def deletionTarget (identity : ResourceIdentity) (scope : Scope) : ResourceIdentity :=
  match identity.namespace_, scope with
  | some _, .namespaced => identity
  | _, _ => { identity with namespace_ := none }

/-- Delete orphaned objects one after the other. -/
def pruneOrphans (answers : Answers kinds) (server : Server kinds) :
    List (ResourceIdentity × Scope) → Server kinds × List (Except KubeError ResourceIdentity)
  | [] => (server, [])
  | (identity, scope) :: rest =>
    match answers.deletes (deletionTarget identity scope) with
    | .ok () =>
      let (server, results) :=
        pruneOrphans answers (server.delete (deletionTarget identity scope)) rest
      (server, .ok identity :: results)
    | .error reason =>
      let (server, results) := pruneOrphans answers server rest
      (server, .error (.pruneFailed identity.kind identity.name reason) :: results)

/-- What a tick reports. -/
structure ReconcileStats where
  applied : Nat
  pruned : Nat
  unchanged : Nat
  errors : Nat
  deriving DecidableEq, Repr

/-- The reconciler: what it remembers of each cluster. -/
structure KubeReconciler where
  prune : Bool
  lastRev : Std.ExtTreeMap String String
  lastGeneration : Std.ExtTreeMap String String

/-- A reconciler that remembers nothing. -/
def KubeReconciler.new (prune : Bool) : KubeReconciler := ⟨prune, ∅, ∅⟩

/-- A resource with the labels and annotations of management in its manifest. -/
def labelled (answers : Answers kinds) (clusterName generation : String)
    (resource : ManagedResource) : ManagedResource :=
  { resource with
    manifest := injectManagementLabels resource.manifest clusterName generation
      resource.contentHash answers.now }

variable [JsonText] [Sha256]

/-- The labelled resources of the raw values, in the order of application. -/
def desired (answers : Answers kinds) (clusterName : String) (raw : List JsonValue) :
    List ManagedResource :=
  let resources := parseAll raw
  let generation := generationHash resources
  topologicalSort (resources.map (labelled answers clusterName generation))

/-- Prune what is not of the generation; a failed detection of orphans is only logged. -/
def pruneAll (prune : Bool) (answers : Answers kinds) (progress : Progress kinds)
    (clusterName generation : String) : Server kinds × List (Except KubeError ResourceIdentity) :=
  if prune then
    match findOrphans answers progress.server clusterName generation with
    | .ok orphans => pruneOrphans answers progress.server orphans
    | .error _ => (progress.server, [])
  else (progress.server, [])

/-- A result of pruning that is a failure. -/
def failed : Except KubeError ResourceIdentity → Bool
  | .ok _ => false
  | .error _ => true

/-- Run a single tick for one cluster. -/
def reconcileCluster (reconciler : KubeReconciler) (answers : Answers kinds)
    (server : Server kinds) (clusterName : String) :
    Except KubeError ReconcileStats × KubeReconciler × Server kinds :=
  match answers.metadata with
  | .error e => (.error e, reconciler, server)
  | .ok currentRev =>
    if reconciler.lastRev[clusterName]? = some currentRev then
      (.ok ⟨0, 0, 0, 0⟩, reconciler, server)
    else
      match answers.eval with
      | .error e => (.error e, reconciler, server)
      | .ok raw =>
        let generation := generationHash (parseAll raw)
        let resources := desired answers clusterName raw
        let progress := applyFrom answers 0 ⟨server, 0, 0⟩ resources
        let (server, results) :=
          pruneAll reconciler.prune answers progress clusterName generation
        let failures := results.countP failed
        (.ok
          { applied := progress.applied
            pruned := results.length - failures
            unchanged := resources.length - progress.applied
            errors := progress.errors + failures },
          { reconciler with
            lastRev := reconciler.lastRev.insert clusterName currentRev
            lastGeneration := reconciler.lastGeneration.insert clusterName generation },
          server)

end

end Tatara.Kube
