import Mathlib.Data.List.Nodup
import Tatara.Domain.SpecTexts

/-! Whether the hash of a specification depends on the orders of its maps. -/

namespace Tatara.Domain

open Tatara.Rust

/-- The hash is the same in all orders of the maps, and the text that is hashed is that of no other
specification. -/
structure CanonicalHash (digest : String → String) (spec : JobSpec) : Prop where
  equal : ∀ layout other, spec.contentHash digest layout = spec.contentHash digest other
  different : ∀ others ≠ spec, ∀ layout other,
    (spec.document layout).text ≠ (others.document other).text

/-- The hash maps of what the driver of a task is told. -/
def TaskConfig.maps : TaskConfig → List (Std.ExtTreeMap String String)
  | .oci _ ports volumes _ _ => [ports, volumes]
  | .wasi _ _ mounts _ => [mounts]
  | .exec .. | .nix .. | .nixBuild .. | .kasou .. => []

/-- The hash maps of a task. -/
def Task.maps (task : Task) : List (Std.ExtTreeMap String String) := task.env :: task.config.maps

/-- The hash maps of a specification. -/
def JobSpec.maps (spec : JobSpec) : List (Std.ExtTreeMap String String) :=
  spec.meta :: spec.groups.flatMap fun group => group.tasks.flatMap Task.maps

/-- No map of the specification has two entries. -/
def SingleEntries (spec : JobSpec) : Prop := ∀ map ∈ spec.maps, map.size ≤ 1

namespace Traversal

/-- Through the entries in the order of the keys. -/
def forward : Traversal where
  entries map := map.toList
  complete _ := .refl _

/-- Through the entries against the order of the keys. -/
def backward : Traversal where
  entries map := map.toList.reverse
  complete map := List.reverse_perm map.toList

/-- A map of at most one entry is gone through in one order only. -/
theorem entries_eq (traversal other : Traversal) {map : Std.ExtTreeMap String String}
    (small : map.size ≤ 1) : traversal.entries map = other.entries map := by
  have complete := traversal.complete map
  have complete' := other.complete map
  rw [← Std.ExtTreeMap.length_toList] at small
  -- A list of at most one element has no other permutation.
  match entries : map.toList with
  | [] =>
    rw [entries] at complete complete'
    rw [complete.eq_nil, complete'.eq_nil]
  | [entry] =>
    rw [entries] at complete complete'
    rw [complete.eq_singleton, complete'.eq_singleton]
  | first :: second :: rest =>
    rw [entries] at small
    exact absurd small (by simp)

/-- A map that is the same forward and backward has at most one entry. -/
theorem size_le_one_of_entries_eq {map : Std.ExtTreeMap String String}
    (same : forward.entries map = backward.entries map) : map.size ≤ 1 := by
  have keys : (map.toList.map Prod.fst).Nodup := by
    rw [Std.ExtTreeMap.map_fst_toList_eq_keys]
    exact Std.ExtTreeMap.nodup_keys
  have distinct : map.toList.Nodup := List.Nodup.of_map _ keys
  have palindrome : map.toList = map.toList.reverse := same
  rw [← Std.ExtTreeMap.length_toList]
  match entries : map.toList with
  | [] => exact Nat.zero_le 1
  | [entry] => exact Nat.le_refl 1
  | first :: second :: rest =>
    -- The first entry would be the last one as well.
    rw [entries] at palindrome distinct
    have ends := congrArg List.head? palindrome
    rw [List.head?_reverse, List.head?_cons, List.getLast?_cons_cons] at ends
    have again : first ∈ second :: rest := List.mem_of_getLast? ends.symm
    exact absurd again (List.nodup_cons.mp distinct).1

end Traversal

section

variable {layout other : TaskMap → Traversal} {traversal traversal' : Traversal}

/-- A configuration without maps of several entries is written in one way only. -/
theorem TaskConfig.document_congr {config : TaskConfig}
    (small : ∀ map ∈ config.maps, map.size ≤ 1) :
    config.document layout = config.document other := by
  -- Only two kinds of configurations have maps.
  cases config with
  | oci image ports volumes entrypoint command =>
    obtain ⟨smallPorts, smallVolumes⟩ : ports.size ≤ 1 ∧ volumes.size ≤ 1 := by
      simpa [maps] using small
    simp only [document, mapDocument, (layout .ports).entries_eq (other .ports) smallPorts,
      (layout .volumes).entries_eq (other .volumes) smallVolumes]
  | wasi path capabilities mounts services =>
    have smallMounts : mounts.size ≤ 1 := by simpa [maps] using small
    simp only [document, mapDocument, (layout .mounts).entries_eq (other .mounts) smallMounts]
  | exec | nix | nixBuild | kasou => rfl

/-- A task without maps of several entries is written in one way only. -/
theorem Task.document_congr {task : Task} (small : ∀ map ∈ task.maps, map.size ≤ 1) :
    task.document layout = task.document other := by
  obtain ⟨env, config⟩ := List.forall_mem_cons.mp small
  simp only [document, mapDocument, (layout .env).entries_eq (other .env) env,
    @TaskConfig.document_congr layout other task.config config]

/-- What is written tells the orders of the maps of a task. -/
theorem TaskConfig.entries_eq_of_document_eq {config : TaskConfig}
    (same : config.document (fun _ => traversal) = config.document fun _ => traversal') :
    ∀ map ∈ config.maps, traversal.entries map = traversal'.entries map := by
  -- Only two kinds of configurations have maps.
  cases config with
  | oci image ports volumes entrypoint command =>
    simpa [document, mapDocument_eq_iff, maps] using same
  | wasi path capabilities mounts services =>
    simpa [document, mapDocument_eq_iff, maps] using same
  | exec | nix | nixBuild | kasou => simp [maps]

/-- What is written of a task tells the orders of all its maps. -/
theorem Task.entries_eq_of_document_eq {task : Task}
    (same : task.document (fun _ => traversal) = task.document fun _ => traversal') :
    ∀ map ∈ task.maps, traversal.entries map = traversal'.entries map := by
  -- The configuration and the variables are written in different places.
  obtain ⟨config, env⟩ : task.config.document (fun _ => traversal) =
      task.config.document (fun _ => traversal') ∧
        traversal.entries task.env = traversal'.entries task.env := by
    simpa [document, mapDocument_eq_iff] using same
  exact List.forall_mem_cons.mpr ⟨env, TaskConfig.entries_eq_of_document_eq config⟩

end

section

variable {spec : JobSpec}

/-- The maps of a task are among those of the specification. -/
theorem small_of_mem_tasks (small : SingleEntries spec) {group : TaskGroup}
    (among : group ∈ spec.groups) {task : Task} (inside : task ∈ group.tasks) :
    ∀ map ∈ task.maps, map.size ≤ 1 := by
  intro map there
  refine small map (List.mem_cons_of_mem _ (List.mem_flatMap.mpr ⟨group, among, ?_⟩))
  exact List.mem_flatMap.mpr ⟨task, inside, there⟩

/-- A specification without maps of several entries is written in one way only. -/
theorem document_congr (small : SingleEntries spec) (layout other : Layout) :
    spec.document layout = spec.document other := by
  -- Place by place the groups are written alike.
  have groups : (spec.groups.mapIdx fun place group => group.document (layout.task place)) =
      spec.groups.mapIdx fun place group => group.document (other.task place) := by
    refine List.mapIdx_eq_mapIdx_iff.mpr fun place inside => ?_
    have tasks := List.mapIdx_eq_mapIdx_iff.mpr fun number inner =>
      @Task.document_congr (layout.task place number) (other.task place number) _
        (small_of_mem_tasks small (List.getElem_mem inside) (List.getElem_mem inner))
    simp only [TaskGroup.document, tasks]
  have «meta» := layout.meta.entries_eq other.meta (small spec.meta List.mem_cons_self)
  simp only [JobSpec.document, groups, mapDocument, «meta»]

/-- A specification that is written in one way only has no map of several entries. -/
theorem singleEntries_of_document_eq
    (same : ∀ layout other, spec.document layout = spec.document other) : SingleEntries spec := by
  have turned := same ⟨.forward, fun _ _ _ => .forward⟩ ⟨.backward, fun _ _ _ => .backward⟩
  obtain ⟨groups, «meta»⟩ : (spec.groups.mapIdx fun _ group =>
      group.document fun _ _ => Traversal.forward) =
        (spec.groups.mapIdx fun _ group => group.document fun _ _ => Traversal.backward) ∧
          Traversal.forward.entries spec.meta = Traversal.backward.entries spec.meta := by
    simpa [JobSpec.document, mapDocument_eq_iff] using turned
  intro map there
  refine Traversal.size_le_one_of_entries_eq ?_
  rcases List.mem_cons.mp there with rfl | deeper
  · exact «meta»
  · -- The map belongs to a task, which is written alike in its place.
    obtain ⟨group, among, further⟩ := List.mem_flatMap.mp deeper
    obtain ⟨task, inside, held⟩ := List.mem_flatMap.mp further
    obtain ⟨place, bound, rfl⟩ := List.mem_iff_getElem.mp among
    have group := List.mapIdx_eq_mapIdx_iff.mp groups place bound
    have tasks : (spec.groups[place].tasks.mapIdx fun _ task =>
        task.document fun _ => Traversal.forward) =
          spec.groups[place].tasks.mapIdx fun _ task =>
            task.document fun _ => Traversal.backward := by
      simpa [TaskGroup.document] using group
    obtain ⟨number, inner, rfl⟩ := List.mem_iff_getElem.mp inside
    exact Task.entries_eq_of_document_eq (List.mapIdx_eq_mapIdx_iff.mp tasks number inner) map held

end

/-- The hash is canonical exactly where no map has an order to go through. -/
theorem canonicalHash_iff (digest : String → String) (spec : JobSpec)
    (apart : ∀ layout other, spec.contentHash digest layout = spec.contentHash digest other →
      (spec.document layout).text = (spec.document other).text) :
    CanonicalHash digest spec ↔ SingleEntries spec := by
  constructor
  · intro canonical
    -- The digests are the same, so the texts are, and so are the documents.
    refine singleEntries_of_document_eq fun layout other => ?_
    exact Document.text_injective (apart layout other (canonical.equal layout other))
  · intro small
    refine ⟨fun layout other => ?_, fun others differ layout other same => ?_⟩
    · rw [JobSpec.contentHash, JobSpec.contentHash, document_congr small layout other]
    · exact differ (JobSpec.eq_of_document_eq (Document.text_injective same)).symm

/-- A specification with these entries in its map. -/
def taggedSpec («meta» : Std.ExtTreeMap String String) : JobSpec :=
  { id := "web", jobType := .service, groups := [], constraints := [], «meta» := «meta» }

/-- The digests of the texts of such specifications. -/
def taggedDigest (text : String) : String :=
  let tagged (tags : String) :=
    "\x7b\"id\":\"web\",\"job_type\":\"service\",\"groups\":[],\"constraints\":[],\"meta\":\x7b" ++
      tags ++ "\x7d\x7d"
  if text = tagged "\"team\":\"infra\"" then
    "c72e669c47784e300cefa7d30dab63484f512fa91e68971872778ce621757670"
  else if text = tagged "\"env\":\"prod\",\"team\":\"infra\"" then
    "144960e50684f195b394f484d2f81a2f5a8a264a2c87153b461f54d355cf36b1"
  else if text = tagged "\"team\":\"infra\",\"env\":\"prod\"" then
    "a9ab407823f3cfec7fff0dd1c4f17510670514db7affcf94e6b693498df38d2d"
  else ""

/-- With one entry there is one hash. -/
theorem canonicalHash_oneTag : CanonicalHash taggedDigest (taggedSpec {("team", "infra")}) := by
  -- The one map of the specification has one entry.
  have small : SingleEntries (taggedSpec {("team", "infra")}) := by
    intro map there
    obtain rfl := List.mem_singleton.mp there
    decide
  exact (canonicalHash_iff taggedDigest _ fun layout other _ => by
    rw [document_congr small layout other]).mpr small

/-- With two entries there are two hashes. -/
theorem not_canonicalHash_twoTags :
    ¬ CanonicalHash taggedDigest (taggedSpec {("env", "prod"), ("team", "infra")}) := by
  intro canonical
  let spec := taggedSpec {("env", "prod"), ("team", "infra")}
  -- The two entries change places, and so do the texts that are hashed.
  have first : spec.contentHash taggedDigest ⟨.forward, fun _ _ _ => .forward⟩ =
      "144960e50684f195b394f484d2f81a2f5a8a264a2c87153b461f54d355cf36b1" := by decide +kernel
  have second : spec.contentHash taggedDigest ⟨.backward, fun _ _ _ => .backward⟩ =
      "a9ab407823f3cfec7fff0dd1c4f17510670514db7affcf94e6b693498df38d2d" := by decide +kernel
  have same := canonical.equal ⟨.forward, fun _ _ _ => .forward⟩
    ⟨.backward, fun _ _ _ => .backward⟩
  rw [first, second] at same
  exact absurd same (by decide)

end Tatara.Domain
