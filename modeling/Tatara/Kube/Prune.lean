import Tatara.Kube.Labels
import Tatara.Lib.Consecutive

/-! What pruning deletes: the managed objects whose generation no apply has refreshed. -/

namespace Tatara.Kube

open Places (forall_places_cons)
open Rust (Json JsonValue JsonText)

variable {kinds : Kinds}

/-- A managed object whose generation is not the given one. -/
def Stale (clusterName generation : String) (object : LiveObject) : Prop :=
  managed clusterName object = true ∧ (object.labels[labelGeneration]?).getD "" ≠ generation

/-- An object without labels is not managed. -/
theorem not_stale_of_empty {clusterName generation : String} {object : LiveObject}
    (bare : object.labels = ∅) : ¬ Stale clusterName generation object := by
  rintro ⟨isManaged, -⟩
  simp [managed, bare] at isManaged

/-- An object of a generation is not stale for it. -/
theorem not_stale_of_generation {clusterName generation : String} {object : LiveObject}
    (current : object.labels[labelGeneration]? = some generation) :
    ¬ Stale clusterName generation object := fun stale => stale.2 (by rw [current]; rfl)

/-- An apply at a place of the order writes labels onto the object of an identity. -/
def Refreshes (answers : Answers kinds) (place : Nat) (resource : ManagedResource)
    (identity : ResourceIdentity) : Prop :=
  placeOf kinds resource.identity = identity ∧
    (kinds resource.identity.apiVersion resource.identity.kind).isSome = true ∧
    (∃ given, givenLabels resource.manifest = some given ∧ given ≠ []) ∧
    answers.patches place = .ok ()

/-- What an apply that succeeds does. -/
theorem serverSideApply_eq_ok_iff {server after : Server kinds} {resource : ManagedResource}
    {answer : Except String Unit} :
    serverSideApply server resource answer = .ok after ↔
      (kinds resource.identity.apiVersion resource.identity.kind).isSome = true ∧
        answer = .ok () ∧
        ∃ given, givenLabels resource.manifest = some given ∧
          after = server.patch resource.identity given := by
  -- What is applied is the manifest with its labels injected, if the server takes it.
  unfold serverSideApply
  cases served : kinds resource.identity.apiVersion resource.identity.kind with
  | none => simp
  | some scope =>
    cases gives : givenLabels resource.manifest with
    | none => simp
    | some given =>
      cases answer with
      | error reason => simp
      | ok done => simp [eq_comm]

section

variable {server : Server kinds} {identity : ResourceIdentity} {given : List (String × String)}
  {object : LiveObject}

/-- The objects after a patch are those elsewhere, and one at its place with the labels written. -/
theorem mem_patch_cases (held : object ∈ (server.patch identity given).objects) :
    (object ∈ server.objects ∧ object.identity ≠ placeOf kinds identity) ∨
      (object.identity = placeOf kinds identity ∧
        ∃ old, (old ∈ server.objects ∨ old.labels = ∅) ∧ object = Server.relabel given old) := by
  simp only [Server.patch] at held
  unfold Server.patched at held
  split at held
  · obtain ⟨old, there, rfl⟩ := List.mem_map.mp held
    by_cases own : old.identity = placeOf kinds identity
    · rw [if_pos own]
      exact .inr ⟨own, old, .inl there, rfl⟩
    · rw [if_neg own]
      exact .inl ⟨there, own⟩
  · rename_i new
    rcases List.mem_append.mp held with there | made
    · exact .inl ⟨there, fun same => new (same ▸ List.mem_map_of_mem there)⟩
    · -- The object is made by the patch.
      rw [List.mem_singleton.mp made]
      exact .inr ⟨rfl, ⟨placeOf kinds identity, ∅⟩, .inr rfl, rfl⟩

/-- A patch leaves the objects elsewhere. -/
theorem mem_patch_of_ne (there : object ∈ server.objects)
    (elsewhere : object.identity ≠ placeOf kinds identity) :
    object ∈ (server.patch identity given).objects := by
  simp only [Server.patch]
  unfold Server.patched
  split
  · exact List.mem_map.mpr ⟨object, there, if_neg elsewhere⟩
  · exact List.mem_append_left _ there

/-- A patch without labels leaves every object. -/
theorem mem_patch_nil (there : object ∈ server.objects) :
    object ∈ (server.patch identity []).objects := by
  simp only [Server.patch]
  unfold Server.patched
  split
  · exact List.mem_map.mpr ⟨object, there, by split <;> rfl⟩
  · exact List.mem_append_left _ there

end

/-- The labels of these resources are none, or have the generation among them. -/
def OfGeneration (generation : String) (resources : List ManagedResource) : Prop :=
  ∀ resource ∈ resources, ∀ given, givenLabels resource.manifest = some given →
    given = [] ∨ Writes.lastWrite given labelGeneration = some generation

section

variable {answers : Answers kinds} {clusterName generation : String}
  {resource : ManagedResource} {place : Nat} {before : Server kinds} {object : LiveObject}

/-- What is stale after an apply was there before it, and the apply did not refresh it. -/
theorem stale_of_serverSideApply {after : Server kinds}
    (ofGeneration : ∀ given, givenLabels resource.manifest = some given →
      given = [] ∨ Writes.lastWrite given labelGeneration = some generation)
    (applied : serverSideApply before resource (answers.patches place) = .ok after)
    (held : object ∈ after.objects) (stale : Stale clusterName generation object) :
    object ∈ before.objects ∧ ¬ Refreshes answers place resource object.identity := by
  obtain ⟨-, accepted, given, gives, rfl⟩ := serverSideApply_eq_ok_iff.mp applied
  rcases mem_patch_cases held with ⟨there, elsewhere⟩ | ⟨own, old, origin, rfl⟩
  · exact ⟨there, fun refreshes => elsewhere refreshes.1.symm⟩
  · rcases ofGeneration given gives with rfl | written
    · -- The object is as it was, and no label was written.
      rcases origin with there | bare
      · refine ⟨there, fun ⟨_, _, ⟨others, givesToo, nonempty⟩, _⟩ => nonempty ?_⟩
        exact (Option.some.inj (gives.symm.trans givesToo)).symm
      · exact absurd stale (not_stale_of_empty bare)
    · refine absurd stale (not_stale_of_generation ?_)
      rw [Server.relabel, Writes.getElem?_writeAll, written, Option.some_or]

/-- An object that an apply does not refresh stays as it is. -/
theorem mem_serverSideApply {after : Server kinds}
    (applied : serverSideApply before resource (answers.patches place) = .ok after)
    (there : object ∈ before.objects) (kept : ¬ Refreshes answers place resource object.identity) :
    object ∈ after.objects := by
  obtain ⟨served, accepted, given, gives, rfl⟩ := serverSideApply_eq_ok_iff.mp applied
  by_cases own : placeOf kinds resource.identity = object.identity
  · by_cases empty : given = []
    · rw [empty]
      exact mem_patch_nil there
    · exact absurd ⟨own, served, ⟨given, gives, empty⟩, accepted⟩ kept
  · exact mem_patch_of_ne there fun same => own same.symm

end

section

variable {answers : Answers kinds} {clusterName generation : String} {object : LiveObject}

/-- What is stale after the applies is what was stale before them and was not refreshed. -/
theorem stale_applyFrom_iff {resources : List ManagedResource}
    (ofGeneration : OfGeneration generation resources) (place : Nat) (progress : Progress kinds)
    (stale : Stale clusterName generation object) :
    object ∈ (applyFrom answers place progress resources).server.objects ↔
      object ∈ progress.server.objects ∧
        ∀ i resource, resources[i]? = some resource →
          ¬ Refreshes answers (place + i) resource object.identity := by
  -- By induction on the resources, each of which is applied or fails.
  induction resources generalizing place progress with
  | nil => simp [applyFrom]
  | cons resource rest ih =>
    have later : OfGeneration generation rest :=
      fun other listed => ofGeneration other (List.mem_cons_of_mem _ listed)
    rw [applyFrom, forall_places_cons fun i other =>
      ¬ Refreshes answers i other object.identity]
    cases applied : serverSideApply progress.server resource (answers.patches place) with
    | error e =>
      -- A failed apply refreshes nothing.
      have idle : ¬ Refreshes answers place resource object.identity := by
        rintro ⟨-, served, ⟨given, gives, -⟩, accepted⟩
        have success : serverSideApply progress.server resource (answers.patches place) =
            .ok (progress.server.patch resource.identity given) :=
          serverSideApply_eq_ok_iff.mpr ⟨served, accepted, given, gives, rfl⟩
        rw [applied] at success
        cases success
      simp only [ih later, idle, not_false_eq_true, true_and]
    | ok server =>
      simp only [ih later]
      constructor
      · rintro ⟨held, others⟩
        obtain ⟨there, first⟩ := stale_of_serverSideApply
          (ofGeneration resource List.mem_cons_self) applied held stale
        exact ⟨there, first, others⟩
      · rintro ⟨there, first, others⟩
        exact ⟨mem_serverSideApply applied there first, others⟩

/-- Deletions leave the objects whose identity is the target of none that is accepted. -/
theorem mem_pruneOrphans_iff {orphans : List (ResourceIdentity × Scope)} (server : Server kinds) :
    object ∈ (pruneOrphans answers server orphans).1.objects ↔
      object ∈ server.objects ∧ ∀ orphan ∈ orphans,
        answers.deletes (deletionTarget orphan.1 orphan.2) = .ok () →
          object.identity ≠ deletionTarget orphan.1 orphan.2 := by
  -- By induction on the orphans.
  induction orphans generalizing server with
  | nil => simp [pruneOrphans]
  | cons orphan rest ih =>
    obtain ⟨identity, scope⟩ := orphan
    rw [pruneOrphans, List.forall_mem_cons]
    cases answer : answers.deletes (deletionTarget identity scope) with
    | ok done =>
      simp only [ih, Server.mem_delete_iff, forall_const, and_assoc]
    | error reason =>
      simp only [ih, reduceCtorEq, false_implies, true_and]

/-- An object that the server holds is deleted at its own identity. -/
theorem deletionTarget_of_placed {server : Server kinds} (there : object ∈ server.objects)
    {scope : Scope} (served : kinds object.identity.apiVersion object.identity.kind = some scope) :
    deletionTarget object.identity scope = object.identity := by
  have placed := server.placed object there
  rw [placeOf_eq_target served] at placed
  -- The place of the object is its identity, so its namespace fits the scope.
  cases scope with
  | cluster =>
    rw [← placed]
    rfl
  | namespaced =>
    rw [← placed]
    rfl

/-- The orphans of a kind are the stale objects of it, if the kind can be listed. -/
theorem mem_orphansOfKind_iff {server : Server kinds} {apiVersion kind : String}
    {orphan : ResourceIdentity × Scope} :
    orphan ∈ orphansOfKind answers server clusterName generation (apiVersion, kind) ↔
      answers.lists apiVersion kind = true ∧ kinds apiVersion kind = some orphan.2 ∧
        ∃ object ∈ server.objects, object.identity.apiVersion = apiVersion ∧
          object.identity.kind = kind ∧ Stale clusterName generation object ∧
          object.identity = orphan.1 := by
  -- The filters of the search, one after the other.
  obtain ⟨identity, scope⟩ := orphan
  unfold orphansOfKind
  cases served : kinds apiVersion kind with
  | none => simp
  | some actual =>
    cases listed : answers.lists apiVersion kind with
    | false => simp
    | true =>
      simp only [List.mem_map, List.mem_filter, Bool.and_eq_true, beq_iff_eq, bne_iff_ne,
        Prod.mk.injEq, Option.some.injEq, true_and, Stale]
      constructor
      · rintro ⟨object, ⟨there, ⟨⟨version, own⟩, isManaged⟩, old⟩, same, fits⟩
        exact ⟨fits, object, there, version, own, ⟨isManaged, old⟩, same⟩
      · rintro ⟨fits, object, there, version, own, ⟨isManaged, old⟩, same⟩
        exact ⟨object, ⟨there, ⟨⟨version, own⟩, isManaged⟩, old⟩, same, fits⟩

/-- A kind that discovery finds, that is served and that can be listed. -/
def Found (answers : Answers kinds) (apiVersion kind : String) : Prop :=
  ∃ found, answers.discovered = .ok found ∧ (apiVersion, kind) ∈ found ∧
    (kinds apiVersion kind).isSome = true ∧ answers.lists apiVersion kind = true

/-- The orphans found are the stale objects of the kinds that are found. -/
theorem mem_findOrphans_iff {server : Server kinds} {orphans : List (ResourceIdentity × Scope)}
    (found : findOrphans answers server clusterName generation = .ok orphans)
    {orphan : ResourceIdentity × Scope} :
    orphan ∈ orphans ↔ ∃ object ∈ server.objects, Stale clusterName generation object ∧
      Found answers object.identity.apiVersion object.identity.kind ∧
      object.identity = orphan.1 ∧
      kinds object.identity.apiVersion object.identity.kind = some orphan.2 := by
  -- The kinds are searched in order, and what each of them finds is collected.
  unfold findOrphans at found
  split at found
  · cases found
  · rename_i listed discovered
    cases found
    rw [List.mem_mergeSort, List.mem_flatMap]
    constructor
    · rintro ⟨⟨apiVersion, kind⟩, among, held⟩
      obtain ⟨lists, served, object, there, rfl, rfl, stale, same⟩ := mem_orphansOfKind_iff.mp held
      exact ⟨object, there, stale, ⟨listed, discovered, among, by rw [served]; rfl, lists⟩, same,
        served⟩
    · rintro ⟨object, there, stale, ⟨others, discoveredToo, among, -, lists⟩, same, served⟩
      obtain rfl := Except.ok.inj (discovered.symm.trans discoveredToo)
      exact ⟨_, among, mem_orphansOfKind_iff.mpr
        ⟨lists, served, object, there, rfl, rfl, stale, same⟩⟩

/-- The server finds an object and accepts its deletion. -/
def Removable (answers : Answers kinds) (identity : ResourceIdentity) : Prop :=
  Found answers identity.apiVersion identity.kind ∧ answers.deletes identity = .ok ()

/-- Pruning takes away the stale objects that can be removed. -/
theorem mem_pruneAll_iff {progress : Progress kinds} (there : object ∈ progress.server.objects) :
    object ∈ (pruneAll true answers progress clusterName generation).1.objects ↔
      ¬ (Stale clusterName generation object ∧ Removable answers object.identity) := by
  rw [pruneAll, if_pos rfl]
  cases searched : findOrphans answers progress.server clusterName generation with
  | error e =>
    -- Nothing is found, so that nothing can be removed.
    refine iff_of_true there fun ⟨_, ⟨found, discovered, _⟩, _⟩ => ?_
    rw [findOrphans, discovered] at searched
    cases searched
  | ok orphans =>
    simp only [mem_pruneOrphans_iff, there, true_and]
    constructor
    · rintro kept ⟨stale, found, accepted⟩
      obtain ⟨scope, served⟩ := Option.isSome_iff_exists.mp (found.choose_spec.2.2.1)
      have own := deletionTarget_of_placed there served
      have listed : (object.identity, scope) ∈ orphans :=
        (mem_findOrphans_iff searched).mpr ⟨object, there, stale, found, rfl, served⟩
      exact kept _ listed (by rw [own]; exact accepted) own.symm
    · intro safe orphan listed accepted same
      obtain ⟨other, there', stale, found, same', served⟩ :=
        (mem_findOrphans_iff searched).mp listed
      -- The orphan is deleted at its identity, so it is the object.
      have own := deletionTarget_of_placed there' served
      rw [← same', own] at accepted same
      obtain rfl := progress.server.eq_of_identity there there' same
      exact safe ⟨stale, found, accepted⟩

end

section

variable [JsonText] [Sha256] {answers : Answers kinds} {clusterName : String}

/-- The identity that a manifest spells out. -/
def identityOf (manifest : Json) : Option ResourceIdentity := do
  let apiVersion ← asStr (manifest.field "apiVersion")
  let kind ← asStr (manifest.field "kind")
  let name ← asStr (Json.valueAt ["metadata", "name"] manifest)
  return ⟨apiVersion, kind, asStr (Json.valueAt ["metadata", "namespace"] manifest), name⟩

/-- A manifest of the list describes the object at a place. -/
def Describes (kinds : Kinds) (raw : List JsonValue) (place : ResourceIdentity) : Prop :=
  ∃ value ∈ raw, ∃ identity, identityOf value.json = some identity ∧
    placeOf kinds identity = place

/-- A tick deletes an object that the same tick leaves when it does not prune. -/
def Deletes (reconciler : KubeReconciler) (answers : Answers kinds) (server : Server kinds)
    (clusterName : String) (object : LiveObject) : Prop :=
  object ∈ (reconcileCluster { reconciler with prune := false } answers server
    clusterName).2.2.objects ∧
  object ∉ (reconcileCluster reconciler answers server clusterName).2.2.objects

/-- A tick gets as far as pruning what the manifests do not describe. -/
def Prunes (reconciler : KubeReconciler) (answers : Answers kinds) (clusterName : String)
    (raw : List JsonValue) : Prop :=
  reconciler.prune = true ∧ answers.eval = .ok raw ∧
    ∃ rev, answers.metadata = .ok rev ∧ reconciler.lastRev[clusterName]? ≠ some rev

/-- An apply of the tick writes labels onto the object of an identity. -/
def Refreshed (answers : Answers kinds) (clusterName : String) (raw : List JsonValue)
    (identity : ResourceIdentity) : Prop :=
  ∃ i resource, (desired answers clusterName raw)[i]? = some resource ∧
    Refreshes answers i resource identity

variable {reconciler : KubeReconciler} {server : Server kinds} {raw : List JsonValue}
  {object : LiveObject}

/-- A tick whose manifests are evaluated applies them and prunes. -/
theorem server_of_evaluated {rev : String} (current : answers.metadata = .ok rev)
    (new : reconciler.lastRev[clusterName]? ≠ some rev) (evaluated : answers.eval = .ok raw) :
    (reconcileCluster reconciler answers server clusterName).2.2 =
      (pruneAll reconciler.prune answers
        (applyFrom answers 0 ⟨server, 0, 0⟩ (desired answers clusterName raw)) clusterName
        (generationHash (parseAll raw))).1 := by
  simp only [reconcileCluster, current, evaluated, if_neg new]

/-- A tick that does not get as far as pruning is the same without it. -/
theorem server_of_not_prunes (idle : ∀ raw, ¬ Prunes reconciler answers clusterName raw) :
    (reconcileCluster reconciler answers server clusterName).2.2 =
      (reconcileCluster { reconciler with prune := false } answers server clusterName).2.2 := by
  -- A loop that comes as far as pruning has it switched off.
  unfold reconcileCluster
  cases current : answers.metadata with
  | error e => rfl
  | ok rev =>
    dsimp only
    by_cases known : reconciler.lastRev[clusterName]? = some rev
    · rw [if_pos known, if_pos known]
    · rw [if_neg known, if_neg known]
      cases evaluated : answers.eval with
      | error e => rfl
      | ok raw =>
        have off : reconciler.prune = false := by
          rw [← Bool.not_eq_true]
          exact fun on => idle raw ⟨on, evaluated, rev, current, known⟩
        rw [off]

/-- The objects that a tick deletes are the stale ones that no apply refreshes and that the
server gives up. -/
theorem deletes_iff :
    Deletes reconciler answers server clusterName object ↔
      ∃ raw, Prunes reconciler answers clusterName raw ∧ object ∈ server.objects ∧
        Stale clusterName (generationHash (parseAll raw)) object ∧
        ¬ Refreshed answers clusterName raw object.identity ∧
        Removable answers object.identity := by
  -- What is deleted is an orphan of a kind that is searched, once everything is applied.
  by_cases idle : ∀ raw, ¬ Prunes reconciler answers clusterName raw
  · rw [Deletes, server_of_not_prunes idle]
    refine iff_of_false (fun both => both.2 both.1) ?_
    rintro ⟨raw, prunes, -⟩
    exact idle raw prunes
  · obtain ⟨raw, prunes⟩ := not_forall_not.mp idle
    obtain ⟨on, evaluated, rev, current, new⟩ := prunes
    have alone : ∀ other, Prunes reconciler answers clusterName other → other = raw :=
      fun other prunes => Except.ok.inj (prunes.2.1.symm.trans evaluated)
    have unpruned : (reconcileCluster { reconciler with prune := false } answers server
        clusterName).2.2 =
        (applyFrom answers 0 ⟨server, 0, 0⟩ (desired answers clusterName raw)).server := by
      exact (@server_of_evaluated kinds _ _ answers clusterName { reconciler with prune := false }
        server raw rev current new evaluated).trans rfl
    have applied : Stale clusterName (generationHash (parseAll raw)) object →
        (object ∈ (applyFrom answers 0 ⟨server, 0, 0⟩
          (desired answers clusterName raw)).server.objects ↔
          object ∈ server.objects ∧ ¬ Refreshed answers clusterName raw object.identity) := by
      intro stale
      rw [stale_applyFrom_iff (fun resource listed given gives =>
        generation_given_desired listed gives) 0 _ stale]
      simp only [Nat.zero_add, Refreshed, not_exists, not_and]
    rw [Deletes, unpruned, server_of_evaluated current new evaluated, on]
    constructor
    · rintro ⟨there, gone⟩
      rw [mem_pruneAll_iff there, not_not] at gone
      obtain ⟨held, unrefreshed⟩ := (applied gone.1).mp there
      exact ⟨raw, ⟨on, evaluated, rev, current, new⟩, held, gone.1, unrefreshed, gone.2⟩
    · rintro ⟨other, prunes, held, stale, unrefreshed, removable⟩
      obtain rfl := alone other prunes
      have there := (applied stale).mpr ⟨held, unrefreshed⟩
      exact ⟨there, (mem_pruneAll_iff there).not_left.mpr ⟨stale, removable⟩⟩

/-- A tick deletes only what is managed for the cluster and what no manifest describes, exactly
when every stale object that a manifest describes is refreshed or stays with the server. -/
theorem deletesOnlyUndesired_iff (reconciler : KubeReconciler) (answers : Answers kinds)
    (server : Server kinds) (clusterName : String) :
    (∀ object, Deletes reconciler answers server clusterName object →
      managed clusterName object = true ∧
        ∀ raw, answers.eval = .ok raw → ¬ Describes kinds raw object.identity) ↔
      ∀ raw, Prunes reconciler answers clusterName raw → ∀ object ∈ server.objects,
        Describes kinds raw object.identity →
        Stale clusterName (generationHash (parseAll raw)) object →
        Refreshed answers clusterName raw object.identity ∨
          ¬ Removable answers object.identity := by
  constructor
  · intro sound raw prunes object there describes stale
    -- Were it neither, the tick would delete it.
    by_contra neither
    obtain ⟨unrefreshed, removable⟩ := not_or.mp neither
    have deleted := deletes_iff.mpr
      ⟨raw, prunes, there, stale, unrefreshed, not_not.mp removable⟩
    exact (sound object deleted).2 raw prunes.2.1 describes
  · intro safe object deleted
    obtain ⟨raw, prunes, there, stale, unrefreshed, removable⟩ := deletes_iff.mp deleted
    refine ⟨stale.1, fun other evaluated describes => ?_⟩
    obtain rfl := Except.ok.inj (evaluated.symm.trans prunes.2.1)
    rcases safe other prunes object there describes stale with refreshed | stays
    · exact unrefreshed refreshed
    · exact stays removable

end

section

/-- The fields of a manifest of a settings map. -/
def settingsFields : List (String × Json) :=
  [("apiVersion", .string "v1"), ("kind", .string "ConfigMap"),
    ("metadata", .object [("name", .string "settings"), ("namespace", .string "web")])]

/-- A manifest of a settings map. -/
def settings : JsonValue where
  json := .object settingsFields
  built := by
    refine .object _ (by decide) ?_
    simp only [settingsFields, List.forall_mem_cons, List.not_mem_nil, false_implies,
      implies_true, and_true]
    exact ⟨.string _, .string _, .object _ (by decide) (by
      simp only [List.forall_mem_cons, List.not_mem_nil, false_implies, implies_true, and_true]
      exact ⟨.string _, .string _⟩)⟩

/-- The text of that manifest. -/
@[reducible] def settingsText : JsonText where
  text _ :=
    "\x7b\"apiVersion\":\"v1\",\"kind\":\"Con" ++
      "figMap\",\"metadata\":\x7b\"name\":\"settings\",\"namespace\":\"web\"\x7d\x7d"

/-- The digests of that text and of the digest. -/
@[reducible] def settingsDigests : Sha256 where
  hex text :=
    if text = settingsText.text settings.json then
      "81d8e5f6b9b662e082ca4b3f6f2abed2cbb04d4a365f55b48d59c3b2c13f4f02"
    else "d4dad7414a5e74d62b9e0f86ef2743e68a65c49942d2303fe1d20720f52994b9"

/-- A server that serves settings maps only. -/
def onlyConfigMaps : Kinds := fun apiVersion kind =>
  if apiVersion = "v1" ∧ kind = "ConfigMap" then some .namespaced else none

/-- The settings map as an earlier tick for the cluster has left it. -/
def liveSettings : LiveObject where
  identity := ⟨"v1", "ConfigMap", some "web", "settings"⟩
  labels := Writes.writeAll ∅ (managementLabels "plo" "earlier")

/-- A server that holds the settings map. -/
def settingsServer : Server onlyConfigMaps where
  objects := [liveSettings]
  distinct := by simp
  placed := by
    simp only [List.mem_singleton, forall_eq]
    rfl

/-- The flake gives the manifest, the server refuses the patch, and it accepts deletions. -/
def patchRefused : Answers onlyConfigMaps where
  metadata := .ok "1a2b3c"
  eval := .ok [settings]
  now := "2026-01-01T00:00:00+00:00"
  patches _ := .error "conflict"
  discovered := .ok [("v1", "ConfigMap")]
  lists _ _ := true
  deletes _ := .ok ()

/-- When the patch of a settings map is refused, the same tick deletes the map. -/
theorem settings_deleted :
    let _ := settingsText
    let _ := settingsDigests
    Deletes (.new true) patchRefused settingsServer "plo" liveSettings ∧
      Describes onlyConfigMaps [settings] liveSettings.identity := by
  intro text digests
  refine ⟨?_, settings, List.mem_singleton.mpr rfl, _, rfl, rfl⟩
  have isManaged : managed "plo" liveSettings = true := by
    simp only [managed, liveSettings, Writes.getElem?_writeAll]
    rfl
  have earlier : liveSettings.labels[labelGeneration]? = some "earlier" := by
    simp only [liveSettings, Writes.getElem?_writeAll]
    rfl
  refine deletes_iff.mpr ⟨[settings], ⟨rfl, rfl, _, rfl, ?_⟩, List.mem_singleton.mpr rfl,
    ⟨isManaged, ?_⟩, ?_, ⟨_, rfl, List.mem_singleton.mpr rfl, rfl, rfl⟩, rfl⟩
  · simp [KubeReconciler.new]
  · rw [earlier]
    decide
  · -- No patch is accepted.
    rintro ⟨i, resource, -, -, -, -, accepted⟩
    cases accepted

end

end Tatara.Kube
