import Tatara.Kube.Prune

/-! What a remembered revision says of the ticks before: its manifests have been applied, and the
orphans found against it are gone. -/

namespace Tatara.Kube

open Places (forall_places_cons)
open Rust (JsonValue JsonText)

variable {kinds : Kinds}

/-- A tick as the environment meets it: the cluster, what is answered, and what the server holds. -/
structure Tick (kinds : Kinds) where
  clusterName : String
  answers : Answers kinds
  server : Server kinds

/-- An apply succeeds. -/
def Accepted (answers : Answers kinds) (place : Nat) (resource : ManagedResource) : Prop :=
  (kinds resource.identity.apiVersion resource.identity.kind).isSome = true ∧
    (givenLabels resource.manifest).isSome = true ∧ answers.patches place = .ok ()

variable [JsonText] [Sha256]

/-- What a tick gives back, and what the reconciler remembers and the server holds after it. -/
def reconcile (reconciler : KubeReconciler) (tick : Tick kinds) :
    Except KubeError ReconcileStats × KubeReconciler × Server kinds :=
  reconcileCluster reconciler tick.answers tick.server tick.clusterName

/-- What the reconciler remembers after a run of ticks. -/
def remembered (prune : Bool) (ticks : List (Tick kinds)) : KubeReconciler :=
  ticks.foldl (fun reconciler tick => (reconcile reconciler tick).2.1) (.new prune)

/-- A tick is skipped because the revision is the one remembered. -/
def Skips (reconciler : KubeReconciler) (tick : Tick kinds) (rev : String) : Prop :=
  tick.answers.metadata = .ok rev ∧ reconciler.lastRev[tick.clusterName]? = some rev

/-- A tick works through the manifests that the evaluation gives at a revision. -/
def Works (reconciler : KubeReconciler) (tick : Tick kinds) (rev : String) (raw : List JsonValue) :
    Prop :=
  tick.answers.metadata = .ok rev ∧ reconciler.lastRev[tick.clusterName]? ≠ some rev ∧
    tick.answers.eval = .ok raw

/-- What the server holds between the applies of a tick and its pruning. -/
def applied (tick : Tick kinds) (raw : List JsonValue) : Server kinds :=
  (applyFrom tick.answers 0 ⟨tick.server, 0, 0⟩ (desired tick.answers tick.clusterName raw)).server

/-- A tick applies a manifest, and the server accepts it. -/
def Applies (tick : Tick kinds) (raw : List JsonValue) (value : JsonValue) : Prop :=
  ∃ i resource, ManagedResource.fromValue value.json = .ok resource ∧
    let resource := labelled tick.answers tick.clusterName (generationHash (parseAll raw)) resource
    (desired tick.answers tick.clusterName raw)[i]? = some resource ∧
      Accepted tick.answers i resource

/-- A tick finds an orphan. -/
def FindsOrphan (reconciler : KubeReconciler) (tick : Tick kinds) (raw : List JsonValue)
    (identity : ResourceIdentity) : Prop :=
  reconciler.prune = true ∧ ∃ orphans scope,
    findOrphans tick.answers (applied tick raw) tick.clusterName (generationHash (parseAll raw)) =
      .ok orphans ∧ (identity, scope) ∈ orphans

/-- At a place of a run, a tick for a cluster works through manifests at a revision. -/
def WorksAt (prune : Bool) (ticks : List (Tick kinds)) (i : Nat) (clusterName rev : String)
    (tick : Tick kinds) (raw : List JsonValue) : Prop :=
  ticks[i]? = some tick ∧ tick.clusterName = clusterName ∧
    Works (remembered prune (ticks.take i)) tick rev raw

/-- Before a place of a run, every manifest of a revision has been applied for a cluster, and every
orphan found against the revision has been deleted. -/
structure Reconciled (manifestsOf : String → String → List JsonValue) (prune : Bool)
    (ticks : List (Tick kinds)) (n : Nat) (clusterName rev : String) : Prop where
  applied : ∀ value ∈ manifestsOf rev clusterName, ∃ i < n, ∃ tick raw,
    WorksAt prune ticks i clusterName rev tick raw ∧ Applies tick raw value
  deleted : ∀ i < n, ∀ tick raw identity, WorksAt prune ticks i clusterName rev tick raw →
    FindsOrphan (remembered prune (ticks.take i)) tick raw identity →
    ∃ j < n, i ≤ j ∧ ∃ later raw, WorksAt prune ticks j clusterName rev later raw ∧
      ∀ object ∈ (reconcile (remembered prune (ticks.take j)) later).2.2.objects,
        object.identity ≠ identity

/-- A tick reports errors, or fails. -/
def Troubled (result : Except KubeError ReconcileStats) : Prop :=
  ∀ stats, result = .ok stats → 0 < stats.errors

/-- In a run, a tick is skipped only at a revision that is reconciled, and one that reports
errors is tried again while the revision stays the same. -/
structure RemembersReconciled (manifestsOf : String → String → List JsonValue) (prune : Bool)
    (ticks : List (Tick kinds)) : Prop where
  skips : ∀ n tick rev, ticks[n]? = some tick →
    Skips (remembered prune (ticks.take n)) tick rev →
    Reconciled manifestsOf prune ticks n tick.clusterName rev
  retries : ∀ m n tick next rev, m < n → ticks[m]? = some tick →
    tick.answers.metadata = .ok rev →
    Troubled (reconcile (remembered prune (ticks.take m)) tick).1 →
    (∀ k, m < k → k < n → ∀ other raw,
      ¬ WorksAt prune ticks k tick.clusterName rev other raw) →
    ticks[n]? = some next → next.clusterName = tick.clusterName →
    ¬ Skips (remembered prune (ticks.take n)) next rev

/-- Nothing goes wrong in a tick that works through manifests: they are those of the revision and
parse, the applies are accepted, and so are the deletions of stale objects. -/
def Thorough (manifestsOf : String → String → List JsonValue) (reconciler : KubeReconciler)
    (tick : Tick kinds) : Prop :=
  ∀ rev raw, Works reconciler tick rev raw →
    raw = manifestsOf rev tick.clusterName ∧
    (∀ value ∈ raw, ∃ resource, ManagedResource.fromValue value.json = .ok resource) ∧
    (∀ i resource, (desired tick.answers tick.clusterName raw)[i]? = some resource →
      Accepted tick.answers i resource) ∧
    (reconciler.prune = true → ∀ object ∈ tick.server.objects,
      Stale tick.clusterName (generationHash (parseAll raw)) object →
      Found tick.answers object.identity.apiVersion object.identity.kind →
      Refreshed tick.answers tick.clusterName raw object.identity ∨
        tick.answers.deletes object.identity = .ok ())

section

variable {prune : Bool} {ticks : List (Tick kinds)} {tick : Tick kinds}
  {reconciler : KubeReconciler} {clusterName rev : String} {raw : List JsonValue}

/-- A run that goes one tick further. -/
theorem remembered_take_succ {n : Nat} (at_ : ticks[n]? = some tick) :
    remembered prune (ticks.take (n + 1)) =
      (reconcile (remembered prune (ticks.take n)) tick).2.1 := by
  rw [remembered, List.take_add_one, at_, Option.toList_some, List.foldl_append]
  rfl

/-- A tick that works remembers its revision, and leaves those of other clusters. -/
theorem lastRev_of_works (works : Works reconciler tick rev raw) :
    (reconcile reconciler tick).2.1.lastRev =
      reconciler.lastRev.insert tick.clusterName rev := by
  obtain ⟨current, new, evaluated⟩ := works
  simp only [reconcile, reconcileCluster, current, evaluated, if_neg new]

/-- A tick that does not work remembers nothing new. -/
theorem lastRev_of_not_works (idle : ∀ rev raw, ¬ Works reconciler tick rev raw) :
    (reconcile reconciler tick).2.1.lastRev = reconciler.lastRev := by
  -- A loop that does not work leaves the revision as it is.
  unfold reconcile reconcileCluster
  cases current : tick.answers.metadata with
  | error e => rfl
  | ok rev =>
    dsimp only
    by_cases known : reconciler.lastRev[tick.clusterName]? = some rev
    · rw [if_pos known]
    · rw [if_neg known]
      cases evaluated : tick.answers.eval with
      | error e => rfl
      | ok raw => exact absurd ⟨current, known, evaluated⟩ (idle rev raw)

/-- A revision that is remembered after a tick was so before, or the tick worked at it. -/
theorem remembered_before_or_works
    (held : (reconcile reconciler tick).2.1.lastRev[clusterName]? = some rev) :
    reconciler.lastRev[clusterName]? = some rev ∨
      tick.clusterName = clusterName ∧ ∃ raw, Works reconciler tick rev raw := by
  -- Only a loop that works remembers anything, and only its own revision.
  by_cases idle : ∀ rev raw, ¬ Works reconciler tick rev raw
  · rw [lastRev_of_not_works idle] at held
    exact .inl held
  · simp only [not_forall, not_not] at idle
    obtain ⟨new, raw, works⟩ := idle
    rw [lastRev_of_works works, Std.ExtTreeMap.getElem?_insert] at held
    split at held
    · rename_i own
      cases held
      exact .inr ⟨Std.compare_eq_iff_eq.mp own, raw, works⟩
    · exact .inl held

/-- A revision is remembered only after a tick of its cluster has worked at it. -/
theorem exists_worksAt {n : Nat}
    (held : (remembered prune (ticks.take n)).lastRev[clusterName]? = some rev) :
    ∃ i < n, ∃ tick raw, WorksAt prune ticks i clusterName rev tick raw := by
  induction n with
  | zero =>
    -- Nothing is remembered at first.
    simp [remembered, KubeReconciler.new] at held
  | succ n ih =>
    cases at_ : ticks[n]? with
    | none =>
      rw [List.take_add_one, at_, Option.toList_none, List.append_nil] at held
      obtain ⟨i, before, works⟩ := ih held
      exact ⟨i, Nat.lt_succ_of_lt before, works⟩
    | some tick =>
      rw [remembered_take_succ at_] at held
      rcases remembered_before_or_works held with earlier | ⟨own, raw, works⟩
      · obtain ⟨i, before, works⟩ := ih earlier
        exact ⟨i, Nat.lt_succ_of_lt before, works⟩
      · exact ⟨n, Nat.lt_succ_self n, tick, raw, at_, own, works⟩

/-- A revision that is not remembered stays so while no tick works at it. -/
theorem not_remembered_of_idle {m n : Nat} (later : m ≤ n)
    (unknown : (remembered prune (ticks.take m)).lastRev[clusterName]? ≠ some rev)
    (idle : ∀ k, m ≤ k → k < n → ∀ tick raw, ¬ WorksAt prune ticks k clusterName rev tick raw) :
    (remembered prune (ticks.take n)).lastRev[clusterName]? ≠ some rev := by
  -- By induction on the loops from where the revision is not remembered.
  induction n, later using Nat.le_induction with
  | base => exact unknown
  | succ n later ih =>
    have before := ih fun k after before => idle k after (Nat.lt_succ_of_lt before)
    cases at_ : ticks[n]? with
    | none => rwa [List.take_add_one, at_, Option.toList_none, List.append_nil]
    | some tick =>
      rw [remembered_take_succ at_]
      intro held
      rcases remembered_before_or_works held with earlier | ⟨own, raw, works⟩
      · exact before earlier
      · exact idle n later (Nat.lt_succ_self n) tick raw ⟨at_, own, works⟩

end

section

variable {answers : Answers kinds}

omit [JsonText] [Sha256] in
/-- Applies that are all accepted make no errors. -/
theorem errors_applyFrom {resources : List ManagedResource} (place : Nat)
    (progress : Progress kinds)
    (accepted : ∀ i resource, resources[i]? = some resource →
      Accepted answers (place + i) resource) :
    (applyFrom answers place progress resources).errors = progress.errors := by
  -- By induction on the resources, the first of which is applied.
  induction resources generalizing place progress with
  | nil => rfl
  | cons resource rest ih =>
    rw [forall_places_cons (Accepted answers)] at accepted
    obtain ⟨⟨served, gives, patched⟩, later⟩ := accepted
    obtain ⟨given, gives⟩ := Option.isSome_iff_exists.mp gives
    have success : serverSideApply progress.server resource (answers.patches place) =
        .ok (progress.server.patch resource.identity given) :=
      serverSideApply_eq_ok_iff.mpr ⟨served, patched, given, gives, rfl⟩
    rw [applyFrom, success]
    exact ih (place + 1) _ later

omit [JsonText] [Sha256] in
/-- Deletions that are all accepted do not fail. -/
theorem failed_pruneOrphans {orphans : List (ResourceIdentity × Scope)} (server : Server kinds)
    (accepted : ∀ orphan ∈ orphans,
      answers.deletes (deletionTarget orphan.1 orphan.2) = .ok ()) :
    (pruneOrphans answers server orphans).2.countP failed = 0 := by
  -- By induction on the orphans, none of whose deletions is refused.
  induction orphans generalizing server with
  | nil => rfl
  | cons orphan rest ih =>
    obtain ⟨first, others⟩ := List.forall_mem_cons.mp accepted
    rw [pruneOrphans, first]
    simpa [failed] using ih _ others

end

section

variable {manifestsOf : String → String → List JsonValue} {tick : Tick kinds}
  {reconciler : KubeReconciler} {rev : String} {raw : List JsonValue}
  {orphans : List (ResourceIdentity × Scope)}

/-- The deletions of the orphans that a thorough tick finds are accepted, at their identities. -/
theorem Thorough.deletes (thorough : Thorough manifestsOf reconciler tick)
    (works : Works reconciler tick rev raw) (prune : reconciler.prune = true)
    (found : findOrphans tick.answers (applied tick raw) tick.clusterName
      (generationHash (parseAll raw)) = .ok orphans)
    {orphan : ResourceIdentity × Scope} (listed : orphan ∈ orphans) :
    deletionTarget orphan.1 orphan.2 = orphan.1 ∧
      tick.answers.deletes (deletionTarget orphan.1 orphan.2) = .ok () := by
  obtain ⟨-, -, -, removes⟩ := thorough rev raw works
  obtain ⟨object, there, stale, isFound, same, served⟩ := (mem_findOrphans_iff found).mp listed
  have own := deletionTarget_of_placed there served
  rw [← same, own]
  refine ⟨rfl, ?_⟩
  -- A stale object after the applies was there before them, and was not refreshed.
  have before := (stale_applyFrom_iff (fun resource listed given gives =>
    generation_given_desired listed gives) 0 ⟨tick.server, 0, 0⟩ stale).mp there
  refine (removes prune object before.1 stale isFound).resolve_left ?_
  rintro ⟨i, resource, at_, refreshes⟩
  refine before.2 i resource at_ ?_
  rwa [Nat.zero_add]

/-- A thorough tick applies every manifest of the revision. -/
theorem Thorough.applies (thorough : Thorough manifestsOf reconciler tick)
    (works : Works reconciler tick rev raw) {value : JsonValue}
    (listed : value ∈ manifestsOf rev tick.clusterName) : Applies tick raw value := by
  obtain ⟨same, parses, accepted, -⟩ := thorough rev raw works
  rw [← same] at listed
  obtain ⟨resource, parsed⟩ := parses value listed
  -- What is parsed is labelled, and is among the resources that are sorted.
  have among : resource ∈ parseAll raw := by
    refine List.mem_filterMap.mpr ⟨value, listed, ?_⟩
    rw [parsed]
    rfl
  have sorted : labelled tick.answers tick.clusterName (generationHash (parseAll raw)) resource ∈
      desired tick.answers tick.clusterName raw :=
    List.mem_mergeSort.mpr (List.mem_map_of_mem among)
  obtain ⟨i, at_⟩ := List.mem_iff_getElem?.mp sorted
  exact ⟨i, resource, parsed, at_, accepted i _ at_⟩

/-- The orphans that a thorough tick finds are gone after it. -/
theorem Thorough.deleted (thorough : Thorough manifestsOf reconciler tick)
    (works : Works reconciler tick rev raw) {identity : ResourceIdentity}
    (finds : FindsOrphan reconciler tick raw identity) :
    ∀ object ∈ (reconcile reconciler tick).2.2.objects, object.identity ≠ identity := by
  -- Pruning goes through all the orphans that are found.
  obtain ⟨prune, orphans, scope, found, listed⟩ := finds
  obtain ⟨own, accepted⟩ := thorough.deletes works prune found listed
  obtain ⟨current, new, evaluated⟩ := works
  intro object held
  rw [reconcile, server_of_evaluated current new evaluated, prune, pruneAll, if_pos rfl] at held
  unfold applied at found
  simp only [found, mem_pruneOrphans_iff] at held
  have apart := held.2 _ listed accepted
  rwa [own] at apart

/-- A thorough tick that works reports no errors. -/
theorem Thorough.untroubled (thorough : Thorough manifestsOf reconciler tick)
    (works : Works reconciler tick rev raw) : ¬ Troubled (reconcile reconciler tick).1 := by
  -- Each stage of the work leaves a count of what has failed, and all of them are none.
  intro troubled
  obtain ⟨-, -, accepted, -⟩ := thorough rev raw works
  have applies : (applyFrom tick.answers 0 ⟨tick.server, 0, 0⟩
      (desired tick.answers tick.clusterName raw)).errors = 0 :=
    errors_applyFrom 0 _ fun i resource at_ => by
      rw [Nat.zero_add]
      exact accepted i resource at_
  have prunes : (pruneAll reconciler.prune tick.answers
      (applyFrom tick.answers 0 ⟨tick.server, 0, 0⟩ (desired tick.answers tick.clusterName raw))
      tick.clusterName (generationHash (parseAll raw))).2.countP failed = 0 := by
    unfold pruneAll
    split
    · rename_i prune
      cases found : findOrphans tick.answers (applied tick raw) tick.clusterName
          (generationHash (parseAll raw)) with
      | error e =>
        unfold applied at found
        rw [found]
        rfl
      | ok orphans =>
        have given : ∀ orphan ∈ orphans,
            tick.answers.deletes (deletionTarget orphan.1 orphan.2) = .ok () :=
          fun orphan listed => (thorough.deletes works prune found listed).2
        unfold applied at found
        rw [found]
        exact failed_pruneOrphans _ given
    · rfl
  obtain ⟨current, new, evaluated⟩ := works
  have reported := troubled _ (by
    simp only [reconcile, reconcileCluster, current, evaluated, if_neg new]
    rfl)
  rw [applies, prunes] at reported
  exact absurd reported (lt_irrefl 0)

end

/-- In a run whose ticks are all thorough, only reconciled revisions are remembered. -/
theorem remembersReconciled (manifestsOf : String → String → List JsonValue) (prune : Bool)
    (ticks : List (Tick kinds))
    (thorough : ∀ i tick, ticks[i]? = some tick →
      Thorough manifestsOf (remembered prune (ticks.take i)) tick) :
    RemembersReconciled manifestsOf prune ticks := by
  refine ⟨?_, ?_⟩
  · intro n tick rev _ skips
    refine ⟨?_, ?_⟩
    · intro value listed
      -- Some tick has worked at the revision, and it was thorough.
      obtain ⟨i, before, worker, raw, works⟩ := exists_worksAt skips.2
      refine ⟨i, before, worker, raw, works, ?_⟩
      rw [← works.2.1] at listed
      exact (thorough i worker works.1).applies works.2.2 listed
    · intro i before worker raw identity works finds
      exact ⟨i, before, le_refl i, worker, raw, works,
        (thorough i worker works.1).deleted works.2.2 finds⟩
  · intro m n tick next rev later at_ current troubled idle atNext own skips
    have unknown : (remembered prune (ticks.take (m + 1))).lastRev[tick.clusterName]? ≠
        some rev := by
      rw [remembered_take_succ at_]
      intro held
      rcases remembered_before_or_works held with known | ⟨-, raw, works⟩
      · -- A tick that is skipped reports nothing.
        refine absurd (troubled ⟨0, 0, 0, 0⟩ ?_) (lt_irrefl 0)
        simp only [reconcile, reconcileCluster, current, if_pos known]
      · exact (thorough m tick at_).untroubled works troubled
    rw [Skips, own] at skips
    exact not_remembered_of_idle later unknown (fun k after before =>
      idle k (Nat.lt_of_succ_le after) before) skips.2

omit [JsonText] [Sha256]

/-- A tick at which the server accepts the patch of the settings map, or refuses it. -/
def settingsTick (patched : Except String Unit) : Tick onlyConfigMaps where
  clusterName := "plo"
  answers := { patchRefused with patches := fun _ => patched }
  server := settingsServer

/-- A run of a tick whose patch is accepted and of one that is then skipped. -/
theorem remembersReconciled_settings :
    let _ := settingsText
    let _ := settingsDigests
    RemembersReconciled (fun _ _ => [settings]) true
      [settingsTick (.ok ()), settingsTick (.ok ())] := by
  intro text digests
  refine remembersReconciled _ true _ fun i tick at_ => ?_
  obtain rfl : tick = settingsTick (.ok ()) := by
    simpa using List.mem_of_getElem? at_
  rintro rev raw ⟨current, -, evaluated⟩
  obtain rfl := Except.ok.inj evaluated
  refine ⟨rfl, ?_, ?_, fun _ object _ _ _ => .inr rfl⟩
  · rw [List.forall_mem_singleton]
    exact ⟨_, rfl⟩
  · intro i resource at_
    have among := List.mem_mergeSort.mp (List.mem_of_getElem? at_)
    obtain ⟨parsed, listed, rfl⟩ := List.mem_map.mp among
    rw [show parseAll [settings] = [_] from rfl, List.mem_singleton] at listed
    rw [listed]
    exact ⟨rfl, by decide +kernel, rfl⟩

/-- A tick whose patch was refused is not tried again, although it reports an error. -/
theorem refused_remembered :
    let _ := settingsText
    let _ := settingsDigests
    ¬ RemembersReconciled (fun _ _ => [settings]) true
      [settingsTick (.error "conflict"), settingsTick (.error "conflict")] := by
  intro text digests sound
  have works : Works (.new true) (settingsTick (.error "conflict")) "1a2b3c" [settings] :=
    ⟨rfl, by simp [KubeReconciler.new], rfl⟩
  -- The first tick remembers the revision, so the second one is skipped.
  have known : (remembered true [settingsTick (.error "conflict")]).lastRev["plo"]? =
      some "1a2b3c" := by
    have first := lastRev_of_works works
    rw [remembered, List.foldl_cons, List.foldl_nil, first]
    exact Std.ExtTreeMap.getElem?_insert_self
  obtain ⟨i, -, tick, raw, ⟨at_, -, -⟩, j, resource, -, -, -, -, accepted⟩ :=
    (sound.skips 1 _ "1a2b3c" rfl ⟨rfl, known⟩).applied settings (List.mem_singleton.mpr rfl)
  obtain rfl : tick = settingsTick (.error "conflict") := by
    simpa using List.mem_of_getElem? at_
  cases accepted

end Tatara.Kube
