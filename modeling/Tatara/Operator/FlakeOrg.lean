import Tatara.Lib.Consecutive
import Tatara.Operator.Flakes

/-! The scan of a GitHub organisation, which makes a flake source for each repository with a flake
and deletes the others, and which scans delete only what is really gone. -/

namespace Tatara.Operator

open Tatara.Rust Tatara.Places

/-- `FlakeOrgSpec`. -/
structure FlakeOrgSpec where
  org : String
  autoDetectFlakes : Bool
  skipNonFlake : Bool
  defaultSystem : String
  defaultAtticCache : String
  defaultBranch : String
  defaultSourcePollInterval : String
  exclude : List String
  include_ : Option (List String)
  extraArgs : List String

/-- The status of a repository. -/
structure OrgRepoStatus where
  repo : String
  hasFlake : Bool
  flakeSourceRef : Option String
  lastChecked : Option DateTime

/-- `FlakeOrgStatus`. -/
structure FlakeOrgStatus where
  lastScanned : Option DateTime
  discoveredRepos : UInt32
  flakeRepos : UInt32
  skippedRepos : UInt32
  repoStatuses : List OrgRepoStatus
  lastError : Option String

/-- A flake source object in the namespace of the organisation. -/
structure FlakeSource where
  name : String
  labels : Std.ExtTreeMap String String
  spec : FlakeSourceSpec

/-- A repository of an organisation. -/
structure OrgRepo where
  name : String
  defaultBranch : Option String

/-- What is read of an entry of a page. -/
structure RepoEntry where
  name : Option String
  defaultBranch : Option String

/-- The answer to the request for a page. -/
inductive PageAnswer where
  | unsent (error : String)
  | refused (status text : String)
  | unreadable (error : String)
  | page (body : List RepoEntry)

/-- How many entries a page has that is not the last one. -/
def perPage : Nat := 100

/-- The entries that have a name. -/
def pageRepos (body : List RepoEntry) : List OrgRepo :=
  body.filterMap fun repo => repo.name.map fun name => ⟨name, repo.defaultBranch⟩

/-- `list_org_repos`, with the answers to its requests in order; a request without an answer
fails. -/
def listOrgRepos : List PageAnswer → Except String (List OrgRepo)
  | [] => .error "HTTP request failed: operation timed out"
  | .unsent e :: _ => .error ("HTTP request failed: " ++ e)
  | .refused status text :: _ => .error ("GitHub API returned " ++ status ++ ": " ++ text)
  | .unreadable e :: _ => .error ("Failed to parse response: " ++ e)
  | .page body :: rest =>
    if body.isEmpty then .ok []
    else if body.length < perPage then .ok (pageRepos body)
    else (listOrgRepos rest).map fun repos => pageRepos body ++ repos

/-- `StatusCode::is_success`. -/
def isSuccess (status : Nat) : Bool := 200 ≤ status && status < 300

/-- `has_flake_nix`, with the status of the answer or the error of the request. -/
def hasFlakeNix (answer : Except String Nat) : Except String Bool :=
  match answer with
  | .ok status => .ok (isSuccess status)
  | .error e => .error ("HTTP request failed: " ++ e)

/-- How a creation is answered. -/
inductive CreateAnswer where
  | created
  | conflict
  | refused (error : String)

/-- What the calls of a scan are answered: the pages, each repository in its place with the probe of
its flake, the lookup and the creation of its source and the clock, the list of the sources that are
owned, the deletions by name, and the patch of the status at the end. -/
structure ScanAnswers where
  pages : List PageAnswer
  probe : Nat → Except String Nat
  getOpt : Nat → Option String
  create : Nat → CreateAnswer
  now : Nat → DateTime
  list : Option String
  delete : String → Option String
  patch : Option PatchFault
  scanned : DateTime

/-- The flake sources of the namespace and the status of the organisation. -/
structure OrgState where
  sources : List FlakeSource
  status : Option FlakeOrgStatus

/-- What a scan has come to: the sources there are, the names of those that are kept, and what is
counted and noted for the status. -/
structure Scan where
  sources : List FlakeSource
  createdSources : List String
  flakeCount : UInt32
  skippedCount : UInt32
  repoStatuses : List OrgRepoStatus

/-- The label that says which organisation a source is of. -/
def labelFlakeOrg : String := "tatara.pleme.io/flake-org"

/-- A source has the label of an organisation object. -/
def FlakeSource.OwnedBy (source : FlakeSource) (name : String) : Prop :=
  source.labels[labelFlakeOrg]? = some name

instance (name : String) : DecidablePred fun source : FlakeSource => source.OwnedBy name :=
  fun _ => inferInstanceAs (Decidable (_ = _))

namespace FlakeOrgSpec

variable (spec : FlakeOrgSpec)

/-- The filter of the repositories. -/
def selects (repo : OrgRepo) : Bool :=
  if spec.exclude.contains repo.name then false
  else
    match spec.include_ with
    | some names => names.contains repo.name
    | none => true

/-- Whether a repository counts as one with a flake; a probe that fails counts as no flake. -/
def hasFlake (answer : Except String Nat) : Bool :=
  if spec.autoDetectFlakes then
    match hasFlakeNix answer with
    | .ok v => v
    | .error _ => false
  else true

/-- A source is kept or made for a repository. -/
def keeps (answer : Except String Nat) : Bool := spec.hasFlake answer || !spec.skipNonFlake

/-- The name of the source of a repository. -/
def sourceName (repo : String) : String := truncateK8sName (spec.org ++ "-" ++ repo)

/-- What the source of a repository refers to. -/
def repoUrl (repo : String) : String := "github:" ++ spec.org ++ "/" ++ repo

/-- The spec of the source of a repository. -/
def sourceSpec (repo : OrgRepo) : FlakeSourceSpec :=
  { repo := spec.repoUrl repo.name
    branch := repo.defaultBranch.getD spec.defaultBranch
    pollInterval := spec.defaultSourcePollInterval
    webhookSecretRef := none
    outputs := [⟨"packages." ++ spec.defaultSystem ++ ".default", spec.defaultSystem,
      spec.extraArgs⟩]
    atticCache := spec.defaultAtticCache
    buildOnCreate := true
    extraArgs := spec.extraArgs }

/-- The source that is created for a repository. -/
def newSource (name : String) (repo : OrgRepo) : FlakeSource :=
  { name := spec.sourceName repo.name
    labels := .ofList [(labelFlakeOrg, name), ("tatara.pleme.io/managed-by", "flake-org")]
    spec := spec.sourceSpec repo }

/-- The loop over the repositories that the filter has let through. -/
def scanRepos (name : String) (answers : ScanAnswers) (place : Nat) :
    List OrgRepo → Scan → Except String Unit × Scan
  | [], scan => (.ok (), scan)
  | repo :: rest, scan =>
    if spec.keeps (answers.probe place) then
      let sourceName := spec.sourceName repo.name
      let scan :=
        { scan with
          flakeCount := scan.flakeCount + 1
          createdSources := scan.createdSources ++ [sourceName] }
      match answers.getOpt place with
      | some e => (.error e, scan)
      | none =>
        let sources :=
          match scan.sources.find? (·.name == sourceName), answers.create place with
          | none, .created => scan.sources ++ [spec.newSource name repo]
          | none, .conflict | none, .refused _ | some _, _ => scan.sources
        scanRepos name answers (place + 1) rest
          { scan with
            sources
            repoStatuses := scan.repoStatuses ++
              [⟨repo.name, true, some sourceName, some (answers.now place)⟩] }
    else
      scanRepos name answers (place + 1) rest
        { scan with
          skippedCount := scan.skippedCount + 1
          repoStatuses := scan.repoStatuses ++
            [⟨repo.name, false, none, some (answers.now place)⟩] }

/-- The sources that are left when those of an organisation that are not kept have been deleted. -/
def deleteOrphans (name : String) (answers : ScanAnswers) (created : List String)
    (sources : List FlakeSource) : List FlakeSource :=
  let deleted := (sources.filter fun source => source.OwnedBy name).filterMap fun source =>
    if created.contains source.name then none
    else if (answers.delete source.name).isNone then some source.name else none
  sources.filter fun source => !deleted.contains source.name

/-- `reconcile` of an organisation. The fields of the patch that follows a failure to list are none
of the status, so the server drops them. -/
def reconcile (name : String) (answers : ScanAnswers) (state : OrgState) :
    Except String Unit × OrgState :=
  match listOrgRepos answers.pages with
  | .error _ =>
    match answers.patch with
    | some _ => (.error "Kube error", state)
    | none => (.ok (), state)
  | .ok repos =>
    let filtered := repos.filter spec.selects
    match spec.scanRepos name answers 0 filtered ⟨state.sources, [], 0, 0, []⟩ with
    | (.error e, scan) => (.error e, { state with sources := scan.sources })
    | (.ok _, scan) =>
      match answers.list with
      | some e => (.error e, { state with sources := scan.sources })
      | none =>
        let sources := deleteOrphans name answers scan.createdSources scan.sources
        let status : FlakeOrgStatus :=
          { lastScanned := some answers.scanned
            discoveredRepos := .ofNat filtered.length
            flakeRepos := scan.flakeCount
            skippedRepos := scan.skippedCount
            repoStatuses := scan.repoStatuses
            lastError := none }
        (if answers.patch.isNone then .ok () else .error "Kube error",
          { sources, status := if Lands answers.patch then some status else state.status })

variable {spec} {name : String} {answers : ScanAnswers} {state : OrgState} {source : FlakeSource}

/-- The lookups of the sources that are kept succeed. -/
def LooksUp (spec : FlakeOrgSpec) (answers : ScanAnswers) (place : Nat) (repos : List OrgRepo) :
    Prop :=
  ∀ i repo, repos[i]? = some repo → spec.keeps (answers.probe (place + i)) →
    answers.getOpt (place + i) = none

/-- The name is one of a source that is kept for a repository. -/
def KeptName (spec : FlakeOrgSpec) (answers : ScanAnswers) (place : Nat) (repos : List OrgRepo)
    (sourceName : String) : Prop :=
  ∃ i repo, repos[i]? = some repo ∧ spec.keeps (answers.probe (place + i)) ∧
    sourceName = spec.sourceName repo.name

section

variable {place : Nat} {repo : OrgRepo} {rest : List OrgRepo} {sourceName : String}

/-- The lookups succeed if that of the first repository does, where it is kept, and the others do.
-/
theorem looksUp_cons_iff :
    LooksUp spec answers place (repo :: rest) ↔
      (spec.keeps (answers.probe place) → answers.getOpt place = none) ∧
      LooksUp spec answers (place + 1) rest := by
  -- The condition on a repository is one on its place.
  exact forall_places_cons
    (fun i _ => spec.keeps (answers.probe i) → answers.getOpt i = none) repo rest place

/-- A name is kept by the first repository or by one behind it. -/
theorem keptName_cons_iff :
    KeptName spec answers place (repo :: rest) sourceName ↔
      (spec.keeps (answers.probe place) ∧ sourceName = spec.sourceName repo.name) ∨
      KeptName spec answers (place + 1) rest sourceName := by
  -- The name is that of the first repository, or of one behind it.
  exact exists_places_cons (fun i (other : OrgRepo) =>
    spec.keeps (answers.probe i) = true ∧ sourceName = spec.sourceName other.name) repo rest place

end

/-- What comes of the loop: no source is lost, and the names of those that are kept are noted. -/
structure ScanSpec (spec : FlakeOrgSpec) (answers : ScanAnswers) (place : Nat)
    (repos : List OrgRepo) (before : Scan) (result : Except String Unit) (after : Scan) :
    Prop where
  sources : before.sources ⊆ after.sources
  succeeds : result = .ok () ↔ LooksUp spec answers place repos
  created : result = .ok () → ∀ sourceName, sourceName ∈ after.createdSources ↔
    sourceName ∈ before.createdSources ∨ KeptName spec answers place repos sourceName

variable (spec) in
/-- The loop over the repositories does what is said of it. -/
theorem scanRepos_spec (name : String) (answers : ScanAnswers) (place : Nat)
    (repos : List OrgRepo) (scan : Scan) :
    ScanSpec spec answers place repos scan (spec.scanRepos name answers place repos scan).1
      (spec.scanRepos name answers place repos scan).2 := by
  -- By induction on the repositories; a lookup that fails ends the loop.
  induction repos generalizing place scan with
  | nil =>
    rw [scanRepos]
    refine ⟨List.Subset.refl _, iff_of_true rfl nofun, fun _ sourceName => ?_⟩
    rw [or_iff_left]
    rintro ⟨i, repo, at_, -⟩
    cases at_
  | cons repo rest ih =>
    rw [scanRepos]
    by_cases keeps : spec.keeps (answers.probe place) = true
    · rw [if_pos keeps]
      dsimp only
      cases looked : answers.getOpt place with
      | some e =>
        refine ⟨List.Subset.refl _, ?_, nofun⟩
        refine iff_of_false nofun fun all => ?_
        have none := (looksUp_cons_iff.mp all).1 keeps
        rw [looked] at none
        cases none
      | none =>
        dsimp only
        refine ⟨fun source there => (ih _ _).sources ?_, ?_, fun ok sourceName => ?_⟩
        · dsimp only
          split
          · exact List.mem_append_left _ there
          all_goals exact there
        · rw [(ih _ _).succeeds, looksUp_cons_iff, and_iff_right fun _ => looked]
        · rw [(ih _ _).created ok, keptName_cons_iff, List.mem_append, List.mem_singleton,
            and_iff_right keeps, or_assoc]
    · rw [if_neg keeps]
      refine ⟨fun source there => (ih _ _).sources there, ?_, fun ok sourceName => ?_⟩
      · rw [(ih _ _).succeeds, looksUp_cons_iff, and_iff_right fun kept => absurd kept keeps]
      · rw [(ih _ _).created ok, keptName_cons_iff]
        simp only [keeps, Bool.false_eq_true, false_and, false_or]

/-- An owned source is left when its name is kept or its deletion fails. -/
theorem mem_deleteOrphans_iff {created : List String} {sources : List FlakeSource}
    (there : source ∈ sources) (owned : source.OwnedBy name) :
    source ∈ deleteOrphans name answers created sources ↔
      source.name ∈ created ∨ answers.delete source.name ≠ none := by
  -- Objects go by name, and it is an owned one that has this name.
  have named : (∃ other ∈ sources, other.OwnedBy name ∧ other.name ∉ created ∧
      answers.delete other.name = none ∧ other.name = source.name) ↔
      source.name ∉ created ∧ answers.delete source.name = none := by
    constructor
    · rintro ⟨other, -, -, unkept, deleted, same⟩
      exact ⟨same ▸ unkept, same ▸ deleted⟩
    · rintro ⟨unkept, deleted⟩
      exact ⟨source, there, owned, unkept, deleted, rfl⟩
  have listed : source.name ∈ (sources.filter fun other => other.OwnedBy name).filterMap
      (fun other => if created.contains other.name then none
        else if (answers.delete other.name).isNone then some other.name else none) ↔
      source.name ∉ created ∧ answers.delete source.name = none := by
    rw [← named, List.mem_filterMap]
    refine exists_congr fun other => ?_
    rw [List.mem_filter, decide_eq_true_iff, and_assoc]
    refine and_congr_right fun _ => and_congr_right fun _ => ?_
    by_cases kept : other.name ∈ created
    · simp [kept]
    · cases answers.delete other.name <;> simp [kept]
  unfold deleteOrphans
  rw [List.mem_filter, and_iff_right there, Bool.not_eq_true', ← Bool.not_eq_true,
    List.contains_iff_mem, listed, not_and_or, not_not]

/-- Which owned sources a scan deletes. -/
theorem not_mem_reconcile_iff (there : source ∈ state.sources) (owned : source.OwnedBy name) :
    source ∉ (spec.reconcile name answers state).2.sources ↔
      ∃ repos, listOrgRepos answers.pages = .ok repos ∧
        LooksUp spec answers 0 (repos.filter spec.selects) ∧ answers.list = none ∧
        answers.delete source.name = none ∧
        ¬ KeptName spec answers 0 (repos.filter spec.selects) source.name := by
  -- Only a reconcile whose listing and lookups succeed comes to the deletion.
  unfold reconcile
  cases listed : listOrgRepos answers.pages with
  | error e =>
    refine iff_of_false (fun gone => gone ?_) (by simp)
    dsimp only
    split <;> exact there
  | ok repos =>
    have spec_ := scanRepos_spec spec name answers 0 (repos.filter spec.selects)
      ⟨state.sources, [], 0, 0, []⟩
    have kept := spec_.sources there
    have only (P : List OrgRepo → Prop) :
        (∃ repos', Except.ok (ε := String) repos = .ok repos' ∧ P repos') ↔ P repos := by
      simp
    rw [only]
    dsimp only
    split
    · rename_i e scan scanned
      rw [scanned] at spec_ kept
      refine iff_of_false (fun gone => gone kept) fun both => ?_
      cases spec_.succeeds.mpr both.1
    · rename_i u scan scanned
      rw [scanned] at spec_ kept
      have looked := spec_.succeeds.mp rfl
      cases refused : answers.list with
      | some e => exact iff_of_false (fun gone => gone kept) (by simp)
      | none =>
        dsimp only
        rw [mem_deleteOrphans_iff kept owned, spec_.created rfl, not_or, not_not]
        simp only [List.not_mem_nil, false_or, looked, true_and]
        exact and_comm

/-- The spec leaves a repository out. A list of what is included counts instead of what is
excluded. -/
def Excludes (spec : FlakeOrgSpec) (repo : String) : Prop :=
  match spec.include_ with
  | some names => repo ∉ names
  | none => repo ∈ spec.exclude

/-- One of the probes of a repository was answered that there is no flake. -/
def AnsweredNoFlake (spec : FlakeOrgSpec) (answers : ScanAnswers) (repos : List OrgRepo)
    (repo : String) : Prop :=
  spec.autoDetectFlakes ∧ ∃ place probed, (repos.filter spec.selects)[place]? = some probed ∧
    probed.name = repo ∧ answers.probe place = .ok 404

/-- The repository of a source is not listed, or is left out, or has no flake. -/
def Gone (spec : FlakeOrgSpec) (answers : ScanAnswers) (source : FlakeSource) : Prop :=
  ∃ repos, listOrgRepos answers.pages = .ok repos ∧
    ∀ repo ∈ repos, source.spec.repo = spec.repoUrl repo.name →
      spec.Excludes repo.name ∨ spec.AnsweredNoFlake answers repos repo.name

/-- The scan deletes only sources of the organisation that are gone, and no two repositories share
the name of a source. -/
structure DeletesOnlyGone (spec : FlakeOrgSpec) (name : String) (answers : ScanAnswers)
    (state : OrgState) : Prop where
  gone : ∀ source ∈ state.sources, source.OwnedBy name →
    source ∉ (spec.reconcile name answers state).2.sources → spec.Gone answers source
  apart : ∀ repos, listOrgRepos answers.pages = .ok repos → ∀ place place' repo repo',
    (repos.filter spec.selects)[place]? = some repo → spec.keeps (answers.probe place) →
    (repos.filter spec.selects)[place']? = some repo' → spec.keeps (answers.probe place') →
      repo.name ≠ repo'.name → spec.sourceName repo.name ≠ spec.sourceName repo'.name

/-- If it comes to deletions, each listed repository of an owned source that can be deleted is left
out by the spec or was answered to have no flake, or else a repository that the filter lets through
and the probe does not turn down has the name of the source; and no two of those begin alike. -/
structure Conclusive (spec : FlakeOrgSpec) (name : String) (answers : ScanAnswers)
    (state : OrgState) : Prop where
  probed : ∀ repos, listOrgRepos answers.pages = .ok repos →
    LooksUp spec answers 0 (repos.filter spec.selects) → answers.list = none →
      ∀ source ∈ state.sources, source.OwnedBy name → answers.delete source.name = none →
        ∀ repo ∈ repos, source.spec.repo = spec.repoUrl repo.name →
          spec.Excludes repo.name ∨ spec.AnsweredNoFlake answers repos repo.name ∨
            KeptName spec answers 0 (repos.filter spec.selects) source.name
  apart : ∀ repos, listOrgRepos answers.pages = .ok repos → ∀ place place' repo repo',
    (repos.filter spec.selects)[place]? = some repo → spec.keeps (answers.probe place) →
    (repos.filter spec.selects)[place']? = some repo' → spec.keeps (answers.probe place') →
      repo.name ≠ repo'.name →
        ¬ SameStem (spec.org ++ "-" ++ repo.name) (spec.org ++ "-" ++ repo'.name)

/-- A scan deletes only what is gone exactly when it is conclusive. -/
theorem deletesOnlyGone_iff_conclusive (spec : FlakeOrgSpec) (name : String)
    (answers : ScanAnswers) (state : OrgState) :
    spec.DeletesOnlyGone name answers state ↔ spec.Conclusive name answers state := by
  -- A source is deleted exactly if its name was not kept.
  constructor
  · rintro ⟨gone, apart⟩
    refine ⟨fun repos listed looked some_ source there owned deleted repo among url => ?_,
      fun repos listed place place' repo repo' at_ keeps at_' keeps' differ same => ?_⟩
    · by_cases kept : KeptName spec answers 0 (repos.filter spec.selects) source.name
      · exact .inr (.inr kept)
      · have lost := (not_mem_reconcile_iff there owned).mpr
          ⟨repos, listed, looked, some_, deleted, kept⟩
        obtain ⟨repos', listed', only⟩ := gone source there owned lost
        cases listed.symm.trans listed'
        rcases only repo among url with excluded | none
        · exact .inl excluded
        · exact .inr (.inl none)
    · exact apart repos listed place place' repo repo' at_ keeps at_' keeps' differ
        (truncateK8sName_eq_iff.mpr same)
  · rintro ⟨probed, apart⟩
    refine ⟨fun source there owned lost => ?_,
      fun repos listed place place' repo repo' at_ keeps at_' keeps' differ same => ?_⟩
    · obtain ⟨repos, listed, looked, some_, deleted, unkept⟩ :=
        (not_mem_reconcile_iff there owned).mp lost
      refine ⟨repos, listed, fun repo among url => ?_⟩
      rcases probed repos listed looked some_ source there owned deleted repo among url with
        excluded | none | kept
      · exact .inl excluded
      · exact .inr none
      · exact absurd kept unkept
    · exact apart repos listed place place' repo repo' at_ keeps at_' keeps' differ
        (truncateK8sName_eq_iff.mp same)

/-- An organisation whose repositories are probed. -/
def acmeOrg : FlakeOrgSpec :=
  { org := "acme", autoDetectFlakes := true, skipNonFlake := true, defaultSystem := "x86_64-linux"
    defaultAtticCache := "main", defaultBranch := "main", defaultSourcePollInterval := "10m"
    exclude := [], include_ := none, extraArgs := [] }

/-- The source of one of its repositories. -/
def acmeSource : FlakeSource := acmeOrg.newSource "acme" ⟨"web", some "main"⟩

/-- The repository is listed, and the probe runs into the rate limit. -/
def rateLimited : ScanAnswers :=
  { pages := [.page [⟨some "web", some "main"⟩]], probe := fun _ => .ok 403, getOpt := fun _ => none
    create := fun _ => .created, now := fun _ => ⟨0⟩, list := none, delete := fun _ => none
    patch := none, scanned := ⟨0⟩ }

/-- The source of a repository that is there is deleted because the probe was refused. -/
theorem rate_limited_source_deleted :
    ¬ acmeOrg.DeletesOnlyGone "acme" rateLimited ⟨[acmeSource], none⟩ := by
  -- The probe is refused, which counts as a repository without a flake.
  intro only
  have owned : acmeSource.OwnedBy "acme" := by decide
  have refused : ¬ acmeOrg.keeps (.ok 403) := by decide
  have lost :
      acmeSource ∉ (acmeOrg.reconcile "acme" rateLimited ⟨[acmeSource], none⟩).2.sources := by
    refine (not_mem_reconcile_iff List.mem_cons_self owned).mpr
      ⟨[⟨"web", some "main"⟩], rfl, fun i repo _ keeps => ?_, rfl, rfl, ?_⟩
    · exact absurd keeps refused
    · rintro ⟨i, repo, -, keeps, -⟩
      exact refused keeps
  obtain ⟨repos, listed, gone⟩ := only.gone acmeSource List.mem_cons_self owned lost
  cases listed
  rcases gone ⟨"web", some "main"⟩ List.mem_cons_self rfl with excluded | ⟨-, _, _, -, -, answered⟩
  · cases excluded
  · cases answered

end FlakeOrgSpec

end Tatara.Operator
