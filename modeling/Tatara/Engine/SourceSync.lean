import Tatara.Engine.SourcePass

/-! Whether the store has what the flake has, after a pass over a source. -/

namespace Tatara.Engine

open Tatara.Domain Tatara.Rust
open Tatara.Stateful (Through)

/-- The job has the groups, constraints and meta of the specification. -/
def Carries (job : Job) (spec : JobSpec) : Prop :=
  job.groups = spec.groups ∧ job.constraints = spec.constraints ∧ job.meta = spec.meta

/-- The store has recorded what the flake has, has its jobs under their names, and those that were
managed and are not in the flake are dead. -/
structure FollowsFlake (contentHash : JobSpec → String) (source : Source)
    (flakeJobs : Std.ExtTreeMap String JobSpec) (state : StateSnapshot) : Prop where
  recorded : ∃ stored, state.sources[source.id]? = some stored ∧
    stored.managedJobs = flakeJobs.map fun _ spec => contentHash spec
  held : ∀ (name : String) (spec : JobSpec), flakeJobs[name]? = some spec →
    ∃ job, state.jobs[name]? = some job ∧ Carries job spec
  removed : ∀ name ∈ source.managedJobs, name ∉ flakeJobs →
    ∃ job, state.jobs[name]? = some job ∧ job.status = .dead

/-- Every pass that goes through after a change of the revision brings the store to the flake. -/
def SourceFollowed {Text : Type} (format : SnapshotFormat Text) (contentHash : JobSpec → String)
    (source : Source) (flakeJobs : Std.ExtTreeMap String JobSpec) (store : StateStore Text) :
    Prop :=
  ∀ round : Round Text, round.Offers source flakeJobs → ∀ after,
    Through (reconcileSingleSource format contentHash source round) store () after →
      FollowsFlake contentHash source flakeJobs after.state

/-- A job that has not been managed is created for this specification, under its own identifier. -/
def CreatedAs (source : Source) (flakeJobs : Std.ExtTreeMap String JobSpec) (id : String)
    (spec : JobSpec) : Prop :=
  ∃ name, flakeJobs[name]? = some spec ∧ name ∉ source.managedJobs ∧ spec.id = id

/-- The specifications have the same groups, constraints and meta. -/
def SameWork (first second : JobSpec) : Prop :=
  first.groups = second.groups ∧ first.constraints = second.constraints ∧
    first.meta = second.meta

/-- The source is stored, and under each name that the flake has or had there is a job to work on:
what is created under it fits, and something is created, or updated, or already as it should be. -/
structure ReachedByName (contentHash : JobSpec → String) (source : Source)
    (flakeJobs : Std.ExtTreeMap String JobSpec) (state : StateSnapshot) : Prop where
  stored : source.id ∈ state.sources
  fitting : ∀ (name : String) (spec : JobSpec), flakeJobs[name]? = some spec →
    ∀ new, CreatedAs source flakeJobs name new → SameWork new spec
  reached : ∀ (name : String) (spec : JobSpec), flakeJobs[name]? = some spec →
    (∃ new, CreatedAs source flakeJobs name new) ∨
      (∃ old, source.managedJobs[name]? = some old ∧ old ≠ contentHash spec ∧
        name ∈ state.jobs) ∨
      ∃ job, state.jobs[name]? = some job ∧ Carries job spec
  removable : ∀ name ∈ source.managedJobs, name ∉ flakeJobs →
    name ∈ state.jobs ∨ ∃ new, CreatedAs source flakeJobs name new

/-- The job under a name has the work of a specification. -/
def HasWork (jobs : Std.ExtTreeMap String Job) (name : String) (spec : JobSpec) : Prop :=
  ∃ job, jobs[name]? = some job ∧ Carries job spec

/-- A turn over this entry creates a job under an identifier. -/
def Creates (source : Source) (id : String) (entry : String × JobSpec) : Prop :=
  entry.1 ∉ source.managedJobs ∧ entry.2.id = id

/-- A turn over this entry updates the job under a name. -/
def Changes (contentHash : JobSpec → String) (source : Source) (name : String)
    (entry : String × JobSpec) : Prop :=
  entry.1 = name ∧ ∃ old, source.managedJobs[name]? = some old ∧ old ≠ contentHash entry.2

section

variable {contentHash : JobSpec → String} {source : Source} {submittedAt : String → DateTime}
  {jobs : Std.ExtTreeMap String Job} {managed : Std.ExtTreeMap String String}
  {entry : String × JobSpec} {entries : List (String × JobSpec)} {name : String} {spec : JobSpec}

/-- A turn that creates a job puts it under its name. -/
theorem getElem?_placed_of_creates (creates : Creates source name entry) :
    (placed contentHash source submittedAt jobs entry)[name]? =
      some (intoJob contentHash (submittedAt entry.1) entry.2) := by
  obtain ⟨unmanaged, rfl⟩ := creates
  have absent : source.managedJobs[entry.1]? = none := getElem?_neg _ _ unmanaged
  simp [placed, absent]

/-- A turn that changes a job changes the one under its name. -/
theorem getElem?_placed_of_changes (changes : Changes contentHash source name entry) :
    (placed contentHash source submittedAt jobs entry)[name]? =
      jobs[name]?.map (updatedTo contentHash entry.2) := by
  obtain ⟨rfl, old, managing, different⟩ := changes
  simp [placed, managing, different]

/-- The other turns leave what is under the name. -/
theorem getElem?_placed_of_not (uncreated : ¬ Creates source name entry)
    (unchanged : ¬ Changes contentHash source name entry) :
    (placed contentHash source submittedAt jobs entry)[name]? = jobs[name]? := by
  unfold placed
  -- Either the entry creates a job under another identifier, or it changes one of another name.
  split
  · rename_i absent
    have unmanaged : entry.1 ∉ source.managedJobs := by
      rw [Std.ExtTreeMap.mem_iff_isSome_getElem?, absent]
      exact Bool.false_ne_true
    have elsewhere : entry.2.id ≠ name := fun same => uncreated ⟨unmanaged, same⟩
    rw [Std.ExtTreeMap.getElem?_insert, if_neg (by simpa using elsewhere)]
  · rename_i old managing
    split
    · rfl
    · rename_i different
      have elsewhere : entry.1 ≠ name := fun same =>
        unchanged ⟨same, old, same ▸ managing, different⟩
      rw [Std.ExtTreeMap.getElem?_modify, if_neg (by simpa using elsewhere)]

/-- A job is there after a turn if it was before, or if it has been created. -/
theorem mem_placed_iff :
    name ∈ placed contentHash source submittedAt jobs entry ↔
      name ∈ jobs ∨ Creates source name entry := by
  rw [Std.ExtTreeMap.mem_iff_isSome_getElem?, Std.ExtTreeMap.mem_iff_isSome_getElem?]
  -- A turn creates a job, or it changes one, or it does nothing under this name.
  by_cases creates : Creates source name entry
  · rw [getElem?_placed_of_creates creates]
    exact iff_of_true rfl (.inr creates)
  · rw [or_iff_left creates]
    by_cases changes : Changes contentHash source name entry
    · rw [getElem?_placed_of_changes changes, Option.isSome_map]
    · rw [getElem?_placed_of_not creates changes]

/-- A job is there after all turns if it was before, or if one of them has created it. -/
theorem mem_foldl_placed_iff :
    name ∈ entries.foldl (placed contentHash source submittedAt) jobs ↔
      name ∈ jobs ∨ ∃ entry ∈ entries, Creates source name entry := by
  -- By induction on the turns.
  induction entries generalizing jobs with
  | nil => simp
  | cons entry entries ih =>
    rw [List.foldl_cons, ih, mem_placed_iff, or_assoc]
    simp

/-- Where no turn touches the name, what is under it stays. -/
theorem getElem?_foldl_placed_of_not
    (uncreated : ∀ entry ∈ entries, ¬ Creates source name entry)
    (unchanged : ∀ entry ∈ entries, ¬ Changes contentHash source name entry) :
    (entries.foldl (placed contentHash source submittedAt) jobs)[name]? = jobs[name]? := by
  -- By induction on the turns.
  induction entries generalizing jobs with
  | nil => rfl
  | cons entry entries ih =>
    obtain ⟨first, others⟩ := List.forall_mem_cons.mp uncreated
    obtain ⟨firstly, otherwise⟩ := List.forall_mem_cons.mp unchanged
    rw [List.foldl_cons, ih others otherwise, getElem?_placed_of_not first firstly]

/-- A job that is created has the work of its entry. -/
theorem hasWork_placed_of_creates (creates : Creates source name entry)
    (fits : SameWork entry.2 spec) :
    HasWork (placed contentHash source submittedAt jobs entry) name spec :=
  ⟨_, getElem?_placed_of_creates creates, fits⟩

/-- A job that is changed has the work of its entry. -/
theorem hasWork_placed_of_changes (changes : Changes contentHash source name entry)
    (own : entry.2 = spec) (there : name ∈ jobs) :
    HasWork (placed contentHash source submittedAt jobs entry) name spec := by
  rw [Std.ExtTreeMap.mem_iff_isSome_getElem?, Option.isSome_iff_exists] at there
  obtain ⟨job, found⟩ := there
  refine ⟨updatedTo contentHash entry.2 job, ?_, ?_⟩
  · rw [getElem?_placed_of_changes changes, found, Option.map_some]
  · subst own
    exact ⟨rfl, rfl, rfl⟩

/-- What fits goes on fitting, as what is created under the name fits and what updates it is its
own entry. -/
theorem hasWork_foldl_placed
    (fitting : ∀ entry ∈ entries, Creates source name entry → SameWork entry.2 spec)
    (own : ∀ entry ∈ entries, entry.1 = name → entry.2 = spec) (has : HasWork jobs name spec) :
    HasWork (entries.foldl (placed contentHash source submittedAt) jobs) name spec := by
  induction entries generalizing jobs with
  | nil => exact has
  | cons entry entries ih =>
    obtain ⟨fits, others⟩ := List.forall_mem_cons.mp fitting
    obtain ⟨mine, rest⟩ := List.forall_mem_cons.mp own
    rw [List.foldl_cons]
    -- The first turn leaves a job that fits, and the induction goes on from there.
    refine ih others rest ?_
    by_cases creates : Creates source name entry
    · exact hasWork_placed_of_creates creates (fits creates)
    · by_cases changes : Changes contentHash source name entry
      · obtain ⟨job, found, -⟩ := has
        exact hasWork_placed_of_changes changes (mine changes.1)
          (Std.ExtTreeMap.mem_iff_isSome_getElem?.mpr (Option.isSome_of_eq_some found))
      · obtain ⟨job, found, carries⟩ := has
        exact ⟨job, (getElem?_placed_of_not creates changes).trans found, carries⟩

/-- After a turn that makes it fit, it fits at the end. -/
theorem hasWork_foldl_placed_of_mem
    (fitting : ∀ entry ∈ entries, Creates source name entry → SameWork entry.2 spec)
    (own : ∀ entry ∈ entries, entry.1 = name → entry.2 = spec) (among : entry ∈ entries)
    (made : Creates source name entry ∨
      (Changes contentHash source name entry ∧ name ∈ jobs)) :
    HasWork (entries.foldl (placed contentHash source submittedAt) jobs) name spec := by
  obtain ⟨front, back, rfl⟩ := List.append_of_mem among
  rw [List.foldl_append, List.foldl_cons]
  -- What comes before the turn can at most add jobs.
  refine hasWork_foldl_placed
    (fun other later => fitting other (List.mem_append_right _ (List.mem_cons_of_mem _ later)))
    (fun other later => own other (List.mem_append_right _ (List.mem_cons_of_mem _ later))) ?_
  rcases made with creates | updated
  · exact hasWork_placed_of_creates creates (fitting entry among creates)
  · obtain ⟨changes, there⟩ := updated
    exact hasWork_placed_of_changes changes (own entry among changes.1)
      (mem_foldl_placed_iff.mpr (.inl there))

/-- What is gone from the flake is dead, and the others stay as they are. -/
theorem getElem?_foldl_modify (names : List String) :
    (names.foldl (fun jobs name => jobs.modify name killed) jobs)[name]? =
      if name ∈ names then jobs[name]?.map killed else jobs[name]? := by
  induction names generalizing jobs with
  | nil => rfl
  | cons other names ih =>
    rw [List.foldl_cons, ih, Std.ExtTreeMap.getElem?_modify]
    by_cases same : other = name
    · subst same
      -- To be killed twice is to be killed.
      have twice : killed ∘ killed = killed := rfl
      by_cases again : other ∈ names <;> simp [again, twice]
    · simp [same, Ne.symm same]

/-- Names that are erased are no longer managed. -/
theorem getElem?_foldl_erase (names : List String) :
    (names.foldl (fun managed name => managed.erase name) managed)[name]? =
      if name ∈ names then none else managed[name]? := by
  -- By induction on the names that are erased.
  induction names generalizing managed with
  | nil => rfl
  | cons other names ih =>
    rw [List.foldl_cons, ih, Std.ExtTreeMap.getElem?_erase]
    by_cases same : other = name
    · simp [same]
    · simp [same, Ne.symm same]

/-- What has no entry is managed as before. -/
theorem getElem?_foldl_noted_of_not (absent : ∀ entry ∈ entries, entry.1 ≠ name) :
    (entries.foldl (noted contentHash source) managed)[name]? = managed[name]? := by
  -- By induction on the entries.
  induction entries generalizing managed with
  | nil => rfl
  | cons entry entries ih =>
    obtain ⟨first, others⟩ := List.forall_mem_cons.mp absent
    rw [List.foldl_cons, ih others, noted]
    split
    · rfl
    · rw [Std.ExtTreeMap.getElem?_insert, if_neg (by simpa using first)]

/-- The hash of each job of the flake is noted, unless it is the one that has been recorded. -/
theorem getElem?_foldl_noted (distinct : (entries.map (·.1)).Nodup)
    (among : (name, spec) ∈ entries) (start : managed[name]? = source.managedJobs[name]?) :
    (entries.foldl (noted contentHash source) managed)[name]? = some (contentHash spec) := by
  induction entries generalizing managed with
  | nil => cases among
  | cons entry entries ih =>
    obtain ⟨new, others⟩ := List.nodup_cons.mp distinct
    rw [List.foldl_cons]
    -- No entry behind the first one has its name.
    rcases List.mem_cons.mp among with rfl | later
    · rw [getElem?_foldl_noted_of_not fun other there same =>
        new (List.mem_map.mpr ⟨other, there, same⟩)]
      unfold noted
      split
      · rename_i recorded
        rw [start, recorded]
      · simp
    · have different : entry.1 ≠ name := fun same =>
        new (List.mem_map.mpr ⟨_, later, same.symm⟩)
      refine ih others later ?_
      rw [← start]
      unfold noted
      split
      · rfl
      · rw [Std.ExtTreeMap.getElem?_insert, if_neg (by simpa using different)]

end

section

variable {Text : Type} {contentHash : JobSpec → String} {source : Source}
  {flakeJobs : Std.ExtTreeMap String JobSpec} {entries : List (String × JobSpec)}

/-- The entries are those of the flake. -/
theorem mem_entries_iff (listed : entries.Perm flakeJobs.toList) {name : String} {spec : JobSpec} :
    (name, spec) ∈ entries ↔ flakeJobs[name]? = some spec := by
  rw [listed.mem_iff, Std.ExtTreeMap.mem_toList_iff_getElem?_eq_some]

/-- The names of the entries are those of the flake. -/
theorem mem_names_iff (listed : entries.Perm flakeJobs.toList) {name : String} :
    name ∈ entries.map (·.1) ↔ name ∈ flakeJobs := by
  rw [(listed.map _).mem_iff, Std.ExtTreeMap.map_fst_toList_eq_keys, Std.ExtTreeMap.mem_keys]

/-- No two entries have one name. -/
theorem nodup_names (listed : entries.Perm flakeJobs.toList) : (entries.map (·.1)).Nodup := by
  rw [(listed.map _).nodup_iff, Std.ExtTreeMap.map_fst_toList_eq_keys]
  exact Std.ExtTreeMap.nodup_keys

/-- Created under an identifier is what some entry creates. -/
theorem createdAs_iff (listed : entries.Perm flakeJobs.toList) {id : String} {spec : JobSpec} :
    CreatedAs source flakeJobs id spec ↔ ∃ entry ∈ entries, Creates source id entry ∧
      entry.2 = spec := by
  -- Either way the name is not managed, and the identifier is that of its specification.
  constructor
  · intro created
    obtain ⟨name, offered, unmanaged, same⟩ := created
    exact ⟨(name, spec), (mem_entries_iff listed).mpr offered, ⟨unmanaged, same⟩, rfl⟩
  · intro created
    obtain ⟨⟨name, _⟩, among, ⟨unmanaged, same⟩, rfl⟩ := created
    exact ⟨name, (mem_entries_iff listed).mp among, unmanaged, same⟩

/-- The recorded hashes are always those of the flake. -/
theorem managed_eq (listed : entries.Perm flakeJobs.toList) {names : List String}
    (managed : names.Perm source.managedJobs.keys) :
    (names.filter fun name => name ∉ entries.map (·.1)).foldl
      (fun managed name => managed.erase name)
        (entries.foldl (noted contentHash source) source.managedJobs) =
        flakeJobs.map fun _ spec => contentHash spec := by
  refine Std.ExtTreeMap.ext_getElem? fun name => ?_
  rw [getElem?_foldl_erase, Std.ExtTreeMap.getElem?_map]
  cases offered : flakeJobs[name]? with
  | some spec =>
    have among := (mem_entries_iff listed).mpr offered
    have inside : name ∈ entries.map (·.1) := List.mem_map_of_mem among
    rw [if_neg (by simp [inside]), getElem?_foldl_noted (nodup_names listed) among rfl]
    rfl
  | none =>
    have outside : name ∉ flakeJobs := by simp [Std.ExtTreeMap.mem_iff_isSome_getElem?, offered]
    have absent : name ∉ entries.map (·.1) := fun inside =>
      outside ((mem_names_iff listed).mp inside)
    -- What the flake does not have is either erased or has never been recorded.
    split
    · rfl
    · rename_i kept
      rw [getElem?_foldl_noted_of_not fun entry among same =>
        absent (List.mem_map.mpr ⟨entry, among, same⟩)]
      have unmanaged : name ∉ source.managedJobs := by
        intro inside
        exact kept (List.mem_filter.mpr
          ⟨managed.mem_iff.mpr (Std.ExtTreeMap.mem_keys.mpr inside), by simpa using absent⟩)
      exact getElem?_neg _ _ unmanaged

/-- What is under a name of the flake after a pass is what the loop over the flake has left. -/
theorem getElem?_removed_of_mem (listed : entries.Perm flakeJobs.toList) {names : List String}
    {jobs : Std.ExtTreeMap String Job} {name : String} (inside : name ∈ flakeJobs) :
    ((names.filter fun name => name ∉ entries.map (·.1)).foldl
      (fun jobs name => jobs.modify name killed) jobs)[name]? = jobs[name]? := by
  -- Only what is gone from the flake is changed behind the loop.
  rw [getElem?_foldl_modify, if_neg]
  intro among
  have absent := (List.mem_filter.mp among).2
  exact of_decide_eq_true absent ((mem_names_iff listed).mpr inside)

/-- A pass brings the store to the flake where everything that it works on is under the name that
it has there. -/
theorem followsFlake_of_through {format : SnapshotFormat Text} {round : Round Text}
    {before after : StateStore Text} (offers : round.Offers source flakeJobs)
    (through : Through (reconcileSingleSource format contentHash source round) before () after)
    (named : ReachedByName contentHash source flakeJobs before.state) :
    FollowsFlake contentHash source flakeJobs after.state := by
  obtain ⟨entries, offered, jobs, revision, sources⟩ := state_of_through offers.newRevision through
  have listed := offers.jobs entries offered
  refine ⟨?_, fun name spec there => ?_, fun name was gone => ?_⟩
  · obtain ⟨stored, found⟩ := Option.isSome_iff_exists.mp
      (Std.ExtTreeMap.mem_iff_isSome_getElem?.mp named.stored)
    rw [sources, Std.ExtTreeMap.getElem?_modify_self, found]
    exact ⟨_, rfl, managed_eq listed offers.managed⟩
  · have inside : name ∈ flakeJobs :=
      Std.ExtTreeMap.mem_iff_isSome_getElem?.mpr (Option.isSome_of_eq_some there)
    rw [jobs, getElem?_removed_of_mem listed inside]
    have fitting : ∀ entry ∈ entries, Creates source name entry → SameWork entry.2 spec :=
      fun entry among creates => named.fitting name spec there entry.2
        ((createdAs_iff listed).mpr ⟨entry, among, creates, rfl⟩)
    have own : ∀ entry ∈ entries, entry.1 = name → entry.2 = spec := by
      intro entry among same
      have offer := (mem_entries_iff listed).mp (show (entry.1, entry.2) ∈ entries from among)
      rw [same, there] at offer
      exact (Option.some.inj offer).symm
    -- A turn of the loop makes the job fit, or it does so from the beginning.
    rcases named.reached name spec there with created | updated | already
    · obtain ⟨new, created⟩ := created
      obtain ⟨entry, among, creates, -⟩ := (createdAs_iff listed).mp created
      exact hasWork_foldl_placed_of_mem fitting own among (.inl creates)
    · obtain ⟨old, managing, different, present⟩ := updated
      exact hasWork_foldl_placed_of_mem fitting own ((mem_entries_iff listed).mpr there)
        (.inr ⟨⟨rfl, old, managing, different⟩, present⟩)
    · exact hasWork_foldl_placed fitting own already
  · have absent : name ∉ entries.map (·.1) := fun inside => gone ((mem_names_iff listed).mp inside)
    have removed : name ∈ round.managedNames.filter fun name => name ∉ entries.map (·.1) :=
      List.mem_filter.mpr ⟨offers.managed.mem_iff.mpr (Std.ExtTreeMap.mem_keys.mpr was),
        decide_eq_true absent⟩
    rw [jobs, getElem?_foldl_modify, if_pos removed]
    have present : name ∈
        entries.foldl (placed contentHash source round.submittedAt) before.state.jobs := by
      refine mem_foldl_placed_iff.mpr ((named.removable name was gone).imp_right fun created => ?_)
      obtain ⟨new, created⟩ := created
      obtain ⟨entry, among, creates, -⟩ := (createdAs_iff listed).mp created
      exact ⟨entry, among, creates⟩
    obtain ⟨job, found⟩ := Option.isSome_iff_exists.mp
      (Std.ExtTreeMap.mem_iff_isSome_getElem?.mp present)
    exact ⟨killed job, congrArg (Option.map killed) found, rfl⟩

/-- What a pass without faults leaves, for an order in which the jobs of the flake are gone
through. -/
theorem followsFlake_calmRound {format : SnapshotFormat Text} {store : StateStore Text}
    (followed : SourceFollowed format contentHash source flakeJobs store)
    (listed : entries.Perm flakeJobs.toList) :
    source.id ∈ store.state.sources ∧
      (∀ (name : String) (spec : JobSpec), flakeJobs[name]? = some spec →
        HasWork (entries.foldl (placed contentHash source fun _ => ⟨0⟩) store.state.jobs) name
          spec) ∧
      ∀ name ∈ source.managedJobs, name ∉ flakeJobs →
        name ∈ entries.foldl (placed contentHash source fun _ => ⟨0⟩) store.state.jobs := by
  obtain ⟨after, through⟩ := @exists_through_calmRound Text format contentHash source entries store
  have offers : (calmRound source entries : Round Text).Offers source flakeJobs :=
    offers_calmRound listed
  obtain ⟨recorded, held, removed⟩ := followed _ offers after through
  obtain ⟨others, offered, jobs, revision, sources⟩ :=
    state_of_through offers.newRevision through
  -- The three parts are read off what the pass has made of the store.
  obtain rfl : entries = others := Except.ok.inj offered
  refine ⟨?_, fun name spec there => ?_, fun name was gone => ?_⟩
  · obtain ⟨stored, found, -⟩ := recorded
    rw [sources, Std.ExtTreeMap.getElem?_modify_self] at found
    refine Std.ExtTreeMap.mem_iff_isSome_getElem?.mpr ?_
    rw [← Option.isSome_map, found]
    rfl
  · have inside : name ∈ flakeJobs :=
      Std.ExtTreeMap.mem_iff_isSome_getElem?.mpr (Option.isSome_of_eq_some there)
    obtain ⟨job, found, carries⟩ := held name spec there
    rw [jobs, getElem?_removed_of_mem listed inside] at found
    exact ⟨job, found, carries⟩
  · obtain ⟨job, found, -⟩ := removed name was gone
    rw [jobs, getElem?_foldl_modify] at found
    refine Std.ExtTreeMap.mem_iff_isSome_getElem?.mpr ?_
    split at found
    · obtain ⟨before, there, -⟩ := Option.map_eq_some_iff.mp found
      exact Option.isSome_of_eq_some there
    · exact Option.isSome_of_eq_some found

/-- The pass brings the store to the flake exactly where everything that it works on is under the
name that it has in the flake. -/
theorem sourceFollowed_iff (format : SnapshotFormat Text) (contentHash : JobSpec → String)
    (source : Source) (flakeJobs : Std.ExtTreeMap String JobSpec) (store : StateStore Text) :
    SourceFollowed format contentHash source flakeJobs store ↔
      ReachedByName contentHash source flakeJobs store.state := by
  constructor
  · intro followed
    have listed : flakeJobs.toList.Perm flakeJobs.toList := .refl _
    obtain ⟨stored, held, removed⟩ := followsFlake_calmRound followed listed
    refine ⟨stored, fun name spec there new created => ?_, fun name spec there => ?_,
      fun name was gone => ?_⟩
    · -- The entry that creates the job may come last, and what it has put there is what stays.
      obtain ⟨entry, among, creates, rfl⟩ := (createdAs_iff listed).mp created
      obtain ⟨front, back, whole⟩ := List.append_of_mem among
      have last : (front ++ (back ++ [entry])).Perm flakeJobs.toList := by
        rw [whole]
        exact (List.perm_append_singleton entry back).append_left front
      obtain ⟨-, heldThen, -⟩ := followsFlake_calmRound followed last
      obtain ⟨job, found, carries⟩ := heldThen name spec there
      rw [← List.append_assoc, List.foldl_append, List.foldl_cons, List.foldl_nil,
        getElem?_placed_of_creates creates] at found
      obtain rfl := Option.some.inj found
      exact carries
    · by_cases created : ∃ new, CreatedAs source flakeJobs name new
      · exact .inl created
      · have uncreated : ∀ entry ∈ flakeJobs.toList, ¬ Creates source name entry :=
          fun entry among creates =>
            created ⟨entry.2, (createdAs_iff listed).mpr ⟨entry, among, creates, rfl⟩⟩
        obtain ⟨job, found, carries⟩ := held name spec there
        by_cases changed : ∃ old, source.managedJobs[name]? = some old ∧ old ≠ contentHash spec
        · -- What is updated must have been there before.
          obtain ⟨old, managing, different⟩ := changed
          have present := mem_foldl_placed_iff.mp
            (Std.ExtTreeMap.mem_iff_isSome_getElem?.mpr (Option.isSome_of_eq_some found))
          have before := present.resolve_right fun some => by
            obtain ⟨entry, among, creates⟩ := some
            exact uncreated entry among creates
          exact .inr (.inl ⟨old, managing, different, before⟩)
        · have unchanged : ∀ entry ∈ flakeJobs.toList,
              ¬ Changes contentHash source name entry := by
            intro entry among changes
            obtain ⟨rfl, old, managing, different⟩ := changes
            have offer := (mem_entries_iff listed).mp
              (show (entry.1, entry.2) ∈ flakeJobs.toList from among)
            obtain rfl := Option.some.inj (there.symm.trans offer)
            exact changed ⟨old, managing, different⟩
          rw [getElem?_foldl_placed_of_not uncreated unchanged] at found
          exact .inr (.inr ⟨job, found, carries⟩)
    · refine (mem_foldl_placed_iff.mp (removed name was gone)).imp_right fun some => ?_
      obtain ⟨entry, among, creates⟩ := some
      exact ⟨entry.2, (createdAs_iff listed).mpr ⟨entry, among, creates, rfl⟩⟩
  · intro named round offers after through
    exact followsFlake_of_through offers through named

end

/-- A source from which nothing has been created yet. -/
def newSource : Source :=
  { id := 1, name := "infra", kind := .gitFlake, flakeRef := "github:infra/infra"
    status := .pending, lastRev := none, lastReconciledAt := none, lastError := none
    managedJobs := ∅, createdAt := ⟨0⟩ }

/-- A specification under another identifier than the name that the flake has for it. -/
def renamedSpec : JobSpec :=
  { id := "web-1", jobType := .service, groups := [], constraints := [], «meta» := ∅ }

/-- The job is created, and there is none under the name that has been recorded. -/
theorem not_sourceFollowed_renamed :
    ¬ SourceFollowed (⟨fun _ => (), fun _ => none⟩ : SnapshotFormat Unit) (fun spec => spec.id)
      newSource {("web", renamedSpec)} ⟨⟨∅, ∅, ∅, {((1 : Uuid), newSource)}⟩, ⟨none, none⟩⟩ := by
  intro followed
  obtain ⟨-, held, -⟩ := followsFlake_calmRound followed (.refl _)
  obtain ⟨job, found, -⟩ := held "web" renamedSpec (by simp)
  have present := mem_foldl_placed_iff.mp
    (Std.ExtTreeMap.mem_iff_isSome_getElem?.mpr (Option.isSome_of_eq_some found))
  rcases present with before | created
  · exact absurd before Std.ExtTreeMap.not_mem_empty
  · obtain ⟨⟨name, spec⟩, among, -, same⟩ := created
    -- The only entry creates a job under another identifier.
    have offered := Std.ExtTreeMap.mem_toList_iff_getElem?_eq_some.mp among
    rw [Std.ExtTreeMap.singleton_eq_insert, Std.ExtTreeMap.getElem?_insert] at offered
    split at offered
    · obtain rfl := Option.some.inj offered
      simp [renamedSpec] at same
    · cases offered

end Tatara.Engine
