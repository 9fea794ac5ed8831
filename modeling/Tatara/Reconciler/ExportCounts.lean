import Tatara.Reconciler.Exports

/-! Three counts of the exports of a Process, and the wait that goes by two of them. -/

namespace Tatara.Reconciler

open Tatara.Rust Tatara.Crd
open Tatara.Program (Runs runs_pure_iff runs_bind_iff runs_call_iff runs_try_iff runs_try_ok)

/-- What `handle_releasing` takes for the applicable exports, from the slot as it is. -/
def applicableExports (p : Process) (gate : ProcessPhase) : List ExportSpec :=
  (p.spec.lifetime.ephemeral.toList.flatMap (·.exports)).filter
    fun spec => spec.trigger.firesOn gate

/-- The Jobs that a reconcile gets to see are those that are rendered, and have come to their
end. -/
def ListsRendered (p : Process) (gate : ProcessPhase) (events : List Event) : Prop :=
  ∀ ns selector jobs, (⟨.request (.listJobs ns selector), .ok jobs⟩ : Event) ∈ events →
    (jobs.map (·.name)).Perm ((renderExportJobs p gate).map (·.name)) ∧
      ∀ job ∈ jobs, job.outcome ≠ .active

/-- The exports are counted alike, and once their Jobs are through the Process is let go. -/
structure CountsAgree [Crates] (p : Process) (gate : ProcessPhase) : Prop where
  rendered : (renderExportJobs p gate).length = (applicableExports p gate).length
  applicable : hasApplicableExports p gate = true ↔ 0 < (applicableExports p gate).length
  named : ∀ i j, exportJobName p.metadata.name i = exportJobName p.metadata.name j → i = j
  distinct : ((renderExportJobs p gate).map (·.name)).Nodup
  discharged : releasedFrom p = gate → ∀ events action,
    Runs (handleReleasing p).run events (.ok action) → ListsRendered p gate events →
      ∃ phase, phase ∈ events.filterMap Event.phase
  /-- A Process that has been stored can get there. -/
  discharges : releasedFrom p = gate → p.metadata.uid.isSome = true → ∃ events,
    Runs (handleReleasing p).run events (.ok tick) ∧ ListsRendered p gate events

/-- A Process with both slots of its lifetime set has no export that fires on the gate. -/
def Unambiguous (p : Process) (gate : ProcessPhase) : Prop :=
  p.spec.lifetime.permanent.isSome = true → ∀ e, p.spec.lifetime.ephemeral = some e →
    ∀ spec ∈ e.exports, spec.trigger.firesOn gate = false

/-- The Jobs of a Process have different names. -/
theorem exportJobName_injective (name : String) : Function.Injective (exportJobName name) := by
  intro i j same
  have texts := congrArg String.toList same
  simp only [exportJobName, String.toList_append, String.toList_ofList,
    List.append_cancel_left_eq] at texts
  -- The digits of a number tell what it is.
  have numbers := congrArg parseNat texts
  rw [parseNat_renderNat, parseNat_renderNat] at numbers
  exact Option.some.inj numbers

/-- One Job is rendered for each export that fires. -/
theorem renderExportJobs_eq_map (p : Process) (gate : ProcessPhase) :
    renderExportJobs p gate = (firing p gate).map fun entry =>
      { apiVersion := "batch/v1", kind := "Job", name := exportJobName p.metadata.name entry.2
        ns := some p.namespaceOrDefault } := by
  unfold renderExportJobs firing
  cases p.spec.lifetime.resolvedEphemeral <;> rfl

/-- Each export has a place of its own, and its Job is named after it. -/
theorem nodup_renderExportJobs (p : Process) (gate : ProcessPhase) :
    ((renderExportJobs p gate).map (·.name)).Nodup := by
  rw [renderExportJobs_eq_map, List.map_map]
  have places : ((firing p gate).map Prod.snd).Nodup := by
    unfold firing
    cases p.spec.lifetime.resolvedEphemeral with
    | none => exact List.nodup_nil
    | some e =>
      -- The places are counted up, and some of them are left out.
      refine List.Nodup.sublist (List.filter_sublist.map Prod.snd) ?_
      rw [List.zipIdx_map_snd]
      exact List.nodup_range'
  have named : ((firing p gate).map Prod.snd |>.map (exportJobName p.metadata.name)).Nodup :=
    List.pairwise_map.mpr (places.imp fun different same =>
      different (exportJobName_injective p.metadata.name same))
  rwa [List.map_map] at named

/-- The renderer takes the exports from what the lifetime resolves to. -/
theorem length_renderExportJobs (p : Process) (gate : ProcessPhase) :
    (renderExportJobs p gate).length =
      if p.spec.lifetime.permanent.isSome then 0 else (applicableExports p gate).length := by
  rw [renderExportJobs_eq_map, List.length_map, firing, applicableExports,
    Lifetime.resolvedEphemeral]
  cases p.spec.lifetime.permanent with
  | some _ => rfl
  | none =>
    cases p.spec.lifetime.ephemeral with
    | none => rfl
    | some e =>
      -- The places of the exports make no difference to which of them fire.
      have counted : ((e.exports.zipIdx.map Prod.fst).filter
          fun spec => spec.trigger.firesOn gate).length =
            (e.exports.zipIdx.filter fun entry => entry.1.trigger.firesOn gate).length := by
        rw [List.filter_map, List.length_map]
        rfl
      rw [List.zipIdx_map_fst] at counted
      simpa using counted.symm

/-- The predicate goes by the same slot as the handler. -/
theorem hasApplicableExports_iff (p : Process) (gate : ProcessPhase) :
    hasApplicableExports p gate = true ↔ 0 < (applicableExports p gate).length := by
  -- Both look for an export of the gate in the ephemeral slot.
  rw [hasApplicableExports, applicableExports, List.length_pos_iff, Ne, List.filter_eq_nil_iff]
  cases p.spec.lifetime.ephemeral with
  | none => simp
  | some e => simp [EphemeralLifetime.hasApplicableExports]

/-- A Process is unambiguous if no export is applicable while the permanent slot is set. -/
theorem unambiguous_iff (p : Process) (gate : ProcessPhase) :
    Unambiguous p gate ↔
      (p.spec.lifetime.permanent.isSome = true → applicableExports p gate = []) := by
  -- An export is applicable if it is in the slot and fires on the gate.
  refine imp_congr_right fun _ => ?_
  rw [applicableExports, List.filter_eq_nil_iff]
  cases p.spec.lifetime.ephemeral with
  | none => simp
  | some e => simp

section

variable [Crates]

omit [Crates] in
/-- To advance out of releasing is to store a phase. -/
theorem runs_advanceOutOfReleasing {gate : ProcessPhase} {reason : String} {events : List Event}
    {action : Action} (runs : Runs (advanceOutOfReleasing gate reason).run events (.ok action)) :
    ∃ phase, phase ∈ events.filterMap Event.phase := by
  obtain ⟨answer, asked⟩ := runs_task_then runs
  obtain ⟨now, rfl⟩ := runs_phasePatch
    (fun base => { base with message := some _ }) asked
  exact ⟨_, List.mem_cons_self⟩

/-- `handle_releasing` lets the Process go where nothing is applicable, or where all that is has
come to its end; otherwise it waits. -/
theorem runs_handleReleasing {p : Process} {events : List Event} {action : Action}
    (runs : Runs (handleReleasing p).run events (.ok action)) :
    (∃ phase, phase ∈ events.filterMap Event.phase) ∨
      ∃ ns selector jobs, (⟨.request (.listJobs ns selector), .ok jobs⟩ : Event) ∈ events ∧
        ((∃ job ∈ jobs, job.outcome = .active) ∨
          jobs.length < (applicableExports p (releasedFrom p)).length) := by
  unfold handleReleasing at runs
  dsimp only at runs
  -- Only an active Job, or one that is not listed yet, keeps the handler waiting.
  split at runs
  · exact .inl (runs_advanceOutOfReleasing runs)
  · obtain ⟨front, _, back, applying, rest, rfl⟩ := runs_try_ok runs
    obtain ⟨lists, jobs, last, listing, decided, rfl⟩ := runs_try_ok rest
    obtain rfl := runs_request_ok listing
    split at decided
    · rename_i waiting
      refine .inr ⟨_, _, jobs, by simp, waiting.imp_left fun active => ?_⟩
      obtain ⟨job, among, outcome⟩ := List.mem_map.mp (List.count_pos_iff.mp active)
      exact ⟨job, among, outcome⟩
    · obtain ⟨phase, written⟩ := runs_advanceOutOfReleasing decided
      refine .inl ⟨phase, ?_⟩
      rw [List.filterMap_append, List.filterMap_append]
      exact List.mem_append_right _ (List.mem_append_right _ written)

omit [Crates] in
/-- A context is only added to errors. -/
theorem runs_errCtx_ok {α : Type} {task : Task (Except String α)} {context : String}
    {events : List Event} {a : α} (runs : Runs task events (.ok a)) :
    Runs (errCtx context task).run events (.ok a) :=
  runs_bind_iff.mpr ⟨events, .ok a, [], runs, runs_pure_iff.mpr ⟨rfl, rfl⟩, by simp⟩

/-- The Jobs of a stored Process can be applied, one after the other, and none is listed by that. -/
theorem exists_runs_applyJobs {p : Process} (stored : p.metadata.uid.isSome = true)
    (gate : ProcessPhase) :
    ∃ events, Runs ((renderExportJobs p gate).forM fun job =>
        errCtx "apply export job" (applyOwned p p.namespaceOrDefault job).run).run events (.ok ()) ∧
      ∀ event ∈ events, ∃ coords, event = ⟨.request (.applyObject p.namespaceOrDefault coords),
        .ok ()⟩ := by
  have kinds : ∀ job ∈ renderExportJobs p gate, job.kind = "Job" := by
    rw [renderExportJobs_eq_map]
    exact List.forall_mem_map.mpr fun _ _ => rfl
  generalize renderExportJobs p gate = jobs at kinds ⊢
  induction jobs with
  | nil => exact ⟨[], runs_pure_iff.mpr ⟨rfl, rfl⟩, by simp⟩
  | cons job jobs ih =>
    obtain ⟨kind, others⟩ := List.forall_mem_cons.mp kinds
    obtain ⟨events, runs, applied⟩ := ih others
    obtain ⟨uid, known⟩ := Option.isSome_iff_exists.mp stored
    have first : Runs (applyOwned p p.namespaceOrDefault job).run
        [⟨.request (.applyObject p.namespaceOrDefault job), .ok ()⟩] (.ok ()) := by
      -- The owner is known, and so is the plural of a Job.
      have plural : pluralOf job.kind = .ok "jobs" := by rw [kind]; rfl
      rw [applyOwned, known, plural]
      exact runs_errCtx_ok (runs_call_iff.mpr rfl)
    exact ⟨_, runs_try_iff.mpr (.inr ⟨_, (), _, runs_errCtx_ok first, runs, rfl⟩),
      List.forall_mem_cons.mpr ⟨⟨job, rfl⟩, applied⟩⟩

omit [Crates] in
/-- It is possible to advance out of releasing, and no Jobs are listed on the way. -/
theorem exists_runs_advanceOutOfReleasing (gate : ProcessPhase) (reason : String) :
    ∃ events, Runs (advanceOutOfReleasing gate reason).run events (.ok tick) ∧
      ∀ ns selector jobs, (⟨.request (.listJobs ns selector), .ok jobs⟩ : Event) ∉ events := by
  let next := if gate = .failed then ProcessPhase.zombie else .exiting
  let message := "releasing → " ++ next.asStr ++ " — " ++ reason
  let events : List Event := [⟨.now, ⟨0⟩⟩, ⟨.request (.mergeStatus
    { phase := some next, phaseSince := some ⟨0⟩, message := some message }), .ok ()⟩]
  -- The clock answers, and the patch succeeds.
  have asked : Runs (transitionMsg next message) events (.ok ()) :=
    .ask _ _ _ (.ask _ _ _ (.done _))
  refine ⟨events, ?_, by simp [events]⟩
  exact runs_try_iff.mpr (.inr ⟨_, (), [], runs_errCtx_ok asked, runs_pure_iff.mpr ⟨rfl, rfl⟩,
    (List.append_nil _).symm⟩)

/-- A Job that has come to its end. -/
def endedJob (coords : RenderedResourceCoords) : JobStatus :=
  { name := coords.name, succeeded := some 1, failed := none }

/-- Where as many Jobs are rendered as are applicable, a stored Process can be let go. -/
theorem exists_runs_handleReleasing {p : Process} (stored : p.metadata.uid.isSome = true)
    (counts : (renderExportJobs p (releasedFrom p)).length =
      (applicableExports p (releasedFrom p)).length) :
    ∃ events, Runs (handleReleasing p).run events (.ok tick) ∧
      ListsRendered p (releasedFrom p) events := by
  unfold handleReleasing
  dsimp only
  -- Without an applicable export nothing is listed, and else the Jobs are as many as are awaited.
  split
  · obtain ⟨events, runs, unlisted⟩ :=
      exists_runs_advanceOutOfReleasing (releasedFrom p) "no applicable exports"
    exact ⟨events, runs, fun ns selector jobs listed => absurd listed (unlisted ns selector jobs)⟩
  · obtain ⟨front, applying, applied⟩ := exists_runs_applyJobs stored (releasedFrom p)
    let jobs := (renderExportJobs p (releasedFrom p)).map endedJob
    have none : (jobs.map JobStatus.outcome).count .active = 0 := by
      rw [List.count_eq_zero, List.map_map]
      simp [JobStatus.outcome, endedJob]
    have total : jobs.length = (applicableExports p (releasedFrom p)).length := by
      rw [List.length_map, counts]
    obtain ⟨back, leaving, unlisted⟩ := exists_runs_advanceOutOfReleasing (releasedFrom p)
      ("exports complete (succeeded=" ++
        String.ofList (renderNat ((jobs.map JobStatus.outcome).count .succeeded)) ++ ", failed=" ++
        String.ofList (renderNat ((jobs.map JobStatus.outcome).count .failed)) ++ ")")
    have waits : ¬ (0 < (jobs.map JobStatus.outcome).count .active ∨
        jobs.length < (applicableExports p (releasedFrom p)).length) := by omega
    refine ⟨_, runs_try_iff.mpr (.inr ⟨front, (), _, applying, runs_try_iff.mpr (.inr
      ⟨_, jobs, back, runs_errCtx_ok (runs_call_iff.mpr rfl), ?_, rfl⟩), rfl⟩), ?_⟩
    · exact (congrArg (fun rest : Handler Action => Runs rest.run back (.ok tick))
        (if_neg waits)).mpr leaving
    · intro ns selector listed among
      -- The one listing is that of the rendered Jobs.
      have only : listed = jobs := by
        rcases List.mem_append.mp among with applying | among
        · obtain ⟨coords, same⟩ := applied _ applying
          cases same
        · rcases List.mem_cons.mp among with same | later
          · cases same
            rfl
          · exact absurd later (unlisted ns selector listed)
      subst only
      refine ⟨?_, ?_⟩
      · rw [List.map_map]
        exact .refl _
      · simp [jobs, endedJob, JobStatus.outcome]

/-- The counts agree exactly where a lifetime with both of its slots set has nothing to export. -/
theorem countsAgree_iff (p : Process) (gate : ProcessPhase) :
    CountsAgree p gate ↔ Unambiguous p gate := by
  rw [unambiguous_iff]
  have rendered := length_renderExportJobs p gate
  constructor
  · intro agree marked
    -- Nothing is rendered there, and so nothing may be applicable.
    rw [marked, agree.rendered] at rendered
    exact List.length_eq_zero_iff.mp rendered
  · intro unambiguous
    have counts : (renderExportJobs p gate).length = (applicableExports p gate).length := by
      rw [rendered]
      split
      · rename_i marked
        rw [unambiguous marked]
        rfl
      · rfl
    refine ⟨counts, hasApplicableExports_iff p gate, exportJobName_injective p.metadata.name,
      nodup_renderExportJobs p gate, ?_, ?_⟩
    · rintro rfl events action runs lists
      rcases runs_handleReleasing runs with left | ⟨ns, selector, jobs, listed, waits⟩
      · exact left
      · -- As many Jobs are listed as there are exports, and none of them is at work.
        obtain ⟨names, ended⟩ := lists ns selector jobs listed
        have total := names.length_eq
        rw [List.length_map, List.length_map, counts] at total
        rcases waits with ⟨job, among, active⟩ | short
        · exact absurd active (ended job among)
        · omega
    · rintro rfl stored
      exact exists_runs_handleReleasing stored counts

end

/-- Two exports, of which the first one runs once a Process has been attested. -/
def twoSlotted (permanent : Option Unit) : Process :=
  { metadata := { name := "demo", uid := some "1" }
    spec :=
      { intent := { flux := some .null }
        lifetime :=
          { permanent
            ephemeral := some
              { ttl := "1h", teardownPolicy := .always
                exports := [⟨.onAttested, .null⟩, ⟨.onFailed, .null⟩] } }
        rest := .null }
    status := some { phase := .releasing } }

/-- With both slots set, one export is applicable and no Job is rendered for it: the handler goes on
waiting for a Job that nobody makes. -/
theorem not_countsAgree :
    let _ := plainCrates
    (applicableExports (twoSlotted (some ())) .attested).length = 1 ∧
      hasApplicableExports (twoSlotted (some ())) .attested = true ∧
      renderExportJobs (twoSlotted (some ())) .attested = [] ∧
      ((handleReleasing (twoSlotted (some ()))).run.play (calm (twoSlotted (some ())) ⟨0⟩)).2 =
        .ok shortRetry ∧
      ¬ CountsAgree (twoSlotted (some ())) .attested := by
  intro _
  -- The fields that agree are compared for this Process.
  refine ⟨by decide, by decide, rfl, rfl, fun agree => ?_⟩
  have same := agree.rendered
  revert same
  decide

end Tatara.Reconciler
