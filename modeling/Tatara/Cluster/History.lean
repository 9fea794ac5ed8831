import Tatara.Cluster.StateMachine
import Mathlib.Data.List.Induction

/-! What the history of a job's versions holds, and what a rollback restores from it. -/

namespace Tatara.Cluster

open Tatara.Rust Tatara.Domain

/-- The entries of a job's history, the oldest first. -/
def ClusterState.history (state : ClusterState) (jobId : String) : List JobVersionEntry :=
  state.jobHistory[jobId]?.getD []

/-- Two jobs that may differ in their status only. -/
def SameButStatus (old new : Job) : Prop := new = { old with status := new.status }

/-- A specification that asks for what a job is made of. -/
def Describes (spec : JobSpec) (job : Job) : Prop :=
  spec.groups = job.groups ∧ spec.constraints = job.constraints ∧ spec.meta = job.meta

/-- What one command can do to one job and its history. -/
inductive JobStep (jobId : String) : ClusterCommand → Option Job → Option Job →
    List JobVersionEntry → List JobVersionEntry → Prop where
  | submitted {before : Option Job} {history : List JobVersionEntry} (job : Job)
      (entry : JobVersionEntry) (named : job.id = jobId) (version : entry.version = job.version)
      (describes : Describes entry.spec job) :
      JobStep jobId (.putJob job) before (some job) history (history ++ [entry])
  | advanced {cmd : ClusterCommand} {history : List JobVersionEntry} (old new : Job)
      (moves : (∃ status, cmd = .updateJobStatus jobId status) ∨
        ∃ version, cmd = .rollbackJob jobId version)
      (version : new.version = old.version + 1) :
      JobStep jobId cmd (some old) (some new) history history
  | marked {expectedGeneration : UInt64} {allocations : List DesiredAllocationState}
      {updates : List (String × JobStatus)} {history : List JobVersionEntry} (old new : Job)
      (same : SameButStatus old new) :
      JobStep jobId (.proposeAllocations expectedGeneration allocations updates) (some old)
        (some new) history history
  | kept {cmd : ClusterCommand} {before : Option Job} {history : List JobVersionEntry}
      (other : ∀ job, cmd = .putJob job → job.id ≠ jobId) :
      JobStep jobId cmd before before history history

/-- A command that writes neither the jobs nor their history keeps both. -/
theorem jobStep_of_same {jobId : String} {cmd : ClusterCommand} {state state' : ClusterState}
    (other : ∀ job, cmd = .putJob job → job.id ≠ jobId)
    (jobs : state'.jobs[jobId]? = state.jobs[jobId]?)
    (history : state'.history jobId = state.history jobId) :
    JobStep jobId cmd state.jobs[jobId]? state'.jobs[jobId]? (state.history jobId)
      (state'.history jobId) := by
  -- The job and its history are as they were.
  rw [jobs, history]
  exact .kept other

/-- Setting the status of jobs changes their status only. -/
theorem foldl_setJobStatus (updates : List (String × JobStatus))
    (jobs : Std.ExtTreeMap String Job) (jobId : String) :
    (jobs[jobId]? = none ∧ (updates.foldl ClusterState.setJobStatus jobs)[jobId]? = none) ∨
      ∃ old new, jobs[jobId]? = some old ∧
        (updates.foldl ClusterState.setJobStatus jobs)[jobId]? = some new ∧
        SameButStatus old new := by
  -- Each update sets the status of one job that exists.
  induction updates generalizing jobs with
  | nil =>
    cases found : jobs[jobId]? with
    | none => exact .inl ⟨rfl, found⟩
    | some job => exact .inr ⟨job, job, rfl, found, rfl⟩
  | cons update updates ih =>
    rw [List.foldl_cons]
    have first : (ClusterState.setJobStatus jobs update)[jobId]? =
        jobs[jobId]?.map fun job =>
          if update.1 = jobId then { job with status := update.2 } else job := by
      unfold ClusterState.setJobStatus
      cases found : jobs[update.1]? with
      | none =>
        by_cases same : update.1 = jobId
        · simp [← same, found]
        · simp [same]
      | some job =>
        by_cases same : update.1 = jobId
        · simp [← same, found]
        · simp [same, Std.ExtTreeMap.getElem?_insert]
    rcases ih (ClusterState.setJobStatus jobs update) with
      ⟨before, after⟩ | ⟨old, new, before, after, same⟩
    · rw [first, Option.map_eq_none_iff] at before
      exact .inl ⟨before, after⟩
    · rw [first, Option.map_eq_some_iff] at before
      obtain ⟨job, found, rfl⟩ := before
      refine .inr ⟨job, new, found, after, ?_⟩
      unfold SameButStatus at same ⊢
      split at same <;> exact same

/-- Writing one job is a step of that job, and leaves the others. -/
theorem jobStep_of_insert {jobId written : String} {cmd : ClusterCommand}
    {state state' : ClusterState} {old new : Job}
    (other : ∀ job, cmd = .putJob job → job.id ≠ jobId)
    (found : state.jobs[written]? = some old)
    (jobs : state'.jobs = state.jobs.insert written new)
    (histories : state'.jobHistory = state.jobHistory)
    (step : JobStep written cmd (some old) (some new) (state.history written)
      (state.history written)) :
    JobStep jobId cmd state.jobs[jobId]? state'.jobs[jobId]? (state.history jobId)
      (state'.history jobId) := by
  have history : state'.history jobId = state.history jobId := by
    simp only [ClusterState.history, histories]
  -- Only the job that is written to has taken a step.
  by_cases same : written = jobId
  · subst same
    rw [history, jobs, found]
    simpa using step
  · refine jobStep_of_same other ?_ history
    rw [jobs]
    simp [Std.ExtTreeMap.getElem?_insert, same]

/-- A submission is a step of the job that is submitted. -/
theorem putJob_jobStep (readings : Readings) (job : Job) (state : ClusterState) (jobId : String) :
    JobStep jobId (.putJob job) state.jobs[jobId]? (state.putJob readings job).2.jobs[jobId]?
      (state.history jobId) ((state.putJob readings job).2.history jobId) := by
  by_cases same : job.id = jobId
  · -- The history takes an entry of the job, and the job takes the place of what was there.
    subst same
    simp only [ClusterState.putJob, ClusterState.emit, ClusterState.history,
      Std.ExtTreeMap.getElem?_insert_self, Option.getD_some]
    exact .submitted job _ rfl rfl ⟨rfl, rfl, rfl⟩
  · refine jobStep_of_same (by rintro _ ⟨⟩; exact same) ?_ ?_
    · simp [ClusterState.putJob, ClusterState.emit, Std.ExtTreeMap.getElem?_insert, same]
    · simp [ClusterState.putJob, ClusterState.emit, ClusterState.history,
        Std.ExtTreeMap.getElem?_insert, same]

/-- A new status moves the version of its job on, and a status that stays does not. -/
theorem updateJobStatus_jobStep (readings : Readings) (updated : String) (status : JobStatus)
    (state : ClusterState) (jobId : String) :
    JobStep jobId (.updateJobStatus updated status) state.jobs[jobId]?
      (state.updateJobStatus readings updated status).2.jobs[jobId]? (state.history jobId)
      ((state.updateJobStatus readings updated status).2.history jobId) := by
  unfold ClusterState.updateJobStatus
  cases found : state.jobs[updated]? with
  | none => exact jobStep_of_same nofun rfl rfl
  | some old =>
    simp only
    split
    · exact jobStep_of_insert nofun found rfl rfl (.advanced old _ (.inl ⟨status, rfl⟩) rfl)
    · -- A status that stays the same is no news.
      rename_i same
      have unaltered : { old with status := status } = old := by rw [← not_not.mp same]
      rw [unaltered]
      exact jobStep_of_insert nofun found rfl rfl (.kept nofun)

/-- A rollback that finds its version moves the version of its job on. -/
theorem rollbackJob_jobStep (readings : Readings) (rolled : String) (version : UInt64)
    (state : ClusterState) (jobId : String) :
    JobStep jobId (.rollbackJob rolled version) state.jobs[jobId]?
      (state.rollbackJob readings rolled version).2.jobs[jobId]? (state.history jobId)
      ((state.rollbackJob readings rolled version).2.history jobId) := by
  unfold ClusterState.rollbackJob
  cases state.rollbackTarget rolled version with
  | none => exact jobStep_of_same nofun rfl rfl
  | some entry =>
    cases found : state.jobs[rolled]? with
    | none => exact jobStep_of_same nofun rfl rfl
    | some old =>
      exact jobStep_of_insert nofun found rfl rfl (.advanced old _ (.inr ⟨version, rfl⟩) rfl)

/-- A proposal sets the status of jobs at most. -/
theorem proposeAllocations_jobStep (expectedGeneration : UInt64)
    (allocations : List DesiredAllocationState) (updates : List (String × JobStatus))
    (state : ClusterState) (jobId : String) :
    JobStep jobId (.proposeAllocations expectedGeneration allocations updates) state.jobs[jobId]?
      (state.proposeAllocations expectedGeneration allocations updates).2.jobs[jobId]?
      (state.history jobId)
      ((state.proposeAllocations expectedGeneration allocations updates).2.history jobId) := by
  unfold ClusterState.proposeAllocations
  split
  · exact jobStep_of_same nofun rfl rfl
  · simp only [ClusterState.history]
    -- Of several updates to one job only what they come to in the end counts.
    rcases foldl_setJobStatus updates state.jobs jobId with
      ⟨before, after⟩ | ⟨old, new, before, after, same⟩
    · rw [before, after]
      exact .kept nofun
    · rw [before, after]
      exact .marked old new same

/-- Every command is a step of every job. -/
theorem applyCommand_jobStep (readings : Readings) (cmd : ClusterCommand) (state : ClusterState)
    (jobId : String) :
    JobStep jobId cmd state.jobs[jobId]? (applyCommand readings cmd state).2.jobs[jobId]?
      (state.history jobId) ((applyCommand readings cmd state).2.history jobId) := by
  -- Only four commands write jobs.
  by_cases writes : cmd.writes .jobs = true
  · cases cmd with
    | putJob job => exact putJob_jobStep readings job state jobId
    | updateJobStatus updated status =>
      exact updateJobStatus_jobStep readings updated status state jobId
    | rollbackJob rolled version => exact rollbackJob_jobStep readings rolled version state jobId
    | proposeAllocations expectedGeneration allocations updates =>
      exact proposeAllocations_jobStep expectedGeneration allocations updates state jobId
    | _ => cases writes
  · have same := applyCommand_sameBut readings cmd state
    have unwritten : cmd.writes .jobHistory = false := by
      cases cmd with
      | putJob => exact absurd rfl writes
      | _ => rfl
    refine jobStep_of_same (by rintro job rfl; exact absurd rfl writes) ?_ ?_
    · rw [same.jobs (by simpa using writes)]
    · simp only [ClusterState.history, same.jobHistory unwritten]

/-- A job as it was at some point of a run. -/
def Held (inputs : List (Readings × ClusterCommand)) (jobId : String) (job : Job) : Prop :=
  ∃ front, front <+: inputs ∧ (ClusterState.after front).jobs[jobId]? = some job

/-- A version that some submission of a run gave to a job. -/
def Submitted (inputs : List (Readings × ClusterCommand)) (jobId : String) (version : UInt64) :
    Prop :=
  ∃ readings job, (readings, .putJob job) ∈ inputs ∧ job.id = jobId ∧ job.version = version

/-- Every submission of a run carries a larger version than the job has by then. -/
def Ascending (inputs : List (Readings × ClusterCommand)) : Prop :=
  ∀ front readings job, front ++ [(readings, .putJob job)] <+: inputs →
    ∀ current, (ClusterState.after front).jobs[job.id]? = some current →
      current.version < job.version

/-- No status update and no rollback of a run finds its job at the largest version there is. -/
def HasRoom (inputs : List (Readings × ClusterCommand)) : Prop :=
  ∀ front readings cmd jobId, front ++ [(readings, cmd)] <+: inputs →
    ((∃ status, cmd = .updateJobStatus jobId status) ∨
      ∃ version, cmd = .rollbackJob jobId version) →
    ∀ current, (ClusterState.after front).jobs[jobId]? = some current →
      current.version.toNat + 1 < 2 ^ 64

/-- What was true of a run was true of its parts. -/
theorem Ascending.front {inputs : List (Readings × ClusterCommand)}
    {input : Readings × ClusterCommand} (ascending : Ascending (inputs ++ [input])) :
    Ascending inputs :=
  fun front readings job before =>
    ascending front readings job (before.trans (List.prefix_append _ _))

/-- A part of a run has room if the run has. -/
theorem HasRoom.front {inputs : List (Readings × ClusterCommand)}
    {input : Readings × ClusterCommand} (room : HasRoom (inputs ++ [input])) : HasRoom inputs :=
  fun front readings cmd jobId before =>
    room front readings cmd jobId (before.trans (List.prefix_append _ _))

/-- A job was held in a longer run if it was held before or is there at the end. -/
theorem held_concat {inputs : List (Readings × ClusterCommand)} {input : Readings × ClusterCommand}
    {jobId : String} {job : Job} :
    Held (inputs ++ [input]) jobId job ↔
      Held inputs jobId job ∨
        (ClusterState.after (inputs ++ [input])).jobs[jobId]? = some job := by
  -- A part of the longer run is a part of the shorter one or the whole.
  simp only [Held, List.prefix_concat_iff]
  constructor
  · intro parts
    obtain ⟨front, rfl | before, found⟩ := parts
    · exact .inr found
    · exact .inl ⟨front, before, found⟩
  · intro either
    rcases either with ⟨front, before, found⟩ | found
    · exact ⟨front, .inr before, found⟩
    · exact ⟨_, .inl rfl, found⟩

/-- A version was submitted in a longer run if it was before or the last command submits it. -/
theorem submitted_concat {inputs : List (Readings × ClusterCommand)} {readings : Readings}
    {cmd : ClusterCommand} {jobId : String} {version : UInt64} :
    Submitted (inputs ++ [(readings, cmd)]) jobId version ↔
      Submitted inputs jobId version ∨
        ∃ job, cmd = .putJob job ∧ job.id = jobId ∧ job.version = version := by
  -- A submission stands in the first part or is the last command.
  simp only [Submitted, List.mem_append, List.mem_singleton, Prod.mk.injEq]
  constructor
  · intro parts
    obtain ⟨_, job, inside | ⟨-, rfl⟩, named⟩ := parts
    · exact .inl ⟨_, job, inside, named⟩
    · exact .inr ⟨job, rfl, named⟩
  · intro either
    rcases either with ⟨_, job, inside, named⟩ | ⟨job, rfl, named⟩
    · exact ⟨_, job, .inl inside, named⟩
    · exact ⟨readings, job, .inr ⟨rfl, rfl⟩, named⟩

/-- What the history of one job says of the run that has led to it. -/
structure Recorded (current : Option Job) (history : List JobVersionEntry) (held : Job → Prop)
    (submitted : UInt64 → Prop) : Prop where
  -- The current job is the latest of those that were held.
  isHeld : ∀ job, current = some job → held job
  held_le : ∀ old, held old → ∃ job, current = some job ∧ old.version ≤ job.version
  -- No entry is ahead of the job, and an entry describes the job as it was at that version.
  entry_le : ∀ entry ∈ history, ∃ job, current = some job ∧ entry.version ≤ job.version
  describes : ∀ entry ∈ history, ∀ old, held old → old.version = entry.version →
    Describes entry.spec old
  found : ∀ version, submitted version → ∃ entry ∈ history, entry.version = version

/-- A version below the largest one is smaller than the next. -/
theorem lt_succ_of_room {version : UInt64} (room : version.toNat + 1 < 2 ^ 64) :
    version < version + 1 := by
  -- The sum does not run over.
  rw [UInt64.lt_iff_toNat_lt, UInt64.toNat_add, UInt64.toNat_one, Nat.mod_eq_of_lt room]
  exact Nat.lt_succ_self _

namespace Recorded

variable {current : Option Job} {history : List JobVersionEntry} {held : Job → Prop}
  {submitted : UInt64 → Prop}

/-- The same jobs held and the same versions submitted, in other words. -/
theorem congr (recorded : Recorded current history held submitted) {held' : Job → Prop}
    {submitted' : UInt64 → Prop} (sameHeld : ∀ job, held' job ↔ held job)
    (sameSubmitted : ∀ version, submitted' version ↔ submitted version) :
    Recorded current history held' submitted' := by
  -- Equivalent predicates are equal.
  rw [funext fun job => propext (sameHeld job),
    funext fun version => propext (sameSubmitted version)]
  exact recorded

/-- A job with a version not seen before keeps the history true to the run. -/
theorem advance (recorded : Recorded current history held submitted) {new : Job}
    (later : ∀ old, current = some old → old.version < new.version) :
    Recorded (some new) history (fun job => held job ∨ some new = some job) submitted := by
  have passed : ∀ job, current = some job → ∀ version ≤ job.version, version < new.version :=
    fun job found version before => UInt64.lt_of_le_of_lt before (later job found)
  refine ⟨fun job same => .inr same, ?_, ?_, ?_, recorded.found⟩
  · intro old either
    rcases either with before | same
    · obtain ⟨job, found, before⟩ := recorded.held_le old before
      exact ⟨new, rfl, UInt64.le_of_lt (passed job found _ before)⟩
    · exact ⟨old, same, UInt64.le_refl _⟩
  · intro entry inside
    obtain ⟨job, found, before⟩ := recorded.entry_le entry inside
    exact ⟨new, rfl, UInt64.le_of_lt (passed job found _ before)⟩
  · intro entry inside old either version
    rcases either with before | same
    · exact recorded.describes entry inside old before version
    · -- No entry can have the new version yet.
      obtain rfl := Option.some.inj same
      obtain ⟨job, found, before⟩ := recorded.entry_le entry inside
      exact absurd version (UInt64.ne_of_lt (passed job found _ before)).symm

/-- A submission adds the entry that describes it. -/
theorem submit (recorded : Recorded current history held submitted) {new : Job}
    (later : ∀ old, current = some old → old.version < new.version) {entry : JobVersionEntry}
    (version : entry.version = new.version) (describes : Describes entry.spec new) :
    Recorded (some new) (history ++ [entry]) (fun job => held job ∨ some new = some job)
      (fun v => submitted v ∨ v = new.version) := by
  have advanced := recorded.advance later
  refine ⟨advanced.isHeld, advanced.held_le, ?_, ?_, ?_⟩
  · intro other inside
    rcases List.mem_append.mp inside with inside | inside
    · exact advanced.entry_le other inside
    · rw [List.mem_singleton.mp inside, version]
      exact ⟨new, rfl, UInt64.le_refl _⟩
  · intro other inside old before same
    rcases List.mem_append.mp inside with inside | inside
    · exact advanced.describes other inside old before same
    · rw [List.mem_singleton.mp inside] at same ⊢
      rcases before with before | is
      · -- The submitted version is ahead of every job that was held.
        obtain ⟨job, found, before⟩ := recorded.held_le old before
        have passed := UInt64.lt_of_le_of_lt before (later job found)
        exact absurd (same.trans version) (UInt64.ne_of_lt passed)
      · obtain rfl := Option.some.inj is
        exact describes
  · intro v either
    rcases either with before | rfl
    · obtain ⟨other, inside, same⟩ := recorded.found v before
      exact ⟨other, List.mem_append_left _ inside, same⟩
    · exact ⟨entry, by simp, version⟩

/-- A new status alone changes nothing that the history tells. -/
theorem keep {old new : Job} (recorded : Recorded (some old) history held submitted)
    (same : SameButStatus old new) :
    Recorded (some new) history (fun job => held job ∨ some new = some job) submitted := by
  have version : new.version = old.version := by rw [same]
  refine ⟨fun job same => .inr same, ?_, ?_, ?_, recorded.found⟩
  · intro job either
    rcases either with before | same
    · obtain ⟨_, ⟨⟩, before⟩ := recorded.held_le job before
      exact ⟨new, rfl, version ▸ before⟩
    · exact ⟨job, same, UInt64.le_refl _⟩
  · intro entry inside
    obtain ⟨_, ⟨⟩, before⟩ := recorded.entry_le entry inside
    exact ⟨new, rfl, version ▸ before⟩
  · intro entry inside job either at_
    rcases either with before | is
    · exact recorded.describes entry inside job before at_
    · -- The entry describes the job as it was before, and its parts have stayed.
      obtain rfl := Option.some.inj is
      have described := recorded.describes entry inside old (recorded.isHeld old rfl)
        (version.symm.trans at_)
      rw [same]
      exact described

/-- A step keeps the history true to the run, as long as versions go up. -/
theorem step (recorded : Recorded current history held submitted) {jobId : String}
    {cmd : ClusterCommand} {next : Option Job} {history' : List JobVersionEntry}
    (taken : JobStep jobId cmd current next history history')
    (ascending : ∀ job, cmd = .putJob job → job.id = jobId →
      ∀ old, current = some old → old.version < job.version)
    (room : ((∃ status, cmd = .updateJobStatus jobId status) ∨
        ∃ version, cmd = .rollbackJob jobId version) →
      ∀ old, current = some old → old.version.toNat + 1 < 2 ^ 64) :
    Recorded next history' (fun job => held job ∨ next = some job)
      (fun v => submitted v ∨ ∃ job, cmd = .putJob job ∧ job.id = jobId ∧ job.version = v) := by
  -- A command that submits nothing adds no submitted version.
  have nothing : (∀ job, cmd = .putJob job → job.id ≠ jobId) → ∀ v,
      (submitted v ∨ ∃ job, cmd = .putJob job ∧ job.id = jobId ∧ job.version = v) ↔
        submitted v := by
    intro other v
    refine ⟨?_, .inl⟩
    intro either
    rcases either with before | ⟨job, submits, named, -⟩
    · exact before
    · exact absurd named (other job submits)
  cases taken with
  | submitted job entry named version describes =>
    have grown := recorded.submit (ascending job rfl named) version describes
    refine grown.congr (fun _ => Iff.rfl) fun v => ⟨?_, ?_⟩
    · intro either
      rcases either with before | ⟨_, ⟨⟩, -, rfl⟩
      · exact .inl before
      · exact .inr rfl
    · intro either
      rcases either with before | rfl
      · exact .inl before
      · exact .inr ⟨job, rfl, named, rfl⟩
  | advanced old new moves version =>
    have other : ∀ job, cmd = .putJob job → job.id ≠ jobId := by
      intro job same
      obtain rfl := same
      rcases moves with ⟨_, ⟨⟩⟩ | ⟨_, ⟨⟩⟩
    have later : ∀ found, some old = some found → found.version < new.version := by
      intro _ same
      cases same
      rw [version]
      exact lt_succ_of_room (room moves old rfl)
    exact (recorded.advance later).congr (fun _ => Iff.rfl) (nothing other)
  | marked old new same => exact (recorded.keep same).congr (fun _ => Iff.rfl) (nothing nofun)
  | kept other =>
    refine recorded.congr (fun job => ⟨?_, .inl⟩) (nothing other)
    intro either
    rcases either with before | now
    · exact before
    · exact recorded.isHeld job now

end Recorded

/-- After a run the history of every job is true to the run. -/
theorem recorded_after {inputs : List (Readings × ClusterCommand)} (ascending : Ascending inputs)
    (room : HasRoom inputs) (jobId : String) :
    Recorded (ClusterState.after inputs).jobs[jobId]? ((ClusterState.after inputs).history jobId)
      (Held inputs jobId) (Submitted inputs jobId) := by
  -- The run grows at its end, by one step of the job.
  induction inputs using List.reverseRecOn with
  | nil =>
    have none : (ClusterState.after []).jobs[jobId]? = none := by
      simp [ClusterState.after, ClusterState.default]
    have empty : (ClusterState.after []).history jobId = [] := by
      simp [ClusterState.after, ClusterState.default, ClusterState.history]
    rw [none, empty]
    refine ⟨by simp, ?_, by simp, by simp, ?_⟩
    · intro old parts
      obtain ⟨front, before, found⟩ := parts
      rw [List.prefix_nil.mp before, none] at found
      cases found
    · intro version parts
      obtain ⟨_, _, ⟨⟩, -⟩ := parts
  | append_singleton inputs input ih =>
    obtain ⟨readings, cmd⟩ := input
    have before := ih ascending.front room.front
    have grown := before.step
      (applyCommand_jobStep readings cmd (ClusterState.after inputs) jobId)
      (by
        intro job same same'
        obtain rfl := same
        obtain rfl := same'
        exact ascending inputs readings job (List.prefix_refl _))
      (room inputs readings cmd jobId (List.prefix_refl _))
    rw [← ClusterState.after_concat] at grown
    exact grown.congr (fun _ => held_concat) fun _ => submitted_concat

/-- After a run, a rollback to a version succeeds and makes the job of what it was made of whenever
it had that version. -/
def Restores (inputs : List (Readings × ClusterCommand)) (jobId : String) (version : UInt64) :
    Prop :=
  ∀ readings, ∃ job,
    (applyCommand readings (.rollbackJob jobId version) (ClusterState.after inputs)).1 = .job job ∧
    (applyCommand readings (.rollbackJob jobId version)
      (ClusterState.after inputs)).2.jobs[jobId]? = some job ∧
    ∀ old, Held inputs jobId old → old.version = version →
      job.groups = old.groups ∧ job.constraints = old.constraints ∧ job.meta = old.meta

/-- A rollback of a run that succeeds moves the version of its job on. -/
def RollbacksAdvance (inputs : List (Readings × ClusterCommand)) : Prop :=
  ∀ front readings jobId version new, front ++ [(readings, .rollbackJob jobId version)] <+: inputs →
    (applyCommand readings (.rollbackJob jobId version) (ClusterState.after front)).1 = .job new →
    ∀ old, (ClusterState.after front).jobs[jobId]? = some old → old.version < new.version

/-- A command of a run that alters the status of a job moves its version on, among the commands that
are looked at. -/
def StatusChangesAdvance (inputs : List (Readings × ClusterCommand))
    (among : ClusterCommand → Prop) : Prop :=
  ∀ front readings cmd (jobId : String) (old new : Job),
    front ++ [(readings, cmd)] <+: inputs → among cmd →
    (ClusterState.after front).jobs[jobId]? = some old →
    (ClusterState.after (front ++ [(readings, cmd)])).jobs[jobId]? = some new →
    old.status ≠ new.status → old.version < new.version

/-- A history that is true to a run restores every version it has an entry of. -/
theorem Recorded.restores {inputs : List (Readings × ClusterCommand)} {jobId : String}
    (recorded : Recorded (ClusterState.after inputs).jobs[jobId]?
      ((ClusterState.after inputs).history jobId) (Held inputs jobId) (Submitted inputs jobId))
    {version : UInt64} (submitted : Submitted inputs jobId version) :
    Restores inputs jobId version := by
  -- The entry is found, and what is found describes the job as it was.
  intro readings
  obtain ⟨entry, inside, at_⟩ := recorded.found version submitted
  obtain ⟨job, found, -⟩ := recorded.entry_le entry inside
  obtain ⟨target, isTarget⟩ : ∃ target,
      (ClusterState.after inputs).rollbackTarget jobId version = some target := by
    have some_ : ((ClusterState.after inputs).history jobId).find?
        (fun entry => entry.version == version) ≠ none := by
      intro none
      exact List.find?_eq_none.mp none entry inside (by simp [at_])
    obtain ⟨target, located⟩ := Option.ne_none_iff_exists'.mp some_
    refine ⟨target, ?_⟩
    unfold ClusterState.history at located
    unfold ClusterState.rollbackTarget
    cases listed : (ClusterState.after inputs).jobHistory[jobId]? with
    | none => simp [listed] at located
    | some history => simpa [listed] using located
  have listed : target ∈ (ClusterState.after inputs).history jobId ∧ target.version = version := by
    unfold ClusterState.rollbackTarget at isTarget
    obtain ⟨history, listed, located⟩ := Option.bind_eq_some_iff.mp isTarget
    refine ⟨?_, by simpa using List.find?_some located⟩
    simpa [ClusterState.history, listed] using List.mem_of_find?_eq_some located
  simp only [applyCommand, ClusterState.rollbackJob, isTarget, found, ClusterState.emit]
  refine ⟨_, rfl, by simp, fun old held same => ?_⟩
  exact recorded.describes target listed.1 old held (same.trans listed.2.symm)

/-- A rollback that succeeds moves the version of its job on, if there is room. -/
theorem HasRoom.rollbacksAdvance {inputs : List (Readings × ClusterCommand)}
    (room : HasRoom inputs) : RollbacksAdvance inputs := by
  intro front readings jobId version new before answered old found
  have next := lt_succ_of_room
    (room front readings _ jobId before (.inr ⟨version, rfl⟩) old found)
  -- The job in the answer is the one that was found, one version later.
  simp only [applyCommand, ClusterState.rollbackJob, found] at answered
  split at answered
  · cases answered
    exact next
  · cases answered

/-- A status update that alters the status moves the version of its job on, if there is room. -/
theorem HasRoom.statusChangesAdvance {inputs : List (Readings × ClusterCommand)}
    (room : HasRoom inputs) :
    StatusChangesAdvance inputs fun cmd => ∃ jobId status, cmd = .updateJobStatus jobId status := by
  intro front readings _ jobId old new before parts found found' differ
  obtain ⟨updated, status, rfl⟩ := parts
  rw [ClusterState.after_concat] at found'
  have step := applyCommand_jobStep readings (.updateJobStatus updated status)
    (ClusterState.after front) jobId
  rw [found, found'] at step
  -- The step is an advance of this job, or it has altered nothing.
  generalize (ClusterState.after front).history jobId = history at step
  cases step with
  | advanced _ _ moves version =>
    rw [version]
    exact lt_succ_of_room (room front readings _ jobId before moves old found)
  | kept other => exact absurd rfl differ

/-- A rollback restores every version that was submitted, and the version of a job goes up with
every rollback and with every status update that alters the status. -/
theorem rollback_restores_submitted (inputs : List (Readings × ClusterCommand))
    (ascending : Ascending inputs) (room : HasRoom inputs) :
    (∀ jobId version, Submitted inputs jobId version → Restores inputs jobId version) ∧
      RollbacksAdvance inputs ∧
      StatusChangesAdvance inputs fun cmd =>
        ∃ jobId status, cmd = .updateJobStatus jobId status :=
  -- The history is true to the run.
  ⟨fun jobId _ => (recorded_after ascending room jobId).restores, room.rollbacksAdvance,
    room.statusChangesAdvance⟩

/-- A job without groups. -/
def plainJob : Job where
  id := "job"
  version := 1
  jobType := .service
  status := .pending
  submittedAt := ⟨0⟩
  groups := []
  constraints := []
  «meta» := ∅
  specHash := none

/-- A job is submitted, and then it runs. -/
def startedJob : List (Readings × ClusterCommand) :=
  [(.still ⟨0⟩, .putJob plainJob), (.still ⟨0⟩, .updateJobStatus "job" .running)]

/-- The first submission of a run finds no job, and no later command of this run submits one. -/
theorem ascending_startedJob : Ascending startedJob := by
  intro front readings job parts current found
  obtain ⟨rest, split⟩ := parts
  -- The submission can only be the first command.
  cases front with
  | nil => simp [ClusterState.after, ClusterState.default] at found
  | cons first front =>
    cases front with
    | nil => simp [startedJob] at split
    | cons second front => simp [startedJob] at split

/-- A job that runs can be rolled back to the version that was submitted. -/
theorem rollback_restores_startedJob : Restores startedJob "job" 1 := by
  have room : HasRoom startedJob := by
    intro front readings cmd jobId parts moves current found
    obtain ⟨rest, split⟩ := parts
    cases front with
    | nil => simp [ClusterState.after, ClusterState.default] at found
    | cons first front =>
      -- The status update finds the job at its first version.
      simp only [startedJob, List.append_assoc, List.cons_append, List.cons.injEq] at split
      obtain ⟨rfl, split⟩ := split
      obtain ⟨rfl, rfl⟩ : front = [] ∧ cmd = .updateJobStatus "job" .running := by
        cases front with
        | nil =>
          simp only [List.nil_append, List.cons.injEq, Prod.mk.injEq] at split
          exact ⟨rfl, split.1.2⟩
        | cons second front => simp at split
      obtain rfl : jobId = "job" := by
        rcases moves with ⟨_, same⟩ | ⟨_, ⟨⟩⟩
        injection same with named
        exact named.symm
      have version : (ClusterState.after [(.still ⟨0⟩, .putJob plainJob)]).jobs["job"]?.map
          Job.version = some 1 := by decide +kernel
      rw [found, Option.map_some, Option.some.injEq] at version
      rw [version]
      decide
  exact (rollback_restores_submitted startedJob ascending_startedJob room).1 "job" 1
    ⟨.still ⟨0⟩, plainJob, by simp [startedJob], rfl, rfl⟩

/-- A history that restores every version a job has held, with versions that go up with every
rollback and with every change of status. -/
structure KeepsHistory (inputs : List (Readings × ClusterCommand)) : Prop where
  restores : ∀ jobId job, Held inputs jobId job → Restores inputs jobId job.version
  rollbacks : RollbacksAdvance inputs
  statusChanges : StatusChangesAdvance inputs fun _ => True

/-- The version that a status update brings has no entry, so there is no way back to it. -/
theorem not_keepsHistory_startedJob : ¬ ∀ inputs, Ascending inputs → KeepsHistory inputs := by
  -- The running job has the second version, and the history knows the first one only.
  intro always
  have second : (ClusterState.after startedJob).jobs["job"]?.map Job.version = some 2 := by
    decide +kernel
  obtain ⟨job, found, version⟩ := Option.map_eq_some_iff.mp second
  have restores := (always startedJob ascending_startedJob).restores "job" job
    ⟨startedJob, List.prefix_refl _, found⟩
  obtain ⟨_, answered, -⟩ := restores (.still ⟨0⟩)
  rw [version] at answered
  have refused : ((ClusterState.after startedJob).rollbackTarget "job" 2).isNone = true := by
    decide +kernel
  rw [Option.isNone_iff_eq_none] at refused
  simp [applyCommand, ClusterState.rollbackJob, refused] at answered

end Tatara.Cluster
