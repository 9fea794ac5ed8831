import Tatara.Cluster.StateMachine
import Mathlib.Data.List.Induction

/-! When what the cluster records of an allocation is the latest that was observed of it. -/

namespace Tatara.Cluster

open Tatara.Rust Tatara.Domain

/-- What a node reports of an allocation. -/
structure Report where
  nodeId : NodeId
  allocId : Uuid
  phase : AllocationPhase
  observationSeq : UInt64

namespace Report

/-- The record of a report that was applied at some time. -/
def recordedAt (report : Report) (time : DateTime) : ObservedAllocationState where
  allocId := report.allocId
  nodeId := renderU64 report.nodeId
  phase := report.phase
  observedAt := time
  observationSeq := report.observationSeq

/-- The reports that a command carries. -/
def ofCommand : ClusterCommand → List Report
  | .reportObservation nodeId allocId phase observationSeq =>
    [⟨nodeId, allocId, phase, observationSeq⟩]
  | .batchObservations nodeId observations observationSeq =>
    observations.map fun (allocId, phase) => ⟨nodeId, allocId, phase, observationSeq⟩
  | _ => []

/-- The reports that an entry of the log carries. -/
def ofEntry (entry : Entry) : List Report :=
  match entry.payload with
  | .normal cmd => ofCommand cmd
  | _ => []

/-- The reports of a log that are about one allocation. -/
def about (allocId : Uuid) (log : List Entry) : List Report :=
  (log.flatMap ofEntry).filter fun report => report.allocId = allocId

/-- The reports about an allocation in a log and in one more entry. -/
theorem about_concat (allocId : Uuid) (log : List Entry) (entry : Entry) :
    about allocId (log ++ [entry]) =
      about allocId log ++ (ofEntry entry).filter fun report => report.allocId = allocId := by
  -- The reports of the new entry follow those of the log.
  simp [about]

/-- All reports of one command carry one sequence number. -/
theorem ofCommand_seq {cmd : ClusterCommand} {report report' : Report}
    (first : report ∈ ofCommand cmd) (second : report' ∈ ofCommand cmd) :
    report.observationSeq = report'.observationSeq := by
  -- A single report is alone, and a batch gives its own number to all of its reports.
  cases cmd with
  | reportObservation nodeId allocId phase observationSeq =>
    rw [List.mem_singleton.mp first, List.mem_singleton.mp second]
  | batchObservations nodeId observations observationSeq =>
    obtain ⟨_, _, rfl⟩ := List.mem_map.mp first
    obtain ⟨_, _, rfl⟩ := List.mem_map.mp second
    rfl
  | _ => cases first

/-- All reports of one entry carry one sequence number. -/
theorem ofEntry_seq {entry : Entry} {report report' : Report} (first : report ∈ ofEntry entry)
    (second : report' ∈ ofEntry entry) : report.observationSeq = report'.observationSeq := by
  -- Only a command carries reports.
  obtain ⟨logId, payload⟩ := entry
  cases payload with
  | normal cmd => exact ofCommand_seq first second
  | _ => cases first

end Report

/-- What is recorded of each allocation is the last report about it. -/
def RecordsLast (observed : Std.ExtTreeMap Uuid ObservedAllocationState) (reports : List Report) :
    Prop :=
  -- An allocation without reports has no record.
  ∀ allocId,
    match (reports.filter fun report => report.allocId = allocId).getLast? with
    | none => observed[allocId]? = none
    | some report => ∃ time, observed[allocId]? = some (report.recordedAt time)

/-- What is recorded of each allocation is the report with the largest sequence number among those
about it. -/
def RecordsLatest (observed : Std.ExtTreeMap Uuid ObservedAllocationState)
    (reports : List Report) : Prop :=
  -- Reports with equal numbers are equally late, and any of them may be recorded.
  ∀ allocId,
    match observed[allocId]? with
    | none => ∀ report ∈ reports, report.allocId ≠ allocId
    | some record => ∃ report ∈ reports, ∃ time, report.allocId = allocId ∧
      record = report.recordedAt time ∧
      ∀ other ∈ reports, other.allocId = allocId → other.observationSeq ≤ report.observationSeq

/-- Where the latest report is recorded, the last one has the largest sequence number. -/
theorem RecordsLatest.le_last {observed : Std.ExtTreeMap Uuid ObservedAllocationState}
    {reports : List Report} (latest : RecordsLatest observed reports)
    (recorded : RecordsLast observed reports) {allocId : Uuid} {last other : Report}
    (isLast : (reports.filter fun report => report.allocId = allocId).getLast? = some last)
    (member : other ∈ reports) (about : other.allocId = allocId) :
    other.observationSeq ≤ last.observationSeq := by
  have stored := recorded allocId
  rw [isLast] at stored
  obtain ⟨time, stored⟩ := stored
  have largest := latest allocId
  rw [stored] at largest
  obtain ⟨report, -, _, -, same, largest⟩ := largest
  -- The record names its sequence number, so the last report has the largest one.
  have seq : last.observationSeq = report.observationSeq :=
    congrArg ObservedAllocationState.observationSeq same
  rw [seq]
  exact largest other member about

/-- Where the latest report is recorded, more reports never lower the recorded number. -/
theorem RecordsLatest.seq_le {observed observed' : Std.ExtTreeMap Uuid ObservedAllocationState}
    {reports reports' : List Report} (first : RecordsLatest observed reports)
    (second : RecordsLatest observed' reports') (grown : reports ⊆ reports') {allocId : Uuid}
    {record record' : ObservedAllocationState} (found : observed[allocId]? = some record)
    (found' : observed'[allocId]? = some record') :
    record.observationSeq ≤ record'.observationSeq := by
  -- The report behind the first record competes for the second one.
  have earlier := first allocId
  have later := second allocId
  rw [found] at earlier
  rw [found'] at later
  obtain ⟨report, member, _, about, rfl, -⟩ := earlier
  obtain ⟨report', -, _, -, rfl, largest⟩ := later
  exact largest report (grown member) about

/-- Where reports about an allocation come in the order of their numbers, the last one is the
latest. -/
theorem recordsLatest_of_pairwise {observed : Std.ExtTreeMap Uuid ObservedAllocationState}
    {reports : List Report} (recorded : RecordsLast observed reports)
    (ordered : ∀ allocId, (reports.filter fun report => report.allocId = allocId).Pairwise
      fun earlier later => earlier.observationSeq ≤ later.observationSeq) :
    RecordsLatest observed reports := by
  -- An ordered list has its largest element at the end.
  intro allocId
  have stored := recorded allocId
  have ordered := ordered allocId
  rcases List.eq_nil_or_concat (reports.filter fun report => report.allocId = allocId) with
    empty | ⟨front, last, split⟩
  · -- Nothing is recorded, and there is no report that could have been.
    rw [empty] at stored
    simp only [List.getLast?_nil] at stored
    rw [stored]
    intro report member about
    exact List.filter_eq_nil_iff.mp empty report member (by simpa using about)
  · -- The last report is recorded, and the others come before it.
    rw [split] at stored ordered
    simp only [List.concat_eq_append, List.getLast?_concat] at stored
    obtain ⟨time, stored⟩ := stored
    rw [stored]
    have inside : last ∈ reports.filter fun report => report.allocId = allocId := by
      simp [split]
    simp only [List.mem_filter, decide_eq_true_eq] at inside
    refine ⟨last, inside.1, time, inside.2, rfl, fun other member about => ?_⟩
    have listed : other ∈ front.concat last := by
      rw [← split]
      simp [member, about]
    rw [List.concat_eq_append, List.mem_append, List.mem_singleton] at listed
    rw [List.concat_eq_append, List.pairwise_append] at ordered
    rcases listed with before | rfl
    · exact ordered.2.2 other before last (by simp)
    · exact UInt64.le_refl _

/-- An observation becomes the last report about its allocation. -/
theorem RecordsLast.observe {state : ClusterState} {reports : List Report}
    (recorded : RecordsLast state.observedAllocations reports) (nodeId : NodeId) (allocId : Uuid)
    (phase : AllocationPhase) (time : DateTime) (observationSeq : UInt64) :
    RecordsLast (state.observe nodeId allocId phase time observationSeq).observedAllocations
      (reports ++ [⟨nodeId, allocId, phase, observationSeq⟩]) := by
  -- The insertion decides about its own allocation and leaves the others as they were.
  intro other
  simp only [ClusterState.observe, Std.ExtTreeMap.getElem?_insert,
    Std.LawfulEqOrd.compare_eq_iff_eq, List.filter_append]
  by_cases same : allocId = other
  · simp only [same, List.filter_cons, decide_true, if_true, List.filter_nil,
      List.getLast?_concat]
    exact ⟨time, rfl⟩
  · simpa [same] using recorded other

/-- A batch adds its reports one after the other. -/
theorem RecordsLast.observeAll {readings : Readings} {nodeId : NodeId} {observationSeq : UInt64}
    {observations : List (Uuid × AllocationPhase)} {reads : Nat} {state : ClusterState}
    {reports : List Report} (recorded : RecordsLast state.observedAllocations reports) :
    RecordsLast
      (state.observeAll readings nodeId observationSeq reads observations).observedAllocations
      (reports ++ observations.map fun (allocId, phase) =>
        ⟨nodeId, allocId, phase, observationSeq⟩) := by
  -- Each turn of the loop adds one report behind those before it.
  induction observations generalizing reads state reports with
  | nil =>
    rw [List.map_nil, List.append_nil]
    exact recorded
  | cons observation observations ih =>
    obtain ⟨allocId, phase⟩ := observation
    rw [List.map_cons, List.append_cons]
    exact ih (recorded.observe nodeId allocId phase (readings.now reads) observationSeq)

/-- A command without reports does not touch what is recorded. -/
theorem applyCommand_observed {cmd : ClusterCommand} (none : Report.ofCommand cmd = [])
    (readings : Readings) (state : ClusterState) :
    (applyCommand readings cmd state).2.observedAllocations = state.observedAllocations := by
  -- Only a batch without observations could write records and carries no report.
  cases cmd with
  | reportObservation => cases none
  | batchObservations nodeId observations observationSeq =>
    rw [List.map_eq_nil_iff.mp none]
    rfl
  | _ => exact (applyCommand_sameBut readings _ state).observedAllocations rfl

namespace StateMachineData

/-- Applying an entry adds its reports to those that are recorded. -/
theorem applyEntry_recordsLast (readings : Readings) (entry : Entry) {data : StateMachineData}
    {reports : List Report}
    (recorded : RecordsLast data.clusterState.observedAllocations reports) :
    RecordsLast (applyEntry readings entry data).2.clusterState.observedAllocations
      (reports ++ Report.ofEntry entry) := by
  -- Entries without reports leave the records, and so do commands that carry none.
  obtain ⟨logId, payload⟩ := entry
  cases payload with
  | blank => exact (List.append_nil reports).symm ▸ recorded
  | membership membership => exact (List.append_nil reports).symm ▸ recorded
  | normal cmd =>
    by_cases none : Report.ofCommand cmd = []
    · simp only [Report.ofEntry, none, List.append_nil, applyEntry, applyCommand_observed none]
      exact recorded
    · cases cmd with
      | reportObservation nodeId allocId phase observationSeq =>
        exact recorded.observe nodeId allocId phase (readings.now 0) observationSeq
      | batchObservations nodeId observations observationSeq => exact recorded.observeAll
      | _ => exact absurd rfl none

/-- What is recorded after a run is the last report about each allocation. -/
theorem apply_recordsLast (inputs : List (Readings × Entry)) :
    RecordsLast (default.apply inputs).2.clusterState.observedAllocations
      ((inputs.map Prod.snd).flatMap Report.ofEntry) := by
  -- The run grows at its end, where the last entry adds its reports to those before.
  induction inputs using List.reverseRecOn with
  | nil =>
    intro allocId
    exact Std.ExtTreeMap.getElem?_empty
  | append_singleton inputs input ih =>
    obtain ⟨readings, entry⟩ := input
    have added := applyEntry_recordsLast readings entry ih
    simpa [apply, Machine.run_append] using added

/-- What a run from the start has recorded of the allocations. -/
def observedAfter (inputs : List (Readings × Entry)) :
    Std.ExtTreeMap Uuid ObservedAllocationState :=
  (default.apply inputs).2.clusterState.observedAllocations

/-- Observations never go back in a run: after every part of it the latest report is recorded, and
the recorded sequence number of an allocation does not decrease. -/
structure NeverGoesBack (inputs : List (Readings × Entry)) : Prop where
  latest : ∀ front, front <+: inputs →
    RecordsLatest (observedAfter front) ((front.map Prod.snd).flatMap Report.ofEntry)
  grows : ∀ front later (allocId : Uuid) (record record' : ObservedAllocationState),
    front <+: later → later <+: inputs →
    (observedAfter front)[allocId]? = some record →
    (observedAfter later)[allocId]? = some record' →
    record.observationSeq ≤ record'.observationSeq

/-- Where the latest report is recorded after every part of a run, the reports about an allocation
reach the log in the order of their sequence numbers. -/
theorem about_pairwise {inputs : List (Readings × Entry)}
    (latest : ∀ front, front <+: inputs →
      RecordsLatest (observedAfter front) ((front.map Prod.snd).flatMap Report.ofEntry))
    (allocId : Uuid) :
    (Report.about allocId (inputs.map Prod.snd)).Pairwise
      fun earlier later => earlier.observationSeq ≤ later.observationSeq := by
  -- The log is taken apart from its end, where the whole run is compared with its last entry.
  induction inputs using List.reverseRecOn with
  | nil => exact .nil
  | append_singleton inputs input ih =>
    rw [List.map_append, List.map_singleton, Report.about_concat, List.pairwise_append]
    refine ⟨ih fun front before => latest front (before.trans (List.prefix_append _ _)), ?_, ?_⟩
    · -- One entry has one sequence number.
      refine List.pairwise_of_forall_mem_list fun first inside second inside' => ?_
      rw [Report.ofEntry_seq (List.mem_filter.mp inside).1 (List.mem_filter.mp inside').1]
      exact UInt64.le_refl _
    · intro earlier before later after
      -- The last report is one of this entry, and no earlier one has a larger number.
      obtain ⟨last, isLast⟩ := Option.ne_none_iff_exists'.mp
        (mt List.getLast?_eq_none_iff.mp (List.ne_nil_of_mem after))
      have inEntry := (List.mem_filter.mp (List.mem_of_getLast? isLast)).1
      obtain ⟨inLog, about⟩ := List.mem_filter.mp before
      rw [Report.ofEntry_seq (List.mem_filter.mp after).1 inEntry]
      refine (latest (inputs ++ [input]) (List.prefix_refl _)).le_last
        (apply_recordsLast (inputs ++ [input])) ?_ ?_ (of_decide_eq_true about)
      · simp only [List.map_append, List.map_singleton, List.flatMap_append,
          List.flatMap_singleton, List.filter_append, List.getLast?_append, isLast]
        rfl
      · rw [List.map_append, List.flatMap_append]
        exact List.mem_append_left _ inLog

/-- Observations never go back in a run exactly when the reports about each allocation reach the log
in the order of their sequence numbers. -/
theorem neverGoesBack_iff (inputs : List (Readings × Entry)) :
    NeverGoesBack inputs ↔
      ∀ allocId, (Report.about allocId (inputs.map Prod.snd)).Pairwise
        fun earlier later => earlier.observationSeq ≤ later.observationSeq := by
  constructor
  · intro kept allocId
    exact about_pairwise kept.latest allocId
  · intro ordered
    have latest : ∀ front, front <+: inputs →
        RecordsLatest (observedAfter front) ((front.map Prod.snd).flatMap Report.ofEntry) := by
      rintro front ⟨rest, rfl⟩
      -- The reports of a part come in order as well.
      refine recordsLatest_of_pairwise (apply_recordsLast front) fun allocId => ?_
      have all := ordered allocId
      simp only [Report.about, List.map_append, List.flatMap_append, List.filter_append,
        List.pairwise_append] at all
      exact all.1
    refine ⟨latest, fun front later allocId record record' before part found found' => ?_⟩
    -- What was recorded earlier is still among the reports.
    refine (latest front (before.trans part)).seq_le (latest later part) ?_ found found'
    obtain ⟨rest, rfl⟩ := before
    rw [List.map_append, List.flatMap_append]
    exact List.subset_append_left _ _

/-- A report of the first node about one allocation. -/
def report (index observationSeq : UInt64) : Readings × Entry :=
  (.still ⟨0⟩,
    ⟨⟨⟨1, 1⟩, index⟩, .normal (.reportObservation 1 7 .initial observationSeq)⟩)

/-- A report that was delayed on its way to the log replaces a later one, so observations can go
back. -/
theorem goesBack_delayed : ¬ ∀ inputs, NeverGoesBack inputs := by
  -- The second report comes before the first.
  intro always
  have newer : (observedAfter [report 0 2])[(7 : Uuid)]?.map
      ObservedAllocationState.observationSeq = some 2 := by decide +kernel
  have older : (observedAfter [report 0 2, report 1 1])[(7 : Uuid)]?.map
      ObservedAllocationState.observationSeq = some 1 := by decide +kernel
  obtain ⟨record, found, seq⟩ := Option.map_eq_some_iff.mp newer
  obtain ⟨record', found', seq'⟩ := Option.map_eq_some_iff.mp older
  have grows := (always [report 0 2, report 1 1]).grows [report 0 2] [report 0 2, report 1 1] 7
    record record' ⟨[report 1 1], rfl⟩ (List.prefix_refl _) found found'
  rw [seq, seq'] at grows
  exact absurd grows (by decide)

end StateMachineData

end Tatara.Cluster
