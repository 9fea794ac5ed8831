import Tatara.Lib.Fallible
import Tatara.Lib.Kahn

/-! The order in which jobs are brought up, by the dependencies between them. -/

namespace Tatara.Domain

open Tatara.Digraph Tatara.Kahn

/-- The orders in which the `HashMap`s yield their entries, which can be any. -/
structure DagIteration where
  dependencies : Std.ExtTreeMap String (List String) → List (String × List String)
  inDegree : Std.ExtTreeMap String Nat → List (String × Nat)
  perm_dependencies : ∀ entries, (dependencies entries).Perm entries.toList
  perm_inDegree : ∀ entries, (inDegree entries).Perm entries.toList

/-- What the dependencies are read into: for each job the number of jobs that it depends on, and
those that depend on it. -/
structure DagLinks where
  inDegree : Std.ExtTreeMap String Nat
  adj : Std.ExtTreeMap String (List String)

namespace DagLinks

/-- Every job has its entries to begin with. -/
def start (jobIds : List String) : DagLinks where
  inDegree := jobIds.foldl (fun counts id => counts.insertIfNew id 0) ∅
  adj := jobIds.foldl (fun targets id => targets.insertIfNew id []) ∅

/-- Note that a job depends on another one. A job that was not listed gets a counter by this. -/
def note (s : DagLinks) (arc : String × String) : DagLinks where
  adj := s.adj.insert arc.1 (s.adj[arc.1]?.getD [] ++ [arc.2])
  inDegree := s.inDegree.insert arc.2 (s.inDegree[arc.2]?.getD 0 + 1)

/-- The error for a dependency on a job that was not listed. -/
def unknownJob (jobId dep : String) : String :=
  "job '" ++ jobId ++ "' depends on unknown job '" ++ dep ++ "'"

/-- Note a dependency, which has to be on a job that was listed. -/
def link (jobIds : List String) (jobId : String) (s : DagLinks) (dep : String) :
    Except (List String) DagLinks :=
  if dep ∉ jobIds then .error [unknownJob jobId dep] else .ok (s.note (dep, jobId))

/-- Note all dependencies of all jobs. -/
def build (jobIds : List String) (entries : List (String × List String)) :
    Except (List String) DagLinks :=
  entries.foldlM (fun s (jobId, deps) => deps.foldlM (link jobIds jobId) s) (start jobIds)

/-- Where the loop over the jobs ends that wait for nothing. -/
def kahnEnd (iteration : DagIteration) (links : DagLinks) : State String :=
  let queue := ((iteration.inDegree links.inDegree).filter fun entry => entry.2 = 0).map Prod.fst
  State.loop links.adj links.inDegree.size { inDegree := links.inDegree, queue, order := [] }

end DagLinks

/-- An order of the jobs, or an error with the jobs that have found no place in it. -/
def topologicalSort (iteration : DagIteration) (jobIds : List String)
    (dependencies : Std.ExtTreeMap String (List String)) : Except (List String) (List String) := do
  let links ← DagLinks.build jobIds (iteration.dependencies dependencies)
  let s := links.kahnEnd iteration
  -- The jobs are counted as they were listed.
  if s.order.length = jobIds.length then return s.order
  else
    let cycle := (iteration.inDegree s.inDegree).filter fun entry => 0 < entry.2
    throw (cycle.map Prod.fst)

/-- The dependencies, each with the job that has it. -/
def dependencyArcs (entries : List (String × List String)) : List (String × String) :=
  entries.flatMap fun entry => entry.2.map fun dep => (dep, entry.1)

namespace DagLinks

/-- The dependencies are noted one after the other, up to the first one on an unknown job. -/
theorem build_eq (jobIds : List String) (entries : List (String × List String)) :
    build jobIds entries =
      (dependencyArcs entries).foldlM (fun s arc => link jobIds arc.2 s arc.1) (start jobIds) := by
  -- The inner loop goes over the dependencies of one job, whose arcs are the next ones.
  unfold build
  generalize start jobIds = s
  induction entries generalizing s with
  | nil => rfl
  | cons entry rest ih =>
    rw [List.foldlM_cons, dependencyArcs, List.flatMap_cons, List.foldlM_append, List.foldlM_map]
    exact congrArg _ (funext ih)

/-- Every dependency is on a listed job and all of them are noted, or one of them is reported. -/
theorem build_cases (jobIds : List String) (entries : List (String × List String)) :
    (∀ arc ∈ dependencyArcs entries, arc.1 ∈ jobIds) ∧
        build jobIds entries = .ok ((dependencyArcs entries).foldl note (start jobIds)) ∨
      ∃ arc ∈ dependencyArcs entries, arc.1 ∉ jobIds ∧
        build jobIds entries = .error [unknownJob arc.2 arc.1] := by
  -- The induction goes along the arcs, up to the first one that is refused.
  rw [build_eq]
  generalize start jobIds = s
  induction dependencyArcs entries generalizing s with
  | nil => exact .inl ⟨by simp, rfl⟩
  | cons arc arcs ih =>
    by_cases listed : arc.1 ∈ jobIds
    · have step : link jobIds arc.2 s arc.1 = .ok (s.note arc) := if_neg (not_not.mpr listed)
      rw [List.foldlM_cons, step]
      rcases ih (s.note arc) with ⟨known, noted⟩ | ⟨other, among, unknown, failed⟩
      · exact .inl ⟨List.forall_mem_cons.mpr ⟨listed, known⟩, noted⟩
      · exact .inr ⟨other, List.mem_cons_of_mem arc among, unknown, failed⟩
    · have step : link jobIds arc.2 s arc.1 = .error [unknownJob arc.2 arc.1] := if_pos listed
      rw [List.foldlM_cons, step]
      exact .inr ⟨arc, List.mem_cons_self, listed, rfl⟩

end DagLinks

section

variable (jobIds : List String) (dependencies : Std.ExtTreeMap String (List String))

/-- A job names another one among its dependencies. -/
def DependsOn (dep job : String) : Prop := ∃ deps, dependencies[job]? = some deps ∧ dep ∈ deps

/-- Every dependency is on a job that was listed. -/
def DependenciesListed : Prop := ∀ dep job, DependsOn dependencies dep job → dep ∈ jobIds

/-- The dependencies of listed jobs on listed jobs. -/
def ListedDependsOn (dep job : String) : Prop :=
  dep ∈ jobIds ∧ job ∈ jobIds ∧ DependsOn dependencies dep job

/-- What a topological sort of the jobs is to return. -/
structure SortsJobs (result : Except (List String) (List String)) : Prop where
  accepts : (∃ order, result = .ok order) ↔
    DependenciesListed jobIds dependencies ∧ Acyclic (ListedDependsOn jobIds dependencies)
  sorts : ∀ order, result = .ok order → order.Perm jobIds ∧
    ∀ job ∈ jobIds, ∀ dep, DependsOn dependencies dep job → order.idxOf dep < order.idxOf job
  -- Without unknown jobs, an error is one about a cycle.
  reports : ∀ nodes, result = .error nodes → DependenciesListed jobIds dependencies →
    ∀ job, job ∈ nodes ↔ BehindCircle (ListedDependsOn jobIds dependencies) job

/-- The jobs that have dependencies without being listed. -/
def strays : List String :=
  (dependencies.toList.filter fun entry => entry.1 ∉ jobIds ∧ entry.2 ≠ []).map Prod.fst

/-- How many of the listed jobs are listed before. -/
def repeats : Nat := jobIds.length - jobIds.dedup.length

/-- A job that the sort has a counter for. -/
def IsNode (job : String) : Prop := job ∈ jobIds ∨ ∃ dep, DependsOn dependencies dep job

/-- Where the length of the order tells whether it is complete. -/
def LengthsTell : Prop :=
  ¬ DependenciesListed jobIds dependencies ∨
    Acyclic (ListedDependsOn jobIds dependencies) ∧ jobIds.Nodup ∧ strays jobIds dependencies = [] ∨
      ¬ Acyclic (ListedDependsOn jobIds dependencies) ∧
        (∀ job ∈ strays jobIds dependencies, ∀ dep, DependsOn dependencies dep job →
          ¬ BehindCircle (ListedDependsOn jobIds dependencies) dep) ∧
        (strays jobIds dependencies).length ≠
          {job | BehindCircle (ListedDependsOn jobIds dependencies) job}.ncard + repeats jobIds

end

section

variable {jobIds : List String} {dependencies : Std.ExtTreeMap String (List String)}
  {iteration : DagIteration}

/-- The strays are the jobs with dependencies that are not in the list. -/
theorem mem_strays {job : String} :
    job ∈ strays jobIds dependencies ↔ job ∉ jobIds ∧ ∃ dep, DependsOn dependencies dep job := by
  -- An entry with an empty list is no dependency.
  simp only [strays, List.mem_map, List.mem_filter, Prod.exists, decide_eq_true_iff,
    Std.ExtTreeMap.mem_toList_iff_getElem?_eq_some, exists_and_right, exists_eq_right, DependsOn]
  constructor
  · rintro ⟨deps, found, unlisted, some_⟩
    obtain ⟨dep, rest, rfl⟩ := List.exists_cons_of_ne_nil some_
    exact ⟨unlisted, dep, _, found, List.mem_cons_self⟩
  · rintro ⟨unlisted, dep, deps, found, among⟩
    exact ⟨deps, found, unlisted, List.ne_nil_of_mem among⟩

/-- No job strays twice. -/
theorem nodup_strays : (strays jobIds dependencies).Nodup := by
  -- They are some of the keys of a map.
  have keys : (dependencies.toList.map Prod.fst).Nodup := by
    rw [Std.ExtTreeMap.map_fst_toList_eq_keys]
    exact Std.ExtTreeMap.nodup_keys
  exact keys.sublist (List.filter_sublist.map Prod.fst)

/-- The arcs are the dependencies, in whatever order the map yields them. -/
theorem mem_dependencyArcs {dep job : String} :
    (dep, job) ∈ dependencyArcs (iteration.dependencies dependencies) ↔
      DependsOn dependencies dep job := by
  -- The order of the entries does not matter for membership.
  simp only [dependencyArcs, List.mem_flatMap, List.mem_map, Prod.exists, Prod.mk.injEq,
    (iteration.perm_dependencies dependencies).mem_iff,
    Std.ExtTreeMap.mem_toList_iff_getElem?_eq_some, DependsOn]
  constructor
  · rintro ⟨_, deps, found, _, among, rfl, rfl⟩
    exact ⟨deps, found, among⟩
  · rintro ⟨deps, found, among⟩
    exact ⟨job, deps, found, dep, among, rfl, rfl⟩

/-- A job has an arc to it where it depends on one. -/
theorem exists_arc_iff {job : String} :
    (∃ arc ∈ dependencyArcs (iteration.dependencies dependencies), arc.2 = job) ↔
      ∃ dep, DependsOn dependencies dep job := by
  constructor
  · rintro ⟨⟨dep, _⟩, among, rfl⟩
    exact ⟨dep, mem_dependencyArcs.mp among⟩
  · rintro ⟨dep, depends⟩
    exact ⟨(dep, job), mem_dependencyArcs.mpr depends, rfl⟩

section Listed

variable (listed : DependenciesListed jobIds dependencies)
include listed

/-- What a path starts with is a listed job. -/
theorem listedDependsOn_of_transGen {a b : String}
    (path : Relation.TransGen (DependsOn dependencies) a b) (target : b ∈ jobIds) :
    Relation.TransGen (ListedDependsOn jobIds dependencies) a b := by
  -- Every node of the path but the last one is a dependency, and these are listed.
  induction path with
  | single step => exact .single ⟨listed _ _ step, target, step⟩
  | tail _ step ih =>
    have source := listed _ _ step
    exact .tail (ih source) ⟨source, target, step⟩

/-- The circles behind a listed job are of listed jobs. -/
theorem behindCircle_listed_iff {job : String} :
    BehindCircle (ListedDependsOn jobIds dependencies) job ↔
      job ∈ jobIds ∧ BehindCircle (DependsOn dependencies) job := by
  -- Circle and path are kept when dependencies on unlisted jobs are added or left out.
  have weaker : ListedDependsOn jobIds dependencies ≤ DependsOn dependencies :=
    fun _ _ step => step.2.2
  constructor
  · rintro ⟨c, circle, path⟩
    refine ⟨?_, c, Relation.TransGen.mono weaker c c circle,
      Relation.ReflTransGen.mono weaker c job path⟩
    obtain ⟨_, -, last⟩ := Relation.TransGen.tail'_iff.mp (circle.trans_left path)
    exact last.2.1
  · rintro ⟨target, c, circle, path⟩
    obtain ⟨_, first, -⟩ := Relation.TransGen.head'_iff.mp circle
    have start := listed _ _ first
    refine ⟨c, listedDependsOn_of_transGen listed circle start, ?_⟩
    rcases Relation.reflTransGen_iff_eq_or_transGen.mp path with rfl | path
    · exact .refl
    · exact (listedDependsOn_of_transGen listed path target).to_reflTransGen

/-- Circles of dependencies are circles of jobs in the list. -/
theorem acyclic_listed_iff :
    Acyclic (ListedDependsOn jobIds dependencies) ↔ Acyclic (DependsOn dependencies) := by
  -- A circle consists of dependencies.
  constructor
  · intro acyclic a circle
    obtain ⟨_, first, -⟩ := Relation.TransGen.head'_iff.mp circle
    exact acyclic a (listedDependsOn_of_transGen listed circle (listed _ _ first))
  · intro acyclic a circle
    exact acyclic a (Relation.TransGen.mono (fun _ _ step => step.2.2) a a circle)

end Listed

namespace DagLinks

variable {arcs : List (String × String)}

/-- The counters and the lists do not depend on each other. -/
theorem foldl_note (s : DagLinks) (arcs : List (String × String)) :
    arcs.foldl note s =
      ⟨arcs.foldl (fun counts arc => counts.insert arc.2 (counts[arc.2]?.getD 0 + 1)) s.inDegree,
        arcs.foldl (fun targets arc =>
          targets.insert arc.1 (targets[arc.1]?.getD [] ++ [arc.2])) s.adj⟩ := by
  induction arcs generalizing s with
  | nil => rfl
  | cons arc arcs ih => exact ih (s.note arc)

/-- A job has a counter if it was listed, or if it has a dependency. -/
theorem getElem?_inDegree (job : String) :
    (arcs.foldl note (start jobIds)).inDegree[job]? =
      if job ∈ jobIds ∨ ∃ arc ∈ arcs, arc.2 = job
      then some (arcs.countP fun arc => arc.2 = job) else none := by
  -- The arcs are counted on top of the zeros that the listed jobs start with.
  rw [foldl_note, start]
  dsimp only
  rw [getElem?_foldl_count Prod.snd, getElem?_foldl_insertIfNew]
  by_cases target : ∃ arc ∈ arcs, arc.2 = job
  · by_cases member : job ∈ jobIds <;> simp only [target, member] <;> simp
  · have none_ : arcs.countP (fun arc => arc.2 = job) = 0 :=
      List.countP_eq_zero.mpr fun arc among same => target ⟨arc, among, by simpa using same⟩
    by_cases member : job ∈ jobIds <;> simp only [target, member, none_] <;> simp

/-- Reading the dependencies gives their counters and lists. -/
theorem built (jobIds : List String) (arcs : List (String × String)) :
    let links := arcs.foldl note (start jobIds)
    Built arcs links.inDegree links.adj where
  counts job deg found := by
    -- What is looked up has been counted or pushed, starting from the jobs of the list.
    rw [getElem?_inDegree] at found
    split at found
    · exact (Option.some.inj found).symm
    · cases found
  targets job := by
    rw [foldl_note, start]
    dsimp only
    rw [getD_foldl_push Prod.fst Prod.snd, getElem?_foldl_insertIfNew]
    by_cases member : job ∈ jobIds <;> simp [member]

/-- A job has a counter if it is in the list or depends on another one. -/
theorem mem_inDegree {job : String} :
    job ∈ (arcs.foldl note (start jobIds)).inDegree ↔
      job ∈ jobIds ∨ ∃ arc ∈ arcs, arc.2 = job := by
  -- The counters are exactly those that the look-up finds.
  rw [Std.ExtTreeMap.mem_iff_isSome_getElem?, getElem?_inDegree]
  split <;> simp_all

end DagLinks

/-- The counters are those of the listed jobs and of the strays. -/
theorem size_inDegree (iteration : DagIteration) :
    ((dependencyArcs (iteration.dependencies dependencies)).foldl DagLinks.note
        (.start jobIds)).inDegree.size =
      jobIds.dedup.length + (strays jobIds dependencies).length := by
  -- The two kinds of keys have nothing in common, and no key is there twice.
  rw [← Std.ExtTreeMap.length_keys, ← List.length_append]
  have apart : (jobIds.dedup ++ strays jobIds dependencies).Nodup := by
    refine List.nodup_append.mpr ⟨List.nodup_dedup jobIds, nodup_strays, ?_⟩
    rintro job isListed _ stray rfl
    exact (mem_strays.mp stray).1 (List.mem_dedup.mp isListed)
  refine ((List.perm_ext_iff_of_nodup Std.ExtTreeMap.nodup_keys apart).mpr fun job => ?_).length_eq
  rw [Std.ExtTreeMap.mem_keys, DagLinks.mem_inDegree, List.mem_append, List.mem_dedup, mem_strays]
  rw [exists_arc_iff]
  by_cases member : job ∈ jobIds <;> simp [member]

/-- What the loop leaves: an order, and the nodes that have found no place in it. -/
structure Leaves (jobIds : List String) (dependencies : Std.ExtTreeMap String (List String))
    (order nodes : List String) : Prop where
  nodup : order.Nodup
  ordered : Topological (DependsOn dependencies) order
  mem_order : ∀ job, job ∈ order ↔
    IsNode jobIds dependencies job ∧ ¬ BehindCircle (DependsOn dependencies) job
  mem_nodes : ∀ job, job ∈ nodes ↔
    IsNode jobIds dependencies job ∧ BehindCircle (DependsOn dependencies) job
  length : order.length +
      {job | IsNode jobIds dependencies job ∧ BehindCircle (DependsOn dependencies) job}.ncard =
    jobIds.dedup.length + (strays jobIds dependencies).length

/-- With all dependencies listed, the order is returned if it is as long as the list of jobs, and
otherwise the nodes without a place are. -/
theorem topologicalSort_listed (iteration : DagIteration)
    (listed : DependenciesListed jobIds dependencies) :
    ∃ order nodes, Leaves jobIds dependencies order nodes ∧
      topologicalSort iteration jobIds dependencies =
        if order.length = jobIds.length then .ok order else .error nodes := by
  have size := @size_inDegree jobIds dependencies iteration
  have arc : Arc (dependencyArcs (iteration.dependencies dependencies)) =
      DependsOn dependencies := funext fun dep => funext fun job => propext mem_dependencyArcs
  have node (job : String) : job ∈ ((dependencyArcs (iteration.dependencies dependencies)).foldl
      DagLinks.note (.start jobIds)).inDegree ↔ IsNode jobIds dependencies job := by
    rw [DagLinks.mem_inDegree, exists_arc_iff, IsNode]
  have build : DagLinks.build jobIds (iteration.dependencies dependencies) =
      .ok ((dependencyArcs (iteration.dependencies dependencies)).foldl DagLinks.note
        (.start jobIds)) := by
    rcases DagLinks.build_cases jobIds (iteration.dependencies dependencies) with
      ⟨-, noted⟩ | ⟨⟨dep, job⟩, among, unknown, -⟩
    · exact noted
    · exact absurd (listed dep job (mem_dependencyArcs.mp among)) unknown
  have built := DagLinks.built jobIds (dependencyArcs (iteration.dependencies dependencies))
  -- The loop has room for all counters.
  generalize dependencyArcs (iteration.dependencies dependencies) = arcs at *
  generalize arcs.foldl DagLinks.note (.start jobIds) = links at *
  obtain ⟨sound, ended⟩ := (sound_start built (iteration.perm_inDegree links.inDegree)).loop built
    links.inDegree.size (Nat.le_add_left _ _)
  have sources (a b : String) (before : Arc arcs a b) : a ∈ links.inDegree :=
    (node a).mpr (.inl (listed a b (arc ▸ before)))
  have behind := sound.counter_pos_iff ended sources
  have placed (job : String) := sound.mem_order_iff_not_behind ended sources (p := job)
  have lengths := sound.length_order ended sources
  have ordered := sound.ordered
  simp only [arc, node] at behind placed lengths ordered
  refine ⟨_, ((iteration.inDegree (links.kahnEnd iteration).inDegree).filter
    fun entry => 0 < entry.2).map Prod.fst, ⟨sound.order_nodup, ordered, fun job => ?_,
      fun job => ?_, lengths.trans size⟩, ?_⟩
  · constructor
    · intro member
      have isNode := (node job).mp ((sound.mem_order_iff ended job).mp member).1
      exact ⟨isNode, (placed job isNode).mp member⟩
    · rintro ⟨isNode, free⟩
      exact (placed job isNode).mpr free
  · rw [← behind]
    simp [(iteration.perm_inDegree _).mem_iff, Std.ExtTreeMap.mem_toList_iff_getElem?_eq_some,
      DagLinks.kahnEnd]
  · rw [topologicalSort, build]
    rfl

/-- A dependency on a job that was not listed is reported. -/
theorem topologicalSort_unlisted (iteration : DagIteration)
    (unlisted : ¬ DependenciesListed jobIds dependencies) :
    ∃ dep job, DependsOn dependencies dep job ∧ dep ∉ jobIds ∧
      topologicalSort iteration jobIds dependencies = .error [DagLinks.unknownJob job dep] := by
  -- The error of the first arc that is refused is the result.
  rcases DagLinks.build_cases jobIds (iteration.dependencies dependencies) with
    ⟨known, -⟩ | ⟨⟨dep, job⟩, among, unknown, failed⟩
  · exact absurd (fun dep job depends => known (dep, job) (mem_dependencyArcs.mpr depends)) unlisted
  · refine ⟨dep, job, mem_dependencyArcs.mp among, unknown, ?_⟩
    rw [topologicalSort, failed]
    rfl

/-- As long as no stray is behind a circle, the nodes behind one are the listed jobs behind one. -/
theorem behindCircle_node_iff (listed : DependenciesListed jobIds dependencies)
    (free : ∀ job ∈ strays jobIds dependencies, ∀ dep, DependsOn dependencies dep job →
      ¬ BehindCircle (ListedDependsOn jobIds dependencies) dep) (job : String) :
    IsNode jobIds dependencies job ∧ BehindCircle (DependsOn dependencies) job ↔
      BehindCircle (ListedDependsOn jobIds dependencies) job := by
  rw [behindCircle_listed_iff listed]
  constructor
  · rintro ⟨node, behind⟩
    refine ⟨?_, behind⟩
    by_contra unlisted
    have stray := mem_strays.mpr ⟨unlisted, node.resolve_left unlisted⟩
    -- Nothing depends on a stray, so that the circle is behind a dependency of it.
    obtain ⟨c, circle, path⟩ := behind
    rcases Relation.ReflTransGen.cases_tail path with rfl | ⟨dep, before, last⟩
    · obtain ⟨_, first, -⟩ := Relation.TransGen.head'_iff.mp circle
      exact unlisted (listed _ _ first)
    · exact free job stray dep last
        ((behindCircle_listed_iff listed).mpr ⟨listed _ _ last, c, circle, before⟩)
  · rintro ⟨member, behind⟩
    exact ⟨.inl member, behind⟩

/-- The repeats are what the list has more than without them. -/
theorem length_eq_add_repeats (jobIds : List String) :
    jobIds.length = jobIds.dedup.length + repeats jobIds := by
  have := (List.dedup_sublist jobIds).length_le
  rw [repeats]
  omega

/-- Without circles the sort is right exactly if the list names every job once, and no other job
has dependencies. -/
theorem sortsJobs_acyclic (iteration : DagIteration)
    (listed : DependenciesListed jobIds dependencies)
    (acyclic : Acyclic (ListedDependsOn jobIds dependencies)) :
    SortsJobs jobIds dependencies (topologicalSort iteration jobIds dependencies) ↔
      jobIds.Nodup ∧ strays jobIds dependencies = [] := by
  obtain ⟨order, nodes, leaves, result⟩ := topologicalSort_listed iteration listed
  have none_ (job : String) : ¬ BehindCircle (DependsOn dependencies) job :=
    ((acyclic_listed_iff listed).mp acyclic).not_behindCircle job
  have length := leaves.length
  simp only [none_, and_false, Set.ofPred_false, Set.ncard_empty, Nat.add_zero] at length
  rw [result]
  constructor
  · intro right
    -- What is returned names no job twice, as the list would have to.
    obtain ⟨order', returned⟩ := right.accepts.mpr ⟨listed, acyclic⟩
    have perm := (right.sorts order' returned).1
    split at returned
    · rename_i complete
      obtain rfl := Except.ok.inj returned
      have nodup := perm.nodup_iff.mp leaves.nodup
      rw [nodup.dedup, complete] at length
      exact ⟨nodup, List.length_eq_zero_iff.mp (by omega)⟩
    · cases returned
  · rintro ⟨nodup, empty⟩
    have complete : order.length = jobIds.length := by
      rw [length, nodup.dedup, empty, List.length_nil, Nat.add_zero]
    rw [if_pos complete]
    have node (job : String) : job ∈ order ↔ job ∈ jobIds := by
      rw [leaves.mem_order, IsNode]
      refine ⟨fun ⟨node, _⟩ => ?_, fun member => ⟨.inl member, none_ job⟩⟩
      by_contra unlisted
      have stray := mem_strays.mpr ⟨unlisted, node.resolve_left unlisted⟩
      simp [empty] at stray
    have perm := (List.perm_ext_iff_of_nodup leaves.nodup nodup).mpr node
    refine ⟨⟨fun _ => ⟨listed, acyclic⟩, fun _ => ⟨order, rfl⟩⟩, ?_,
      fun _ failed => by cases failed⟩
    rintro _ ⟨⟩
    refine ⟨perm, fun job member dep depends => ?_⟩
    exact leaves.ordered.idxOf_lt leaves.nodup ((node job).mpr member) depends

/-- With circles the sort is right exactly if no stray is behind one of them and the strays do not
make up for the jobs that are. -/
theorem sortsJobs_cyclic (iteration : DagIteration)
    (listed : DependenciesListed jobIds dependencies)
    (cyclic : ¬ Acyclic (ListedDependsOn jobIds dependencies)) :
    SortsJobs jobIds dependencies (topologicalSort iteration jobIds dependencies) ↔
      (∀ job ∈ strays jobIds dependencies, ∀ dep, DependsOn dependencies dep job →
          ¬ BehindCircle (ListedDependsOn jobIds dependencies) dep) ∧
        (strays jobIds dependencies).length ≠
          {job | BehindCircle (ListedDependsOn jobIds dependencies) job}.ncard +
            repeats jobIds := by
  obtain ⟨order, nodes, leaves, result⟩ := topologicalSort_listed iteration listed
  have length := leaves.length
  have counted := length_eq_add_repeats jobIds
  rw [result]
  constructor
  · intro right
    have refused : order.length ≠ jobIds.length := by
      intro complete
      exact cyclic (right.accepts.mp ⟨order, if_pos complete⟩).2
    have reports := right.reports nodes (if_neg refused) listed
    have free : ∀ job ∈ strays jobIds dependencies, ∀ dep, DependsOn dependencies dep job →
        ¬ BehindCircle (ListedDependsOn jobIds dependencies) dep := by
      intro job stray dep depends behind
      obtain ⟨unlisted, some_⟩ := mem_strays.mp stray
      obtain ⟨-, c, circle, path⟩ := (behindCircle_listed_iff listed).mp behind
      -- The stray would be reported without having been listed.
      have reported := (leaves.mem_nodes job).mpr ⟨.inr some_, c, circle, path.tail depends⟩
      exact unlisted ((behindCircle_listed_iff listed).mp ((reports job).mp reported)).1
    refine ⟨free, ?_⟩
    simp only [behindCircle_node_iff listed free] at length
    omega
  · rintro ⟨free, other⟩
    have behind := behindCircle_node_iff listed free
    simp only [behind] at length
    have refused : order.length ≠ jobIds.length := by omega
    rw [if_neg refused]
    refine ⟨⟨fun ⟨_, returned⟩ => (by cases returned), fun both => absurd both.2 cyclic⟩,
      fun _ returned => (by cases returned), ?_⟩
    rintro _ ⟨⟩ - job
    rw [leaves.mem_nodes, behind]

/-- The sort does what it is to do exactly where the length of the order tells whether it is
complete, in whatever order the maps yield their entries. -/
theorem sortsJobs_iff (iteration : DagIteration) (jobIds : List String)
    (dependencies : Std.ExtTreeMap String (List String)) :
    SortsJobs jobIds dependencies (topologicalSort iteration jobIds dependencies) ↔
      LengthsTell jobIds dependencies := by
  -- The three parts of the condition are for different inputs.
  unfold LengthsTell
  by_cases listed : DependenciesListed jobIds dependencies
  · by_cases acyclic : Acyclic (ListedDependsOn jobIds dependencies)
    · simp only [sortsJobs_acyclic iteration listed acyclic, listed, acyclic, not_true, false_or,
        true_and, false_and, or_false]
    · simp only [sortsJobs_cyclic iteration listed acyclic, listed, acyclic, not_true, false_or,
        not_false_iff, true_and, false_and]
  · obtain ⟨dep, job, -, -, failed⟩ := topologicalSort_unlisted iteration listed
    rw [failed]
    refine ⟨fun _ => .inl listed, fun _ => ⟨?_, fun _ returned => (by cases returned),
      fun _ _ known => absurd known listed⟩⟩
    exact ⟨fun ⟨_, returned⟩ => (by cases returned), fun both => absurd both.1 listed⟩

end

/-- Maps that yield their entries in the order of the keys. -/
def keyOrder : DagIteration where
  dependencies := Std.ExtTreeMap.toList
  inDegree := Std.ExtTreeMap.toList
  perm_dependencies _ := .rfl
  perm_inDegree _ := .rfl

/-- A job that depends on itself, and a job that depends on another one without being listed. -/
def selfAndStray : Std.ExtTreeMap String (List String) := .ofList [("a", ["a"]), ("x", ["c"])]

/-- The stray takes the place of the job that has found none, and the circle is accepted. -/
theorem not_sortsJobs :
    topologicalSort keyOrder ["a", "c"] selfAndStray = .ok ["c", "x"] ∧
      ¬ SortsJobs ["a", "c"] selfAndStray (topologicalSort keyOrder ["a", "c"] selfAndStray) := by
  -- What the code returns is computed, and would make the job that depends on itself acyclic.
  have accepted : topologicalSort keyOrder ["a", "c"] selfAndStray = .ok ["c", "x"] := by
    decide +kernel
  refine ⟨accepted, fun right => ?_⟩
  have itself : DependsOn selfAndStray "a" "a" := ⟨["a"], by decide +kernel, List.mem_cons_self⟩
  have acyclic := (right.accepts.mp ⟨_, accepted⟩).2
  exact acyclic "a" (.single ⟨List.mem_cons_self, List.mem_cons_self, itself⟩)

/-- A job that is listed twice makes the order too short, and no circle is found to report. -/
example : topologicalSort keyOrder ["a", "a"] ∅ = .error [] := by decide +kernel

end Tatara.Domain
