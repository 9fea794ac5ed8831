import Mathlib.Data.Fintype.Card
import Mathlib.Data.List.Chain
import Mathlib.Data.List.Count
import Mathlib.Data.List.Induction
import Mathlib.Data.List.Nodup
import Mathlib.Data.Set.Finite.Basic
import Mathlib.Data.Set.Insert
import Mathlib.Logic.Relation
import Mathlib.Order.WellFounded
import Mathlib.Tactic.Common

/-! Graphs: orders of the nodes in which every edge points forward, searching from a node on with a
queue, and longest paths by labels. -/

namespace Tatara.Digraph

variable {α : Type*} {edge : α → α → Prop}

/-- No path of edges leads from a node back to it. -/
def Acyclic (edge : α → α → Prop) : Prop := ∀ a, ¬ Relation.TransGen edge a a

/-- Nodes each of which has a source among them run in a circle somewhere. -/
theorem not_acyclic_of_sources {nodes : List α} (some_ : nodes ≠ [])
    (sources : ∀ a ∈ nodes, ∃ b ∈ nodes, edge b a) : ¬ Acyclic edge := by
  -- Without a circle the paths among these nodes would be well founded, with a first node.
  intro acyclic
  let path : { a // a ∈ nodes } → { a // a ∈ nodes } → Prop := fun a b =>
    Relation.TransGen edge a.1 b.1
  have : IsTrans _ path := ⟨fun _ _ _ => Relation.TransGen.trans⟩
  have : Std.Irrefl path := ⟨fun a circle => acyclic a.1 circle⟩
  have : Finite { a // a ∈ nodes } := (List.finite_toSet nodes).to_subtype
  have wellFounded : WellFounded path := Finite.wellFounded_of_trans_of_irrefl path
  obtain ⟨node, rest, rfl⟩ := List.exists_cons_of_ne_nil some_
  obtain ⟨first, -, least⟩ := wellFounded.has_min Set.univ ⟨⟨node, by simp⟩, trivial⟩
  -- But the first node has a source as well.
  obtain ⟨source, listed, before⟩ := sources first.1 first.2
  exact least ⟨source, listed⟩ trivial (.single before)

/-- A node that a path leads to from a circle, or that is on one itself. -/
def BehindCircle (edge : α → α → Prop) (a : α) : Prop :=
  ∃ c, Relation.TransGen edge c c ∧ Relation.ReflTransGen edge c a

/-- Nodes each of which has a source among them are all behind a circle. -/
theorem behindCircle_of_sources {nodes : List α}
    (sources : ∀ a ∈ nodes, ∃ b ∈ nodes, edge b a) {a : α} (listed : a ∈ nodes) :
    BehindCircle edge a := by
  classical
  -- The nodes from which this one is reached have their sources among them.
  let behind := nodes.filter fun b => decide (Relation.ReflTransGen edge b a)
  let inside : α → α → Prop := fun b c => b ∈ behind ∧ edge b c
  have here : a ∈ behind := List.mem_filter.mpr ⟨listed, by simpa using .refl⟩
  have circle : ¬ Acyclic inside := by
    refine not_acyclic_of_sources (List.ne_nil_of_mem here) fun b among => ?_
    obtain ⟨inNodes, path⟩ := List.mem_filter.mp among
    obtain ⟨c, source, next⟩ := sources b inNodes
    have further : c ∈ behind := List.mem_filter.mpr ⟨source, by
      simpa using Relation.ReflTransGen.head next (by simpa using path)⟩
    exact ⟨c, further, further, next⟩
  obtain ⟨c, round⟩ := not_forall_not.mp circle
  -- A circle among them leads to the node.
  obtain ⟨_, ⟨first, -⟩, -⟩ := Relation.TransGen.head'_iff.mp round
  have fewer : inside ≤ edge := fun _ _ step => step.2
  refine ⟨c, Relation.TransGen.mono fewer c c round, ?_⟩
  simpa using (List.mem_filter.mp first).2

/-- Nodes of an acyclic graph have no circle behind them. -/
theorem Acyclic.not_behindCircle (acyclic : Acyclic edge) (a : α) : ¬ BehindCircle edge a :=
  fun ⟨c, circle, _⟩ => acyclic c circle

/-- Where every edge raises a rank there is no circle. -/
theorem acyclic_of_rank (rank : α → Nat) (rises : ∀ a b, edge a b → rank a < rank b) :
    Acyclic edge := by
  -- Along a path the rank goes up.
  have higher {a b : α} (path : Relation.TransGen edge a b) : rank a < rank b := by
    induction path with
    | single step => exact rises _ _ step
    | tail _ step ih => exact ih.trans (rises _ _ step)
  exact fun a circle => (higher circle).false

/-- Where every edge stays in a group without a circle, or leads from one group to another by edges
between groups that have no circle either, there is no circle. -/
theorem acyclic_of_groups {β : Type*} {inner : β → α → α → Prop} {outer : β → β → Prop}
    (group : α → β) (edges : ∀ a b, edge a b →
      group a = group b ∧ inner (group a) a b ∨ outer (group a) (group b))
    (inside : ∀ g, Acyclic (inner g)) (between : Acyclic outer) : Acyclic edge := by
  -- A path stays inside as long as none of its edges leads to another group.
  have paths {a b : α} (path : Relation.TransGen edge a b) :
      group a = group b ∧ Relation.TransGen (inner (group a)) a b ∨
        Relation.TransGen outer (group a) (group b) := by
    induction path with
    | single step => exact (edges _ _ step).imp (.imp_right .single) .single
    | tail _ step ih =>
      rcases ih with ⟨same, stays⟩ | leaves
      · rcases edges _ _ step with ⟨again, step⟩ | step
        · exact .inl ⟨same.trans again, stays.tail (same ▸ step)⟩
        · exact .inr (.single (same ▸ step))
      · rcases edges _ _ step with ⟨again, -⟩ | step
        · exact .inr (again ▸ leaves)
        · exact .inr (leaves.tail step)
  intro a circle
  exact (paths circle).elim (fun stays => inside (group a) a stays.2) (between (group a))

/-- Wherever the list is cut, the sources of the edges to the next node are in front of the cut. -/
def Topological (edge : α → α → Prop) (order : List α) : Prop :=
  ∀ front a back, order = front ++ a :: back → ∀ b, edge b a → b ∈ front

namespace Topological

/-- The empty list is in order. -/
theorem nil : Topological edge [] := by
  -- There is no place to cut it at.
  intro front a back split
  simp at split

/-- A node can be added once all its sources are there. -/
theorem concat {order : List α} {a : α} (ordered : Topological edge order)
    (sources : ∀ b, edge b a → b ∈ order) : Topological edge (order ++ [a]) := by
  -- The cut is before the new node or in the list as it was.
  intro front c back split b before
  induction back using List.reverseRecOn with
  | nil =>
    obtain ⟨rfl, same⟩ := List.append_inj' split rfl
    obtain rfl := List.singleton_inj.mp same
    exact sources b before
  | append_singleton back d _ =>
    have shorter : order ++ [a] = (front ++ c :: back) ++ [d] := by simpa using split
    obtain ⟨rfl, -⟩ := List.append_inj' shorter rfl
    exact ordered front c back rfl b before

/-- The front of a list in order is in order. -/
theorem front {order rest : List α} (ordered : Topological edge (order ++ rest)) :
    Topological edge order := by
  -- A cut of the front is a cut of the list.
  rintro front a back rfl b before
  exact ordered front a (back ++ rest) (by simp) b before

/-- A node that has a place in order has its sources there. -/
theorem source_mem {order : List α} (ordered : Topological edge order) {a b : α}
    (listed : a ∈ order) (before : edge b a) : b ∈ order := by
  -- They are in front of the node.
  obtain ⟨front, back, rfl⟩ := List.append_of_mem listed
  exact List.mem_append_left _ (ordered front a back rfl b before)

/-- What holds of a node as soon as it holds of its sources holds of every node in order. -/
theorem induction {order : List α} {P : α → Prop} (ordered : Topological edge order)
    (step : ∀ a ∈ order, (∀ b, edge b a → P b) → P a) : ∀ a ∈ order, P a := by
  induction order using List.reverseRecOn with
  | nil => simp
  | append_singleton order last ih =>
    have before := ih ordered.front fun a listed => step a (List.mem_append_left _ listed)
    intro a listed
    obtain listed | same := List.mem_append.mp listed
    · exact before a listed
    · -- The sources of the last node are in front of it.
      obtain rfl := List.mem_singleton.mp same
      exact step a (by simp) fun b source => before b (ordered order a [] rfl b source)

/-- A path ends behind all the nodes it comes from. -/
theorem path_mem {order : List α} (ordered : Topological edge order) {a b : α}
    {front back : List α} (split : order = front ++ a :: back) (path : Relation.TransGen edge b a) :
    b ∈ front := by
  induction path generalizing front back with
  | single before => exact ordered front _ back split _ before
  | @tail c d _ before ih =>
    -- The last edge starts in front of its end, where the cut can be made again.
    have listed := ordered front d back split c before
    obtain ⟨first, second, rfl⟩ := List.append_of_mem listed
    have again : order = first ++ c :: (second ++ d :: back) := by simpa using split
    exact List.mem_append_left _ (ih again)

/-- A list in order that has every target of an edge once leaves no room for a circle. -/
theorem acyclic {order : List α} (ordered : Topological edge order) (nodup : order.Nodup)
    (targets : ∀ a b, edge a b → b ∈ order) : Acyclic edge := by
  intro a circle
  -- The node on the circle would have to be in front of itself.
  obtain ⟨b, -, last⟩ := Relation.TransGen.tail'_iff.mp circle
  obtain ⟨front, back, rfl⟩ := List.append_of_mem (targets b a last)
  have again := ordered.path_mem rfl circle
  exact (List.nodup_append.mp nodup).2.2 a again a (by simp) rfl

/-- A list in order has no node that is behind a circle. -/
theorem not_behindCircle {order : List α} (ordered : Topological edge order)
    (nodup : order.Nodup) {a : α} (listed : a ∈ order) : ¬ BehindCircle edge a := by
  rintro ⟨c, circle, path⟩
  have member {b : α} (path : Relation.ReflTransGen edge b a) : b ∈ order := by
    induction path using Relation.ReflTransGen.head_induction_on with
    | refl => exact listed
    | head step _ ih => exact ordered.source_mem ih step
  -- The circle would have its place in the order as well, in front of itself.
  obtain ⟨front, back, rfl⟩ := List.append_of_mem (member path)
  exact (List.nodup_append.mp nodup).2.2 c (ordered.path_mem rfl circle) c (by simp) rfl

/-- Some of the nodes are in order as well, for edges among them. -/
theorem filter {inner : α → α → Prop} {order : List α} (ordered : Topological edge order)
    {p : α → Bool} (edges : ∀ a b, inner a b → edge a b ∧ p a) :
    Topological inner (order.filter p) := by
  intro front a back split b before
  -- What is between the front and the next node in the whole list is filtered out.
  obtain ⟨first, second, rfl, rfl, rest⟩ := List.filter_eq_append_iff.mp split
  obtain ⟨between, last, rfl, none, -, -⟩ := List.filter_eq_cons_iff.mp rest
  obtain ⟨step, kept⟩ := edges b a before
  have listed := ordered (first ++ between) a last (by simp) b step
  rcases List.mem_append.mp listed with inFront | inBetween
  · exact List.mem_filter.mpr ⟨inFront, kept⟩
  · exact absurd kept (none b inBetween)

section Position

variable [DecidableEq α]

/-- The source of an edge has a smaller index than its target. -/
theorem idxOf_lt {order : List α} (ordered : Topological edge order) (nodup : order.Nodup)
    {a b : α} (listed : b ∈ order) (before : edge a b) : order.idxOf a < order.idxOf b := by
  -- The index of the target is the length of what is in front of it.
  obtain ⟨front, back, rfl⟩ := List.append_of_mem listed
  have source := ordered front b back rfl a before
  have notBefore : b ∉ front := fun again =>
    (List.nodup_append.mp nodup).2.2 b again b (by simp) rfl
  rw [List.idxOf_append_of_mem source, List.idxOf_append_of_notMem notBefore]
  have := List.idxOf_lt_length_of_mem source
  omega

/-- A list is in order if the source of every edge has a smaller index than its target. -/
theorem of_idxOf_lt {order : List α} (nodup : order.Nodup)
    (smaller : ∀ a b, edge a b → order.idxOf a < order.idxOf b) : Topological edge order := by
  rintro front b back rfl a before
  have lt := smaller a b before
  have notBefore : b ∉ front := fun again =>
    (List.nodup_append.mp nodup).2.2 b again b (by simp) rfl
  -- A node that is not in front has at least the index of the target.
  by_contra absent
  rw [List.idxOf_append_of_notMem notBefore, List.idxOf_append_of_notMem absent] at lt
  rw [List.idxOf_cons_self] at lt
  omega

end Position

end Topological

end Tatara.Digraph

namespace Tatara.Search

variable {α : Type*} {edge : α → α → Prop} {start : α}

/-- What holds whenever a search looks at its queue: it knows only what can be reached, and the
edges out of what it has visited lead to what it knows. -/
structure Sound (edge : α → α → Prop) (start : α) (visited : Set α) (queue : List α) : Prop where
  started : start ∈ visited ∨ start ∈ queue
  reached : ∀ a, a ∈ visited ∨ a ∈ queue → Relation.ReflTransGen edge start a
  closed : ∀ a ∈ visited, ∀ b, edge a b → b ∈ visited ∨ b ∈ queue

/-- A search starts with its first node in the queue. -/
theorem sound_start (edge : α → α → Prop) (start : α) : Sound edge start ∅ [start] where
  started := .inr List.mem_cons_self
  -- Nothing but the start is known.
  reached a known := by
    obtain rfl : a = start := by simpa using known
    exact .refl
  closed a visited := absurd visited (Set.notMem_empty a)

namespace Sound

variable {visited : Set α} {queue : List α} {a : α}

/-- A node that was visited before is passed over. -/
theorem skip (sound : Sound edge start visited (a :: queue)) (before : a ∈ visited) :
    Sound edge start visited queue := by
  -- What is known is still known.
  have still (b : α) (known : b ∈ visited ∨ b ∈ a :: queue) : b ∈ visited ∨ b ∈ queue := by
    rcases known with inside | waiting
    · exact .inl inside
    · rcases List.mem_cons.mp waiting with rfl | behind
      · exact .inl before
      · exact .inr behind
  exact ⟨still start sound.started,
    fun b known => sound.reached b (known.imp_right (List.mem_cons_of_mem a)),
    fun b inside c next => still c (sound.closed b inside c next)⟩

/-- A node that is visited brings the targets of its edges into the queue. -/
theorem visit (sound : Sound edge start visited (a :: queue)) {targets : List α}
    (leads : ∀ b, b ∈ targets ↔ edge a b) :
    Sound edge start (insert a visited) (queue ++ targets) := by
  have still (b : α) (known : b ∈ visited ∨ b ∈ a :: queue) :
      b ∈ insert a visited ∨ b ∈ queue ++ targets := by
    rcases known with inside | waiting
    · exact .inl (Set.mem_insert_of_mem a inside)
    · rcases List.mem_cons.mp waiting with rfl | behind
      · exact .inl (Set.mem_insert b visited)
      · exact .inr (List.mem_append_left targets behind)
  have here := sound.reached a (.inr List.mem_cons_self)
  refine ⟨still start sound.started, fun b known => ?_, fun b inside c next => ?_⟩
  · rcases known with inside | waiting
    · rcases Set.mem_insert_iff.mp inside with rfl | inside
      · exact here
      · exact sound.reached b (.inl inside)
    · -- A target is one edge further than the node itself.
      rcases List.mem_append.mp waiting with behind | target
      · exact sound.reached b (.inr (List.mem_cons_of_mem a behind))
      · exact here.tail ((leads b).mp target)
  · rcases Set.mem_insert_iff.mp inside with rfl | inside
    · exact .inr (List.mem_append_right queue ((leads c).mpr next))
    · exact still c (sound.closed b inside c next)

/-- A search whose queue has run empty has visited exactly what can be reached. -/
theorem visited_iff (sound : Sound edge start visited []) :
    a ∈ visited ↔ Relation.ReflTransGen edge start a := by
  -- The induction goes along the path, whose nodes are all known.
  have inside (b : α) (known : b ∈ visited ∨ b ∈ []) : b ∈ visited :=
    known.resolve_right List.not_mem_nil
  refine ⟨fun known => sound.reached a (.inl known), fun path => ?_⟩
  induction path with
  | refl => exact inside start sound.started
  | tail _ next ih => exact inside _ (sound.closed _ ih _ next)

end Sound

/-- The arcs out of nodes that were not visited: a visit takes those of its node off. -/
theorem countP_unvisited {ε : Type*} [DecidableEq α] (source : ε → α) {seen seen' : α → Bool}
    {a : α} (new : seen a = false) (grown : ∀ b, seen' b = (seen b || b == a)) (arcs : List ε) :
    arcs.countP (fun arc => !seen (source arc)) =
      arcs.countP (fun arc => !seen' (source arc)) +
        (arcs.filter fun arc => source arc = a).length := by
  induction arcs with
  | nil => rfl
  | cons arc arcs ih =>
    rw [List.countP_cons, List.countP_cons, ih, grown]
    -- The arc leads out of this node, or it counts as before.
    by_cases here : source arc = a
    · simp [here, new]
      omega
    · simp [here]
      omega

end Tatara.Search

namespace Tatara.LongestPath

variable {α : Type*} {edge : α → α → Prop} {label label' : α → Option (Nat × Option α)}
  {done : List α} {a : α}

/-- The number of nodes on the longest path to a node, as far as its label knows. -/
def reach (label : α → Option (Nat × Option α)) (a : α) : Nat := ((label a).map Prod.fst).getD 0

/-- Labels that have been raised along the edges out of the nodes that are done: each of them stands
for a path, and none falls short of an edge. -/
structure Settled (edge : α → α → Prop) (done : List α) (label : α → Option (Nat × Option α)) :
    Prop where
  first : ∀ a d, label a = some (d, none) → d = 1
  next : ∀ a d b, label a = some (d, some b) →
    edge b a ∧ b ∈ done ∧ 1 ≤ reach label b ∧ d = reach label b + 1
  bound : ∀ b ∈ done, ∀ a, edge b a → reach label b + 1 ≤ reach label a

/-- Labels of one are settled before any edge has been looked at. -/
theorem settled_start (ones : ∀ a d from_, label a = some (d, from_) → d = 1 ∧ from_ = none) :
    Settled edge [] label where
  first a d found := (ones a d none found).1
  next a d b found := by cases (ones a d (some b) found).2
  bound b none_ := absurd none_ List.not_mem_nil

/-- The labels of the nodes that edges out of a node lead to are raised to one more than its own,
where they are lower. -/
structure Raised (edge : α → α → Prop) (a : α) (label label' : α → Option (Nat × Option α)) :
    Prop where
  raised : ∀ b, edge a b → reach label b ≤ reach label a →
    label' b = some (reach label a + 1, some a)
  kept : ∀ b, (edge a b → reach label a < reach label b) → label' b = label b

namespace Raised

variable (raised : Raised edge a label label')
include raised

/-- A label is raised, or it is what it was. -/
theorem cases (b : α) :
    label' b = label b ∨ edge a b ∧ reach label b ≤ reach label a ∧
      label' b = some (reach label a + 1, some a) := by
  -- Whether the label is raised depends on the edge and on how high it is.
  by_cases lower : edge a b ∧ reach label b ≤ reach label a
  · exact .inr ⟨lower.1, lower.2, raised.raised b lower.1 lower.2⟩
  · exact .inl (raised.kept b fun next => Nat.lt_of_not_le fun below => lower ⟨next, below⟩)

/-- A node is reached as before, or by a path that is one longer than that to another one. -/
theorem reach_eq (b : α) :
    reach label' b = reach label b ∨ edge a b ∧ reach label b ≤ reach label a ∧
      reach label' b = reach label a + 1 := by
  rcases raised.cases b with same | ⟨next, lower, new⟩
  · exact .inl (by rw [reach, reach, same])
  · exact .inr ⟨next, lower, by rw [reach, new]; rfl⟩

/-- Labels do not become lower. -/
theorem reach_le (b : α) : reach label b ≤ reach label' b := by
  rcases raised.reach_eq b with same | ⟨-, lower, new⟩
  · exact same.ge
  · omega

/-- A label that was high enough is left alone. -/
theorem succ_reach_le {b : α} (next : edge a b) : reach label a + 1 ≤ reach label' b := by
  -- Either it was raised, or it was higher than that already.
  by_cases lower : reach label b ≤ reach label a
  · exact (congrArg (fun l => (l.map Prod.fst).getD 0) (raised.raised b next lower)).ge
  · have := raised.reach_le b
    omega

end Raised

namespace Settled

variable (settled : Settled edge done label)
include settled

/-- A node is done after the labels were raised along its edges, if none of these leads back. -/
theorem raise (raised : Raised edge a label label') (labelled : 1 ≤ reach label a)
    (forward : ∀ b, edge a b → b ∉ done ++ [a]) : Settled edge (done ++ [a]) label' := by
  -- Nodes that are done keep their labels.
  have kept (b : α) (member : b ∈ done ++ [a]) : label' b = label b :=
    raised.kept b fun next => absurd member (forward b next)
  have level (b : α) (member : b ∈ done ++ [a]) : reach label' b = reach label b := by
    rw [reach, reach, kept b member]
  refine ⟨fun b d found => ?_, fun b d c found => ?_, fun b member c next => ?_⟩
  · rcases raised.cases b with same | ⟨-, -, new⟩
    · exact settled.first b d (same ▸ found)
    · cases new.symm.trans found
  · rcases raised.cases b with same | ⟨next, -, new⟩
    · obtain ⟨next, member, positive, rest⟩ := settled.next b d c (same ▸ found)
      have member := List.mem_append_left [a] member
      rw [level c member]
      exact ⟨next, member, positive, rest⟩
    · cases new.symm.trans found
      rw [level a (by simp)]
      exact ⟨next, by simp, labelled, rfl⟩
  · rw [level b member]
    rcases List.mem_append.mp member with before | now
    · exact (settled.bound b before c next).trans (raised.reach_le c)
    · obtain rfl := List.mem_singleton.mp now
      exact raised.succ_reach_le next

/-- Once all nodes are done, no path to a node has more nodes than its label says. -/
theorem length_le (all : ∀ a b, edge a b → a ∈ done) {path : List α} (chain : path.IsChain edge)
    (labelled : ∀ b ∈ path, 1 ≤ reach label b) {last : α} (ends : path.getLast? = some last) :
    path.length ≤ reach label last := by
  -- With each node of the path the label grows by one at least.
  induction path using List.reverseRecOn generalizing last with
  | nil => cases ends
  | append_singleton path b ih =>
    obtain rfl : b = last := by simpa using ends
    have here := labelled b (by simp)
    cases before : path.getLast? with
    | none =>
      obtain rfl := List.getLast?_eq_none_iff.mp before
      simpa using here
    | some c =>
      obtain ⟨front, -, joint⟩ := List.isChain_append.mp chain
      have step := joint c before b rfl
      have shorter := ih front (fun x member => labelled x (List.mem_append_left _ member)) before
      have grown := settled.bound c (all c b step) b step
      rw [List.length_append, List.length_singleton]
      omega

end Settled

end Tatara.LongestPath
