import Mathlib.Data.List.Count
import Mathlib.Data.List.Perm.Subperm
import Mathlib.Data.Set.Card
import Std.Data.ExtTreeMap
import Tatara.Lib.Digraph

/-! Kahn's algorithm: nodes take their places once the arcs into them have been counted down. -/

namespace Tatara.Kahn

open Tatara.Digraph

section Arcs

variable {κ : Type}

/-- There is an arc from one node to the other. -/
def Arc (arcs : List (κ × κ)) (source target : κ) : Prop := (source, target) ∈ arcs

variable [DecidableEq κ]

/-- The number of arcs into a node whose source has no place in the order yet. -/
def remaining (arcs : List (κ × κ)) (order : List κ) (p : κ) : Nat :=
  arcs.countP fun arc => arc.2 = p ∧ arc.1 ∉ order

variable {arcs : List (κ × κ)}

/-- A node that takes its place settles the arcs out of it. -/
theorem remaining_concat {order : List κ} {node : κ} (new : node ∉ order) (p : κ) :
    remaining arcs order p = remaining arcs (order ++ [node]) p +
      ((arcs.filter fun arc => arc.1 = node).map Prod.snd).count p := by
  rw [remaining, remaining]
  induction arcs with
  | nil => rfl
  | cons arc arcs ih =>
    rw [List.countP_cons, List.countP_cons, ih]
    -- An arc is settled, settled just now, or still open.
    by_cases target : arc.2 = p
    · by_cases source : arc.1 = node
      · simp [target, source, new]; omega
      · by_cases settled : arc.1 ∈ order
        · simp [target, source, settled]
        · simp [target, source, settled]; omega
    · by_cases source : arc.1 = node <;> simp [target, source]

/-- The sources of a node that waits for no arc have their places. -/
theorem source_mem_of_remaining {order : List κ} {p source : κ}
    (none_ : remaining arcs order p = 0) (before : Arc arcs source p) : source ∈ order := by
  -- An arc from elsewhere would count.
  have open_ := List.countP_eq_zero.mp none_ (source, p) before
  simpa using open_

/-- A node that waits for an arc has a source without a place. -/
theorem exists_source_of_remaining {order : List κ} {p : κ}
    (some_ : remaining arcs order p ≠ 0) : ∃ source, Arc arcs source p ∧ source ∉ order := by
  -- What is counted is an arc with this target.
  obtain ⟨⟨source, target⟩, isArc, open_⟩ := List.countP_pos_iff.mp (Nat.pos_of_ne_zero some_)
  obtain ⟨rfl, outside⟩ : target = p ∧ source ∉ order := by simpa using open_
  exact ⟨source, isArc, outside⟩

end Arcs

variable {κ : Type} [Ord κ] [Std.TransOrd κ]

/-- What the loop changes: the arcs still to count down for each node, the nodes that wait, and the
order so far. -/
structure State (κ : Type) [Ord κ] [Std.TransOrd κ] where
  inDegree : Std.ExtTreeMap κ Nat
  queue : List κ
  order : List κ

namespace State

/-- Count an arc to a node down; with its last arc it joins the queue. -/
def relax (s : State κ) (neighbor : κ) : State κ :=
  match s.inDegree[neighbor]? with
  | none => s
  | some deg =>
    -- A counter that is still to be decremented counts this very arc, and is not zero.
    let deg := deg - 1
    let s := { s with inDegree := s.inDegree.insert neighbor deg }
    if deg = 0 then { s with queue := s.queue ++ [neighbor] } else s

/-- Move the first waiting node to the order, and count its arcs down. -/
def visit (adjacency : Std.ExtTreeMap κ (List κ)) (s : State κ) (node : κ) (queue : List κ) :
    State κ :=
  let s := { s with queue, order := s.order ++ [node] }
  match adjacency[node]? with
  | none => s
  | some neighbors => neighbors.foldl relax s

/-- The loop over the queue, for at most so many nodes. -/
def loop (adjacency : Std.ExtTreeMap κ (List κ)) : Nat → State κ → State κ
  | 0, s => s
  | fuel + 1, s =>
    match s.queue with
    | [] => s
    | node :: queue => loop adjacency fuel (s.visit adjacency node queue)

/-- Counting an arc down leaves the order. -/
@[simp] theorem relax_order (s : State κ) (neighbor : κ) :
    (s.relax neighbor).order = s.order := by
  -- Only the counters and the queue are touched.
  unfold relax
  split
  · rfl
  · dsimp only
    split <;> rfl

/-- A target whose counter stands at one joins the queue with the next arc. -/
theorem relax_queue (s : State κ) (neighbor : κ) (positive : s.inDegree[neighbor]? ≠ some 0) :
    (s.relax neighbor).queue =
      s.queue ++ if s.inDegree[neighbor]? = some 1 then [neighbor] else [] := by
  unfold relax
  cases found : s.inDegree[neighbor]? with
  | none => simp
  | some deg =>
    -- From a positive counter, zero is reached from one and from nowhere else.
    have positive : deg ≠ 0 := by simpa [found] using positive
    dsimp only
    by_cases last : deg = 1
    · simp [last]
    · have more : deg - 1 ≠ 0 := by omega
      simp [last, more]

/-- Counting arcs down leaves the order. -/
@[simp] theorem foldl_relax_order (neighbors : List κ) (s : State κ) :
    (neighbors.foldl relax s).order = s.order := by
  induction neighbors generalizing s with
  | nil => rfl
  | cons neighbor neighbors ih => rw [List.foldl_cons, ih, relax_order]

/-- A visit counts the arcs to the neighbors down, after the node has taken its place. -/
theorem visit_eq (adjacency : Std.ExtTreeMap κ (List κ)) (s : State κ) (node : κ) (queue : List κ) :
    s.visit adjacency node queue =
      (adjacency[node]?.getD []).foldl relax { s with queue, order := s.order ++ [node] } := by
  unfold visit
  cases adjacency[node]? <;> rfl

end State

variable [DecidableEq κ]

/-- Counters and lists of neighbors that belong to given arcs. -/
structure Built (arcs : List (κ × κ)) (inDegree : Std.ExtTreeMap κ Nat)
    (adjacency : Std.ExtTreeMap κ (List κ)) : Prop where
  counts : ∀ p deg, inDegree[p]? = some deg → deg = arcs.countP fun arc => arc.2 = p
  targets : ∀ p, adjacency[p]?.getD [] = (arcs.filter fun arc => arc.1 = p).map Prod.snd

/-- What holds whenever the loop looks at its queue. -/
structure Sound (arcs : List (κ × κ)) (inDegree : Std.ExtTreeMap κ Nat) (s : State κ) : Prop where
  -- A counter says how many arcs its node still waits for.
  counted : ∀ p, s.inDegree[p]? = inDegree[p]?.map fun _ => remaining arcs s.order p
  nodup : (s.order ++ s.queue).Nodup
  ready : ∀ p, p ∈ s.order ++ s.queue ↔ s.inDegree[p]? = some 0
  ordered : Topological (Arc arcs) s.order

variable {arcs : List (κ × κ)} {inDegree : Std.ExtTreeMap κ Nat}
  {adjacency : Std.ExtTreeMap κ (List κ)} {s : State κ}

/-- A node that is in the order or in the queue waits for no arc. -/
theorem Sound.remaining_eq_zero (sound : Sound arcs inDegree s) {p : κ}
    (listed : p ∈ s.order ++ s.queue) : remaining arcs s.order p = 0 := by
  -- What is ready has a counter that is zero, and counters are right.
  have zero := (sound.ready p).mp listed
  rw [sound.counted, Option.map_eq_some_iff] at zero
  obtain ⟨_, -, zero⟩ := zero
  exact zero

/-- When no node waits any more, the order has the nodes that wait for no arc. -/
theorem Sound.mem_order_iff (sound : Sound arcs inDegree s) (ended : s.queue = []) (p : κ) :
    p ∈ s.order ↔ p ∈ inDegree ∧ remaining arcs s.order p = 0 := by
  -- Ready are the nodes in the order, as nothing waits in the queue.
  have ready := sound.ready p
  rw [ended, List.append_nil, sound.counted] at ready
  rw [ready, Std.ExtTreeMap.mem_iff_isSome_getElem?]
  cases inDegree[p]? <;> simp

theorem Sound.order_nodup (sound : Sound arcs inDegree s) : s.order.Nodup :=
  (List.nodup_append.mp sound.nodup).1

variable [Std.LawfulEqOrd κ]

/-- Entries made for a list of keys are there, and those that were there stay. -/
theorem getElem?_foldl_insertIfNew {β : Type} (initial : β) (ids : List κ)
    (entries : Std.ExtTreeMap κ β) (p : κ) :
    (ids.foldl (fun entries id => entries.insertIfNew id initial) entries)[p]? =
      if p ∈ ids then some (entries[p]?.getD initial) else entries[p]? := by
  induction ids generalizing entries with
  | nil => simp
  | cons id ids ih =>
    -- The first key has its entry by now, so a second one changes nothing.
    rw [List.foldl_cons, ih, Std.ExtTreeMap.getElem?_insertIfNew]
    by_cases same : id = p
    · subst same
      cases found : entries[id]? <;> simp [Std.ExtTreeMap.mem_iff_isSome_getElem?, found]
    · simp [same, Ne.symm same]

/-- Values are counted under their keys on top of what the map has to begin with. -/
theorem getElem?_foldl_count {ε : Type} (key : ε → κ) (arcs : List ε)
    (entries : Std.ExtTreeMap κ Nat) (p : κ) :
    (arcs.foldl (fun entries arc => entries.insert (key arc) (entries[key arc]?.getD 0 + 1))
        entries)[p]? =
      if ∃ arc ∈ arcs, key arc = p
      then some (entries[p]?.getD 0 + arcs.countP fun arc => key arc = p) else entries[p]? := by
  -- The first arc adds one to the entry that the others are counted on.
  induction arcs generalizing entries with
  | nil => simp
  | cons arc arcs ih =>
    rw [List.foldl_cons, ih, Std.ExtTreeMap.getElem?_insert]
    by_cases same : key arc = p
    · by_cases more : ∃ arc ∈ arcs, key arc = p
      · simp [same, more]; omega
      · have none_ : arcs.countP (fun arc => key arc = p) = 0 := by simpa using more
        simp [same, more, none_]
    · simp [same]

/-- A list that values are pushed to under their keys grows by those of its own key, in their
order. -/
theorem getD_foldl_push {ε : Type} (key value : ε → κ) (arcs : List ε)
    (entries : Std.ExtTreeMap κ (List κ)) (p : κ) :
    ((arcs.foldl (fun entries arc =>
        entries.insert (key arc) (entries[key arc]?.getD [] ++ [value arc])) entries)[p]?).getD [] =
      entries[p]?.getD [] ++ (arcs.filter fun arc => key arc = p).map value := by
  -- The value of the first arc stands in front of those of the others.
  induction arcs generalizing entries with
  | nil => simp
  | cons arc arcs ih =>
    rw [List.foldl_cons, ih, Std.ExtTreeMap.getElem?_insert]
    by_cases same : key arc = p <;> simp [same]

namespace State

/-- Counting an arc down takes one from the counter of its target. -/
theorem relax_inDegree (s : State κ) (neighbor p : κ) :
    (s.relax neighbor).inDegree[p]? =
      s.inDegree[p]?.map fun deg => if neighbor = p then deg - 1 else deg := by
  unfold relax
  by_cases same : neighbor = p
  · -- Whether or not the node joins the queue, its counter is one less.
    subst same
    cases found : s.inDegree[neighbor]? with
    | none => simp [found]
    | some deg =>
      dsimp only
      split <;> simp
  · cases found : s.inDegree[neighbor]? with
    | none => simp [same]
    | some deg =>
      dsimp only
      split <;> simp [Std.ExtTreeMap.getElem?_insert, same]

/-- Each counter loses the arcs to its node. -/
theorem foldl_relax_inDegree (neighbors : List κ) (s : State κ) (p : κ) :
    (neighbors.foldl relax s).inDegree[p]? =
      s.inDegree[p]?.map fun deg => deg - neighbors.count p := by
  induction neighbors generalizing s with
  | nil => simp
  | cons neighbor neighbors ih =>
    rw [List.foldl_cons, ih, relax_inDegree, Option.map_map]
    -- The first arc and the others take off together what the whole list counts.
    congr 1
    funext deg
    by_cases same : neighbor = p
    · simp [same, List.count_cons_self, Nat.sub_sub, Nat.add_comm]
    · simp [same, List.count_cons_of_ne same]

/-- The nodes whose counters come to zero join the queue, each once. -/
theorem foldl_relax_queue (neighbors : List κ) (s : State κ)
    (enough : ∀ p deg, s.inDegree[p]? = some deg → neighbors.count p ≤ deg) :
    ∃ joined : List κ, (neighbors.foldl relax s).queue = s.queue ++ joined ∧
      joined.Nodup ∧
      ∀ p, p ∈ joined ↔ p ∈ neighbors ∧ s.inDegree[p]? = some (neighbors.count p) := by
  induction neighbors generalizing s with
  | nil => exact ⟨[], by simp⟩
  | cons neighbor neighbors ih =>
    -- The counter of the first neighbor has this arc to lose.
    have positive : s.inDegree[neighbor]? ≠ some 0 := fun zero => by
      have := enough neighbor 0 zero
      simp at this
    obtain ⟨joined, queue, nodup, joins⟩ := ih (s.relax neighbor) fun p deg at_p => by
      rw [relax_inDegree, Option.map_eq_some_iff] at at_p
      obtain ⟨before, found, rfl⟩ := at_p
      have := enough p before found
      by_cases same : neighbor = p
      · rw [same, List.count_cons_self] at this
        rw [if_pos same]
        omega
      · rw [List.count_cons_of_ne same] at this
        rwa [if_neg same]
    rw [relax_queue s neighbor positive, List.append_assoc] at queue
    -- The first neighbor joins now if this was its last arc, and then it is not met again.
    have alone : s.inDegree[neighbor]? = some 1 → neighbor ∉ neighbors := fun last => by
      have := enough neighbor 1 last
      rw [List.count_cons_self] at this
      exact List.count_eq_zero.mp (by omega)
    refine ⟨_, queue, ?_, fun p => ?_⟩
    · rw [List.nodup_append]
      refine ⟨by split <;> simp, nodup, ?_⟩
      intro p first q later same
      obtain rfl := same
      split at first
      · rename_i last
        rw [List.mem_singleton] at first
        exact alone last (first ▸ ((joins p).mp later).1)
      · simp at first
    · rw [List.mem_append, joins, relax_inDegree]
      by_cases same : neighbor = p
      · -- The first neighbor joins with this arc or with a later one.
        subst same
        rw [List.count_cons_self]
        cases found : s.inDegree[neighbor]? with
        | none => simp
        | some deg =>
          have := enough neighbor deg found
          rw [List.count_cons_self] at this
          have met : neighbor ∈ neighbors ↔ neighbors.count neighbor ≠ 0 := by
            rw [Ne, List.count_eq_zero, not_not]
          by_cases last : deg = 1
          · simp [last]; omega
          · simp [last, met]; omega
      · have apart : p ∉ (if s.inDegree[neighbor]? = some 1 then [neighbor] else []) := by
          split <;> simp [Ne.symm same]
        simp [same, apart, Ne.symm same, List.count_cons_of_ne same]

end State

/-- The loop starts with all counters at the number of arcs into their nodes, and with the nodes
that have none, in whatever order they come. -/
theorem sound_start (built : Built arcs inDegree adjacency) {entries : List (κ × Nat)}
    (perm : entries.Perm inDegree.toList) :
    Sound arcs inDegree
      ⟨inDegree, (entries.filter fun entry => entry.2 = 0).map Prod.fst, []⟩ where
  counted p := by
    -- No source has a place yet, so every arc counts.
    cases found : inDegree[p]? with
    | none => rfl
    | some deg => simpa [remaining] using built.counts p deg found
  nodup := by
    have keys : (entries.map Prod.fst).Nodup := by
      rw [(perm.map Prod.fst).nodup_iff, Std.ExtTreeMap.map_fst_toList_eq_keys]
      exact Std.ExtTreeMap.nodup_keys
    exact keys.sublist (List.filter_sublist.map Prod.fst)
  ready p := by
    simp [perm.mem_iff, Std.ExtTreeMap.mem_toList_iff_getElem?_eq_some]
  ordered := Topological.nil

namespace Sound

/-- Visiting the first node of the queue keeps the counters true. -/
theorem visit (built : Built arcs inDegree adjacency) {node : κ} {queue : List κ}
    (sound : Sound arcs inDegree s) (waiting : s.queue = node :: queue) :
    Sound arcs inDegree (s.visit adjacency node queue) := by
  -- The node moves from the queue to the order, and is in neither of them twice.
  have split : s.order ++ s.queue = s.order ++ [node] ++ queue := by simp [waiting]
  have nodup := sound.nodup
  rw [split] at nodup
  have new : node ∉ s.order := fun again =>
    (List.nodup_append.mp (List.nodup_append.mp nodup).1).2.2 node again node (by simp) rfl
  rw [State.visit_eq]
  generalize moved : adjacency[node]?.getD [] = neighbors
  have left (p : κ) : remaining arcs s.order p =
      remaining arcs (s.order ++ [node]) p + neighbors.count p := by
    rw [← moved, built.targets, remaining_concat new]
  -- No counter is asked for more than it has.
  have enough (p : κ) (deg : Nat) (found : s.inDegree[p]? = some deg) :
      neighbors.count p ≤ deg := by
    rw [sound.counted, Option.map_eq_some_iff] at found
    obtain ⟨_, -, rfl⟩ := found
    rw [left]
    omega
  obtain ⟨joined, grown, joinedNodup, joins⟩ :=
    State.foldl_relax_queue neighbors { s with queue, order := s.order ++ [node] } enough
  refine ⟨fun p => ?_, ?_, fun p => ?_, ?_⟩
  · -- The counters lose the arcs that are settled now.
    rw [State.foldl_relax_inDegree, State.foldl_relax_order]
    simp only [sound.counted, Option.map_map, left]
    congr 1
    funext _
    simp
  · -- What joins the queue has waited for an arc until now.
    rw [grown, State.foldl_relax_order, ← List.append_assoc, List.nodup_append]
    refine ⟨nodup, joinedNodup, ?_⟩
    intro p early q late same
    obtain rfl := same
    obtain ⟨met, counter⟩ := (joins p).mp late
    rw [← split, sound.ready, counter, Option.some.injEq] at early
    exact List.count_eq_zero.mp early met
  · rw [grown, State.foldl_relax_order, ← List.append_assoc, List.mem_append, joins, ← split,
      sound.ready, State.foldl_relax_inDegree]
    -- A counter comes to zero exactly if the neighbors use it up.
    cases found : s.inDegree[p]? with
    | none => simp
    | some deg =>
      have := enough p deg found
      have met : p ∈ neighbors ↔ neighbors.count p ≠ 0 := by
        rw [Ne, List.count_eq_zero, not_not]
      simp only [Option.some.injEq, Option.map_some, met]
      omega
  · -- The node waits for no arc.
    rw [State.foldl_relax_order]
    have listed : node ∈ s.order ++ s.queue := by simp [waiting]
    exact sound.ordered.concat fun source =>
      source_mem_of_remaining (sound.remaining_eq_zero listed)

/-- No more nodes are listed than there are counters. -/
theorem length_le (sound : Sound arcs inDegree s) :
    (s.order ++ s.queue).length ≤ inDegree.size := by
  -- The nodes that are listed are distinct keys.
  rw [← Std.ExtTreeMap.length_keys]
  refine (sound.nodup.subperm fun p listed => ?_).length_le
  have zero := (sound.ready p).mp listed
  rw [sound.counted, Option.map_eq_some_iff] at zero
  obtain ⟨deg, found, -⟩ := zero
  rw [Std.ExtTreeMap.mem_keys, Std.ExtTreeMap.mem_iff_isSome_getElem?, found]
  rfl

/-- The loop ends with an empty queue, and with counters that are true. -/
theorem loop (built : Built arcs inDegree adjacency) (sound : Sound arcs inDegree s) (fuel : Nat)
    (enough : inDegree.size ≤ s.order.length + fuel) :
    Sound arcs inDegree (s.loop adjacency fuel) ∧ (s.loop adjacency fuel).queue = [] := by
  induction fuel generalizing s with
  | zero =>
    -- Every node that has a counter is in the order, so none can wait.
    have := sound.length_le
    rw [List.length_append] at this
    have none_ : s.queue.length = 0 := by omega
    exact ⟨sound, List.length_eq_zero_iff.mp none_⟩
  | succ fuel ih =>
    rw [State.loop]
    split
    · exact ⟨sound, ‹_›⟩
    · -- A visit uses up one unit of fuel for one more node of the order.
      rename_i node queue waiting
      refine ih (sound.visit built waiting) ?_
      rw [State.visit_eq, State.foldl_relax_order, List.length_append, List.length_singleton]
      omega

/-- Of nodes whose sources are nodes, the order has those that are not behind a circle. -/
theorem mem_order_iff_not_behind (sound : Sound arcs inDegree s) (ended : s.queue = [])
    (sources : ∀ a b, Arc arcs a b → a ∈ inDegree) {p : κ} (node : p ∈ inDegree) :
    p ∈ s.order ↔ ¬ BehindCircle (Arc arcs) p := by
  refine ⟨sound.ordered.not_behindCircle sound.order_nodup, fun free => ?_⟩
  -- The nodes that are left each wait for another one of them.
  by_contra missing
  let left := inDegree.keys.filter fun q => q ∉ s.order
  have waits : ∀ q ∈ left, ∃ source ∈ left, Arc arcs source q := by
    intro q listed
    obtain ⟨isNode, absent⟩ : q ∈ inDegree ∧ q ∉ s.order := by simpa [left] using listed
    have some_ : remaining arcs s.order q ≠ 0 := fun none_ =>
      absent ((sound.mem_order_iff ended q).mpr ⟨isNode, none_⟩)
    obtain ⟨source, isArc, outside⟩ := exists_source_of_remaining some_
    exact ⟨source, by simpa [left, outside] using sources source q isArc, isArc⟩
  exact free (behindCircle_of_sources waits (by simp [left, node, missing]))

/-- The counters that have not come to zero are those of the nodes behind a circle. -/
theorem counter_pos_iff (sound : Sound arcs inDegree s) (ended : s.queue = [])
    (sources : ∀ a b, Arc arcs a b → a ∈ inDegree) (p : κ) :
    (∃ deg, s.inDegree[p]? = some deg ∧ 0 < deg) ↔
      p ∈ inDegree ∧ BehindCircle (Arc arcs) p := by
  -- A node has its place exactly if its counter is zero.
  by_cases node : p ∈ inDegree
  · have free := sound.mem_order_iff_not_behind ended sources node
    have ready := sound.ready p
    rw [ended, List.append_nil, free] at ready
    obtain ⟨deg, found⟩ := Option.isSome_iff_exists.mp
      (Std.ExtTreeMap.mem_iff_isSome_getElem?.mp node)
    have counter : s.inDegree[p]? = some (remaining arcs s.order p) := by
      rw [sound.counted, found, Option.map_some]
    rw [counter, Option.some.injEq] at ready
    simp only [counter, Option.some.injEq, exists_eq_left', node, true_and]
    rw [Nat.pos_iff_ne_zero, ne_eq, ← ready, not_not]
  · have none_ : s.inDegree[p]? = none := by
      rw [sound.counted, Std.ExtTreeMap.getElem?_eq_none node, Option.map_none]
    simp [none_, node]

/-- The nodes that have no place are those behind a circle. -/
theorem length_order (sound : Sound arcs inDegree s) (ended : s.queue = [])
    (sources : ∀ a b, Arc arcs a b → a ∈ inDegree) :
    s.order.length + {p | p ∈ inDegree ∧ BehindCircle (Arc arcs) p}.ncard = inDegree.size := by
  classical
  -- The keys fall into two parts, the first of which is the order.
  have free : s.order.Perm
      (inDegree.keys.filter fun p => decide ¬ BehindCircle (Arc arcs) p) := by
    refine (List.perm_ext_iff_of_nodup sound.order_nodup
      (Std.ExtTreeMap.nodup_keys.filter _)).mpr fun p => ?_
    rw [List.mem_filter, Std.ExtTreeMap.mem_keys, decide_eq_true_iff]
    constructor
    · intro listed
      have node := ((sound.mem_order_iff ended p).mp listed).1
      exact ⟨node, (sound.mem_order_iff_not_behind ended sources node).mp listed⟩
    · rintro ⟨node, free⟩
      exact (sound.mem_order_iff_not_behind ended sources node).mpr free
  let behind := inDegree.keys.filter fun p => decide (BehindCircle (Arc arcs) p)
  have counted : {p | p ∈ inDegree ∧ BehindCircle (Arc arcs) p}.ncard = behind.length := by
    have set : {p | p ∈ inDegree ∧ BehindCircle (Arc arcs) p} = ↑behind.toFinset := by
      ext p
      simp [behind]
    rw [set, Set.ncard_coe_finset,
      List.toFinset_card_of_nodup (Std.ExtTreeMap.nodup_keys.filter _)]
  have parts := List.length_eq_length_filter_add (l := inDegree.keys)
    fun p => decide (BehindCircle (Arc arcs) p)
  simp only [decide_not] at free
  rw [counted, free.length_eq, ← Std.ExtTreeMap.length_keys, parts, Nat.add_comm]

end Sound

end Tatara.Kahn
