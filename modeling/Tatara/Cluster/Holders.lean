import Tatara.Cluster.StateMachine
import Mathlib.Data.List.Induction

/-! When the index of chunks lists exactly the nodes that hold each of them. -/

namespace Tatara.Cluster

open Tatara.Rust Tatara.Domain

/-- What a command says of a node and a chunk: that the node holds it, or that it does not. -/
def ClusterCommand.notice (hash : String) (nodeId : NodeId) : ClusterCommand → Option Bool
  | .advertiseChunk h n => if h = hash ∧ n = nodeId then some true else none
  | .removeChunkAdvertisement h n => if h = hash ∧ n = nodeId then some false else none
  | _ => none

/-- The node's latest notice of the chunk says that it holds it. -/
def Advertises (cmds : List ClusterCommand) (hash : String) (nodeId : NodeId) : Prop :=
  (cmds.filterMap (ClusterCommand.notice hash nodeId)).getLast? = some true

/-- The nodes that the index lists for a chunk. -/
def holders (index : Std.ExtTreeMap String (List NodeId)) (hash : String) : List NodeId :=
  index[hash]?.getD []

/-- The index lists for each chunk the nodes that advertise it, possibly more than once. -/
structure ListsHolders (index : Std.ExtTreeMap String (List NodeId))
    (cmds : List ClusterCommand) : Prop where
  listed : ∀ hash nodeId, nodeId ∈ holders index hash ↔ Advertises cmds hash nodeId
  entry : ∀ hash, index[hash]?.isSome ↔ holders index hash ≠ []

/-- The index is an exact holder set: it lists the nodes that advertise a chunk, each once, and has
an entry for the chunks that some node advertises. -/
structure ExactHolders (index : Std.ExtTreeMap String (List NodeId))
    (cmds : List ClusterCommand) : Prop extends ListsHolders index cmds where
  nodup : ∀ hash, (holders index hash).Nodup

/-- What a node advertises after one more command. -/
theorem advertises_concat (cmds : List ClusterCommand) (cmd : ClusterCommand) (hash : String)
    (nodeId : NodeId) :
    Advertises (cmds ++ [cmd]) hash nodeId ↔
      match cmd.notice hash nodeId with
      | some held => held = true
      | none => Advertises cmds hash nodeId := by
  -- A notice of the last command is the latest one.
  unfold Advertises
  cases said : cmd.notice hash nodeId <;> simp [List.filterMap_append, said]

/-- An advertisement adds its node to the holders of its chunk. -/
theorem holders_advertiseChunk (state : ClusterState) (hash : String) (nodeId : NodeId)
    (other : String) :
    holders (state.advertiseChunk hash nodeId).2.dataIndex other =
      if hash = other then holders state.dataIndex other ++ [nodeId]
      else holders state.dataIndex other := by
  -- The entry of the chunk is made if it is missing.
  unfold holders ClusterState.advertiseChunk
  by_cases same : hash = other
  · simp [same]
  · simp [same, Std.ExtTreeMap.getElem?_insert]

/-- A withdrawal takes every copy of its node from the holders of its chunk. -/
theorem holders_removeChunkAdvertisement (state : ClusterState) (hash : String) (nodeId : NodeId)
    (other : String) :
    holders (state.removeChunkAdvertisement hash nodeId).2.dataIndex other =
      if hash = other then (holders state.dataIndex other).filter fun id => id ≠ nodeId
      else holders state.dataIndex other := by
  -- An entry that would become empty is taken away, which leaves no holders as well.
  unfold holders ClusterState.removeChunkAdvertisement
  by_cases same : hash = other
  · subst same
    cases found : state.dataIndex[hash]? with
    | none => simp [found]
    | some listed =>
      simp only [Option.getD_some, if_true]
      split
      · rename_i empty
        rw [List.isEmpty_iff.mp empty]
        simp
      · simp
  · cases found : state.dataIndex[hash]? with
    | none => simp [same]
    | some listed =>
      simp only [same, if_false]
      split <;> simp [Std.ExtTreeMap.getElem?_insert, Std.ExtTreeMap.getElem?_erase, same]

/-- The entry of a chunk lists some holder, as long as every entry did before. -/
theorem entry_insert {index : Std.ExtTreeMap String (List NodeId)} {hash : String}
    {listed : List NodeId} (some_ : listed ≠ [])
    (entry : ∀ hash, index[hash]?.isSome ↔ holders index hash ≠ []) (other : String) :
    (index.insert hash listed)[other]?.isSome ↔ holders (index.insert hash listed) other ≠ [] := by
  -- The new entry lists what it was given, and the others are as they were.
  by_cases same : hash = other
  · simp [same, holders, some_]
  · simpa [same, holders, Std.ExtTreeMap.getElem?_insert] using entry other

namespace ListsHolders

variable {state : ClusterState} {cmds : List ClusterCommand}

/-- An advertisement is listed. -/
theorem advertiseChunk (lists : ListsHolders state.dataIndex cmds) (hash : String)
    (nodeId : NodeId) :
    ListsHolders (state.advertiseChunk hash nodeId).2.dataIndex
      (cmds ++ [.advertiseChunk hash nodeId]) := by
  constructor
  · intro other node
    rw [holders_advertiseChunk, advertises_concat]
    -- Other chunks and other nodes are as they were.
    by_cases same : hash = other
    · by_cases self : nodeId = node
      · simp [same, self, ClusterCommand.notice]
      · simp [same, self, Ne.symm self, ClusterCommand.notice, lists.listed]
    · simp [same, ClusterCommand.notice, lists.listed]
  · exact entry_insert (by simp) lists.entry

/-- A withdrawal is listed no longer. -/
theorem removeChunkAdvertisement (lists : ListsHolders state.dataIndex cmds) (hash : String)
    (nodeId : NodeId) :
    ListsHolders (state.removeChunkAdvertisement hash nodeId).2.dataIndex
      (cmds ++ [.removeChunkAdvertisement hash nodeId]) := by
  constructor
  · intro other node
    rw [holders_removeChunkAdvertisement, advertises_concat]
    by_cases same : hash = other
    · by_cases self : nodeId = node
      · simp [same, self, ClusterCommand.notice]
      · simp [same, self, Ne.symm self, ClusterCommand.notice, lists.listed]
    · simp [same, ClusterCommand.notice, lists.listed]
  · intro other
    unfold ClusterState.removeChunkAdvertisement
    cases found : state.dataIndex[hash]? with
    | none => exact lists.entry other
    | some listed =>
      simp only
      split
      · -- The entry that is taken away lists nobody.
        by_cases same : hash = other
        · simp [same, holders]
        · simpa [same, holders, Std.ExtTreeMap.getElem?_erase] using lists.entry other
      · rename_i left
        exact entry_insert (by simpa using left) lists.entry other

/-- A command keeps the index true to the commands so far. -/
theorem applyCommand (lists : ListsHolders state.dataIndex cmds) (readings : Readings)
    (cmd : ClusterCommand) :
    ListsHolders (applyCommand readings cmd state).2.dataIndex (cmds ++ [cmd]) := by
  -- Commands about other things neither write the index nor say anything of chunks.
  by_cases writes : cmd.writes .dataIndex = true
  · cases cmd with
    | advertiseChunk hash nodeId => exact lists.advertiseChunk hash nodeId
    | removeChunkAdvertisement hash nodeId => exact lists.removeChunkAdvertisement hash nodeId
    | _ => cases writes
  · have silent : ∀ hash nodeId, cmd.notice hash nodeId = none := by
      intro hash nodeId
      cases cmd with
      | advertiseChunk | removeChunkAdvertisement => exact absurd rfl writes
      | _ => rfl
    rw [(applyCommand_sameBut readings cmd state).dataIndex (by simpa using writes)]
    exact ⟨fun hash nodeId => by rw [advertises_concat, silent, lists.listed], lists.entry⟩

/-- After any commands the index lists the nodes that advertise a chunk, and no others. -/
theorem after (inputs : List (Readings × ClusterCommand)) :
    ListsHolders (ClusterState.after inputs).dataIndex (inputs.map Prod.snd) := by
  -- The commands grow at their end.
  induction inputs using List.reverseRecOn with
  | nil =>
    constructor
    · simp [holders, ClusterState.after, ClusterState.default, Advertises]
    · simp [holders, ClusterState.after, ClusterState.default]
  | append_singleton inputs input ih =>
    obtain ⟨readings, cmd⟩ := input
    rw [ClusterState.after_concat, List.map_append]
    exact ih.applyCommand readings cmd

end ListsHolders

/-- The commands of a run never advertise a chunk again for a node that advertises it already. -/
def AdvertisesOnce (inputs : List (Readings × ClusterCommand)) : Prop :=
  -- In between, a node may withdraw its chunk and advertise it anew.
  ∀ front readings hash nodeId, front ++ [(readings, .advertiseChunk hash nodeId)] <+: inputs →
    ¬ Advertises (front.map Prod.snd) hash nodeId

/-- A command lists no node twice, unless it advertises what its node advertises already. -/
theorem nodup_applyCommand {state : ClusterState} {cmds : List ClusterCommand}
    (lists : ListsHolders state.dataIndex cmds)
    (nodup : ∀ hash, (holders state.dataIndex hash).Nodup) (readings : Readings)
    {cmd : ClusterCommand}
    (new : ∀ hash nodeId, cmd = .advertiseChunk hash nodeId → ¬ Advertises cmds hash nodeId)
    (hash : String) : (holders (applyCommand readings cmd state).2.dataIndex hash).Nodup := by
  by_cases writes : cmd.writes .dataIndex = true
  · cases cmd with
    | advertiseChunk advertised nodeId =>
      simp only [applyCommand, holders_advertiseChunk]
      split
      · -- The node is new to the list.
        rename_i same
        subst same
        have unlisted := mt (lists.listed advertised nodeId).mp (new _ _ rfl)
        rw [List.nodup_append]
        refine ⟨nodup advertised, by simp, fun listed inside other last => ?_⟩
        rw [List.mem_singleton.mp last]
        rintro rfl
        exact unlisted inside
      · exact nodup hash
    | removeChunkAdvertisement withdrawn nodeId =>
      simp only [applyCommand, holders_removeChunkAdvertisement]
      split
      · exact (nodup hash).filter _
      · exact nodup hash
    | _ => cases writes
  · rw [(applyCommand_sameBut readings cmd state).dataIndex (by simpa using writes)]
    exact nodup hash

/-- The index is an exact holder set after every part of a run exactly when no node advertises a
chunk again that it advertises already. -/
theorem exactHolders_iff_advertisesOnce (inputs : List (Readings × ClusterCommand)) :
    (∀ front, front <+: inputs →
        ExactHolders (ClusterState.after front).dataIndex (front.map Prod.snd)) ↔
      AdvertisesOnce inputs := by
  constructor
  · intro exact_ front readings hash nodeId before advertised
    -- The node is listed, and the repeated advertisement lists it once more.
    have listed := ((ListsHolders.after front).listed hash nodeId).mpr advertised
    have nodup := (exact_ _ before).nodup hash
    rw [ClusterState.after_concat] at nodup
    simp only [applyCommand, holders_advertiseChunk, if_true, List.nodup_append] at nodup
    exact nodup.2.2 nodeId listed nodeId (by simp) rfl
  · intro once front before
    refine ⟨ListsHolders.after front, ?_⟩
    -- What is listed once stays listed once, command by command.
    induction front using List.reverseRecOn with
    | nil => simp [holders, ClusterState.after, ClusterState.default]
    | append_singleton front input ih =>
      obtain ⟨readings, cmd⟩ := input
      rw [ClusterState.after_concat]
      refine nodup_applyCommand (ListsHolders.after front)
        (ih ((List.prefix_append front _).trans before)) readings ?_
      rintro hash nodeId rfl
      exact once front readings hash nodeId before

/-- One node advertises one chunk twice. -/
def advertisedTwice : List (Readings × ClusterCommand) :=
  [(.still ⟨0⟩, .advertiseChunk "chunk" 1), (.still ⟨0⟩, .advertiseChunk "chunk" 1)]

/-- A node that advertises a chunk twice is listed twice, so the index is no holder set. -/
theorem not_exactHolders_repeated :
    ¬ ∀ inputs, ExactHolders (ClusterState.after inputs).dataIndex (inputs.map Prod.snd) := by
  -- The second advertisement appends without looking.
  intro always
  have listed : holders (ClusterState.after advertisedTwice).dataIndex "chunk" = [1, 1] := by
    decide +kernel
  have nodup := (always advertisedTwice).nodup "chunk"
  rw [listed] at nodup
  exact absurd nodup (by decide)

end Tatara.Cluster
