import Tatara.Cluster.State

/-! The reconciler between gossip and Raft, and which live voters it asks Raft to add. -/

namespace Tatara.Cluster

open Tatara.Rust

/-- A live node as gossip lists it, with the key-values that it shares. -/
structure LiveNode where
  nodeId : String
  kvs : Std.ExtTreeMap String String

/-- `gossip_keys::META`. -/
def gossipMeta : String := "meta"

/-- What the reconciler remembers, and the addresses that the Raft network has for its peers. -/
structure MembershipReconciler where
  knownPeers : Std.ExtTreeMap String NodeMeta
  peers : Std.ExtTreeMap NodeId String

/-- `MembershipReconciler::new`. -/
def MembershipReconciler.new : MembershipReconciler := ⟨∅, ∅⟩

/-- A tick as it meets gossip and Raft: the live nodes, whether this node leads when the turn of a
peer comes, what the call for a peer is answered, and the voters of the configuration at the end. -/
structure MembershipTick where
  liveNodes : List LiveNode
  isLeader : String → Bool
  addVoter : String → Except String Unit
  voters : List NodeId

/-- A call to add a voter to Raft. -/
structure AddVoter where
  nodeId : NodeId
  addr : String
  result : Except String Unit

section

variable (parse : String → Option NodeMeta)

/-- The metadata of a live node, if it shares any that makes sense. -/
def LiveNode.meta (node : LiveNode) : Option NodeMeta := node.kvs[gossipMeta]?.bind parse

/-- The live peers under their names; of two with one name the one listed later counts. -/
def currentPeers (liveNodes : List LiveNode) : Std.ExtTreeMap String NodeMeta :=
  liveNodes.foldl (fun current node =>
    match node.meta parse with
    | none => current
    | some info => current.insert node.nodeId info) ∅

/-- The addresses of the network once those of the live nodes are written into it. -/
def updatePeers (liveNodes : List LiveNode) (peers : Std.ExtTreeMap NodeId String) :
    Std.ExtTreeMap NodeId String :=
  liveNodes.foldl (fun peers node =>
    match node.meta parse with
    | none => peers
    | some info => peers.insert info.nodeId info.raftAddr) peers

/-- The calls for peers that are new and voters, while this node leads. -/
def addNewVoters (tick : MembershipTick) (known current : Std.ExtTreeMap String NodeMeta) :
    List AddVoter :=
  current.toList.filterMap fun (id, info) =>
    if ¬ known.contains id ∧ info.roles.voter ∧ tick.isLeader id then
      some ⟨info.nodeId, info.raftAddr, tick.addVoter id⟩
    else none

/-- The addresses of the network without those of the peers that have departed. -/
def removeDeparted (known current : Std.ExtTreeMap String NodeMeta)
    (peers : Std.ExtTreeMap NodeId String) : Std.ExtTreeMap NodeId String :=
  (known.toList.filter fun (id, _) => ¬ current.contains id).foldl
    (fun peers (_, info) => peers.erase info.nodeId) peers

/-- `reconcile`, with the calls that it makes. -/
def MembershipReconciler.reconcile (reconciler : MembershipReconciler) (tick : MembershipTick) :
    List AddVoter × MembershipReconciler :=
  let current := currentPeers parse tick.liveNodes
  let known := reconciler.knownPeers
  (addNewVoters tick known current,
    { knownPeers := current
      peers := removeDeparted known current (updatePeers parse tick.liveNodes reconciler.peers) })

/-- What the reconciler remembers after a run of ticks. -/
def afterTicks (ticks : List MembershipTick) : MembershipReconciler :=
  ticks.foldl (fun reconciler tick => (reconciler.reconcile parse tick).2) .new

/-- The peers that the tick in front of a place has seen. -/
def seenBefore (ticks : List MembershipTick) : Nat → Std.ExtTreeMap String NodeMeta
  | 0 => ∅
  | k + 1 => (ticks[k]?.map fun tick => currentPeers parse tick.liveNodes).getD ∅

/-- A tick remembers the peers that it sees, whoever leads and whatever fails. -/
theorem knownPeers_reconcile (reconciler : MembershipReconciler) (tick : MembershipTick) :
    (reconciler.reconcile parse tick).2.knownPeers = currentPeers parse tick.liveNodes := rfl

/-- What is remembered at a place of a run is what the tick in front of it has seen. -/
theorem knownPeers_afterTicks (ticks : List MembershipTick) {k : Nat} (within : k ≤ ticks.length) :
    (afterTicks parse (ticks.take k)).knownPeers = seenBefore parse ticks k := by
  cases k with
  | zero => rfl
  | succ k =>
    -- The last of these ticks has written what is remembered.
    have last : ticks[k]? = some ticks[k] := List.getElem?_eq_getElem within
    rw [List.take_add_one, last, afterTicks, Option.toList_some, List.foldl_append]
    rw [List.foldl_cons, List.foldl_nil, knownPeers_reconcile, seenBefore, last]
    rfl

/-- A call is made for a node exactly when it is a voter under a name that is new, and this node
leads at its turn. -/
theorem mem_addNewVoters_iff {tick : MembershipTick} {known current : Std.ExtTreeMap String NodeMeta}
    {nodeId : NodeId} :
    (∃ call ∈ addNewVoters tick known current, call.nodeId = nodeId) ↔
      ∃ (id : String) (info : NodeMeta), current[id]? = some info ∧ id ∉ known ∧
        info.roles.voter = true ∧ tick.isLeader id = true ∧ info.nodeId = nodeId := by
  -- A call is made for a voter that is new, at a tick of the leader.
  unfold addNewVoters
  constructor
  · rintro ⟨call, made, own⟩
    obtain ⟨⟨id, info⟩, listed, asked⟩ := List.mem_filterMap.mp made
    dsimp only at asked
    split at asked
    · rename_i calls
      obtain rfl := Option.some.inj asked
      obtain ⟨new, voter, leads⟩ := calls
      refine ⟨id, info, Std.ExtTreeMap.mem_toList_iff_getElem?_eq_some.mp listed, ?_, voter, leads,
        own⟩
      rwa [Std.ExtTreeMap.contains_iff_mem] at new
    · cases asked
  · rintro ⟨id, info, held, new, voter, leads, own⟩
    refine ⟨⟨info.nodeId, info.raftAddr, tick.addVoter id⟩, ?_, own⟩
    refine List.mem_filterMap.mpr
      ⟨(id, info), Std.ExtTreeMap.mem_toList_iff_getElem?_eq_some.mpr held, if_pos ?_⟩
    exact ⟨by rwa [Std.ExtTreeMap.contains_iff_mem], voter, leads⟩

/-- This node leads throughout a tick. -/
def MembershipTick.Leads (tick : MembershipTick) : Prop := ∀ id, tick.isLeader id = true

/-- A live node says of itself that it is a voter. -/
def LiveVoter (tick : MembershipTick) (info : NodeMeta) : Prop :=
  ∃ node ∈ tick.liveNodes, node.meta parse = some info ∧ info.roles.voter = true

/-- At the end of each tick that this node leads throughout, every live voter is a voter of the
configuration or has had a call in that tick. -/
def ForgetsNoVoter (ticks : List MembershipTick) : Prop :=
  ∀ k tick, ticks[k]? = some tick → tick.Leads → ∀ info, LiveVoter parse tick info →
    info.nodeId ∈ tick.voters ∨
      ∃ call ∈ ((afterTicks parse (ticks.take k)).reconcile parse tick).1,
        call.nodeId = info.nodeId

/-- A node shows at a tick as a voter under a name that the tick before has not seen. -/
def ShowsAnew (ticks : List MembershipTick) (k : Nat) (tick : MembershipTick) (nodeId : NodeId) :
    Prop :=
  ∃ id info, (currentPeers parse tick.liveNodes)[id]? = some info ∧ info.roles.voter = true ∧
    info.nodeId = nodeId ∧ id ∉ seenBefore parse ticks k

/-- No live voter is forgotten exactly when at each tick of the leader those that are missing from
the configuration have not been seen by the tick before. -/
theorem forgetsNoVoter_iff_showsAnew (ticks : List MembershipTick) :
    ForgetsNoVoter parse ticks ↔
      ∀ k tick, ticks[k]? = some tick → tick.Leads → ∀ info, LiveVoter parse tick info →
        info.nodeId ∉ tick.voters → ShowsAnew parse ticks k tick info.nodeId := by
  -- A call is made in a tick exactly for what shows anew in it.
  refine forall₄_congr fun k tick at_ leads => forall₂_congr fun info live => ?_
  obtain ⟨within, -⟩ := List.getElem?_eq_some_iff.mp at_
  have known := knownPeers_afterTicks parse ticks (Nat.le_of_lt within)
  have asked : (∃ call ∈ ((afterTicks parse (ticks.take k)).reconcile parse tick).1,
      call.nodeId = info.nodeId) ↔ ShowsAnew parse ticks k tick info.nodeId := by
    rw [MembershipReconciler.reconcile, mem_addNewVoters_iff, known]
    refine exists₂_congr fun id other => and_congr_right fun _ => ?_
    -- The leadership that the call asks for is there at the turn of every peer.
    have now := leads id
    tauto
  rw [asked, or_iff_not_imp_left]

/-- A live voter that the tick before has seen as well is not called for. -/
theorem not_forgetsNoVoter_of_seen {before tick : MembershipTick} {info : NodeMeta}
    (same : before.liveNodes = tick.liveNodes) (leads : tick.Leads)
    (live : LiveVoter parse tick info) (missing : info.nodeId ∉ tick.voters) :
    ¬ ForgetsNoVoter parse [before, tick] := by
  intro remembers
  rcases remembers 1 tick rfl leads info live with voter | called
  · exact missing voter
  · have known := knownPeers_afterTicks parse [before, tick] (k := 1) (Nat.le_succ 1)
    rw [MembershipReconciler.reconcile, mem_addNewVoters_iff, known] at called
    obtain ⟨id, other, held, new, -⟩ := called
    -- What is seen now was seen by the tick before, so that nothing is new.
    have seen : seenBefore parse [before, tick] 1 = currentPeers parse tick.liveNodes :=
      congrArg (currentPeers parse) same
    rw [seen, ← Std.ExtTreeMap.contains_iff_mem, Std.ExtTreeMap.contains_eq_isSome_getElem?,
      held] at new
    exact new rfl

end

/-- A voter that is first seen while another node leads is forgotten by the leader to come. -/
theorem unled_voter_forgotten :
    let text := "\x7b\"node_id\":2,\"hostname\":\"b\",\"http_addr\":\"10.0.0.2:4646\"," ++
      "\"gossip_addr\":\"10.0.0.2:4648\",\"raft_addr\":\"10.0.0.2:4649\",\"os\":\"linux\"," ++
      "\"arch\":\"x86_64\",\"roles\":\x7b\"voter\":true,\"worker\":true,\"voter_priority\":1\x7d," ++
      "\"drivers\":[],\"total_resources\":\x7b\"cpu_mhz\":4000,\"memory_mb\":8192\x7d," ++
      "\"available_resources\":\x7b\"cpu_mhz\":4000,\"memory_mb\":8192\x7d," ++
      "\"allocations_running\":0,\"joined_at\":\"1970-01-01T00:00:00Z\",\"version\":\"0.1.0\"\x7d"
    let peer : NodeMeta := ⟨2, "b", "10.0.0.2:4646", "10.0.0.2:4648", "10.0.0.2:4649", "linux",
      "x86_64", ⟨true, true, 1⟩, [], ⟨4000, 8192⟩, ⟨4000, 8192⟩, 0, ⟨0⟩, "0.1.0", true, none, none⟩
    let parse := fun json => if json = text then some peer else none
    let live : List LiveNode := [⟨"tatara-2", Std.ExtTreeMap.insert ∅ gossipMeta text⟩]
    let follower : MembershipTick := ⟨live, fun _ => false, fun _ => .ok (), [1]⟩
    let leader : MembershipTick := ⟨live, fun _ => true, fun _ => .ok (), [1]⟩
    ¬ ForgetsNoVoter parse [follower, leader] := by
  intro text peer parse live follower leader
  have shown : LiveVoter parse leader peer := by
    refine ⟨_, List.mem_singleton_self _, ?_, rfl⟩
    simp [LiveNode.meta, parse]
  exact not_forgetsNoVoter_of_seen parse rfl (fun _ => rfl) shown (by decide)

end Tatara.Cluster
