import Mathlib.Data.List.Sort
import Tatara.Cluster.LogStore
import Tatara.Lib.Consecutive
import Tatara.Lib.Machine

/-! The tables of the log store stand for a list of consecutive entries behind a purge point. -/

namespace Tatara.Cluster

open Tatara.Steps

/-- The place of an entry in the log. -/
def Entry.place (entry : Entry) : Nat := entry.logId.index.toNat

/-- What a log is for: the point up to which it was purged, and consecutive entries behind it. -/
structure RaftLog where
  lastPurged : Option LogId
  entries : List Entry
  consecutive : Consecutive Entry.place entries
  behind : ∀ entry ∈ entries, nextIndex lastPurged ≤ entry.place

namespace RaftLog

/-- The log that has nothing yet. -/
def empty : RaftLog where
  lastPurged := none
  entries := []
  consecutive := .nil
  behind := by simp

/-- The last entry, or else the purge point. -/
def lastLogId (log : RaftLog) : Option LogId :=
  match log.entries.getLast? with
  | some entry => some entry.logId
  | none => log.lastPurged

/-- Entries come next in a log, one after the other. -/
def Next (log : RaftLog) (entries : List Entry) : Prop :=
  ∀ position entry, entries[position]? = some entry →
    entry.place = nextIndex log.lastLogId + position

/-- Put entries behind those of the log. -/
def append (log : RaftLog) (entries : List Entry) (next : log.Next entries) : RaftLog where
  lastPurged := log.lastPurged
  entries := log.entries ++ entries
  consecutive := by
    refine log.consecutive.append (.of_getElem? next) fun a last b first => ?_
    -- The first new entry is the one after the last.
    rw [Option.mem_def] at last first
    have counted := next 0 b (by rw [← List.head?_eq_getElem?]; exact first)
    rw [lastLogId, last] at counted
    exact counted
  behind := by
    intro entry member
    rcases List.mem_append.mp member with inside | new
    · exact log.behind entry inside
    · obtain ⟨position, at_⟩ := List.mem_iff_getElem?.mp new
      have counted := next position entry at_
      -- The last entry is behind the purge point, if there is one.
      cases final : log.entries.getLast? with
      | none =>
        rw [lastLogId, final] at counted
        simp only at counted
        omega
      | some last =>
        have later := log.behind last (List.mem_of_mem_getLast? final)
        rw [lastLogId, final, nextIndex] at counted
        simp only [Entry.place] at later counted ⊢
        omega

/-- Drop the entries from an index on. -/
def truncate (log : RaftLog) (logId : LogId) : RaftLog where
  lastPurged := log.lastPurged
  entries := log.entries.filter fun entry => entry.place < logId.index.toNat
  consecutive := log.consecutive.filter_lt _
  behind entry member := log.behind entry (List.mem_of_mem_filter member)

/-- Drop the entries up to an index, which becomes the purge point. -/
def purge (log : RaftLog) (logId : LogId) : RaftLog where
  lastPurged := some logId
  entries := log.entries.filter fun entry => logId.index.toNat < entry.place
  consecutive := log.consecutive.filter_gt _
  behind entry member := by
    have later := List.of_mem_filter member
    exact of_decide_eq_true later

/-- The entries start right behind the purge point. -/
def Tight (log : RaftLog) : Prop :=
  ∀ entry ∈ log.entries.head?, entry.place = nextIndex log.lastPurged

end RaftLog

/-- What the log is asked for. -/
inductive LogOp where
  | append (entries : List Entry)
  | truncate (logId : LogId)
  | purge (logId : LogId)

/-- The store after an operation. -/
def LogStore.serve (store : LogStore) : LogOp → LogStore
  | .append entries => store.append entries
  | .truncate logId => store.truncate logId
  | .purge logId => store.purge logId

open Classical in
/-- The log after an operation. -/
noncomputable def RaftLog.serve (log : RaftLog) : LogOp → RaftLog
  | .append entries => if next : log.Next entries then log.append entries next else log
  | .truncate logId => log.truncate logId
  | .purge logId => log.purge logId

/-- Entries are appended only one after the other behind the last one, as the caller promises. -/
def LogStore.Contiguous (store : LogStore) : LogOp → Prop
  | .append entries => ∀ position entry, entries[position]? = some entry →
      entry.place = nextIndex store.getLogState.lastLogId + position
  | _ => True

/-- A purge goes no less far than the one before it. -/
def LogStore.PurgesOn (store : LogStore) : LogOp → Prop
  | .purge logId => nextIndex store.lastPurged ≤ logId.index.toNat + 1
  | _ => True

/-- Appending entries with different indices writes them, and leaves the other entries. -/
theorem LogStore.append_eq_some_iff {store : LogStore} {entries : List Entry}
    (apart : entries.Pairwise fun a b => a.logId.index ≠ b.logId.index) {index : UInt64}
    {entry : Entry} :
    (store.append entries).log[index]? = some entry ↔
      entry ∈ entries ∧ entry.logId.index = index ∨
        store.log[index]? = some entry ∧ ∀ new ∈ entries, new.logId.index ≠ index := by
  simp only [LogStore.append]
  generalize store.log = log
  induction entries generalizing log with
  | nil => simp
  | cons first rest ih =>
    obtain ⟨alone, others⟩ := List.pairwise_cons.mp apart
    rw [List.foldl_cons, ih others, Std.ExtTreeMap.getElem?_insert, List.forall_mem_cons]
    by_cases same : first.logId.index = index
    · -- The first entry is written here, and no other one.
      have none_ : ∀ new ∈ rest, new.logId.index ≠ index := fun new member =>
        same ▸ (alone new member).symm
      simp only [same, Std.ReflCmp.compare_self, if_true, Option.some.injEq, List.mem_cons]
      constructor
      · rintro (⟨member, at_⟩ | ⟨rfl, -⟩)
        · exact absurd at_ (none_ entry member)
        · exact .inl ⟨.inl rfl, same⟩
      · rintro (⟨rfl | member, at_⟩ | ⟨-, other, -⟩)
        · exact .inr ⟨rfl, none_⟩
        · exact absurd at_ (none_ entry member)
        · exact absurd rfl other
    · simp only [Std.LawfulEqOrd.compare_eq_iff_eq, List.mem_cons, ne_eq, same, not_false_eq_true,
        true_and]
      refine or_congr_left (and_congr_left fun at_ => (or_iff_right ?_).symm)
      rintro rfl
      exact same at_

/-- The tables hold the entries of the log, each under its index, and the purge point. -/
structure Represents (store : LogStore) (log : RaftLog) : Prop where
  lastPurged : store.lastPurged = log.lastPurged
  entries : ∀ (index : UInt64) (entry : Entry),
    store.log[index]? = some entry ↔ entry ∈ log.entries ∧ entry.logId.index = index

namespace Represents

variable {store : LogStore} {log : RaftLog}

/-- A new file has nothing yet. -/
theorem new : Represents .new .empty where
  lastPurged := rfl
  entries index entry := by simp [LogStore.new, RaftLog.empty]

/-- Read by index, the table lists the entries in their order. -/
theorem toList_eq (represents : Represents store log) :
    store.log.toList = log.entries.map fun entry => (entry.logId.index, entry) := by
  -- Both lists have the same pairs, and both are in the order of the indices.
  have ascending : store.log.toList.Pairwise fun a b => a.1 < b.1 :=
    Std.ExtTreeMap.ordered_keys_toList.imp fun less => Std.compare_eq_lt.mp less
  have places : (log.entries.map fun entry => (entry.logId.index, entry)).Pairwise
      fun a b => a.1 < b.1 :=
    List.pairwise_map.mpr (log.consecutive.pairwise.imp fun less => UInt64.lt_iff_toNat_lt.mpr less)
  have apart (a b : UInt64 × Entry) (less : a.1 < b.1) : a ≠ b := fun same =>
    absurd less (by rw [same]; exact UInt64.lt_irrefl _)
  refine List.Perm.eq_of_pairwise (fun a b _ _ less more => ?_) ascending places
    ((List.perm_ext_iff_of_nodup (ascending.imp (apart _ _)) (places.imp (apart _ _))).mpr ?_)
  · exact absurd (UInt64.lt_trans less more) (UInt64.lt_irrefl _)
  · rintro ⟨index, entry⟩
    rw [Std.ExtTreeMap.mem_toList_iff_getElem?_eq_some, represents.entries, List.mem_map]
    constructor
    · rintro ⟨member, rfl⟩
      exact ⟨entry, member, rfl⟩
    · rintro ⟨other, member, same⟩
      obtain ⟨rfl, rfl⟩ := Prod.mk.inj same
      exact ⟨member, rfl⟩

/-- A range reads the entries in it, in their order. -/
theorem tryGetLogEntries_eq (represents : Represents store log) (range : IndexRange) :
    store.tryGetLogEntries range =
      log.entries.filter fun entry => range.contains entry.logId.index := by
  rw [LogStore.tryGetLogEntries, represents.toList_eq, List.filter_map, List.map_map]
  exact List.map_id' _

/-- The store tells the purge point and the last entry. -/
theorem getLogState_eq (represents : Represents store log) :
    store.getLogState = ⟨log.lastPurged, log.lastLogId⟩ := by
  have present (index : UInt64) : index ∈ store.log ↔
      ∃ entry ∈ log.entries, entry.logId.index = index := by
    rw [Std.ExtTreeMap.mem_iff_isSome_getElem?, Option.isSome_iff_exists]
    exact exists_congr (represents.entries index)
  cases final : log.entries.getLast? with
  | none =>
    -- Without entries there is no key.
    have none_ : store.log.maxKey? = none := by
      refine Std.ExtTreeMap.maxKey?_eq_none_iff.mpr (Std.ExtTreeMap.ext_getElem? fun index => ?_)
      rw [Std.ExtTreeMap.getElem?_empty, ← Option.not_isSome_iff_eq_none,
        ← Std.ExtTreeMap.mem_iff_isSome_getElem?, present, List.getLast?_eq_none_iff.mp final]
      simp
    simp [LogStore.getLogState, RaftLog.lastLogId, none_, final, represents.lastPurged]
  | some last =>
    have member := List.mem_of_mem_getLast? final
    have largest : store.log.maxKey? = some last.logId.index := by
      refine Std.ExtTreeMap.maxKey?_eq_some_iff_mem_and_forall.mpr
        ⟨(present _).mpr ⟨last, member, rfl⟩, fun index inside => ?_⟩
      obtain ⟨entry, listed, rfl⟩ := (present index).mp inside
      exact Std.isLE_compare.mpr (UInt64.le_iff_toNat_le.mpr
        (log.consecutive.le_getLast listed final))
    have stored := (represents.entries last.logId.index last).mpr ⟨member, rfl⟩
    simp [LogStore.getLogState, RaftLog.lastLogId, largest, stored, final, represents.lastPurged]

/-- Appending writes the entries behind those that are there. -/
theorem append (represents : Represents store log) {entries : List Entry}
    (next : log.Next entries) :
    Represents (store.append entries) (log.append entries next) where
  lastPurged := represents.lastPurged
  entries index entry := by
    have apart : entries.Pairwise fun a b => a.logId.index ≠ b.logId.index :=
      (Consecutive.of_getElem? next).pairwise.imp fun less same =>
        absurd less (by rw [Entry.place, Entry.place, same]; exact Nat.lt_irrefl _)
    rw [LogStore.append_eq_some_iff apart, represents.entries, RaftLog.append, List.mem_append,
      or_and_right, or_comm]
    refine or_congr_left (and_iff_left_of_imp ?_)
    rintro ⟨inside, rfl⟩ new member same
    -- A new entry stands behind the last one, and so behind this one.
    obtain ⟨position, at_⟩ := List.mem_iff_getElem?.mp member
    have counted := next position new at_
    have places : new.place = entry.place := congrArg UInt64.toNat same
    cases final : log.entries.getLast? with
    | none => rw [List.getLast?_eq_none_iff.mp final] at inside; cases inside
    | some last =>
      have upTo := log.consecutive.le_getLast inside final
      rw [RaftLog.lastLogId, final, nextIndex] at counted
      simp only [Entry.place] at upTo counted places
      omega

/-- Where the same indices are kept on both sides, the rest is still represented. -/
theorem restrict (represents : Represents store log) (keeps : UInt64 → Prop) [DecidablePred keeps]
    {store' : LogStore} {log' : RaftLog} (purged : store'.lastPurged = log'.lastPurged)
    (kept : ∀ index : UInt64, store'.log[index]? = if keeps index then store.log[index]? else none)
    (filtered : log'.entries = log.entries.filter fun entry => keeps entry.logId.index) :
    Represents store' log' where
  lastPurged := purged
  entries index entry := by
    rw [kept, filtered, List.mem_filter, decide_eq_true_iff]
    by_cases inside : keeps index
    · rw [if_pos inside, represents.entries]
      refine and_congr_left fun same => (and_iff_left ?_).symm
      rwa [same]
    · -- An entry under an index that is not kept has been dropped from the list as well.
      rw [if_neg inside]
      refine iff_of_false (by simp) ?_
      rintro ⟨⟨-, before⟩, rfl⟩
      exact inside before

/-- Truncating removes the entries from an index on. -/
theorem truncate (represents : Represents store log) (logId : LogId) :
    Represents (store.truncate logId) (log.truncate logId) := by
  refine represents.restrict (fun index => index < logId.index) represents.lastPurged
    (fun index => ?_) (List.filter_congr fun entry _ => ?_)
  -- What is not at the index or behind it is in front of it.
  · rw [LogStore.truncate, LogStore.removeRange_getElem?]
    by_cases later : logId.index ≤ index
    · simp [IndexRange.contains, later, UInt64.not_lt.mpr later]
    · simp [IndexRange.contains, later, UInt64.not_le.mp later]
  · rw [decide_eq_decide, UInt64.lt_iff_toNat_lt, Entry.place]

/-- Purging removes the entries up to an index. -/
theorem purge (represents : Represents store log) (logId : LogId) :
    Represents (store.purge logId) (log.purge logId) := by
  refine represents.restrict (fun index => logId.index < index) rfl
    (fun index => ?_) (List.filter_congr fun entry _ => ?_)
  · -- An entry stays if its index is greater.
    rw [LogStore.purge_getElem?]
    by_cases before : index ≤ logId.index
    · simp [before, UInt64.not_lt.mpr before]
    · simp [before, UInt64.not_le.mp before]
  · rw [decide_eq_decide, UInt64.lt_iff_toNat_lt, Entry.place]

/-- Every operation on the store is the one on the log. -/
theorem serve (represents : Represents store log) {op : LogOp} (contiguous : store.Contiguous op) :
    Represents (store.serve op) (log.serve op) := by
  cases op with
  | append entries =>
    -- What comes next in the store comes next in the log.
    have next : log.Next entries := by
      intro position entry at_
      have counted := contiguous position entry at_
      rwa [represents.getLogState_eq] at counted
    rw [LogStore.serve, RaftLog.serve, dif_pos next]
    exact represents.append next
  | truncate logId => exact represents.truncate logId
  | purge logId => exact represents.purge logId

end Represents

/-- After every run the store represents the log that the operations make. -/
theorem represents_run {store : LogStore} {log : RaftLog} (start : Represents store log)
    {ops : List LogOp} (contiguous : EachStep LogStore.serve LogStore.Contiguous store ops) :
    Represents (ops.foldl LogStore.serve store) (ops.foldl RaftLog.serve log) := by
  -- Each operation is served on both sides, as long as what is appended is contiguous.
  induction ops generalizing store log with
  | nil => exact start
  | cons op ops ih =>
    obtain ⟨first, others⟩ := eachStep_cons_iff.mp contiguous
    exact ih (start.serve first) others

namespace RaftLog

/-- A new log starts where it should. -/
theorem tight_empty : empty.Tight := by
  intro entry first
  cases first

/-- Every operation keeps the entries right behind the purge point, as long as no purge goes
back. -/
theorem Tight.serve {log : RaftLog} (tight : log.Tight) {op : LogOp}
    (on : ∀ logId, op = .purge logId → nextIndex log.lastPurged ≤ logId.index.toNat + 1) :
    (log.serve op).Tight := by
  cases op with
  | append entries =>
    rw [RaftLog.serve]
    split
    · rename_i next
      intro entry first
      change entry ∈ (log.entries ++ entries).head? at first
      cases listed : log.entries with
      | nil =>
        -- The first new entry is the first of all.
        rw [listed, List.nil_append, List.head?_eq_getElem?] at first
        have counted := next 0 entry first
        rw [lastLogId, listed] at counted
        exact counted
      | cons head rest =>
        rw [listed] at first
        refine tight entry ?_
        rw [listed]
        exact first
    · exact tight
  | truncate logId =>
    intro entry first
    exact tight entry (log.consecutive.head?_filter_lt first)
  | purge logId =>
    intro entry first
    refine log.consecutive.head?_filter_gt (fun head initial => ?_) first
    rw [tight head initial]
    exact on logId rfl

end RaftLog

/-- The entries start right behind the purge point after every run in which no purge goes back. -/
theorem tight_run {store : LogStore} {log : RaftLog} (start : Represents store log)
    (tight : log.Tight) {ops : List LogOp}
    (contiguous : EachStep LogStore.serve LogStore.Contiguous store ops)
    (on : EachStep LogStore.serve LogStore.PurgesOn store ops) :
    (ops.foldl RaftLog.serve log).Tight := by
  -- The store says whether a purge goes on, and the log has the same purge point.
  induction ops generalizing store log with
  | nil => exact tight
  | cons op ops ih =>
    obtain ⟨first, others⟩ := eachStep_cons_iff.mp contiguous
    obtain ⟨forward, later⟩ := eachStep_cons_iff.mp on
    refine ih (start.serve first) (tight.serve fun logId same => ?_) others later
    obtain rfl := same
    rw [← start.lastPurged]
    exact forward

/-- After every run of operations on a new store, where entries are appended one after the other
behind the last one: a range reads the entries of the log that lie in it, in order; the state is the
purge point and the last entry, or the purge point again without entries; truncating takes away the
entries from its index on; purging takes away those up to its index, which becomes the purge point,
so that the point goes back exactly if the purge lies before it; and as long as no purge goes back,
the entries start right behind the purge point. -/
theorem logStore_refines_raftLog (ops : List LogOp)
    (contiguous : EachStep LogStore.serve LogStore.Contiguous .new ops) :
    let store := ops.foldl LogStore.serve .new
    let log := ops.foldl RaftLog.serve .empty
    (∀ range, store.tryGetLogEntries range =
      log.entries.filter fun entry => range.contains entry.logId.index) ∧
    store.getLogState = ⟨log.lastPurged, log.lastLogId⟩ ∧
    (∀ logId range, (store.truncate logId).tryGetLogEntries range =
        (log.entries.filter fun entry => entry.place < logId.index.toNat).filter
          fun entry => range.contains entry.logId.index) ∧
    (∀ logId range, (store.purge logId).tryGetLogEntries range =
        (log.entries.filter fun entry => logId.index.toNat < entry.place).filter
          fun entry => range.contains entry.logId.index) ∧
    (∀ logId, (store.truncate logId).getLogState.lastPurgedLogId = log.lastPurged ∧
      (store.purge logId).getLogState.lastPurgedLogId = some logId ∧
      (nextIndex store.lastPurged ≤ nextIndex (store.purge logId).lastPurged ↔
        store.PurgesOn (.purge logId))) ∧
    (EachStep LogStore.serve LogStore.PurgesOn .new ops → log.Tight) := by
  intro store log
  -- What the store answers is read off the log that it represents.
  have represents : Represents store log := represents_run .new contiguous
  refine ⟨represents.tryGetLogEntries_eq, represents.getLogState_eq,
    fun logId => (represents.truncate logId).tryGetLogEntries_eq,
    fun logId => (represents.purge logId).tryGetLogEntries_eq, fun logId => ⟨?_, ?_, Iff.rfl⟩,
    tight_run .new RaftLog.tight_empty contiguous⟩
  · rw [(represents.truncate logId).getLogState_eq]
    rfl
  · rw [(represents.purge logId).getLogState_eq]
    rfl

/-- The place of an entry of the first leader. -/
def firstTerm (index : UInt64) : LogId := ⟨⟨1, 1⟩, index⟩

/-- An entry is appended, the log is purged up to it, and two entries are appended behind. -/
theorem logStore_refines_raftLog_blank :
    let ops := [LogOp.append [⟨firstTerm 0, .blank⟩], .purge (firstTerm 0),
      .append [⟨firstTerm 1, .blank⟩, ⟨firstTerm 2, .blank⟩]]
    let store := ops.foldl LogStore.serve .new
    let log := ops.foldl RaftLog.serve .empty
    EachStep LogStore.serve LogStore.Contiguous .new ops ∧
    store.getLogState = ⟨log.lastPurged, log.lastLogId⟩ ∧ log.Tight := by
  intro ops store log
  have first : RaftLog.empty.Next [⟨firstTerm 0, .blank⟩] := by
    intro position entry at_
    cases position with
    | zero =>
      obtain rfl := Option.some.inj at_
      rfl
    | succ position => cases at_
  -- Behind the purge nothing is left, and the purge point is what the next entry follows.
  have purged := ((Represents.new.append first).purge (firstTerm 0)).getLogState_eq
  have contiguous : EachStep LogStore.serve LogStore.Contiguous .new ops := by
    refine eachStep_cons_iff.mpr ⟨?_, eachStep_cons_iff.mpr ⟨trivial,
      eachStep_cons_iff.mpr ⟨?_, eachStep_nil⟩⟩⟩
    · intro position entry at_
      rw [Represents.new.getLogState_eq]
      exact first position entry at_
    · intro position entry at_
      have last : ((LogStore.new.serve (.append [⟨firstTerm 0, .blank⟩])).serve
          (.purge (firstTerm 0))).getLogState.lastLogId = some (firstTerm 0) :=
        congrArg LogState.lastLogId purged
      rw [last]
      rcases position with _ | _ | position
      · obtain rfl := Option.some.inj at_
        rfl
      · obtain rfl := Option.some.inj at_
        rfl
      · cases at_
  have purges : EachStep LogStore.serve LogStore.PurgesOn .new ops :=
    eachStep_cons_iff.mpr ⟨trivial, eachStep_cons_iff.mpr ⟨Nat.zero_le _,
      eachStep_cons_iff.mpr ⟨trivial, eachStep_nil⟩⟩⟩
  obtain ⟨-, state, -, -, -, tight⟩ := logStore_refines_raftLog ops contiguous
  exact ⟨contiguous, state, tight purges⟩

/-- A purge that lies before the last one moves the purge point back. -/
theorem purge_goes_back :
    ¬ ∀ (ops : List LogOp) (logId : LogId),
      EachStep LogStore.serve LogStore.Contiguous .new ops →
      nextIndex (ops.foldl LogStore.serve .new).lastPurged ≤
        nextIndex ((ops.foldl LogStore.serve .new).purge logId).lastPurged := by
  intro never
  -- The log is purged up to the third index, and then up to the first.
  have back := never [.purge (firstTerm 2)] (firstTerm 0)
    (eachStep_cons_iff.mpr ⟨trivial, eachStep_nil⟩)
  exact absurd back (by decide)

end Tatara.Cluster
