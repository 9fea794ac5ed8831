import Tatara.Cluster.StateMachine

/-! The log on disk: a table of entries by index, and the point of the last purge. -/

namespace Tatara.Cluster

/-- One end of a range of indices. -/
inductive Bound where
  | included (index : UInt64)
  | excluded (index : UInt64)
  | unbounded
  deriving DecidableEq

/-- A range of indices. -/
structure IndexRange where
  start : Bound
  stop : Bound
  deriving DecidableEq

namespace IndexRange

/-- Whether an index lies in a range. -/
def contains (range : IndexRange) (index : UInt64) : Bool :=
  -- Each end is checked on its own, so a range may be empty.
  (match range.start with
    | .included first => decide (first ≤ index)
    | .excluded first => decide (first < index)
    | .unbounded => true) &&
  match range.stop with
    | .included last => decide (index ≤ last)
    | .excluded last => decide (index < last)
    | .unbounded => true

end IndexRange

/-- What the log tells of itself. -/
structure LogState where
  lastPurgedLogId : Option LogId
  lastLogId : Option LogId
  deriving DecidableEq

/-- The index after an entry, which is the first one where there is no entry. -/
def nextIndex : Option LogId → Nat
  -- The first index of a log is zero.
  | none => 0
  | some logId => logId.index.toNat + 1

/-- The tables of the store, with the entries that their JSON stands for. -/
structure LogStore where
  log : Std.ExtTreeMap UInt64 Entry
  lastPurged : Option LogId

namespace LogStore

/-- The store that a new file holds. -/
def new : LogStore := ⟨∅, none⟩

/-- Read the entries of a range, in the order of their indices. -/
def tryGetLogEntries (store : LogStore) (range : IndexRange) : List Entry :=
  -- The table is ordered by index.
  (store.log.toList.filter fun (index, _) => range.contains index).map Prod.snd

/-- An emptied log still tells up to where it was purged. -/
def getLogState (store : LogStore) : LogState where
  lastPurgedLogId := store.lastPurged
  lastLogId :=
    match store.log.maxKey?.bind fun index => store.log[index]? with
    | some entry => some entry.logId
    | none => store.lastPurged

/-- Write entries under their indices. -/
def append (store : LogStore) (entries : List Entry) : LogStore :=
  { store with
    log := entries.foldl (fun log entry => log.insert entry.logId.index entry) store.log }

/-- Remove the entries whose index lies in a range. -/
def removeRange (log : Std.ExtTreeMap UInt64 Entry) (range : IndexRange) :
    Std.ExtTreeMap UInt64 Entry :=
  -- The indices are collected first, and then removed one after the other.
  (log.keys.filter range.contains).foldl (fun log index => log.erase index) log

/-- Remove the entries from an index on. -/
def truncate (store : LogStore) (logId : LogId) : LogStore :=
  { store with log := removeRange store.log ⟨.included logId.index, .unbounded⟩ }

/-- Remove the entries up to an index, which becomes the point of the purge. -/
def purge (store : LogStore) (logId : LogId) : LogStore :=
  -- Both tables are written in one transaction.
  { store with
    log := removeRange store.log ⟨.unbounded, .included logId.index⟩
    lastPurged := some logId }

/-- Erasing indices takes away the entries under them, and no others. -/
theorem foldl_erase_getElem? (indices : List UInt64) (log : Std.ExtTreeMap UInt64 Entry)
    (index : UInt64) :
    (indices.foldl (fun log index => log.erase index) log)[index]? =
      if index ∈ indices then none else log[index]? := by
  -- Each erasure hides one index, and an index stays hidden once it is.
  induction indices generalizing log with
  | nil => simp
  | cons first indices ih =>
    simp only [List.foldl_cons, ih, Std.ExtTreeMap.getElem?_erase,
      Std.LawfulEqOrd.compare_eq_iff_eq, List.mem_cons]
    by_cases same : index = first
    · simp [same]
    · simp [same, Ne.symm same]

/-- Removing a range takes away the entries in it, and no others. -/
theorem removeRange_getElem? (log : Std.ExtTreeMap UInt64 Entry) (range : IndexRange)
    (index : UInt64) :
    (removeRange log range)[index]? = if range.contains index then none else log[index]? := by
  rw [removeRange, foldl_erase_getElem?]
  simp only [List.mem_filter, Std.ExtTreeMap.mem_keys]
  -- An index without an entry has none to lose.
  by_cases present : index ∈ log
  · simp [present]
  · simp [present]

/-- A purge takes away the entries up to its point. -/
theorem purge_getElem? (store : LogStore) (logId : LogId) (index : UInt64) :
    (store.purge logId).log[index]? =
      if index ≤ logId.index then none else store.log[index]? := by
  -- The range of a purge has no lower end.
  simp [purge, removeRange_getElem?, IndexRange.contains]

/-- Every entry is stored under its own index. -/
def Keyed (store : LogStore) : Prop :=
  ∀ (index : UInt64) (entry : Entry), store.log[index]? = some entry → entry.logId.index = index

/-- An append leaves the indices that it does not write. -/
theorem append_getElem? {store : LogStore} {entries : List Entry} {index : UInt64}
    (unwritten : ∀ entry ∈ entries, entry.logId.index ≠ index) :
    (store.append entries).log[index]? = store.log[index]? := by
  -- No insertion of the loop meets the index.
  simp only [append]
  generalize store.log = log
  induction entries generalizing log with
  | nil => rfl
  | cons entry entries ih =>
    rw [List.foldl_cons, ih fun other member => unwritten other (by simp [member]),
      Std.ExtTreeMap.getElem?_insert]
    simp [unwritten entry (by simp)]

/-- An append stores its entries under their indices. -/
theorem Keyed.append {store : LogStore} (keyed : store.Keyed) (entries : List Entry) :
    (store.append entries).Keyed := by
  -- The loop inserts every entry under the index that the entry carries.
  unfold Keyed at keyed ⊢
  simp only [LogStore.append]
  generalize store.log = log at keyed
  induction entries generalizing log with
  | nil => exact keyed
  | cons entry entries ih =>
    refine ih _ fun index found stored => ?_
    rw [Std.ExtTreeMap.getElem?_insert] at stored
    split at stored
    · rename_i same
      cases stored
      exact Std.LawfulEqOrd.eq_of_compare same
    · exact keyed index found stored

/-- The next index lies behind every entry. -/
theorem Keyed.lt_nextIndex {store : LogStore} (keyed : store.Keyed) {index : UInt64} {entry : Entry}
    (stored : store.log[index]? = some entry) :
    index.toNat < nextIndex store.getLogState.lastLogId := by
  have present : index ∈ store.log := Std.ExtTreeMap.mem_iff_isSome_getElem?.mpr (by simp [stored])
  cases last : store.log.maxKey? with
  | none =>
    rw [Std.ExtTreeMap.maxKey?_eq_none_iff] at last
    simp [last] at present
  | some largest =>
    obtain ⟨inside, bound⟩ := Std.ExtTreeMap.maxKey?_eq_some_iff_mem_and_forall.mp last
    obtain ⟨final, found⟩ := Option.isSome_iff_exists.mp
      (Std.ExtTreeMap.mem_iff_isSome_getElem?.mp inside)
    -- The last entry is stored under the largest index.
    have le : index ≤ largest := Std.isLE_compare.mp (bound index present)
    simp only [getLogState, last, Option.bind_some, found, nextIndex, keyed largest final found]
    exact Nat.lt_succ_of_le (UInt64.le_iff_toNat_le.mp le)

end LogStore

end Tatara.Cluster
