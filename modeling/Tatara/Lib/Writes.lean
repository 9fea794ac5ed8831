import Mathlib.Tactic.Common

/-! Memo tables of bounded size in front of a fallible function. -/

namespace Tatara.Memo

variable {Q K V ε : Type} {cmp : K → K → Ordering} [Std.TransCmp cmp]

/-- What a table in front of a function answers: the remembered value, or else the function's. -/
def view (key : Q → K) (f : Q → Except ε V) (table : Std.ExtTreeMap K V cmp) (q : Q) :
    Except ε V :=
  match table[key q]? with
  | some v => .ok v
  | none => f q

/-- Ask the table, and remember a computed value while there is room. -/
def ask (capacity : Nat) (key : Q → K) (f : Q → Except ε V) (q : Q)
    (table : Std.ExtTreeMap K V cmp) : Except ε V × Std.ExtTreeMap K V cmp :=
  match table[key q]? with
  | some v => (.ok v, table)
  | none =>
    match f q with
    | .error err => (.error err, table)
    | .ok v => (.ok v, if table.size < capacity then table.insert (key q) v else table)

/-- Asking the table answers what it shows. -/
theorem ask_fst (capacity : Nat) (key : Q → K) (f : Q → Except ε V) (q : Q)
    (table : Std.ExtTreeMap K V cmp) :
    (ask capacity key f q table).1 = view key f table q := by
  -- A hit returns the remembered value, and a miss returns the function's.
  unfold ask view
  split
  · rfl
  · cases f q <;> rfl

/-- Asking the table changes no answer, as long as questions with one key have one answer. -/
theorem view_ask {capacity : Nat} {key : Q → K} {f : Q → Except ε V} {q other : Q}
    {table : Std.ExtTreeMap K V cmp} (apart : cmp (key q) (key other) = .eq → f q = f other) :
    view key f (ask capacity key f q table).2 other = view key f table other := by
  unfold ask
  split
  · rfl
  · rename_i missing
    cases computed : f q with
    | error err => rfl
    | ok v =>
      -- Only the answer to the question just asked can be touched, and it stays the same.
      simp only
      split
      · unfold view
        rw [Std.ExtTreeMap.getElem?_insert]
        by_cases same : cmp (key q) (key other) = .eq
        · have asked : table[key other]? = none := by
            rw [← Std.ExtTreeMap.getElem?_congr same, missing]
          simp [same, asked, ← apart same, computed]
        · simp [same]
      · rfl

/-- Every entry of a table is what the function gives for one of the admitted questions. -/
def Sound (admitted : Q → Prop) (key : Q → K) (f : Q → Except ε V)
    (table : Std.ExtTreeMap K V cmp) : Prop :=
  ∀ (k : K) (v : V), table[k]? = some v → ∃ q, admitted q ∧ cmp (key q) k = .eq ∧ f q = .ok v

/-- A sound table shows what the function gives, as long as admitted questions with one key have one
answer. -/
theorem Sound.view_eq {admitted : Q → Prop} {key : Q → K} {f : Q → Except ε V}
    {table : Std.ExtTreeMap K V cmp} (sound : Sound admitted key f table)
    (apart : ∀ q other, admitted q → admitted other → cmp (key q) (key other) = .eq →
      f q = f other) {q : Q} (asked : admitted q) : view key f table q = f q := by
  -- A remembered value was given for a question with the same key.
  unfold view
  split
  · rename_i v remembered
    obtain ⟨other, admitted', same, given⟩ := sound _ v remembered
    rw [← apart other q admitted' asked same, given]
  · rfl

/-- Asking an admitted question keeps a table sound. -/
theorem Sound.ask {admitted : Q → Prop} {key : Q → K} {f : Q → Except ε V}
    {table : Std.ExtTreeMap K V cmp} (sound : Sound admitted key f table) (capacity : Nat) {q : Q}
    (asked : admitted q) : Sound admitted key f (ask capacity key f q table).2 := by
  unfold Memo.ask
  split
  · exact sound
  · cases given : f q with
    | error err => exact sound
    | ok v =>
      simp only
      split
      · -- The new entry is what the function has just given.
        intro k other found
        rw [Std.ExtTreeMap.getElem?_insert] at found
        split at found
        · rename_i same
          cases found
          exact ⟨q, asked, same, given⟩
        · exact sound k other found
      · exact sound

end Tatara.Memo

/-! Sequences of writes to a table, where the last write of a key is the one that shows. -/

namespace Tatara.Writes

variable {κ α β : Type} [Ord κ] [Std.TransOrd κ] [Std.LawfulEqOrd κ] [DecidableEq κ]

/-- What the last write of a key wrote, if any write wrote it. -/
def lastWrite (writes : List (κ × α)) (key : κ) : Option α :=
  writes.findSomeRev? fun write => if write.1 = key then some write.2 else none

omit [Ord κ] [Std.TransOrd κ] [Std.LawfulEqOrd κ] in
@[simp] theorem lastWrite_nil (key : κ) : lastWrite ([] : List (κ × α)) key = none := rfl

omit [Ord κ] [Std.TransOrd κ] [Std.LawfulEqOrd κ] in
/-- The later of two sequences is asked first. -/
@[simp] theorem lastWrite_append (earlier later : List (κ × α)) (key : κ) :
    lastWrite (earlier ++ later) key = (lastWrite later key).or (lastWrite earlier key) := by
  simp [lastWrite, List.reverse_append, List.findSome?_append]

omit [Ord κ] [Std.TransOrd κ] [Std.LawfulEqOrd κ] in
/-- A key has no last write exactly when nothing writes it. -/
theorem lastWrite_eq_none_iff {writes : List (κ × α)} {key : κ} :
    lastWrite writes key = none ↔ ∀ write ∈ writes, write.1 ≠ key := by
  simp [lastWrite, List.findSome?_eq_none_iff]

omit [Ord κ] [Std.TransOrd κ] [Std.LawfulEqOrd κ] in
/-- Where no key is written twice, each write is the last of its key. -/
theorem lastWrite_of_mem {writes : List (κ × α)} (distinct : (writes.map Prod.fst).Nodup)
    {key : κ} {a : α} (among : (key, a) ∈ writes) : lastWrite writes key = some a := by
  -- By induction on the sequence: the first write is the last of its key.
  induction writes with
  | nil => cases among
  | cons write rest ih =>
    obtain ⟨first, others⟩ := List.nodup_cons.mp distinct
    rw [← List.singleton_append, lastWrite_append]
    rcases List.mem_cons.mp among with rfl | later
    · have unwritten : lastWrite rest key = none := by
        refine lastWrite_eq_none_iff.mpr fun other listed same => first ?_
        exact List.mem_map.mpr ⟨other, listed, same⟩
      rw [unwritten]
      simp [lastWrite]
    · rw [ih others later, Option.some_or]

/-- Writing a sequence into a table, one write after the other. -/
def writeAll (table : Std.ExtTreeMap κ α) (writes : List (κ × α)) : Std.ExtTreeMap κ α :=
  writes.foldl (fun table write => table.insert write.1 write.2) table

omit [Std.LawfulEqOrd κ] [DecidableEq κ] in
@[simp] theorem writeAll_nil (table : Std.ExtTreeMap κ α) : writeAll table [] = table := rfl

omit [Std.LawfulEqOrd κ] [DecidableEq κ] in
/-- Writes are made one part after the other. -/
theorem writeAll_append (table : Std.ExtTreeMap κ α) (earlier later : List (κ × α)) :
    writeAll table (earlier ++ later) = writeAll (writeAll table earlier) later :=
  List.foldl_append

/-- A table written to shows the last write of a key, and else what it held. -/
theorem getElem?_writeAll (table : Std.ExtTreeMap κ α) (writes : List (κ × α)) (key : κ) :
    (writeAll table writes)[key]? = (lastWrite writes key).or table[key]? := by
  -- The library states the same of its own insertion of many entries.
  have entries := @Std.ExtTreeMap.getElem?_insertMany_list κ α compare table _ _ _ writes key
  rw [Std.ExtTreeMap.insertMany_list_eq_foldl] at entries
  simpa only [writeAll, lastWrite, Std.compare_eq_iff_eq] using entries

/-- The entries of a table write what the table holds. -/
theorem lastWrite_toList (table : Std.ExtTreeMap κ α) (key : κ) :
    lastWrite table.toList key = table[key]? := by
  -- The keys are distinct, so the entry found is the only one of its key.
  have rebuilt := @Std.ExtTreeMap.getElem?_insertMany_list_of_mem κ α compare ∅ _ _ _ table.toList
  have shown := getElem?_writeAll ∅ table.toList key
  rw [Std.ExtTreeMap.getElem?_empty, Option.or_none] at shown
  rw [← shown, writeAll, ← Std.ExtTreeMap.insertMany_list_eq_foldl]
  cases held : table[key]? with
  | some a =>
    exact rebuilt (Std.compare_eq_iff_eq.mpr rfl) table.distinct_keys_toList
      (Std.ExtTreeMap.mem_toList_iff_getElem?_eq_some.mpr held)
  | none =>
    rw [Std.ExtTreeMap.getElem?_insertMany_list_of_contains_eq_false, Std.ExtTreeMap.getElem?_empty]
    rw [Std.ExtTreeMap.map_fst_toList_eq_keys, List.contains_eq_mem, decide_eq_false_iff_not,
      Std.ExtTreeMap.mem_keys]
    exact fun present => by simp [Std.ExtTreeMap.mem_iff_isSome_getElem?, held] at present

/-- Two sequences of writes leave the same table behind on every table exactly when every key
has the same last write, and one table is enough to tell. -/
theorem writeAll_eq_iff (table : Std.ExtTreeMap κ α) (writes others : List (κ × α))
    (sameKeys : ∀ key, lastWrite writes key = none ↔ lastWrite others key = none) :
    writeAll table writes = writeAll table others ↔
      ∀ key, lastWrite writes key = lastWrite others key := by
  constructor
  · intro same key
    -- The table underneath shows through in both or in neither.
    have shown := congrArg (fun final => final[key]?) same
    simp only [getElem?_writeAll] at shown
    have keys := sameKeys key
    cases first : lastWrite writes key with
    | none => rw [keys.mp first]
    | some a =>
      cases second : lastWrite others key with
      | none => rw [keys.mpr second] at first; cases first
      | some b => simpa [first, second] using shown
  · intro same
    refine Std.ExtTreeMap.ext_getElem? fun key => ?_
    rw [getElem?_writeAll, getElem?_writeAll, same]

end Tatara.Writes
