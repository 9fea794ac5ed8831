import Mathlib.Data.List.Dedup
import Mathlib.Data.List.Induction
import Mathlib.Data.List.Pairwise
import Mathlib.Order.Basic
import Std.Data.ExtTreeMap
import Tatara.Lib.Machine
import Tatara.Rust.Data

/-! The responses that are kept for the idempotency keys of commands, until they expire. -/

namespace Tatara.Domain

open Tatara.Rust

/-- `DEFAULT_TTL_SECS`. -/
def defaultTtlSecs : Int := 300

/-- `IdempotencyEntry`. -/
structure IdempotencyEntry where
  response : String
  expiresAt : DateTime
  deriving DecidableEq

/-- `IdempotencyStore`. -/
abbrev IdempotencyStore := Std.ExtTreeMap String IdempotencyEntry

namespace IdempotencyStore

/-- The instant so many seconds later. -/
def later (now : DateTime) (secs : Int) : DateTime := ⟨now.nanos + secs * 1000000000⟩

/-- Whether an entry has not expired yet. -/
def live (now : DateTime) (entry : IdempotencyEntry) : Bool := now.nanos < entry.expiresAt.nanos

/-- `check`. -/
def check (store : IdempotencyStore) (now : DateTime) (key : String) : Option String :=
  match store[key]? with
  | none => none
  | some entry => if live now entry then some entry.response else none

/-- `record_with_ttl`. -/
def recordWithTtl (store : IdempotencyStore) (now : DateTime) (key response : String)
    (ttlSecs : Int) : IdempotencyStore :=
  store.insert key ⟨response, later now ttlSecs⟩

/-- `record`. -/
def record (store : IdempotencyStore) (now : DateTime) (key response : String) :
    IdempotencyStore :=
  store.insert key ⟨response, later now defaultTtlSecs⟩

/-- `gc`. -/
def gc (store : IdempotencyStore) (now : DateTime) : IdempotencyStore :=
  store.filter fun _ entry => live now entry

/-- `len`. -/
def len (store : IdempotencyStore) (now : DateTime) : Nat :=
  store.toList.countP fun entry => live now entry.2

/-- What a store is asked to do. -/
inductive Op where
  | check (key : String)
  | record (key response : String)
  | recordWithTtl (key response : String) (ttlSecs : Int)
  | gc
  | len

/-- What a store answers. -/
inductive Answer where
  | response (found : Option String)
  | done
  | count (n : Nat)
  deriving DecidableEq

/-- One operation, at a reading of the clock. -/
def step (now : DateTime) (op : Op) (store : IdempotencyStore) : Answer × IdempotencyStore :=
  match op with
  | .check key => (.response (store.check now key), store)
  | .record key response => (.done, store.record now key response)
  | .recordWithTtl key response ttlSecs => (.done, store.recordWithTtl now key response ttlSecs)
  | .gc => (.done, store.gc now)
  | .len => (.count (store.len now), store)

/-- The entry that an operation makes at some time, with its key. -/
def entered (now : DateTime) : Op → Option (String × IdempotencyEntry)
  | .record key response => some (key, ⟨response, later now defaultTtlSecs⟩)
  | .recordWithTtl key response ttlSecs => some (key, ⟨response, later now ttlSecs⟩)
  | .check _ | .gc | .len => none

/-- The entry that an operation makes for a key. -/
def made (key : String) (input : DateTime × Op) : Option IdempotencyEntry :=
  match entered input.1 input.2 with
  | some (own, entry) => if own = key then some entry else none
  | none => none

/-- The last entry of a key among all that have been made. -/
def lastEntry (inputs : List (DateTime × Op)) (key : String) : Option IdempotencyEntry :=
  inputs.reverse.findSome? (made key)

/-- The keys of all entries that have been made. -/
def enteredKeys (inputs : List (DateTime × Op)) : List String :=
  (inputs.filterMap fun input => (entered input.1 input.2).map Prod.fst).dedup

/-- The entry of a key that is in force: the last one, as long as it has not expired. -/
def inForce (inputs : List (DateTime × Op)) (now : DateTime) (key : String) :
    Option IdempotencyEntry :=
  (lastEntry inputs key).filter (live now)

/-- What is to be answered, by all that has been entered before. -/
def answer (inputs : List (DateTime × Op)) (now : DateTime) : Op → Answer
  | .check key => .response ((inForce inputs now key).map (·.response))
  | .record _ _ | .recordWithTtl _ _ _ | .gc => .done
  | .len => .count ((enteredKeys inputs).countP fun key => (inForce inputs now key).isSome)

/-- The store after some operations. -/
def after (inputs : List (DateTime × Op)) : IdempotencyStore := (Machine.run step inputs ∅).2

/-- The clock goes forward. -/
def Forward (inputs : List (DateTime × Op)) : Prop :=
  inputs.Pairwise fun first second => first.1.nanos ≤ second.1.nanos

/-- The last entry of a key is the one that is made last. -/
theorem lastEntry_concat (inputs : List (DateTime × Op)) (input : DateTime × Op) (key : String) :
    lastEntry (inputs ++ [input]) key = (made key input).or (lastEntry inputs key) := by
  rw [lastEntry, List.reverse_concat, List.findSome?_cons]
  cases made key input <;> rfl

/-- What has expired stays so. -/
theorem filter_live {now next : DateTime} (forward : now.nanos ≤ next.nanos)
    {a b : Option IdempotencyEntry} (same : a.filter (live now) = b.filter (live now)) :
    a.filter (live next) = b.filter (live next) := by
  -- What is live later is live now.
  have again (o : Option IdempotencyEntry) :
      (o.filter (live now)).filter (live next) = o.filter (live next) := by
    refine Option.ext fun entry => ?_
    simp only [Option.filter_eq_some_iff, live, decide_eq_true_eq]
    constructor
    · rintro ⟨⟨found, -⟩, later⟩
      exact ⟨found, later⟩
    · rintro ⟨found, later⟩
      exact ⟨⟨found, by omega⟩, later⟩
  rw [← again a, ← again b, same]

/-- Where the clock goes forward, the store has the entries that are in force, and no others but
such as have expired. -/
theorem after_inForce {inputs : List (DateTime × Op)} {now : DateTime} (forward : Forward inputs)
    (until_ : ∀ input ∈ inputs, input.1.nanos ≤ now.nanos) (key : String) :
    (after inputs)[key]?.filter (live now) = inForce inputs now key := by
  induction inputs using List.reverseRecOn generalizing now with
  | nil => simp [after, inForce, lastEntry]
  | append_singleton inputs input ih =>
    obtain ⟨before, op⟩ := input
    obtain ⟨forward, -, last⟩ := List.pairwise_append.mp forward
    have earlier := until_ (before, op) (by simp)
    have ih := @ih before forward fun input among => last input among _ (List.mem_singleton_self _)
    rw [inForce] at ih
    rw [after, Machine.run_concat, ← after, inForce, lastEntry_concat]
    -- It is enough to look at the moment of the last operation.
    refine filter_live earlier ?_
    cases op with
    | check | len => simpa [step, made, entered] using ih
    | gc =>
      -- What is collected has expired.
      simp only [step, gc, made, entered, Std.ExtTreeMap.getElem?_filter']
      simpa [Option.filter_filter] using ih
    | record other response | recordWithTtl other response ttlSecs =>
      simp only [step, record, recordWithTtl, made, entered, Std.ExtTreeMap.getElem?_insert]
      by_cases same : other = key
      · simp [same]
      · simpa [same] using ih

/-- Keys with an entry have been entered. -/
theorem mem_enteredKeys_of_lastEntry {inputs : List (DateTime × Op)} {key : String}
    {entry : IdempotencyEntry} (found : lastEntry inputs key = some entry) :
    key ∈ enteredKeys inputs := by
  obtain ⟨input, among, own⟩ := List.exists_of_findSome?_eq_some found
  refine List.mem_dedup.mpr (List.mem_filterMap.mpr ⟨input, List.mem_reverse.mp among, ?_⟩)
  -- An entry is made by an operation on the key itself.
  rw [made] at own
  split at own
  next other entry entered =>
    split at own
    next same => rw [entered, Option.map_some, same]
    next => cases own
  next => cases own

/-- A store has as many live entries as there are keys with an entry in force. -/
theorem len_after {inputs : List (DateTime × Op)} {now : DateTime} (forward : Forward inputs)
    (until_ : ∀ input ∈ inputs, input.1.nanos ≤ now.nanos) :
    (after inputs).len now =
      (enteredKeys inputs).countP fun key => (inForce inputs now key).isSome := by
  have force := fun key => after_inForce forward until_ key
  -- The entries are counted by their keys.
  have byKey : (after inputs).len now =
      (after inputs).keys.countP fun key => (inForce inputs now key).isSome := by
    rw [len, ← Std.ExtTreeMap.map_fst_toList_eq_keys, List.countP_map]
    refine List.countP_congr fun entry among => ?_
    have found := Std.ExtTreeMap.mem_toList_iff_getElem?_eq_some.mp among
    rw [Function.comp_apply, ← force, found]
    simp [Option.filter]
  -- Both lists of keys are without repetition, so only their members count.
  rw [byKey, List.countP_eq_length_filter, List.countP_eq_length_filter]
  refine List.Perm.length_eq ((List.perm_ext_iff_of_nodup
    (Std.ExtTreeMap.nodup_keys.filter _) ((List.nodup_dedup _).filter _)).mpr fun key => ?_)
  rw [List.mem_filter, List.mem_filter]
  refine and_congr_left fun some_ => ?_
  obtain ⟨entry, holds⟩ := Option.isSome_iff_exists.mp some_
  have stored := (force key).trans holds
  rw [inForce] at holds
  exact iff_of_true (Std.ExtTreeMap.mem_keys.mpr (Std.ExtTreeMap.mem_iff_isSome_getElem?.mpr
      (Option.isSome_iff_exists.mpr ⟨entry, (Option.filter_eq_some_iff.mp stored).1⟩)))
    (mem_enteredKeys_of_lastEntry (Option.filter_eq_some_iff.mp holds).1)

/-- An answer is what the entries come to that have been made before, whatever has been collected in
between, as long as the clock goes forward. -/
theorem answer_after {inputs : List (DateTime × Op)} {now : DateTime} {op : Op}
    (forward : Forward (inputs ++ [(now, op)])) :
    (step now op (after inputs)).1 = answer inputs now op := by
  obtain ⟨before, -, last⟩ := List.pairwise_append.mp forward
  have until_ (input : DateTime × Op) (among : input ∈ inputs) : input.1.nanos ≤ now.nanos :=
    last input among _ (List.mem_singleton_self _)
  -- Only two of the operations answer with what is there.
  cases op with
  | check key =>
    -- What is left of the entry is compared while it is live.
    rw [step, answer, ← after_inForce before until_ key, check]
    cases (after inputs)[key]? with
    | none => rfl
    | some entry =>
      cases unexpired : live now entry <;> simp [unexpired, Option.filter]
  | len => exact congrArg Answer.count (len_after before until_)
  | record | recordWithTtl | gc => rfl

/-- A response is kept for five minutes, through a collection of what has expired. -/
theorem answer_after_retry :
    (step ⟨299000000000⟩ (.check "k")
        (after [(⟨0⟩, .record "k" "ok"), (⟨1000000000⟩, .gc)])).1 = .response (some "ok") := by
  -- The clock of the three calls goes forward.
  have forward : Forward ([(⟨0⟩, .record "k" "ok"), (⟨1000000000⟩, .gc)] ++
      [(⟨299000000000⟩, .check "k")]) := by
    simp [Forward]
  exact (answer_after forward).trans (by decide)

end IdempotencyStore

end Tatara.Domain
