import Mathlib.Data.List.Induction
import Tatara.Engine.PortAllocator

/-! Runs of the port allocator, and in which of them no port is shared. -/

namespace Tatara.Engine

open Tatara.Rust

namespace PortAllocator

/-- What is asked of the allocator. -/
inductive Call where
  | allocate (allocId : Uuid) (label : String) (requested : UInt16)
  | release (allocId : Uuid)

/-- The allocator after one call. -/
def serve (ports : PortAllocator) : Call → PortAllocator
  | .allocate allocId label requested => (ports.allocate allocId label requested).2
  | .release allocId => ports.release allocId

/-- The allocator after some calls. -/
def after (ports : PortAllocator) (calls : List Call) : PortAllocator := calls.foldl serve ports

/-- The port was handed out to the allocation, which has not been released since. -/
def Held (ports : PortAllocator) (calls : List Call) (allocId : Uuid) (port : UInt16) : Prop :=
  ∃ before label requested later granted,
    calls = before ++ .allocate allocId label requested :: later ∧
      ((ports.after before).allocate allocId label requested).1 = .ok granted ∧
      granted.assignedPort = port ∧ Call.release allocId ∉ later

/-- At this point of a run no port is shared. -/
structure Exclusive (ports : PortAllocator) (calls : List Call) : Prop where
  listed : ∀ allocId port, ports.Held calls allocId port → ¬ (ports.after calls).isAvailable port
  withheld : ∀ allocId port, ports.Held calls allocId port →
    ∀ other label requested granted,
      ((ports.after calls).allocate other label requested).1 = .ok granted →
        granted.assignedPort ≠ port
  oneKey : ∀ key key' port, (ports.after calls).allocated.lookup key = some port →
    (ports.after calls).allocated.lookup key' = some port → key = key'
  exhausted : ∀ allocId label error,
    ((ports.after calls).allocate allocId label 0).1 = .error error →
      ∀ port ∈ (ports.after calls).range, ∃ holder, ports.Held calls holder port
  unchanged : ∀ allocId label requested error,
    ((ports.after calls).allocate allocId label requested).1 = .error error →
      ((ports.after calls).allocate allocId label requested).2 = ports.after calls
  freed : ∀ allocId port, ((ports.after calls).release allocId).isAvailable port ↔
    (ports.after calls).isAvailable port ∨ ports.Held calls allocId port

/-- No port is shared at any point of the run. -/
def NeverShared (start stop : UInt16) (calls : List Call) : Prop :=
  ∀ front, front <+: calls → (new start stop).Exclusive front

/-- No allocation is granted a port under a label under which it has one. -/
def LabelsFresh (start stop : UInt16) (calls : List Call) : Prop :=
  ∀ front allocId label requested, front ++ [.allocate allocId label requested] <+: calls →
    ((new start stop).after front).Grantable requested →
      ((new start stop).after front).allocated.lookup (allocId, label) = none

section

variable {ports : PortAllocator} {calls : List Call} {allocId holder : Uuid} {label : String}
  {requested port : UInt16} {key : Uuid × String}

/-- A port is available where no key has it. -/
theorem isAvailable_iff :
    ports.isAvailable port ↔ ∀ key, ports.allocated.lookup key ≠ some port := by
  simp [isAvailable, ← Bool.not_eq_true, PortTable.uses_iff]

/-- After one more call the call has been served. -/
theorem after_concat (call : Call) :
    ports.after (calls ++ [call]) = (ports.after calls).serve call := by
  simp [after]

/-- An assignment sets the port of its key only. -/
theorem lookup_assign {granted : UInt16} :
    (ports.assign allocId label granted).allocated.lookup key =
      if key = (allocId, label) then some granted else ports.allocated.lookup key := by
  -- The key is the one that is assigned, or another one.
  split
  · rename_i same
    rw [same]
    exact AList.lookup_insert _
  · rename_i other
    exact AList.lookup_insert_ne other

/-- A release leaves the ports of other allocations. -/
theorem lookup_release :
    (ports.release allocId).allocated.lookup key = some port ↔
      ports.allocated.lookup key = some port ∧ key.1 ≠ allocId := by
  simp [release, PortTable.lookup_retain]

/-- A list with one more call is cut either in front of it or further ahead. -/
theorem concat_eq_append_cons {call other : Call} {before later : List Call} :
    calls ++ [call] = before ++ other :: later ↔
      (calls = before ∧ call = other ∧ later = []) ∨
        ∃ rest, calls = before ++ other :: rest ∧ later = rest ++ [call] := by
  -- The call in question is the last one, or the last one comes behind it.
  rcases List.eq_nil_or_concat later with rfl | ⟨rest, last, rfl⟩
  · simp
  · have regroup : before ++ other :: (rest ++ [last]) = before ++ other :: rest ++ [last] := by
      simp
    rw [List.concat_eq_append, regroup, List.append_singleton_inj]
    constructor
    · rintro ⟨rfl, rfl⟩
      exact .inr ⟨rest, rfl, rfl⟩
    · rintro (⟨-, -, impossible⟩ | ⟨rest', rfl, same⟩)
      · simp at impossible
      · obtain ⟨rfl, rfl⟩ := List.append_singleton_inj.mp same
        exact ⟨rfl, rfl⟩

/-- One more request adds what it is granted to what is held. -/
theorem held_allocate :
    ports.Held (calls ++ [.allocate allocId label requested]) holder port ↔
      ports.Held calls holder port ∨
        holder = allocId ∧ ∃ granted,
          ((ports.after calls).allocate allocId label requested).1 = .ok granted ∧
            granted.assignedPort = port := by
  constructor
  · rintro ⟨before, label', requested', later, granted, cut, ok, same, kept⟩
    rcases concat_eq_append_cons.mp cut with ⟨rfl, last, rfl⟩ | ⟨rest, rfl, rfl⟩
    · -- It is this call that has been granted the port.
      cases last
      exact .inr ⟨rfl, granted, ok, same⟩
    · simp only [List.mem_append, not_or] at kept
      exact .inl ⟨before, label', requested', rest, granted, rfl, ok, same, kept.1⟩
  · rintro (⟨before, label', requested', rest, granted, rfl, ok, same, kept⟩ |
      ⟨rfl, granted, ok, same⟩)
    · exact ⟨before, label', requested', rest ++ [.allocate allocId label requested], granted,
        by simp, ok, same, by simp [kept]⟩
    · exact ⟨calls, label, requested, [], granted, rfl, ok, same, by simp⟩

/-- A release takes away what the allocation has held. -/
theorem held_release :
    ports.Held (calls ++ [.release allocId]) holder port ↔
      ports.Held calls holder port ∧ holder ≠ allocId := by
  constructor
  · rintro ⟨before, label', requested', later, granted, cut, ok, same, kept⟩
    rcases concat_eq_append_cons.mp cut with ⟨-, last, -⟩ | ⟨rest, rfl, rfl⟩
    · cases last
    · simp only [List.mem_append, List.mem_singleton, Call.release.injEq, not_or] at kept
      exact ⟨⟨before, label', requested', rest, granted, rfl, ok, same, kept.1⟩, kept.2⟩
  · -- The release of another leaves what was granted.
    rintro ⟨⟨before, label', requested', rest, granted, rfl, ok, same, kept⟩, other⟩
    exact ⟨before, label', requested', rest ++ [.release allocId], granted, by simp, ok, same,
      by simp [kept, other]⟩

/-- Two keys never have one port. -/
def OneKey (ports : PortAllocator) : Prop :=
  ∀ key key' port, ports.allocated.lookup key = some port →
    ports.allocated.lookup key' = some port → key = key'

/-- A free port is entered under one key only. -/
theorem OneKey.assign (one : ports.OneKey) (free : ports.isAvailable port) :
    (ports.assign allocId label port).OneKey := by
  -- The port that is assigned was under no key before.
  rw [isAvailable_iff] at free
  intro key key' taken found found'
  rw [lookup_assign] at found found'
  split at found <;> split at found'
  · rename_i same same'
    rw [same, same']
  · cases found
    exact absurd found' (free key')
  · cases found'
    exact absurd found (free key)
  · exact one key key' taken found found'

/-- No call gives a port to two keys. -/
theorem OneKey.serve (one : ports.OneKey) (call : Call) : (ports.serve call).OneKey := by
  cases call with
  | allocate allocId label requested =>
    rcases ports.allocate_spec allocId label requested with
      ⟨granted, -, free, result⟩ | ⟨error, -, result⟩
    · simpa only [PortAllocator.serve, result] using one.assign free
    · simpa only [PortAllocator.serve, result] using one
  | release allocId =>
    -- Entries are only taken out.
    intro key key' port found found'
    exact one key key' port (lookup_release.mp found).1 (lookup_release.mp found').1

/-- In any run a port has at most one key. -/
theorem oneKey_after (start stop : UInt16) (calls : List Call) :
    ((new start stop).after calls).OneKey := by
  -- By induction on the calls, from the last one on.
  induction calls using List.reverseRecOn with
  | nil =>
    intro key key' port found
    simp [after, new] at found
  | append_singleton calls call ih =>
    rw [after_concat]
    exact ih.serve call

/-- What the table has is held. -/
theorem held_of_lookup (start stop : UInt16) (calls : List Call)
    (found : ((new start stop).after calls).allocated.lookup key = some port) :
    (new start stop).Held calls key.1 port := by
  -- Each call enters what it grants, and a release takes out all that the allocation holds.
  induction calls using List.reverseRecOn generalizing key port with
  | nil => simp [after, new] at found
  | append_singleton calls call ih =>
    rw [after_concat] at found
    cases call with
    | allocate allocId label requested =>
      rw [held_allocate]
      rcases ((new start stop).after calls).allocate_spec allocId label requested with
        ⟨granted, -, -, result⟩ | ⟨error, -, result⟩
      · simp only [serve, result, lookup_assign] at found ⊢
        split at found
        · rename_i same
          cases found
          exact .inr ⟨by rw [same], granted, rfl, rfl⟩
        · exact .inl (ih found)
      · simp only [serve, result] at found
        exact .inl (ih found)
    | release allocId =>
      obtain ⟨found, other⟩ := lookup_release.mp found
      exact held_release.mpr ⟨ih found, other⟩

/-- Where no label is used twice, what is held is in the table. -/
theorem lookup_of_held {start stop : UInt16} {calls : List Call}
    (fresh : LabelsFresh start stop calls) (held : (new start stop).Held calls holder port) :
    ∃ label, ((new start stop).after calls).allocated.lookup (holder, label) = some port := by
  induction calls using List.reverseRecOn generalizing holder port with
  | nil =>
    obtain ⟨before, _, _, later, _, impossible, _⟩ := held
    simp at impossible
  | append_singleton calls call ih =>
    have earlier : LabelsFresh start stop calls := fun front allocId label requested before =>
      fresh front allocId label requested (before.trans (List.prefix_append ..))
    rw [after_concat]
    cases call with
    | allocate allocId label requested =>
      rw [held_allocate] at held
      rcases ((new start stop).after calls).allocate_spec allocId label requested with
        ⟨granted, grantable, -, result⟩ | ⟨error, -, result⟩
      · simp only [serve, result, lookup_assign] at held ⊢
        have unused := fresh calls allocId label requested List.prefix_rfl grantable
        rcases held with held | ⟨rfl, granted', ok, rfl⟩
        · -- The key is a new one, so the entry of what was held before stays.
          obtain ⟨label', found⟩ := ih earlier held
          refine ⟨label', ?_⟩
          rw [if_neg, found]
          intro same
          rw [same, unused] at found
          cases found
        · cases ok
          exact ⟨label, if_pos rfl⟩
      · simp only [serve, result, reduceCtorEq, false_and, exists_false, and_false, or_false]
          at held ⊢
        exact ih earlier held
    | release allocId =>
      obtain ⟨held, other⟩ := held_release.mp held
      obtain ⟨label, found⟩ := ih earlier held
      exact ⟨label, lookup_release.mpr ⟨found, other⟩⟩

/-- A port is taken where a key has it. -/
theorem not_isAvailable_iff :
    ¬ ports.isAvailable port ↔ ∃ key, ports.allocated.lookup key = some port := by
  rw [isAvailable_iff]
  exact not_forall_not

/-- A release makes available what the allocation holds, and nothing else. -/
theorem isAvailable_release (one : ports.OneKey) :
    (ports.release allocId).isAvailable port ↔
      ports.isAvailable port ∨ ∃ label, ports.allocated.lookup (allocId, label) = some port := by
  constructor
  · intro free
    refine or_iff_not_imp_left.mpr fun used => ?_
    obtain ⟨⟨owner, label⟩, found⟩ := not_isAvailable_iff.mp used
    by_cases own : owner = allocId
    · exact ⟨label, own ▸ found⟩
    · exact absurd (lookup_release.mpr ⟨found, own⟩) (isAvailable_iff.mp free _)
  · intro either
    refine isAvailable_iff.mpr fun key found => ?_
    obtain ⟨found, other⟩ := lookup_release.mp found
    rcases either with free | ⟨label, owned⟩
    · exact isAvailable_iff.mp free key found
    · -- The port has no second key, and the one it has goes.
      exact other (congrArg Prod.fst (one _ _ _ found owned))

/-- Where the table has everything that is held, no port is shared. -/
theorem exclusive_of_lookup {start stop : UInt16}
    (known : ∀ holder port, (new start stop).Held calls holder port →
      ∃ label, ((new start stop).after calls).allocated.lookup (holder, label) = some port) :
    (new start stop).Exclusive calls where
  listed := by
    intro allocId port held
    obtain ⟨label, found⟩ := known allocId port held
    exact not_isAvailable_iff.mpr ⟨_, found⟩
  withheld := by
    intro allocId port held other label requested granted ok same
    obtain ⟨label', found⟩ := known allocId port held
    rcases ((new start stop).after calls).allocate_spec other label requested with
      ⟨granted', -, free, result⟩ | ⟨error, -, result⟩
    · rw [result] at ok
      cases ok
      exact isAvailable_iff.mp free _ (same ▸ found)
    · rw [result] at ok
      cases ok
  oneKey := oneKey_after start stop calls
  exhausted := by
    intro allocId label error failed port among
    rcases ((new start stop).after calls).allocate_spec allocId label 0 with
      ⟨granted, -, -, result⟩ | ⟨error', refused, -⟩
    · rw [result] at failed
      cases failed
    · -- A port that is in use has a key, and with it a holder.
      have used : ¬ ((new start stop).after calls).isAvailable port := fun free =>
        refused ⟨port, among, free⟩
      obtain ⟨key, found⟩ := not_isAvailable_iff.mp used
      exact ⟨key.1, held_of_lookup start stop calls found⟩
  unchanged := by
    intro allocId label requested error failed
    rcases ((new start stop).after calls).allocate_spec allocId label requested with
      ⟨granted, -, -, result⟩ | ⟨error', -, result⟩
    · rw [result] at failed
      cases failed
    · rw [result]
  freed := by
    intro allocId port
    rw [isAvailable_release (oneKey_after start stop calls)]
    refine or_congr_right ⟨fun owned => ?_, known allocId port⟩
    obtain ⟨label, found⟩ := owned
    exact held_of_lookup start stop calls found

/-- An allocation that is granted a port under a label once more loses the one it has had. -/
theorem labelsFresh_of_neverShared {start stop : UInt16}
    (exclusive : NeverShared start stop calls) : LabelsFresh start stop calls := by
  intro front allocId label requested before grantable
  by_contra used
  obtain ⟨port, found⟩ := Option.ne_none_iff_exists'.mp used
  have held := held_of_lookup start stop front found
  rcases ((new start stop).after front).allocate_spec allocId label requested with
    ⟨granted, -, free, result⟩ | ⟨error, refused, -⟩
  · have still :
        (new start stop).Held (front ++ [.allocate allocId label requested]) allocId port :=
      held_allocate.mpr (.inl held)
    obtain ⟨key, found'⟩ := not_isAvailable_iff.mp ((exclusive _ before).listed _ _ still)
    rw [after_concat] at found'
    simp only [serve, result, lookup_assign] at found'
    split at found'
    · -- The port granted last was free, and so it is another one.
      cases found'
      exact isAvailable_iff.mp free _ found
    · rename_i other
      exact other (oneKey_after start stop front _ _ _ found' found)
  · exact refused grantable

end

/-- Ports are shared in just the runs in which a label is granted a second time. -/
theorem neverShared_iff (start stop : UInt16) (calls : List Call) :
    NeverShared start stop calls ↔ LabelsFresh start stop calls := by
  -- The first half is shown above, and in the other one what is held can be looked up.
  constructor
  · exact labelsFresh_of_neverShared
  · intro fresh front before
    refine exclusive_of_lookup fun holder port => lookup_of_held ?_
    exact fun first allocId label requested part =>
      fresh first allocId label requested (part.trans before)

/-- The label of an allocation that is granted a port twice. -/
def twice : List Call := [.allocate 1 "http" 0, .allocate 1 "http" 0]

/-- The second port takes the place of the first one, which goes to another allocation then. -/
theorem not_neverShared_twice : ¬ NeverShared 30000 30005 twice := by
  intro exclusive
  -- The first port is still held, though it is granted to another allocation.
  have held : (new 30000 30005).Held twice 1 30000 :=
    ⟨[], "http", 0, [.allocate 1 "http" 0], ⟨"http", none, 30000⟩, rfl, by decide, rfl, by simp⟩
  have other : (((new 30000 30005).after twice).allocate 2 "http" 0).1 =
      .ok ⟨"http", none, 30000⟩ := by decide
  exact (exclusive twice List.prefix_rfl).withheld _ _ held _ _ _ _ other rfl

end PortAllocator

end Tatara.Engine
