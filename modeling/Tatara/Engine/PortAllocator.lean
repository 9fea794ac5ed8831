import Mathlib.Data.List.AList
import Tatara.Rust.Data

/-! The ports of a node, as they are handed out to allocations. -/

namespace Tatara.Engine

open Tatara.Rust

/-- A port that has been handed out. -/
structure AllocatedPort where
  label : String
  staticPort : Option UInt16
  assignedPort : UInt16
  deriving DecidableEq, Repr

/-- Why no port is handed out. -/
inductive PortError where
  | conflict (port : UInt16) (label : String)
  | exhausted
  deriving DecidableEq, Repr

/-- The ports in use by allocation and label; no key has two of them. -/
abbrev PortTable := AList fun _ : Uuid × String => UInt16

namespace PortTable

/-- `retain`. -/
def retain (table : PortTable) (keep : Uuid × String → Bool) : PortTable where
  entries := table.entries.filter fun entry => keep entry.1
  nodupKeys := table.nodupKeys.sublist List.filter_sublist

/-- One of the values is the port. -/
def uses (table : PortTable) (port : UInt16) : Bool := table.entries.any fun entry => entry.2 = port

/-- A table uses a port where one of its keys has it. -/
theorem uses_iff {table : PortTable} {port : UInt16} :
    table.uses port ↔ ∃ key, table.lookup key = some port := by
  simp only [uses, List.any_eq_true, decide_eq_true_eq]
  constructor
  · rintro ⟨⟨key, _⟩, among, rfl⟩
    exact ⟨key, AList.mem_lookup_iff.mpr among⟩
  · rintro ⟨key, found⟩
    exact ⟨⟨key, port⟩, AList.mem_lookup_iff.mp found, rfl⟩

/-- What is retained is what was there and is kept. -/
theorem lookup_retain {table : PortTable} {keep : Uuid × String → Bool} {key : Uuid × String}
    {port : UInt16} :
    (table.retain keep).lookup key = some port ↔ table.lookup key = some port ∧ keep key := by
  rw [← Option.mem_def, ← Option.mem_def, AList.mem_lookup_iff, AList.mem_lookup_iff]
  simp [retain]

end PortTable

/-- The ports that are handed out on demand, and those that are in use. -/
structure PortAllocator where
  start : UInt16
  stop : UInt16
  allocated : PortTable

namespace PortAllocator

/-- `new`. -/
def new (start stop : UInt16) : PortAllocator := ⟨start, stop, ∅⟩

/-- The ports of the range, in order. -/
def range (ports : PortAllocator) : List UInt16 :=
  (List.range' ports.start.toNat (ports.stop.toNat + 1 - ports.start.toNat)).map UInt16.ofNat

/-- Enter a port, in the place of the one that the key may have had. -/
def assign (ports : PortAllocator) (allocId : Uuid) (label : String) (port : UInt16) :
    PortAllocator :=
  { ports with allocated := ports.allocated.insert (allocId, label) port }

/-- `allocate`. -/
def allocate (ports : PortAllocator) (allocId : Uuid) (label : String) (requested : UInt16) :
    Except PortError AllocatedPort × PortAllocator :=
  if requested ≠ 0 then
    if ports.allocated.uses requested then (.error (.conflict requested label), ports)
    else
      (.ok { label, staticPort := some requested, assignedPort := requested },
        ports.assign allocId label requested)
  else
    match ports.range.find? fun port => !ports.allocated.uses port with
    | some port =>
      (.ok { label, staticPort := none, assignedPort := port }, ports.assign allocId label port)
    | none => (.error .exhausted, ports)

/-- `release`. -/
def release (ports : PortAllocator) (allocId : Uuid) : PortAllocator :=
  { ports with allocated := ports.allocated.retain fun key => key.1 ≠ allocId }

/-- `is_available`. -/
def isAvailable (ports : PortAllocator) (port : UInt16) : Bool := !ports.allocated.uses port

/-- Some port can be handed out for a request. -/
def Grantable (ports : PortAllocator) (requested : UInt16) : Prop :=
  if requested = 0 then ∃ port ∈ ports.range, ports.isAvailable port
  else ports.isAvailable requested

/-- Either a port that is free is handed out and entered, or nothing happens. -/
theorem allocate_spec (ports : PortAllocator) (allocId : Uuid) (label : String)
    (requested : UInt16) :
    (∃ granted, ports.Grantable requested ∧ ports.isAvailable granted.assignedPort ∧
        ports.allocate allocId label requested =
          (.ok granted, ports.assign allocId label granted.assignedPort)) ∨
      ∃ error, ¬ ports.Grantable requested ∧
        ports.allocate allocId label requested = (.error error, ports) := by
  -- A request for no port in particular goes through the range from its start.
  by_cases static : requested = 0
  · simp only [allocate, Grantable, static, ne_eq, not_true_eq_false, if_false, if_true]
    cases found : ports.range.find? fun port => !ports.allocated.uses port with
    | some port =>
      have free : ports.isAvailable port := List.find?_some found
      exact .inl ⟨⟨label, none, port⟩, ⟨port, List.mem_of_find?_eq_some found, free⟩, free, rfl⟩
    | none =>
      refine .inr ⟨.exhausted, fun grantable => ?_, rfl⟩
      obtain ⟨port, among, free⟩ := grantable
      exact List.find?_eq_none.mp found port among free
  · simp only [allocate, Grantable, static, ne_eq, not_false_eq_true, if_true, if_false]
    by_cases taken : ports.allocated.uses requested
    · exact .inr ⟨.conflict requested label, by simp [isAvailable, taken], by simp [taken]⟩
    · have free : ports.isAvailable requested := by simp [isAvailable, taken]
      exact .inl ⟨⟨label, some requested, requested⟩, free, free, by simp [taken]⟩

end PortAllocator

end Tatara.Engine
