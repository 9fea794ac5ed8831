import Mathlib.Algebra.BigOperators.Fin
import Tatara.Lib.Machine

/-! The ceiling on the linear memories of a store, which counts what the memories are granted. -/

namespace Tatara.Wasm

open Tatara.Steps

/-- The ceiling of a store: the limit, and how many bytes are counted. -/
structure Ceiling where
  limit : Option Nat
  held : Nat
  deriving DecidableEq

/-- The trap that a growth past the ceiling raises. -/
structure CeilingHit where
  limit : Nat
  deriving DecidableEq

variable (usizeMax : Nat)

namespace Ceiling

/-- `new`, on a machine whose addresses go up to `usizeMax`. -/
def new (limit : Option UInt64) : Ceiling where
  limit := limit.map fun l => if l.toNat ≤ usizeMax then l.toNat else usizeMax
  held := 0

/-- `memory_growing`. -/
def memoryGrowing (c : Ceiling) (current desired : Nat) (_maximum : Option Nat) :
    Except CeilingHit Bool × Ceiling :=
  let held := min (c.held + (desired - current)) usizeMax
  match c.limit with
  | some limit =>
    if limit < held then (.error ⟨limit⟩, c) else (.ok true, { c with held })
  | none => (.ok true, { c with held })

end Ceiling

/-- A linear memory: its size, and the size that it is declared to stay within. -/
structure Memory where
  size : Nat := 0
  maximum : Option Nat

/-- Whether a memory may have this size. -/
def Memory.Admits (m : Memory) (desired : Nat) : Prop := ∀ maximum ∈ m.maximum, desired ≤ maximum

/-- A store: the ceiling, and the memories that the ceiling does not see. -/
structure Store (n : Nat) where
  ceiling : Ceiling
  memories : Fin n → Memory

/-- A guest asks for a memory to have this size. -/
structure Request (n : Nat) where
  memory : Fin n
  desired : Nat

namespace Store

variable {n : Nat}

instance (m : Memory) (desired : Nat) : Decidable (m.Admits desired) :=
  inferInstanceAs (Decidable (∀ maximum ∈ m.maximum, desired ≤ maximum))

/-- A store in which no memory has been given any size yet. -/
def start (limit : Option UInt64) (maxima : Fin n → Option Nat) : Store n where
  ceiling := .new usizeMax limit
  memories i := { maximum := maxima i }

/-- The sum of the sizes of the memories. -/
def total (s : Store n) : Nat := ∑ i, (s.memories i).size

/-- The request is one to grow, to a size that is an address. -/
def Asks (s : Store n) (r : Request n) : Prop :=
  (s.memories r.memory).size ≤ r.desired ∧ r.desired ≤ usizeMax

instance (s : Store n) (r : Request n) : Decidable (s.Asks usizeMax r) :=
  inferInstanceAs (Decidable (_ ∧ _))

/-- What the ceiling says to a request. -/
def answer (s : Store n) (r : Request n) : Except CeilingHit Bool × Ceiling :=
  let memory := s.memories r.memory
  s.ceiling.memoryGrowing usizeMax memory.size r.desired memory.maximum

/-- The memories once a request is granted: one of them grows if it may. -/
def grown (s : Store n) (r : Request n) : Store n :=
  let memory := s.memories r.memory
  if memory.Admits r.desired then
    { s with memories := Function.update s.memories r.memory { memory with size := r.desired } }
  else s

/-- One request, of which the ceiling is told if it is one to grow. -/
def serve (s : Store n) (r : Request n) : Store n :=
  if s.Asks usizeMax r then
    match s.answer usizeMax r with
    | (.ok true, ceiling) => { s.grown r with ceiling }
    | (_, ceiling) => { s with ceiling }
  else s

/-- The ceiling refuses a request. -/
def Refuses (s : Store n) (r : Request n) : Prop := ∃ hit, (s.answer usizeMax r).1 = .error hit

/-- What is counted is what is held, and stays within the limit. -/
def Exact (limit : Option UInt64) (s : Store n) : Prop :=
  s.ceiling.held = s.total ∧ ∀ l ∈ limit, s.total ≤ l.toNat

/-- A request is refused where it would lead past the limit and only there, and a refusal changes
nothing. -/
def Fair (limit : Option UInt64) (s : Store n) (r : Request n) : Prop :=
  s.Asks usizeMax r →
    (s.Refuses usizeMax r ↔ ∃ l ∈ limit, l.toNat < (s.grown r).total) ∧
      (s.Refuses usizeMax r → s.serve usizeMax r = s)

/-- Before and after every request of a run the ceiling counts exactly what is held, and it answers
every request fairly. -/
def CountsExactly (limit : Option UInt64) (maxima : Fin n → Option Nat)
    (requests : List (Request n)) : Prop :=
  (∀ front, front <+: requests →
    (front.foldl (serve usizeMax) (start usizeMax limit maxima)).Exact limit) ∧
  ∀ front r, front ++ [r] <+: requests →
    (front.foldl (serve usizeMax) (start usizeMax limit maxima)).Fair usizeMax limit r

/-- A request that leads nowhere where the ceiling would lose count: it stays within what the memory
is declared for, and a limit keeps the sum of the sizes an address; or all that there are addresses
for is held already, and nothing is there to lose. -/
def Harmless (limit : Option UInt64) (s : Store n) (r : Request n) : Prop :=
  s.Asks usizeMax r →
    if (s.memories r.memory).Admits r.desired then
      (∃ l ∈ limit, l.toNat < usizeMax) ∨ (s.grown r).total ≤ usizeMax
    else s.total = usizeMax ∧ ∀ l ∈ limit, usizeMax ≤ l.toNat

/-- What holds of a store for as long as nothing has gone wrong. -/
structure Sound (limit : Option UInt64) (s : Store n) : Prop where
  exact : s.Exact limit
  inside : s.total ≤ usizeMax
  limited : s.ceiling.limit = (Ceiling.new usizeMax limit).limit
  admitted : ∀ i, (s.memories i).Admits (s.memories i).size

variable {usizeMax} {limit : Option UInt64} {s : Store n} {r : Request n}

/-- A memory that may grow does. -/
theorem total_grown (admits : (s.memories r.memory).Admits r.desired) :
    (s.grown r).total + (s.memories r.memory).size = s.total + r.desired := by
  -- Only the size of the one memory changes, to what is asked for.
  have sizes : (fun i => ((s.grown r).memories i).size) =
      Function.update (fun i => (s.memories i).size) r.memory r.desired := by
    rw [grown, if_pos admits]
    funext i
    rw [Function.apply_update (fun _ m => Memory.size m)]
  have rest := Finset.add_sum_erase Finset.univ (fun i => (s.memories i).size)
    (Finset.mem_univ r.memory)
  rw [total, sizes, Finset.sum_update_of_mem (Finset.mem_univ _), Finset.sdiff_singleton_eq_erase,
    total, ← rest]
  omega

/-- A memory that may not grow does not. -/
theorem grown_of_not_admits (beyond : ¬ (s.memories r.memory).Admits r.desired) : s.grown r = s :=
  if_neg beyond

/-- What the ceiling is to count after a request. -/
def counted (usizeMax : Nat) (s : Store n) (r : Request n) : Nat :=
  min (s.total + (r.desired - (s.memories r.memory).size)) usizeMax

/-- The limit that is kept is passed where the one that was asked for is. -/
theorem Sound.answer (sound : s.Sound usizeMax limit) (r : Request n) :
    ((∃ l ∈ limit, l.toNat < counted usizeMax s r) ∧
      ∃ hit, s.answer usizeMax r = (.error hit, s.ceiling)) ∨
    ((∀ l ∈ limit, counted usizeMax s r ≤ l.toNat) ∧
      s.answer usizeMax r = (.ok true, { s.ceiling with held := counted usizeMax s r })) := by
  have held : min (s.ceiling.held + (r.desired - (s.memories r.memory).size)) usizeMax =
      counted usizeMax s r := by rw [sound.exact.1, counted]
  have most : counted usizeMax s r ≤ usizeMax := min_le_right _ _
  rw [Store.answer, Ceiling.memoryGrowing, held]
  have limited := sound.limited
  cases limit with
  | none => exact .inr ⟨by simp, by simp [limited, Ceiling.new]⟩
  | some l =>
    -- A limit that is no address is as good as the highest address.
    by_cases beyond : l.toNat < counted usizeMax s r
    · have address : (Ceiling.new usizeMax (some l)).limit = some l.toNat := by
        simp [Ceiling.new, show l.toNat ≤ usizeMax by omega]
      exact .inl ⟨⟨l, rfl, beyond⟩, ⟨l.toNat⟩, by simp only [limited, address, if_pos beyond]⟩
    · have room : ¬ (if l.toNat ≤ usizeMax then l.toNat else usizeMax) < counted usizeMax s r := by
        split <;> omega
      refine .inr ⟨by simpa using beyond, ?_⟩
      simp only [limited, Ceiling.new, Option.map_some, if_neg room]

/-- What is counted is what is held then, wherever a request within the limit is harmless. -/
theorem Sound.counted_eq_iff (sound : s.Sound usizeMax limit) (asks : s.Asks usizeMax r)
    (room : ∀ l ∈ limit, counted usizeMax s r ≤ l.toNat) :
    counted usizeMax s r = (s.grown r).total ↔ s.Harmless usizeMax limit r := by
  have larger := asks.1
  rw [Harmless, forall_prop_of_true asks]
  by_cases admits : (s.memories r.memory).Admits r.desired
  · have more := total_grown admits
    rw [if_pos admits]
    constructor
    · intro same
      exact .inr (same ▸ min_le_right _ _)
    · rintro (⟨l, given, small⟩ | address)
      · have := room l given
        rw [counted] at this ⊢
        omega
      · rw [counted]
        omega
  · -- The memory has a size that it may have, so more than that has been asked for.
    have differs : (s.memories r.memory).size ≠ r.desired :=
      fun same => admits (same ▸ sound.admitted r.memory)
    have inside := sound.inside
    rw [if_neg admits, grown_of_not_admits admits]
    constructor
    · intro same
      have full : s.total = usizeMax := by
        rw [counted] at same
        omega
      exact ⟨full, fun l given => full ▸ same ▸ room l given⟩
    · rintro ⟨full, -⟩
      rw [counted]
      omega

/-- A request is answered fairly, and the count is exact afterwards, where the request is
harmless. -/
theorem Sound.right_iff (sound : s.Sound usizeMax limit) :
    (s.Fair usizeMax limit r ∧ (s.serve usizeMax r).Exact limit) ↔
      s.Harmless usizeMax limit r := by
  by_cases asks : s.Asks usizeMax r
  swap
  · -- The ceiling is told of nothing.
    exact iff_of_true ⟨fun asked => absurd asked asks, by rw [serve, if_neg asks]; exact sound.exact⟩
      fun asked => absurd asked asks
  rw [Fair, forall_prop_of_true asks]
  rcases sound.answer r with ⟨⟨l, given, beyond⟩, hit, refused⟩ | ⟨room, granted⟩
  · have same : s.serve usizeMax r = s := by rw [serve, if_pos asks, refused]
    have refuses : s.Refuses usizeMax r := ⟨hit, by rw [refused]⟩
    have address : counted usizeMax s r ≤ usizeMax := min_le_right _ _
    have within := sound.exact.2 l given
    rw [same, iff_true_intro refuses, true_iff, forall_prop_of_true trivial,
      and_iff_left sound.exact, and_iff_left rfl, Harmless, forall_prop_of_true asks]
    by_cases admits : (s.memories r.memory).Admits r.desired
    · have more := total_grown admits
      rw [if_pos admits]
      refine iff_of_true ⟨l, given, ?_⟩ (.inl ⟨l, given, by omega⟩)
      rw [counted] at beyond
      omega
    · rw [if_neg admits, grown_of_not_admits admits]
      refine iff_of_false ?_ fun full => absurd (full.2 l given) (by omega)
      rintro ⟨l', given', less⟩
      have := sound.exact.2 l' given'
      omega
  · have served : s.serve usizeMax r =
        { s.grown r with ceiling := { s.ceiling with held := counted usizeMax s r } } := by
      rw [serve, if_pos asks, granted]
    have accepts : ¬ s.Refuses usizeMax r := by
      rintro ⟨hit, refused⟩
      rw [granted] at refused
      cases refused
    rw [← sound.counted_eq_iff asks room, served, Exact, iff_false_intro accepts, false_iff,
      false_imp_iff, and_true]
    constructor
    · exact fun right => right.2.1
    · intro same
      have below : ∀ l ∈ limit, (s.grown r).total ≤ l.toNat := fun l given => same ▸ room l given
      refine ⟨?_, same, below⟩
      rintro ⟨l, given, less⟩
      exact absurd (below l given) (by omega)

/-- A memory that grows has a size that it may have. -/
theorem Sound.admitted_grown (sound : s.Sound usizeMax limit) (r : Request n) (i : Fin n) :
    ((s.grown r).memories i).Admits ((s.grown r).memories i).size := by
  -- The memory that grows admits its new size, and the others keep theirs.
  by_cases admits : (s.memories r.memory).Admits r.desired
  · rw [grown, if_pos admits]
    by_cases other : i = r.memory
    · subst other
      simpa [Memory.Admits] using admits
    · simpa [other] using sound.admitted i
  · rw [grown_of_not_admits admits]
    exact sound.admitted i

/-- A harmless request leaves everything as it should be. -/
theorem Sound.serve (sound : s.Sound usizeMax limit) (harmless : s.Harmless usizeMax limit r) :
    (s.serve usizeMax r).Sound usizeMax limit := by
  -- The answer is exact, and it is either a refusal or a memory that grows.
  have exact := (sound.right_iff.mpr harmless).2
  by_cases asks : s.Asks usizeMax r
  · rcases sound.answer r with ⟨-, hit, refused⟩ | ⟨-, granted⟩
    · rw [Store.serve, if_pos asks, refused]
      exact sound
    · rw [Store.serve, if_pos asks, granted] at exact ⊢
      have held : counted usizeMax s r ≤ usizeMax := min_le_right _ _
      exact ⟨exact, exact.1 ▸ held, sound.limited, sound.admitted_grown r⟩
  · rw [Store.serve, if_neg asks]
    exact sound

/-- With no sizes given there is nothing to count. -/
theorem sound_start (usizeMax : Nat) (limit : Option UInt64) (maxima : Fin n → Option Nat) :
    (start usizeMax limit maxima).Sound usizeMax limit := by
  have empty : (start usizeMax limit maxima).total = 0 := by simp [total, start]
  exact ⟨⟨empty.symm, by simp [empty]⟩, by simp [empty], rfl, fun i => by simp [start, Memory.Admits]⟩

/-- The ceiling counts exactly what is held, refuses exactly what would lead past the limit and
changes nothing when it does, in exactly the runs of which every request is harmless. -/
theorem countsExactly_iff {maxima : Fin n → Option Nat} {requests : List (Request n)} :
    CountsExactly usizeMax limit maxima requests ↔
      EachStep (serve usizeMax) (Harmless usizeMax limit) (start usizeMax limit maxima)
        requests := by
  -- The count is exact at every point where it is so at the start and behind each request.
  have start := sound_start usizeMax limit maxima
  rw [eachStep_congr (Sound usizeMax limit) start (fun s r sound harmless => sound.serve harmless)
    fun s r sound => sound.right_iff.symm]
  constructor
  · intro counts front r part
    have behind := counts.1 (front ++ [r]) part
    rw [List.foldl_concat] at behind
    exact ⟨counts.2 front r part, behind⟩
  · intro each
    refine ⟨EachStep.invariant _ start.exact (fun s r _ right => right.2) each, ?_⟩
    exact fun front r part => (each front r part).1

/-- A memory is granted more than it is declared for, and what it did not get is counted. -/
theorem not_countsExactly :
    ¬ CountsExactly (2 ^ 64 - 1) (some 100) (fun _ : Fin 1 => some 50) [⟨0, 60⟩] := by
  -- After the one request more is counted than is there.
  intro counts
  have held := (counts.1 [⟨0, 60⟩] List.prefix_rfl).1
  revert held
  decide

end Store

end Tatara.Wasm
