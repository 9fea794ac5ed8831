import Mathlib.Algebra.Order.Floor.Div
import Mathlib.Data.List.Chain
import Mathlib.Order.Basic
import Mathlib.Tactic.Common

/-! Lists cut into pieces, all but the last of one length. -/

namespace Tatara

variable {α : Type*}

/-- The pieces of a list, each of them so long, and the last one as long as the rest. -/
def slices (n : Nat) (l : List α) : List (List α) :=
  (List.range ((l.length + n - 1) / n)).map fun i => (l.drop (i * n)).take n

/-- The first pieces make up the front of the list. -/
theorem flatten_map_take_drop (n k : Nat) (l : List α) :
    ((List.range k).map fun i => (l.drop (i * n)).take n).flatten = l.take (k * n) := by
  -- By induction on the number of pieces.
  induction k with
  | zero => simp
  | succ k ih =>
    rw [List.range_succ, List.map_append, List.flatten_append, ih, List.map_singleton,
      List.flatten_singleton, Nat.succ_mul, List.take_add]

/-- Put together, the pieces are the list. -/
theorem flatten_slices {n : Nat} (positive : 0 < n) (l : List α) : (slices n l).flatten = l := by
  rw [slices, flatten_map_take_drop]
  -- So many pieces reach to the end of the list.
  refine List.take_of_length_le ?_
  have cut := Nat.div_add_mod (l.length + n - 1) n
  have rest := Nat.mod_lt (l.length + n - 1) positive
  rw [Nat.mul_comm] at cut
  omega

end Tatara

/-! Items of lists at their places: one behind the other, or counted from a number on. -/

namespace Tatara

variable {α : Type*} {place : α → Nat} {items : List α}

/-- Each item stands one place behind the item before it. -/
def Consecutive (place : α → Nat) (items : List α) : Prop :=
  items.IsChain fun a b => place b = place a + 1

namespace Consecutive

/-- Later items stand at later places. -/
theorem pairwise (consecutive : Consecutive place items) :
    items.Pairwise fun a b => place a < place b := by
  -- Next places are greater, and so are all later ones.
  have ascending : items.IsChain fun a b => place a < place b :=
    consecutive.imp fun a b next => by omega
  have : IsTrans α fun a b => place a < place b := ⟨fun _ _ _ => Nat.lt_trans⟩
  exact List.isChain_iff_pairwise.mp ascending

/-- The first item stands at the first place. -/
theorem head_le {a first : α} (consecutive : Consecutive place items) (member : a ∈ items)
    (initial : items.head? = some first) : place first ≤ place a := by
  -- The first item is the least, as all others come later.
  cases items with
  | nil => cases initial
  | cons b rest =>
    obtain rfl := Option.some.inj initial
    rcases List.mem_cons.mp member with rfl | inside
    · exact le_rfl
    · exact (List.rel_of_pairwise_cons (pairwise consecutive) inside).le

/-- Items at counted places are consecutive. -/
theorem of_getElem? {start : Nat}
    (counted : ∀ i a, items[i]? = some a → place a = start + i) : Consecutive place items := by
  induction items generalizing start with
  | nil => exact .nil
  | cons a rest ih =>
    have later (i : Nat) (b : α) (at_ : rest[i]? = some b) : place b = start + 1 + i := by
      have := counted (i + 1) b at_
      omega
    have others : Consecutive place rest := ih later
    refine List.isChain_cons.mpr ⟨fun b first => ?_, others⟩
    -- The second item is counted after the first.
    have one := counted 0 a rfl
    have two := counted 1 b (by rw [List.getElem?_cons_succ, ← List.head?_eq_getElem?]; exact first)
    omega

/-- The items before a place are consecutive. -/
theorem filter_lt (consecutive : Consecutive place items) (stop : Nat) :
    Consecutive place (items.filter fun a => place a < stop) := by
  induction items with
  | nil => exact .nil
  | cons a rest ih =>
    obtain ⟨next, others⟩ := List.isChain_cons.mp consecutive
    by_cases before : place a < stop
    · rw [List.filter_cons_of_pos (by simpa using before)]
      refine List.isChain_cons.mpr ⟨fun b first => ?_, ih others⟩
      -- What comes first of the others is the item behind this one, or nothing is left of them.
      cases rest with
      | nil => simp at first
      | cons c rest =>
        by_cases also : place c < stop
        · rw [List.filter_cons_of_pos (by simpa using also)] at first
          exact next b first
        · have later : (c :: rest).filter (fun d => place d < stop) = [] := by
            refine List.filter_eq_nil_iff.mpr fun d member => ?_
            have ascending := pairwise others
            rcases List.mem_cons.mp member with rfl | member
            · simpa using also
            · have := List.rel_of_pairwise_cons ascending member
              simp only [decide_eq_true_eq]
              omega
          rw [later] at first
          cases first
    · rw [List.filter_cons_of_neg (by simpa using before)]
      exact ih others

/-- The items behind a place are consecutive. -/
theorem filter_gt (consecutive : Consecutive place items) (start : Nat) :
    Consecutive place (items.filter fun a => start < place a) := by
  induction items with
  | nil => exact .nil
  | cons a rest ih =>
    have others := List.IsChain.tail consecutive
    by_cases behind : start < place a
    · -- All the others are behind the place as well.
      have all : (a :: rest).filter (fun b => start < place b) = a :: rest := by
        refine List.filter_eq_self.mpr fun b member => ?_
        rcases List.mem_cons.mp member with rfl | member
        · simpa using behind
        · have := List.rel_of_pairwise_cons (pairwise consecutive) member
          simp only [decide_eq_true_eq]
          omega
      rw [all]
      exact consecutive
    · rw [List.filter_cons_of_neg (by simpa using behind)]
      exact ih others

/-- What comes first of the items before a place comes first of all. -/
theorem head?_filter_lt (consecutive : Consecutive place items) {stop : Nat} {first : α}
    (initial : (items.filter fun a => place a < stop).head? = some first) :
    items.head? = some first := by
  cases items with
  | nil => cases initial
  | cons a rest =>
    by_cases before : place a < stop
    · rwa [List.filter_cons_of_pos (by simpa using before)] at initial
    · -- Where the first item is not before the place, no other one is.
      obtain ⟨member, less⟩ := List.mem_filter.mp (List.mem_of_mem_head? initial)
      have := consecutive.head_le member rfl
      have := of_decide_eq_true less
      omega

/-- What comes first of the items behind a place comes next to it, unless there is a gap before the
first item. -/
theorem head?_filter_gt (consecutive : Consecutive place items) {start : Nat}
    (reaches : ∀ a ∈ items.head?, place a ≤ start + 1) {first : α}
    (initial : (items.filter fun a => start < place a).head? = some first) :
    place first = start + 1 := by
  -- By induction on the items: the places go up by one, so that none is left out.
  induction items with
  | nil => cases initial
  | cons a rest ih =>
    obtain ⟨next, others⟩ := List.isChain_cons.mp consecutive
    have here := reaches a rfl
    by_cases behind : start < place a
    · rw [List.filter_cons_of_pos (by simpa using behind)] at initial
      obtain rfl := Option.some.inj initial
      omega
    · rw [List.filter_cons_of_neg (by simpa using behind)] at initial
      exact ih others (fun b second => by have := next b second; omega) initial

/-- Consecutive items behind the last one go on with the list. -/
theorem append {more : List α} (consecutive : Consecutive place items)
    (then_ : Consecutive place more)
    (joins : ∀ a ∈ items.getLast?, ∀ b ∈ more.head?, place b = place a + 1) :
    Consecutive place (items ++ more) :=
  List.isChain_append.mpr ⟨consecutive, then_, joins⟩

/-- The last item stands at the last place. -/
theorem le_getLast {a last : α} (consecutive : Consecutive place items) (member : a ∈ items)
    (final : items.getLast? = some last) : place a ≤ place last := by
  obtain ⟨front, rfl⟩ := List.getLast?_eq_some_iff.mp final
  rcases List.mem_append.mp member with inside | inside
  · exact ((List.pairwise_append.mp (pairwise consecutive)).2.2 a inside last (by simp)).le
  · rw [List.mem_singleton.mp inside]

end Consecutive

end Tatara

namespace Tatara.Places

variable {α : Type*} (P : Nat → α → Prop) (first : α) (rest : List α) (place : Nat)

/-- The items are the first one, and those behind it. -/
theorem forall_places_cons :
    (∀ i a, (first :: rest)[i]? = some a → P (place + i) a) ↔
      P place first ∧ ∀ i a, rest[i]? = some a → P (place + 1 + i) a := by
  -- A place in the longer list is the first one or a place behind it.
  constructor
  · intro all
    refine ⟨all 0 first rfl, fun i a at_ => ?_⟩
    rw [Nat.add_assoc, Nat.add_comm 1 i]
    exact all (i + 1) a at_
  · rintro ⟨own, others⟩ i a at_
    cases i with
    | zero =>
      cases at_
      exact own
    | succ i =>
      rw [Nat.add_comm i 1, ← Nat.add_assoc]
      exact others i a at_

/-- An item is the first one, or one behind it. -/
theorem exists_places_cons :
    (∃ i a, (first :: rest)[i]? = some a ∧ P (place + i) a) ↔
      P place first ∨ ∃ i a, rest[i]? = some a ∧ P (place + 1 + i) a := by
  -- What holds of an item somewhere does not fail of the items everywhere.
  have none := forall_places_cons (fun i a => ¬ P i a) first rest place
  have negated := not_congr none
  push Not at negated
  rwa [or_iff_not_imp_left]

end Tatara.Places
