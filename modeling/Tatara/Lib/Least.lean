import Mathlib.Data.List.Induction
import Mathlib.Data.Set.Function
import Mathlib.Order.Basic
import Mathlib.Tactic.Common

/-! The element of a list whose key is the least. -/

namespace Tatara

variable {α κ : Type*} [LinearOrder κ] {key : α → κ}

/-- The element is in the list, and none in it has a smaller key. -/
def IsLeastBy (key : α → κ) (items : List α) (a : α) : Prop :=
  a ∈ items ∧ ∀ b ∈ items, key a ≤ key b

/-- Of two elements the one with the smaller key, and of equal keys the second one. -/
def lesserBy (key : α → κ) (a b : α) : α := if key a < key b then a else b

/-- An element with the least key, found in one pass over the list. -/
def leastBy (key : α → κ) : List α → Option α
  | [] => none
  | a :: items => some (items.foldl (lesserBy key) a)

/-- A pass that keeps the lesser one ends with one of the least. -/
theorem isLeastBy_foldl (a : α) (items : List α) :
    IsLeastBy key (a :: items) (items.foldl (lesserBy key) a) := by
  -- What is kept so far has the least key of everything that has been passed.
  induction items generalizing a with
  | nil => exact ⟨List.mem_singleton_self a, by simp⟩
  | cons b items ih =>
    obtain ⟨found, least⟩ := ih (lesserBy key a b)
    rw [List.foldl_cons]
    rcases lt_or_ge (key a) (key b) with less | notLess
    · have kept : lesserBy key a b = a := if_pos less
      rw [kept] at found least ⊢
      have first := least a List.mem_cons_self
      refine ⟨?_, ?_⟩
      · rcases List.mem_cons.mp found with same | later
        · exact List.mem_cons.mpr (.inl same)
        · exact List.mem_cons_of_mem a (List.mem_cons_of_mem b later)
      · simp only [List.mem_cons, forall_eq_or_imp]
        exact ⟨first, first.trans less.le, fun c later => least c (List.mem_cons_of_mem a later)⟩
    · have kept : lesserBy key a b = b := if_neg notLess.not_gt
      rw [kept] at found least ⊢
      have second := least b List.mem_cons_self
      refine ⟨List.mem_cons_of_mem a found, ?_⟩
      simp only [List.mem_cons, forall_eq_or_imp]
      exact ⟨second.trans notLess, second, fun c later => least c (List.mem_cons_of_mem b later)⟩

/-- One more element at the end is the least one where its key is smaller than all before. -/
theorem IsLeastBy.append {items : List α} {a : α} (least : IsLeastBy key items a) (b : α) :
    IsLeastBy key (items ++ [b]) (lesserBy key b a) := by
  -- The last one is taken only if it is smaller than all before.
  obtain ⟨present, below⟩ := least
  rcases lt_or_ge (key b) (key a) with less | notLess
  · have taken : lesserBy key b a = b := if_pos less
    rw [taken]
    refine ⟨by simp, fun c among => ?_⟩
    rcases List.mem_append.mp among with earlier | last
    · exact less.le.trans (below c earlier)
    · rw [List.mem_singleton.mp last]
  · have kept : lesserBy key b a = a := if_neg notLess.not_gt
    rw [kept]
    refine ⟨List.mem_append_left _ present, fun c among => ?_⟩
    rcases List.mem_append.mp among with earlier | last
    · exact below c earlier
    · rw [List.mem_singleton.mp last]
      exact notLess

theorem leastBy_eq_none_iff {items : List α} : leastBy key items = none ↔ items = [] := by
  cases items <;> simp [leastBy]

/-- What is found is one with the least key. -/
theorem isLeastBy_of_leastBy {items : List α} {a : α} (found : leastBy key items = some a) :
    IsLeastBy key items a := by
  -- The pass starts with the first item.
  cases items with
  | nil => cases found
  | cons b items =>
    obtain rfl := Option.some.inj found
    exact isLeastBy_foldl b items

/-- Where keys tell the elements apart, the least one depends on nothing but the members. -/
theorem leastBy_congr {items others : List α} (apart : Set.InjOn key {a | a ∈ items})
    (same : ∀ a, a ∈ others ↔ a ∈ items) : leastBy key others = leastBy key items := by
  cases found : leastBy key items with
  | none =>
    have empty : items = [] := leastBy_eq_none_iff.mp found
    rw [leastBy_eq_none_iff, List.eq_nil_iff_forall_not_mem]
    intro a present
    rw [same, empty] at present
    cases present
  | some a =>
    obtain ⟨present, least⟩ := isLeastBy_of_leastBy found
    cases found' : leastBy key others with
    | none =>
      have empty : others = [] := leastBy_eq_none_iff.mp found'
      rw [← same, empty] at present
      cases present
    | some b =>
      -- Each of the two is among the others, so neither key is smaller.
      obtain ⟨presentB, leastB⟩ := isLeastBy_of_leastBy found'
      have presentB := (same b).mp presentB
      have equal : key b = key a := (leastB a ((same a).mpr present)).antisymm (least b presentB)
      rw [apart presentB present equal]

/-- The first of the elements with the least key. -/
def IsFirstLeastBy (key : α → κ) (items : List α) (a : α) : Prop :=
  ∃ before after, items = before ++ a :: after ∧ (∀ b ∈ before, key a < key b) ∧
    ∀ b ∈ after, key a ≤ key b

/-- The first element with the least key, found in one pass over the list. -/
def firstLeastBy (key : α → κ) : List α → Option α
  | [] => none
  | a :: items => some (items.foldl (fun best b => lesserBy key b best) a)

namespace IsFirstLeastBy

/-- One more element at the end takes the place of the first least one where its key is smaller. -/
theorem append {items : List α} {a : α} (first : IsFirstLeastBy key items a) (b : α) :
    IsFirstLeastBy key (items ++ [b]) (lesserBy key b a) := by
  -- Of equal keys the earlier one stays.
  obtain ⟨before, after, rfl, less, least⟩ := first
  rcases lt_or_ge (key b) (key a) with smaller | notSmaller
  · have taken : lesserBy key b a = b := if_pos smaller
    rw [taken]
    refine ⟨before ++ a :: after, [], rfl, fun c among => ?_, by simp⟩
    rcases List.mem_append.mp among with earlier | later
    · exact smaller.trans (less c earlier)
    · rcases List.mem_cons.mp later with rfl | later
      · exact smaller
      · exact smaller.trans_le (least c later)
  · have kept : lesserBy key b a = a := if_neg notSmaller.not_gt
    rw [kept]
    refine ⟨before, after ++ [b], by simp, less, fun c among => ?_⟩
    rcases List.mem_append.mp among with later | last
    · exact least c later
    · rw [List.mem_singleton.mp last]
      exact notSmaller

/-- There is one first one with the least key. -/
theorem unique {items : List α} {a b : α} (first : IsFirstLeastBy key items a)
    (other : IsFirstLeastBy key items b) : a = b := by
  obtain ⟨before, after, rfl, less, least⟩ := first
  obtain ⟨before', after', same, less', least'⟩ := other
  -- Whichever of the two stands first, neither key is smaller than the other.
  rcases List.append_eq_append_iff.mp same with ⟨between, rfl, rest⟩ | ⟨between, rfl, rest⟩
  · cases between with
    | nil => exact (List.cons.inj rest).1
    | cons c between =>
      obtain ⟨rfl, rfl⟩ := List.cons.inj rest
      have later : key a ≤ key b := least b (by simp)
      exact absurd later (less' a (by simp)).not_ge
  · cases between with
    | nil => exact ((List.cons.inj rest).1).symm
    | cons c between =>
      obtain ⟨rfl, rfl⟩ := List.cons.inj rest
      have later : key b ≤ key a := least' a (by simp)
      exact absurd later (less b (by simp)).not_ge

/-- The first one with the least key is one with the least key. -/
theorem isLeastBy {items : List α} {a : α} (first : IsFirstLeastBy key items a) :
    IsLeastBy key items a := by
  -- Those before it are greater, and those behind it are not less.
  obtain ⟨before, after, rfl, less, least⟩ := first
  refine ⟨by simp, fun b among => ?_⟩
  rcases List.mem_append.mp among with earlier | rest
  · exact (less b earlier).le
  · rcases List.mem_cons.mp rest with same | later
    · exact (congrArg key same).ge
    · exact least b later

end IsFirstLeastBy

/-- A pass that keeps the first lesser one ends with the first one of the least. -/
theorem isFirstLeastBy_foldl (a : α) (items : List α) :
    IsFirstLeastBy key (a :: items) (items.foldl (fun best b => lesserBy key b best) a) := by
  -- The pass is followed from its end, one element after the other.
  induction items using List.reverseRecOn with
  | nil => exact ⟨[], [], rfl, by simp, by simp⟩
  | append_singleton items b ih =>
    rw [List.foldl_append]
    exact ih.append b

/-- What is found is the first one with the least key. -/
theorem firstLeastBy_eq_some_iff {items : List α} {a : α} :
    firstLeastBy key items = some a ↔ IsFirstLeastBy key items a := by
  cases items with
  | nil =>
    -- There is no first element in an empty list.
    refine iff_of_false (by simp [firstLeastBy]) fun first => ?_
    obtain ⟨_, _, impossible, _⟩ := first
    simp at impossible
  | cons b items =>
    have found : IsFirstLeastBy key (b :: items) _ := isFirstLeastBy_foldl b items
    constructor
    · intro same
      exact Option.some.inj same ▸ found
    · intro first
      exact congrArg some (found.unique first)

end Tatara
