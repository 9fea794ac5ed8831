import Mathlib.Data.List.Sort
import Mathlib.Tactic.Common

/-! Which elements a stable sort puts in front, and which of two it puts before the other. -/

namespace Tatara.StableSort

variable {α κ : Type*}

/-- Wherever two elements stand in a list, the one stands before the other. -/
def Before (l : List α) (x y : α) : Prop :=
  ∀ i j : Nat, l[i]? = some x → l[j]? = some y → i < j

section

variable {l : List α} {x y : α}

/-- An element does not stand before itself. -/
theorem not_before_self (present : x ∈ l) : ¬ Before l x x := by
  obtain ⟨i, at_⟩ := List.mem_iff_getElem?.mp present
  exact fun before => absurd (before i i at_ at_) (lt_irrefl i)

/-- No two elements stand before each other. -/
theorem Before.asymm (before : Before l x y) (present : x ∈ l) (present' : y ∈ l) :
    ¬ Before l y x := by
  obtain ⟨i, at_⟩ := List.mem_iff_getElem?.mp present
  obtain ⟨j, at'⟩ := List.mem_iff_getElem?.mp present'
  -- Both stand somewhere, and not both can stand first.
  intro after
  have less := before i j at_ at'
  have more := after j i at' at_
  omega

/-- Of two different elements the one stands before the other when it is never the later of the
two. -/
theorem before_iff_pairwise (apart : x ≠ y) :
    Before l x y ↔ l.Pairwise fun u v => u = y → v ≠ x := by
  -- The places of two different elements are in one order or the other.
  rw [List.pairwise_iff_getElem]
  constructor
  · rintro before i j hi hj less rfl rfl
    have more := before j i (List.getElem?_eq_getElem hj) (List.getElem?_eq_getElem hi)
    omega
  · intro never i j at_ at'
    obtain ⟨hi, rfl⟩ := List.getElem?_eq_some_iff.mp at_
    obtain ⟨hj, rfl⟩ := List.getElem?_eq_some_iff.mp at'
    rcases lt_trichotomy i j with less | rfl | more
    · exact less
    · exact absurd rfl apart
    · exact absurd rfl (never j i hj hi more rfl)

end

section

variable {l : List α} {x y : α} {le : α → α → Bool} (trans : ∀ a b c, le a b → le b c → le a c)
  (total : ∀ a b, le a b || le b a)

include trans total

/-- Sorting puts what is larger behind. -/
theorem before_mergeSort_of_not_le (less : le y x = false) : Before (l.mergeSort le) x y := by
  -- A sorted row nowhere has the larger one in front of the smaller one.
  have apart : x ≠ y := by
    rintro rfl
    have own := total x x
    simp [less] at own
  rw [before_iff_pairwise apart]
  refine (List.pairwise_mergeSort trans total l).imp ?_
  rintro u v below rfl rfl
  simp [less] at below

/-- A stable sort keeps the row of the elements that are level with one. -/
theorem filter_mergeSort (x : α) :
    (l.mergeSort le).filter (fun u => le x u && le u x) = l.filter fun u => le x u && le u x := by
  -- The row is in order, so it is kept as a part, and there is nothing else in its place.
  have stays : (l.filter fun u => le x u && le u x).Sublist (l.mergeSort le) := by
    refine List.sublist_mergeSort trans total ?_ List.filter_sublist
    rw [List.pairwise_filter]
    refine List.pairwise_of_forall fun u v among among' => ?_
    simp only [Bool.and_eq_true] at among among'
    exact trans u x v among.2 among'.1
  have row := stays.filter fun u => le x u && le u x
  rw [List.filter_filter] at row
  simp only [Bool.and_self] at row
  have whole := (List.mergeSort_perm l le).filter fun u => le x u && le u x
  exact (row.eq_of_length whole.length_eq.symm).symm

/-- A stable sort leaves two elements that are level as they stood. -/
theorem before_mergeSort_of_level (up : le x y = true) (down : le y x = true)
    (apart : x ≠ y) : Before (l.mergeSort le) x y ↔ Before l x y := by
  -- Both stand in the row of what is level with the one.
  have inRow (items : List α) : (items.Pairwise fun u v => u = y → v ≠ x) ↔
      (items.filter fun u => le x u && le u x).Pairwise fun u v => u = y → v ≠ x := by
    rw [List.pairwise_filter]
    constructor
    · exact fun all => all.imp fun never _ _ => never
    · refine fun all => all.imp ?_
      rintro u v never rfl rfl
      have own : le v v = true := by simpa using total v v
      exact never (by simp [up, down]) (by simp [own]) rfl rfl
  rw [before_iff_pairwise apart, before_iff_pairwise apart, inRow, inRow l,
    filter_mergeSort trans total]

/-- A stable sort puts an element before another one when it is smaller, or when it is level and
stood before. -/
theorem before_mergeSort_iff (present : x ∈ l) (present' : y ∈ l) :
    Before (l.mergeSort le) x y ↔ le x y = true ∧ (le y x = true → Before l x y) := by
  have perm := List.mergeSort_perm l le
  cases up : le x y with
  | false =>
    -- It is larger, and stands behind.
    have behind : Before (l.mergeSort le) y x := before_mergeSort_of_not_le trans total up
    have not := behind.asymm (perm.mem_iff.mpr present') (perm.mem_iff.mpr present)
    simpa using not
  | true =>
    cases down : le y x with
    | false => simpa using before_mergeSort_of_not_le trans total down
    | true =>
      by_cases same : x = y
      · subst same
        have not : ¬ Before l x x := not_before_self present
        simpa [not] using not_before_self (perm.mem_iff.mpr present)
      · simpa using before_mergeSort_of_level trans total up down same

end

/-- In a list that strictly increases an element has in front of it the ones that are smaller. -/
theorem mem_take_iff_countP {lt : α → α → Prop} [DecidableRel lt] (asymm : ∀ a b, lt a b → ¬ lt b a)
    {sorted : List α} (increasing : sorted.Pairwise lt) {x : α} (present : x ∈ sorted) (n : Nat) :
    x ∈ sorted.take n ↔ sorted.countP (fun y => lt y x) < n := by
  induction sorted generalizing n with
  | nil => cases present
  | cons y sorted ih =>
    obtain ⟨below, increasing⟩ := List.pairwise_cons.mp increasing
    cases n with
    | zero => simp
    | succ n =>
      rcases List.mem_cons.mp present with rfl | behind
      · -- Nothing is smaller than the first element.
        have none : (x :: sorted).countP (fun y => lt y x) = 0 := by
          rw [List.countP_eq_zero]
          intro z among
          rcases List.mem_cons.mp among with rfl | later
          · simpa using fun less => asymm z z less less
          · simpa using asymm x z (below z later)
        simp [none]
      · -- The first element is smaller, and takes up one of the places.
        have less : lt y x := below x behind
        have other : x ≠ y := by
          intro same
          subst same
          exact asymm x x less less
        simp [less, other, ih increasing behind]

variable [LinearOrder κ]

/-- How many elements of a list have a smaller key than the one at a place, or the same key and an
earlier place. -/
def ahead (key : α → κ) (l : List α) (x : α × Nat) : Nat :=
  l.zipIdx.countP fun y => key y.1 < key x.1 ∨ key y.1 = key x.1 ∧ y.2 < x.2

/-- Sorted with their places, the elements of a list strictly increase. -/
theorem pairwise_mergeSort_zipIdx (key : α → κ) (l : List α) :
    (l.zipIdx.mergeSort (List.zipIdxLE fun a b => key a ≤ key b)).Pairwise fun y x =>
      key y.1 < key x.1 ∨ key y.1 = key x.1 ∧ y.2 < x.2 := by
  let le (a b : α) : Bool := key a ≤ key b
  have trans (a b c : α) : le a b → le b c → le a c := by simpa [le] using le_trans
  have total (a b : α) : le a b || le b a := by simpa [le] using le_total (key a) (key b)
  have sorted := List.pairwise_mergeSort (List.zipIdxLE_trans trans) (List.zipIdxLE_total total)
    l.zipIdx
  -- No two elements are at the same place.
  have places : (l.zipIdx.map Prod.snd).Nodup := by
    rw [List.zipIdx_map_snd]
    exact List.nodup_range'
  have distinct := (((List.mergeSort_perm l.zipIdx _).map Prod.snd).nodup_iff.mpr places :
    ((l.zipIdx.mergeSort (List.zipIdxLE fun a b => key a ≤ key b)).map Prod.snd).Nodup)
  refine (sorted.and (List.pairwise_map.mp distinct)).imp ?_
  intro y x ordered
  obtain ⟨below, apart⟩ := ordered
  simp only [List.zipIdxLE, le, decide_eq_true_eq] at below
  split at below
  · rename_i up
    split at below
    · rename_i down
      exact .inr ⟨le_antisymm up down, lt_of_le_of_ne (by simpa using below) apart⟩
    · rename_i less
      exact .inl (lt_of_not_ge less)
  · simp at below

/-- A stable sort by keys puts an element among the first ones if few enough are ahead of it. -/
theorem mem_take_mergeSort_iff (key : α → κ) (l : List α) (n : Nat) (x : α) :
    x ∈ (l.mergeSort fun a b => key a ≤ key b).take n ↔
      ∃ place, (x, place) ∈ l.zipIdx ∧ ahead key l (x, place) < n := by
  have perm := List.mergeSort_perm l.zipIdx (List.zipIdxLE fun a b => key a ≤ key b)
  have asymm (a b : α × Nat) (less : key a.1 < key b.1 ∨ key a.1 = key b.1 ∧ a.2 < b.2) :
      ¬ (key b.1 < key a.1 ∨ key b.1 = key a.1 ∧ b.2 < a.2) := by
    intro greater
    rcases greater with more | ⟨same, more⟩ <;> rcases less with less | ⟨tie, less⟩
    · exact lt_asymm less more
    · exact more.ne tie.symm
    · exact less.ne same.symm
    · omega
  -- Sorting with the places gives the same order, and there the elements are told apart.
  rw [← List.mergeSort_zipIdx, ← List.map_take, List.mem_map]
  constructor
  · intro placed
    obtain ⟨⟨_, place⟩, front, rfl⟩ := placed
    have present := List.mem_of_mem_take front
    rw [mem_take_iff_countP asymm (pairwise_mergeSort_zipIdx key l) present,
      perm.countP_eq] at front
    exact ⟨place, perm.mem_iff.mp present, front⟩
  · intro placed
    obtain ⟨place, present, few⟩ := placed
    refine ⟨(x, place), ?_, rfl⟩
    rw [mem_take_iff_countP asymm (pairwise_mergeSort_zipIdx key l) (perm.mem_iff.mpr present),
      perm.countP_eq]
    exact few

end Tatara.StableSort
