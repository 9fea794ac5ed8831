import Mathlib.Data.List.Basic
import Mathlib.Order.Nat
import Mathlib.Tactic.Common

/-! The least number of edits that make one list of another. -/

namespace Tatara.EditDistance

variable {α : Type*} {n : Nat} {a b : List α}

/-- An edit: at some place an element comes in, goes out, or is replaced. -/
inductive Edit : List α → List α → Prop
  | insert (c : α) (rest : List α) : Edit rest (c :: rest)
  | delete (c : α) (rest : List α) : Edit (c :: rest) rest
  | replace (c d : α) (rest : List α) : Edit (c :: rest) (d :: rest)
  | later (c : α) {a b : List α} : Edit a b → Edit (c :: a) (c :: b)

/-- So many edits, one after the other. -/
inductive Edits : Nat → List α → List α → Prop
  | nil (a : List α) : Edits 0 a a
  | cons {n : Nat} {a b c : List α} : Edit a b → Edits n b c → Edits (n + 1) a c

/-- So many edits lead from one list to another, and no fewer. -/
def IsDistance (n : Nat) (a b : List α) : Prop := Edits n a b ∧ ∀ m, Edits m a b → n ≤ m

/-- Two lists side by side, with the number of places at which they differ. -/
inductive Aligned : Nat → List α → List α → Prop
  | nil : Aligned 0 [] []
  | keep (c : α) {n : Nat} {a b : List α} : Aligned n a b → Aligned n (c :: a) (c :: b)
  | insert (c : α) {n : Nat} {a b : List α} : Aligned n a b → Aligned (n + 1) a (c :: b)
  | delete (c : α) {n : Nat} {a b : List α} : Aligned n a b → Aligned (n + 1) (c :: a) b
  | replace (c d : α) {n : Nat} {a b : List α} :
      Aligned n a b → Aligned (n + 1) (c :: a) (d :: b)

/-- Edits may have another item in front. -/
theorem Edits.later (c : α) (edits : Edits n a b) : Edits n (c :: a) (c :: b) := by
  induction edits with
  | nil a => exact .nil _
  | cons first _ ih => exact .cons (.later c first) ih

/-- Every place at which aligned lists differ is an edit. -/
theorem Aligned.edits (aligned : Aligned n a b) : Edits n a b := by
  -- By induction on the alignment: only a place that is kept is no edit.
  induction aligned with
  | nil => exact .nil _
  | keep c _ ih => exact ih.later c
  | insert c _ ih => exact .cons (.insert c _) (ih.later c)
  | delete c _ ih => exact .cons (.delete c _) ih
  | replace c d _ ih => exact .cons (.replace c d _) (ih.later d)

/-- A list is aligned with itself at no cost. -/
theorem aligned_self (a : List α) : Aligned 0 a a := by
  induction a with
  | nil => exact .nil
  | cons c rest ih => exact .keep c ih

/-- An edit ahead makes aligned lists differ at one more place at most. -/
theorem Edit.aligned {first : List α} (edit : Edit first a) (aligned : Aligned n a b) :
    ∃ m ≤ n + 1, Aligned m first b := by
  -- By induction on the alignment; the edit is at its first place, or further back.
  induction aligned generalizing first with
  | nil =>
    cases edit with
    | delete c => exact ⟨1, le_rfl, .delete c .nil⟩
  | keep c aligned ih =>
    cases edit with
    | insert => exact ⟨_, le_rfl, .insert c aligned⟩
    | delete d => exact ⟨_, le_rfl, .delete d (.keep c aligned)⟩
    | replace d => exact ⟨_, le_rfl, .replace d c aligned⟩
    | later _ edit =>
      obtain ⟨m, few, aligned⟩ := ih edit
      exact ⟨m, few, .keep c aligned⟩
  | insert c aligned ih =>
    -- What comes in does so behind the edit.
    obtain ⟨m, few, aligned⟩ := ih edit
    exact ⟨m + 1, Nat.succ_le_succ few, .insert c aligned⟩
  | delete c aligned ih =>
    cases edit with
    -- What is put in and then taken out again need not be there at all.
    | insert => exact ⟨_, Nat.le_add_right _ 2, aligned⟩
    | delete d => exact ⟨_, le_rfl, .delete d (.delete c aligned)⟩
    | replace d => exact ⟨_, Nat.le_succ _, .delete d aligned⟩
    | later _ edit =>
      obtain ⟨m, few, aligned⟩ := ih edit
      exact ⟨m + 1, Nat.succ_le_succ few, .delete c aligned⟩
  | replace c d aligned ih =>
    cases edit with
    | insert => exact ⟨_, Nat.le_succ _, .insert d aligned⟩
    | delete e => exact ⟨_, le_rfl, .delete e (.replace c d aligned)⟩
    | replace e => exact ⟨_, Nat.le_succ _, .replace e d aligned⟩
    | later _ edit =>
      obtain ⟨m, few, aligned⟩ := ih edit
      exact ⟨m + 1, Nat.succ_le_succ few, .replace c d aligned⟩

/-- Lists that edits lead to can be aligned at no more cost. -/
theorem Edits.aligned (edits : Edits n a b) : ∃ m ≤ n, Aligned m a b := by
  -- By induction on the edits: the first of them costs at most one more.
  induction edits with
  | nil a => exact ⟨0, le_rfl, aligned_self a⟩
  | cons first _ ih =>
    obtain ⟨m, few, aligned⟩ := ih
    obtain ⟨m', few', aligned⟩ := first.aligned aligned
    exact ⟨m', by omega, aligned⟩

/-- An edit may have other items behind it. -/
theorem Edit.append (edit : Edit a b) (rest : List α) : Edit (a ++ rest) (b ++ rest) := by
  -- By induction on the place of the edit.
  induction edit with
  | insert c front => exact .insert c _
  | delete c front => exact .delete c _
  | replace c d front => exact .replace c d _
  | later c _ ih => exact .later c ih

/-- An edit may have other items in front of it. -/
theorem Edit.behind (edit : Edit a b) (front : List α) : Edit (front ++ a) (front ++ b) := by
  induction front with
  | nil => exact edit
  | cons c rest ih => exact .later c ih

/-- An edit may be made backwards. -/
theorem Edit.reverse (edit : Edit a b) : Edit a.reverse b.reverse := by
  -- By induction on the place of the edit, which is behind what was in front.
  induction edit with
  | insert c rest => simpa using (Edit.insert c []).behind rest.reverse
  | delete c rest => simpa using (Edit.delete c []).behind rest.reverse
  | replace c d rest => simpa using (Edit.replace c d []).behind rest.reverse
  | later c _ ih => simpa using ih.append [c]

/-- Edits may be made backwards. -/
theorem Edits.reverse (edits : Edits n a b) : Edits n a.reverse b.reverse := by
  induction edits with
  | nil a => exact .nil _
  | cons first _ ih => exact .cons first.reverse ih

/-- Backwards the distance is the same. -/
theorem isDistance_reverse_iff : IsDistance n a.reverse b.reverse ↔ IsDistance n a b := by
  -- Twice backwards is forwards.
  have back {m : Nat} (edits : Edits m a.reverse b.reverse) : Edits m a b := by
    simpa using edits.reverse
  exact ⟨fun ⟨edits, least⟩ => ⟨back edits, fun m other => least m other.reverse⟩,
    fun ⟨edits, least⟩ => ⟨edits.reverse, fun m other => least m (back other)⟩⟩

/-- All of a list may be inserted. -/
theorem aligned_nil_left (b : List α) : Aligned b.length [] b := by
  induction b with
  | nil => exact .nil
  | cons d b ih => exact .insert d ih

/-- All of a list may be deleted. -/
theorem aligned_nil_right (a : List α) : Aligned a.length a [] := by
  induction a with
  | nil => exact .nil
  | cons c a ih => exact .delete c ih

variable [DecidableEq α]

/-- The distance of two lists, by what happens to their first elements. -/
def distance : List α → List α → Nat
  | [], b => b.length
  | a, [] => a.length
  | c :: a, d :: b =>
    min (min (distance (c :: a) b + 1) (distance a (d :: b) + 1))
      (distance a b + if c = d then 0 else 1)

@[simp] theorem distance_nil_left (b : List α) : distance [] b = b.length := by
  rw [distance]

@[simp] theorem distance_nil_right (a : List α) : distance a [] = a.length := by
  cases a <;> simp [distance]

/-- Lists can be aligned at the cost of their distance. -/
theorem aligned_distance (a b : List α) : Aligned (distance a b) a b := by
  induction a, b using distance.induct with
  | case1 b =>
    rw [distance_nil_left]
    exact aligned_nil_left b
  | case2 a _ =>
    rw [distance_nil_right]
    exact aligned_nil_right a
  | case3 c a d b inserted deleted replaced =>
    rw [distance]
    -- Whichever of the three ways is the cheapest is taken.
    rcases Nat.le_total (distance a b + if c = d then 0 else 1)
      (min (distance (c :: a) b + 1) (distance a (d :: b) + 1)) with least | least
    · rw [Nat.min_eq_right least]
      split
      next same =>
        cases same
        exact .keep c replaced
      next => exact .replace c d replaced
    · rw [Nat.min_eq_left least]
      rcases Nat.le_total (distance (c :: a) b + 1) (distance a (d :: b) + 1) with less | less
      · rw [Nat.min_eq_left less]
        exact .insert d inserted
      · rw [Nat.min_eq_right less]
        exact .delete c deleted

/-- No alignment costs less than the distance. -/
theorem Aligned.distance_le (aligned : Aligned n a b) : distance a b ≤ n := by
  induction aligned with
  | nil => exact Nat.le_of_eq (distance_nil_left [])
  | keep c _ ih =>
    rw [distance, if_pos rfl]
    exact (Nat.min_le_right _ _).trans ih
  | @insert d n a b _ ih =>
    -- The recursion has this way only where both lists go on.
    cases a with
    | nil => simpa using ih
    | cons c a =>
      rw [distance]
      exact (Nat.min_le_left _ _).trans ((Nat.min_le_left _ _).trans (Nat.succ_le_succ ih))
  | @delete c n a b _ ih =>
    cases b with
    | nil => simpa using ih
    | cons d b =>
      rw [distance]
      exact (Nat.min_le_left _ _).trans ((Nat.min_le_right _ _).trans (Nat.succ_le_succ ih))
  | replace c d _ ih =>
    rw [distance]
    refine (Nat.min_le_right _ _).trans ?_
    split
    next => exact ih.trans (Nat.le_succ _)
    next => exact Nat.succ_le_succ ih

/-- What is computed is the least number of edits. -/
theorem isDistance_distance (a b : List α) : IsDistance (distance a b) a b := by
  refine ⟨(aligned_distance a b).edits, fun m edits => ?_⟩
  obtain ⟨cost, few, aligned⟩ := edits.aligned
  exact aligned.distance_le.trans few

/-- There is one distance. -/
theorem isDistance_iff : IsDistance n a b ↔ n = distance a b := by
  -- What is computed is a distance, and of two distances each is at most the other.
  have this := isDistance_distance a b
  constructor
  · rintro ⟨edits, least⟩
    exact Nat.le_antisymm (least _ this.1) (this.2 _ edits)
  · rintro rfl
    exact this

/-- Backwards the distance is the same. -/
theorem distance_reverse (a b : List α) : distance a.reverse b.reverse = distance a b :=
  isDistance_iff.mp (isDistance_reverse_iff.mp (isDistance_distance a.reverse b.reverse))

end Tatara.EditDistance
