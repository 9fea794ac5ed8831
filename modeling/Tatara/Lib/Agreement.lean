import Mathlib.Order.Lattice
import Mathlib.Tactic.Common

/-! Values that are put together: what they agree on, and what lies below all of them. -/

namespace Tatara

section

variable {α : Type*} [DecidableEq α] {x y z w : α}

/-- What two values agree on, or else a value that stands for none. -/
def agreed (z x y : α) : α := if x = y then x else z

@[simp] theorem agreed_self (z x : α) : agreed z x x = x := if_pos rfl

theorem agreed_of_ne (differs : x ≠ y) : agreed z x y = z := if_neg differs

/-- It does not matter in which order two values are put together. -/
theorem agreed_comm (z x y : α) : agreed z x y = agreed z y x := by
  by_cases same : x = y
  · rw [same]
  · rw [agreed_of_ne same, agreed_of_ne (Ne.symm same)]

/-- The value that stands for none agrees with no other. -/
@[simp] theorem agreed_none (z x : α) : agreed z z x = z := by
  by_cases same : z = x
  · rw [same, agreed_self]
  · exact agreed_of_ne same

/-- Of three values it does not matter which two are put together first. -/
theorem agreed_assoc (z x y w : α) : agreed z (agreed z x y) w = agreed z x (agreed z y w) := by
  -- Where two of the three differ, both sides stand for none.
  by_cases first : x = y
  · by_cases second : y = w
    · rw [first, second]
      simp
    · rw [first, agreed_self, agreed_of_ne second, agreed_comm z y z, agreed_none]
  · rw [agreed_of_ne first, agreed_none]
    by_cases second : y = w
    · rw [second, agreed_self, agreed_of_ne (second ▸ first)]
    · rw [agreed_of_ne second, agreed_comm z x z, agreed_none]

/-- Two values agree on the first one only if they are the same or it stands for none. -/
theorem agreed_eq_left_iff : agreed z x y = x ↔ x = y ∨ x = z := by
  by_cases same : x = y
  · simp [same]
  · rw [agreed_of_ne same]
    simp [same, eq_comm]

theorem agreed_eq_right_iff : agreed z x y = y ↔ x = y ∨ y = z := by
  rw [agreed_comm, agreed_eq_left_iff, eq_comm (a := y) (b := x)]

/-- Two such operations absorb each other only at their own values, or where there is nothing to
put together. -/
theorem agreed_agreed_eq_left_iff : agreed z x (agreed w x y) = x ↔ x = y ∨ x = w ∨ x = z := by
  -- Different values are put together to what stands for none, and that is put together once more.
  by_cases same : x = y
  · simp [same]
  · rw [agreed_of_ne same, agreed_eq_left_iff]
    simp [same]

/-- Nothing comes of a list once there is no agreement. -/
theorem foldl_agreed (z : α) (items : List α) : items.foldl (agreed z) z = z := by
  induction items with
  | nil => rfl
  | cons x items ih => rw [List.foldl_cons, agreed_none, ih]

end

section

variable {α β : Type*} [Lattice β]

/-- What lies below the meet of a list lies below where it starts and below each of its elements. -/
theorem le_foldl_inf_iff (f : α → β) {b start : β} {items : List α} :
    b ≤ items.foldl (fun acc a => acc ⊓ f a) start ↔ b ≤ start ∧ ∀ a ∈ items, b ≤ f a := by
  -- Each element is met with all that came before it.
  induction items generalizing start with
  | nil => simp
  | cons a items ih =>
    rw [List.foldl_cons, ih, le_inf_iff, List.forall_mem_cons, and_assoc]

end

end Tatara
