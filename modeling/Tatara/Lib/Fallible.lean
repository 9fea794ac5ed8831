import Mathlib.Data.List.Basic
import Mathlib.Data.List.Forall2
import Mathlib.Tactic.Common

/-! Computations that may fail, and programs that change a state besides: what their success says of
their parts. -/

namespace Tatara.Fallible

variable {α β ε : Type}

/-- Two parts in a row succeed where the first one does and the second one does on its result. -/
theorem bind_eq_ok_iff {x : Except ε α} {f : α → Except ε β} {b : β} :
    (x >>= f) = .ok b ↔ ∃ a, x = .ok a ∧ f a = .ok b := by
  -- Only what succeeds is gone on with.
  cases x with
  | error e =>
    constructor
    · intro failed
      cases failed
    · intro both
      obtain ⟨_, failed, -⟩ := both
      cases failed
  | ok a =>
    constructor
    · intro second
      exact ⟨a, rfl, second⟩
    · intro both
      obtain ⟨_, same, second⟩ := both
      obtain rfl := Except.ok.inj same
      exact second

/-- Another error does not make a success. -/
theorem mapError_eq_ok_iff {ε' : Type} {x : Except ε α} {f : ε → ε'} {a : α} :
    x.mapError f = .ok a ↔ x = .ok a := by
  cases x <;> simp [Except.mapError]

/-- A result that is mapped is that of a success. -/
theorem map_eq_ok_iff {f : α → β} {x : Except ε α} {b : β} :
    x.map f = .ok b ↔ ∃ a, x = .ok a ∧ f a = b := by
  cases x <;> simp [Except.map]

/-- Mapping the result leaves an error. -/
theorem map_eq_error_iff {f : α → β} {x : Except ε α} {e : ε} :
    x.map f = .error e ↔ x = .error e := by
  cases x <;> simp [Except.map]

variable {f : α → Except ε β} {items : List α} {results : List β}

/-- Where each of the items succeeds, all do. -/
theorem exists_mapM_of_forall (succeed : ∀ item ∈ items, ∃ result, f item = .ok result) :
    ∃ results, items.mapM f = .ok results := by
  -- By induction on the items.
  induction items with
  | nil => exact ⟨[], rfl⟩
  | cons item items ih =>
    obtain ⟨result, first⟩ := succeed item List.mem_cons_self
    obtain ⟨results, rest⟩ := ih fun other later => succeed other (List.mem_cons_of_mem item later)
    refine ⟨result :: results, ?_⟩
    rw [List.mapM_cons, first, rest]
    rfl

/-- Each item has its result among the results. -/
theorem exists_result_of_mapM (success : items.mapM f = .ok results) {item : α}
    (present : item ∈ items) : ∃ result ∈ results, f item = .ok result := by
  induction items generalizing results with
  | nil => cases present
  | cons head items ih =>
    rw [List.mapM_cons] at success
    -- The first item succeeds, and so do the others.
    obtain ⟨result, first, behind⟩ := bind_eq_ok_iff.mp success
    obtain ⟨others, rest, ended⟩ := bind_eq_ok_iff.mp behind
    obtain rfl := Except.ok.inj ended
    rcases List.mem_cons.mp present with rfl | later
    · exact ⟨result, List.mem_cons_self, first⟩
    · obtain ⟨other, among, found⟩ := ih rest later
      exact ⟨other, List.mem_cons_of_mem result among, found⟩

/-- Each result is that of an item. -/
theorem exists_item_of_mapM (success : items.mapM f = .ok results) {result : β}
    (present : result ∈ results) : ∃ item ∈ items, f item = .ok result := by
  -- The results come in the order of the items.
  induction items generalizing results with
  | nil =>
    obtain rfl := Except.ok.inj success
    cases present
  | cons head items ih =>
    rw [List.mapM_cons] at success
    obtain ⟨headResult, first, behind⟩ := bind_eq_ok_iff.mp success
    obtain ⟨others, rest, ended⟩ := bind_eq_ok_iff.mp behind
    obtain rfl := Except.ok.inj ended
    rcases List.mem_cons.mp present with rfl | later
    · exact ⟨head, List.mem_cons_self, first⟩
    · obtain ⟨item, among, found⟩ := ih rest later
      exact ⟨item, List.mem_cons_of_mem head among, found⟩

/-- Results come item by item. -/
theorem mapM_eq_ok_iff :
    items.mapM f = .ok results ↔
      List.Forall₂ (fun item result => f item = .ok result) items results := by
  -- By induction on the items, with the results of the rest taken apart.
  induction items generalizing results with
  | nil =>
    rw [List.mapM_nil, List.forall₂_nil_left_iff, eq_comm (b := [])]
    exact ⟨fun ended => Except.ok.inj ended, fun none => congrArg _ none⟩
  | cons item items ih =>
    rw [List.mapM_cons, bind_eq_ok_iff, List.forall₂_cons_left_iff]
    refine exists_congr fun result => ?_
    constructor
    · rintro ⟨first, behind⟩
      obtain ⟨others, rest, ended⟩ := bind_eq_ok_iff.mp behind
      exact ⟨others, first, ih.mp rest, (Except.ok.inj ended).symm⟩
    · rintro ⟨others, first, rest, rfl⟩
      exact ⟨first, bind_eq_ok_iff.mpr ⟨others, ih.mpr rest, rfl⟩⟩

/-- Where what relates an item to its result is said of the item alone, it is so of all items. -/
theorem forall₂_iff_of_mapM {related : α → β → Prop} {said : α → Prop}
    (success : items.mapM f = .ok results)
    (each : ∀ item result, f item = .ok result → (related item result ↔ said item)) :
    List.Forall₂ related items results ↔ ∀ item ∈ items, said item := by
  -- By induction on the items and their results, side by side.
  induction mapM_eq_ok_iff.mp success with
  | nil => simp
  | cons first rest ih =>
    rw [List.forall₂_cons, List.forall_mem_cons, each _ _ first, ih (mapM_eq_ok_iff.mpr rest)]

/-- A walk over a list succeeds exactly when every step of it does. -/
theorem forM_eq_ok_iff {steps : List α} {f : α → Except ε Unit} :
    steps.forM f = .ok () ↔ ∀ step ∈ steps, f step = .ok () := by
  -- The first failure ends the walk.
  induction steps with
  | nil => simp [List.forM, pure, Except.pure]
  | cons step rest ih =>
    rw [List.forall_mem_cons, ← ih]
    change (f step >>= fun _ => rest.forM f) = _ ↔ _
    rw [bind_eq_ok_iff]
    constructor
    · rintro ⟨⟨⟩, done, later⟩
      exact ⟨done, later⟩
    · rintro ⟨done, later⟩
      exact ⟨(), done, later⟩

end Tatara.Fallible

namespace Tatara.Stateful

variable {ε σ α β γ : Type}

/-- The program goes through, with this result and this state at its end. -/
def Through (x : ExceptT ε (StateM σ) α) (before : σ) (a : α) (after : σ) : Prop :=
  x.run.run before = (.ok a, after)

variable {x : ExceptT ε (StateM σ) α} {f : α → ExceptT ε (StateM σ) β} {before after : σ}
  {a b : α}

/-- Handing on a result goes through, and nothing is changed. -/
theorem through_pure_iff :
    Through (pure a : ExceptT ε (StateM σ) α) before b after ↔ b = a ∧ after = before := by
  show ((.ok a, before) : Except ε α × σ) = (.ok b, after) ↔ _
  rw [Prod.mk.injEq, Except.ok.injEq, eq_comm, and_congr_right fun _ => eq_comm]

/-- A program that has failed does not go through. -/
theorem not_through_throw {e : ε} :
    ¬ Through (throw e : ExceptT ε (StateM σ) α) before a after := by
  intro through
  have failed : ((.error e, before) : Except ε α × σ) = (.ok a, after) := through
  cases failed

/-- What follows begins in the state that the first part has left. -/
theorem through_bind_iff {c : β} :
    Through (x >>= f) before c after ↔
      ∃ a between, Through x before a between ∧ Through (f a) between c after := by
  have unfolded : (x >>= f).run.run before = match x.run.run before with
      | (.ok a, between) => (f a).run.run between
      | (.error e, between) => (.error e, between) := by
    rw [ExceptT.run_bind, StateT.run_bind]
    show (fun p : Except ε α × σ => StateT.run (match p.1 with
      | .ok a => (f a).run
      | .error e => pure (.error e)) p.2) (x.run.run before) = _
    cases x.run.run before with
    | mk r between => cases r <;> rfl
  unfold Through
  rw [unfolded]
  constructor
  · intro through
    split at through
    · rename_i a between first
      exact ⟨a, between, first, through⟩
    · -- A failure of the first part is one of the whole.
      cases through
  · intro parts
    obtain ⟨a, between, first, second⟩ := parts
    rw [first]
    exact second

/-- A loop that goes through does what a plain fold does, as far as each of its turns does. -/
theorem foldl_of_through {step : β → α → ExceptT ε (StateM σ) β} (view : β → σ → γ)
    {g : γ → α → γ}
    (turn : ∀ acc a before acc' after, Through (step acc a) before acc' after →
      view acc' after = g (view acc before) a)
    {items : List α} {acc acc' : β} (through : Through (items.foldlM step acc) before acc' after) :
    view acc' after = items.foldl g (view acc before) := by
  -- By induction on the items: each turn is one step of the fold.
  induction items generalizing acc before with
  | nil =>
    obtain ⟨rfl, rfl⟩ := through_pure_iff.mp (List.foldlM_nil (f := step) ▸ through)
    rfl
  | cons a items ih =>
    rw [List.foldlM_cons] at through
    obtain ⟨mid, between, first, rest⟩ := through_bind_iff.mp through
    rw [List.foldl_cons, ← turn acc a before mid between first]
    exact ih rest

/-- What every turn of a loop leaves alone stays what it is. -/
theorem view_eq_of_through {step : β → α → ExceptT ε (StateM σ) β} (view : β → σ → γ)
    (turn : ∀ acc a before acc' after, Through (step acc a) before acc' after →
      view acc' after = view acc before)
    {items : List α} {acc acc' : β} (through : Through (items.foldlM step acc) before acc' after) :
    view acc' after = view acc before :=
  (foldl_of_through view (g := fun kept _ => kept) turn through).trans (List.foldl_fixed items)

/-- A loop goes through where each of its turns does. -/
theorem exists_through_foldlM {step : β → α → ExceptT ε (StateM σ) β}
    (turn : ∀ acc a before, ∃ acc' after, Through (step acc a) before acc' after)
    (items : List α) (acc : β) (before : σ) :
    ∃ acc' after, Through (items.foldlM step acc) before acc' after := by
  -- By induction on the items.
  induction items generalizing acc before with
  | nil => exact ⟨acc, before, rfl⟩
  | cons a items ih =>
    obtain ⟨mid, between, first⟩ := turn acc a before
    obtain ⟨acc', after, rest⟩ := ih mid between
    rw [List.foldlM_cons]
    exact ⟨acc', after, through_bind_iff.mpr ⟨mid, between, first, rest⟩⟩

end Tatara.Stateful
