import Mathlib.Data.List.Forall2
import Mathlib.Data.Option.Basic
import Mathlib.Tactic.Common

/-! Computations that change a state, may fail and may run out of a budget, pairs of them that run in
lockstep, and relations that the ways to build computations respect. -/

namespace Tatara

/-- A computation over a state: no answer within the budget, or a result or failure with the state
that it leaves behind. -/
def Comp (σ ε α : Type) : Type := σ → Option (Except ε α × σ)

namespace Comp

variable {σ ε α β : Type}

/-- Go on with the result of a computation; a failure is passed on with its state. -/
def bind (x : Comp σ ε α) (f : α → Comp σ ε β) : Comp σ ε β := fun s =>
  match x s with
  | none => none
  | some (.error e, s) => some (.error e, s)
  | some (.ok a, s) => f a s

instance : Monad (Comp σ ε) where
  pure a := fun s => some (.ok a, s)
  bind := bind

/-- Handing on a result is nothing more to do. -/
theorem bind_pure (x : Comp σ ε α) : (x >>= Pure.pure) = x := by
  -- However the computation ends, nothing follows.
  funext s
  change Comp.bind x Pure.pure s = x s
  unfold bind
  split
  · exact Eq.symm ‹_›
  · exact Eq.symm ‹_›
  · exact Eq.symm ‹_›

/-- Fail. -/
def fail (e : ε) : Comp σ ε α := fun s => some (.error e, s)

/-- Give no answer. -/
def exhausted : Comp σ ε α := fun _ => none

/-- Look at the state. -/
def look (f : σ → α) : Comp σ ε α := fun s => some (.ok (f s), s)

/-- Change the state, with an answer from it. -/
def change (f : σ → α × σ) : Comp σ ε α := fun s => some (.ok (f s).1, (f s).2)

/-- Run on a part of the state. -/
def zoom {τ : Type} (part : σ → τ) (put : τ → σ → σ) (x : Comp τ ε α) : Comp σ ε α := fun s =>
  (x (part s)).map fun (result, t) => (result, put t s)

end Comp

/-- Results that are related, or the same failure. -/
inductive SameEnd {ε α β : Type} (R : α → β → Prop) : Except ε α → Except ε β → Prop
  | ok {a : α} {b : β} (related : R a b) : SameEnd R (.ok a) (.ok b)
  | error (e : ε) : SameEnd R (.error e) (.error e)

/-- From related states, two computations both give no answer, or they end alike in related
states. -/
def Lockstep {σ τ ε α β : Type} (S : σ → τ → Prop) (R : α → β → Prop) (x : Comp σ ε α)
    (y : Comp τ ε β) : Prop :=
  ∀ s t, S s t → Option.Rel (fun p q => SameEnd R p.1 q.1 ∧ S p.2 q.2) (x s) (y t)

namespace Lockstep

variable {σ τ ε α β α' β' : Type} {S : σ → τ → Prop} {R : α → β → Prop} {R' : α' → β' → Prop}

/-- Related results are related computations. -/
theorem pure {a : α} {b : β} (related : R a b) :
    Lockstep S R (Pure.pure a : Comp σ ε α) (Pure.pure b : Comp τ ε β) :=
  fun _ _ states => .some ⟨.ok related, states⟩

theorem fail (e : ε) : Lockstep S R (Comp.fail e) (Comp.fail e) :=
  fun _ _ states => .some ⟨.error e, states⟩

/-- So do computations that have run out. -/
theorem exhausted :
    Lockstep S R (Comp.exhausted : Comp σ ε α) (Comp.exhausted : Comp τ ε β) :=
  fun _ _ _ => .none

/-- To look at related states gives related results. -/
theorem look {f : σ → α} {g : τ → β} (related : ∀ s t, S s t → R (f s) (g t)) :
    Lockstep S R (Comp.look f : Comp σ ε α) (Comp.look g : Comp τ ε β) :=
  fun s t states => .some ⟨.ok (related s t states), states⟩

/-- To change related states leaves related ones. -/
theorem change {f : σ → α × σ} {g : τ → β × τ}
    (related : ∀ s t, S s t → R (f s).1 (g t).1 ∧ S (f s).2 (g t).2) :
    Lockstep S R (Comp.change f : Comp σ ε α) (Comp.change g : Comp τ ε β) :=
  fun s t states => .some ⟨.ok (related s t states).1, (related s t states).2⟩

/-- Two computations in a row stay in lockstep. -/
theorem bind {x : Comp σ ε α} {y : Comp τ ε β} {f : α → Comp σ ε α'} {g : β → Comp τ ε β'}
    (first : Lockstep S R x y) (behind : ∀ a b, R a b → Lockstep S R' (f a) (g b)) :
    Lockstep S R' (x >>= f) (y >>= g) := by
  intro s t states
  have both := first s t states
  change Option.Rel _ (Comp.bind x f s) (Comp.bind y g t)
  unfold Comp.bind
  -- Either the first ones end alike, or neither answers.
  generalize x s = p at both
  generalize y t = q at both
  cases both with
  | none => exact .none
  | some ended =>
    rename_i p q
    obtain ⟨result, s⟩ := p
    obtain ⟨result', t⟩ := q
    obtain ⟨results, states⟩ := ended
    dsimp only at results states
    cases results with
    | ok related => exact behind _ _ related s t states
    | error e => exact .some ⟨.error e, states⟩

/-- Computations on parts of states that stay related. -/
theorem zoom {σ' τ' : Type} {S' : σ' → τ' → Prop} {part : σ → σ'} {part' : τ → τ'}
    {put : σ' → σ → σ} {put' : τ' → τ → τ} {x : Comp σ' ε α} {y : Comp τ' ε β}
    (parts : ∀ s t, S s t → S' (part s) (part' t))
    (puts : ∀ s t, S s t → ∀ s' t', S' s' t' → S (put s' s) (put' t' t))
    (both : Lockstep S' R x y) : Lockstep S R (x.zoom part put) (y.zoom part' put') := by
  intro s t states
  -- The parts are related, so that the computations on them are.
  have inner := both _ _ (parts s t states)
  unfold Comp.zoom
  generalize x (part s) = p at inner
  generalize y (part' t) = q at inner
  cases inner with
  | none => exact .none
  | some ended => exact .some ⟨ended.1, puts s t states _ _ ended.2⟩

end Lockstep

section

variable {α β : Type} {R : α → β → Prop} {xs : List α} {ys : List β}

/-- Lists that are related item by item are so at every place. -/
theorem forall₂_getElem? (each : List.Forall₂ R xs ys) (i : Nat) : Option.Rel R xs[i]? ys[i]? := by
  -- By induction on the two lists, side by side.
  induction each generalizing i with
  | nil => exact .none
  | cons first _ ih =>
    cases i with
    | zero => exact .some first
    | succ i => exact ih i

/-- Setting a place to related items. -/
theorem forall₂_set (each : List.Forall₂ R xs ys) (i : Nat) {a : α} {b : β} (new : R a b) :
    List.Forall₂ R (xs.set i a) (ys.set i b) := by
  -- By induction on the two lists, side by side.
  induction each generalizing i with
  | nil => exact .nil
  | cons first rest ih =>
    cases i with
    | zero => exact .cons new rest
    | succ i => exact .cons first (ih i)

end

/-- Relations between computations over one state, one for each kind of results, that are kept by
handing on a result, by failing, and by going on. -/
structure Congruence (σ ε : Type) where
  Rel : {α : Type} → Comp σ ε α → Comp σ ε α → Prop
  pure : ∀ {α : Type} (a : α), Rel (Pure.pure a) (Pure.pure a)
  fail : ∀ {α : Type} (e : ε), Rel (Comp.fail e : Comp σ ε α) (Comp.fail e)
  bind : ∀ {α β : Type} {x y : Comp σ ε α} {f g : α → Comp σ ε β},
    Rel x y → (∀ a, Rel (f a) (g a)) → Rel (x >>= f) (y >>= g)

namespace Comp

variable {σ ε α β γ : Type} {x : Comp σ ε α} {f : α → Comp σ ε β} {s : σ}

/-- What a computation in two parts ends with: the failure of the first, or what the second makes
of its result. -/
theorem bind_apply :
    (x >>= f) s = match x s with
      | none => none
      | some (.error e, s) => some (.error e, s)
      | some (.ok a, s) => f a s := rfl

/-- Of three computations in a row it does not matter which two are taken together. -/
theorem bind_assoc {g : β → Comp σ ε γ} : (x >>= f) >>= g = x >>= fun a => f a >>= g := by
  funext s
  -- Only where the first one succeeds is there anything to put together.
  rw [bind_apply, bind_apply, bind_apply]
  cases x s with
  | none => rfl
  | some ended =>
    obtain ⟨result, s⟩ := ended
    cases result <;> rfl

/-- What follows a look at the state. -/
theorem look_bind {look : σ → α} : (Comp.look look >>= f) s = f (look s) s := rfl

end Comp

namespace Congruence

section keeping

variable {σ ε : Type} (kept : σ → σ → Prop)

/-- A computation that leaves behind only states that its own one is kept in. -/
def Keeps {α : Type} (x : Comp σ ε α) : Prop :=
  ∀ s result after, x s = some (result, after) → kept s after

/-- Computations that keep what is kept from state to state. -/
def keeping (refl : ∀ s, kept s s)
    (trans : ∀ {s t u}, kept s t → kept t u → kept s u) : Congruence σ ε where
  Rel x _ := Keeps kept x
  pure a s result after ended := by
    cases ended
    exact refl s
  fail e s result after ended := by
    cases ended
    exact refl s
  bind {α β x y f g} first behind s result after ended := by
    rw [Comp.bind_apply] at ended
    split at ended
    · cases ended
    · rename_i failed
      cases ended
      exact first _ _ _ failed
    · rename_i between done
      exact trans (first _ _ _ done) (behind _ between _ _ ended)

end keeping

section following

variable {σ ε α : Type} (sound stray : σ → Prop) (mayFail : Bool)

/-- A computation ends like another one in a sound state; or it fails in a stray one, and the other
one does as well or gives no answer. -/
inductive Follows : Option (Except ε α × σ) → Option (Except ε α × σ) → Prop
  | none : Follows none none
  | same {result : Except ε α} {s : σ} (ended : sound s) :
    Follows (some (result, s)) (some (result, s))
  | failed {e : ε} {s : σ} (may : mayFail = true) (astray : stray s) :
    Follows (some (.error e, s)) (some (.error e, s))
  | lost {e : ε} {s : σ} (may : mayFail = false) (astray : stray s) :
    Follows (some (.error e, s)) none

/-- Computations that follow each other from sound states on. -/
def following : Congruence σ ε where
  Rel x y := ∀ s, sound s → Follows sound stray mayFail (x s) (y s)
  pure _ _ start := .same start
  fail _ _ start := .same start
  bind {α β x y f g} first behind s start := by
    rw [Comp.bind_apply, Comp.bind_apply]
    -- By how the first parts end; only after a result is there anything behind them.
    generalize x s = p, y s = q, first s start = both
    cases both with
    | none => exact .none
    | @same result s ended =>
      cases result with
      | ok a => exact behind a s ended
      | error e => exact .same ended
    | failed may astray => exact .failed may astray
    | lost may astray => exact .lost may astray

variable {sound stray mayFail} {p q : Option (Except ε α × σ)}

/-- Where failures may be there, the one that follows is the same. -/
theorem Follows.eq (both : Follows sound stray true p q) : p = q := by
  cases both with
  | none | same | failed => rfl
  | lost may => cases may

/-- Where they may not, what the one that follows gives is given in a sound state. -/
theorem Follows.sound_of_some {result : Except ε α} {s : σ}
    (both : Follows sound stray mayFail p (some (result, s))) (quiet : mayFail = false) :
    p = some (result, s) ∧ sound s := by
  cases both with
  | same ended => exact ⟨rfl, ended⟩
  | failed may => rw [quiet] at may; cases may

end following

section extending

variable {σ ε : Type}

/-- A computation gives every answer that another one gives. -/
def Extends {α : Type} (x y : Comp σ ε α) : Prop := ∀ s ended, x s = some ended → y s = some ended

/-- Computations of which the second one may answer where the first one does not. -/
def extending : Congruence σ ε where
  Rel := Extends
  pure _ _ _ := id
  fail _ _ _ := id
  bind {α β x y f g} first behind s ended came := by
    rw [Comp.bind_apply] at came ⊢
    -- The first part of the one that extends ends in the same way.
    split at came
    · cases came
    · rename_i failed
      rw [first _ _ failed]
      exact came
    · rename_i done
      rw [first _ _ done]
      exact behind _ _ _ came

end extending

end Congruence

end Tatara
