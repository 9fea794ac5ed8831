import Tatara.Lisp.Cache

/-! When the output of an expansion holds no macro call any more. -/

namespace Tatara.Lisp

open Tatara.Rust

/-- A form lies inside another one, reached through nested lists only. -/
inductive Within (sub : Sexp) : Sexp → Prop
  | self : Within sub sub
  | item {items : List Sexp} {item : Sexp} : item ∈ items → Within sub item →
      Within sub (.list items)

section expansion

variable {σ : Type} (limits : ResourceLimits) (get : String → Option MacroDef)
  (apply : MacroDef → List Sexp → σ → Except Halt Sexp × σ)

/-- No form reached through nested lists is a macro call. -/
def Settled (out : Sexp) : Prop := ∀ sub, Within sub out → sub.asCallToAny get = none

/-- The applications of macros at the top of a form end in a symbol. -/
inductive EndsIn (name : String) : Nat → Sexp → σ → Prop
  | symbol {n : Nat} {s : σ} : EndsIn name n (.atom (.symbol name)) s
  | applied {n : Nat} {f x : Sexp} {defn : MacroDef} {args : List Sexp} {s s' : σ} :
      f.asCallToAny get = some (defn, args) → apply defn args s = (.ok x, s') →
      ¬ limits.maxExpansionSize < x.nodeCount → EndsIn name n x s' → EndsIn name (n + 1) f s

/-- Expansion comes to a list that is no macro call, and at its head the applications of macros end
in the name of one. -/
inductive Hides : Nat → Sexp → σ → Prop
  | head {n : Nat} {first : Sexp} {rest : List Sexp} {s : σ} {name : String} :
      Sexp.asCallToAny get (.list (first :: rest)) = none →
      EndsIn limits get apply name n first s → (get name).isSome →
      Hides n (.list (first :: rest)) s
  | applied {n : Nat} {f x : Sexp} {defn : MacroDef} {args : List Sexp} {s s' : σ} :
      f.asCallToAny get = some (defn, args) → apply defn args s = (.ok x, s') →
      ¬ limits.maxExpansionSize < x.nodeCount → Hides n x s' → Hides (n + 1) f s
  | item {n : Nat} {front back outs : List Sexp} {x : Sexp} {s s' : σ} :
      Sexp.asCallToAny get (.list (front ++ x :: back)) = none →
      expandItems limits (Sexp.asCallToAny get) apply n front s = (.ok outs, s') →
      Hides n x s' → Hides n (.list (front ++ x :: back)) s

variable {limits get apply}

/-- A settled list is no call, and its items are settled. -/
theorem settled_list {items : List Sexp} :
    Settled get (.list items) ↔
      Sexp.asCallToAny get (.list items) = none ∧ ∀ item ∈ items, Settled get item := by
  -- What lies inside a list is the list or lies inside an item.
  constructor
  · intro settled
    exact ⟨settled _ .self, fun item member sub inside => settled sub (.item member inside)⟩
  · intro parts sub inside
    obtain ⟨notCall, each⟩ := parts
    cases inside with
    | self => exact notCall
    | item member inside => exact each _ member sub inside

/-- A form that is neither a call nor a list is settled. -/
theorem settled_other {f : Sexp} (notCall : f.asCallToAny get = none)
    (notList : ∀ items, f ≠ .list items) : Settled get f := by
  -- Nothing else lies inside it.
  intro sub inside
  cases inside with
  | self => exact notCall
  | item => exact absurd rfl (notList _)

/-- A form that is no list is no call. -/
theorem asCallToAny_of_not_list {f : Sexp} (notList : ∀ items, f ≠ .list items) :
    f.asCallToAny get = none := by
  -- Only lists are calls.
  cases f with
  | list items => exact absurd rfl (notList items)
  | _ => rfl

/-- A list is a call exactly when its first item is the name of a macro. -/
theorem asCallToAny_list_eq_none {items : List Sexp} :
    Sexp.asCallToAny get (.list items) = none ↔
      ∀ name rest, items = .atom (.symbol name) :: rest → get name = none := by
  -- Any other first item makes no call.
  constructor
  · intro notCall name rest same
    obtain rfl := same
    simpa [Sexp.asCallToAny, Sexp.asCall] using notCall
  · intro unknown
    cases items with
    | nil => rfl
    | cons first rest =>
      cases first with
      | atom value =>
        cases value with
        | symbol name => simp [Sexp.asCallToAny, Sexp.asCall, unknown name rest rfl]
        | _ => rfl
      | _ => rfl

/-- Applications go on from what the first one produced. -/
theorem endsIn_call {n : Nat} {f x : Sexp} {defn : MacroDef} {args : List Sexp} {s s' : σ}
    {name : String} (found : f.asCallToAny get = some (defn, args))
    (result : apply defn args s = (.ok x, s')) (small : ¬ limits.maxExpansionSize < x.nodeCount) :
    EndsIn limits get apply name (n + 1) f s ↔ EndsIn limits get apply name n x s' := by
  -- The call and its result are determined.
  constructor
  · intro ends
    cases ends with
    | symbol => simp [Sexp.asCallToAny, Sexp.asCall] at found
    | applied found' result' _ inner =>
      cases found.symm.trans found'
      cases result.symm.trans result'
      exact inner
  · exact .applied found result small

/-- Without an application the form must be the symbol itself. -/
theorem endsIn_other {n : Nat} {f : Sexp} {s : σ} {name : String}
    (notCall : f.asCallToAny get = none) :
    EndsIn limits get apply name n f s ↔ f = .atom (.symbol name) := by
  -- There is no call to apply.
  constructor
  · intro ends
    cases ends with
    | symbol => rfl
    | applied found => rw [notCall] at found; cases found
  · intro same
    obtain rfl := same
    exact .symbol

/-- What is hidden behind a call is hidden in what it produced. -/
theorem hides_call {n : Nat} {f x : Sexp} {defn : MacroDef} {args : List Sexp} {s s' : σ}
    (found : f.asCallToAny get = some (defn, args)) (result : apply defn args s = (.ok x, s'))
    (small : ¬ limits.maxExpansionSize < x.nodeCount) :
    Hides limits get apply (n + 1) f s ↔ Hides limits get apply n x s' := by
  -- The call and its result are determined.
  constructor
  · intro hides
    cases hides with
    | head notCall => rw [notCall] at found; cases found
    | item notCall => rw [notCall] at found; cases found
    | applied found' result' _ inner =>
      cases found.symm.trans found'
      cases result.symm.trans result'
      exact inner
  · exact .applied found result small

/-- In a list that is no call, a call is hidden at its head or in one of its items. -/
theorem hides_list {n : Nat} {items : List Sexp} {s : σ}
    (notCall : Sexp.asCallToAny get (.list items) = none) :
    Hides limits get apply n (.list items) s ↔
      (∃ first rest name, items = first :: rest ∧ EndsIn limits get apply name n first s ∧
        (get name).isSome) ∨
      ∃ front x back outs s', items = front ++ x :: back ∧
        expandItems limits (Sexp.asCallToAny get) apply n front s = (.ok outs, s') ∧
        Hides limits get apply n x s' := by
  -- The list itself is no call, so nothing is hidden behind its application.
  constructor
  · intro hides
    generalize same : Sexp.list items = f at hides
    cases hides with
    | head _ ends known => cases same; exact .inl ⟨_, _, _, rfl, ends, known⟩
    | applied found => rw [← same, notCall] at found; cases found
    | item _ expanded inner => cases same; exact .inr ⟨_, _, _, _, _, rfl, expanded, inner⟩
  · rintro (⟨first, rest, name, rfl, ends, known⟩ |
      ⟨front, x, back, outs, s', rfl, expanded, inner⟩)
    · exact .head notCall ends known
    · exact .item notCall expanded inner

/-- Nothing is hidden in a form that is neither a call nor a list. -/
theorem not_hides_other {n : Nat} {f : Sexp} {s : σ} (notList : ∀ items, f ≠ .list items) :
    ¬ Hides limits get apply n f s := by
  -- Both other kinds of hiding start from a list.
  intro hides
  cases hides with
  | head => exact absurd rfl (notList _)
  | item => exact absurd rfl (notList _)
  | applied found => rw [asCallToAny_of_not_list notList] at found; cases found

/-- Among items one hides a call if the first one does, or one of those behind it. -/
theorem exists_hides_cons_iff {n : Nat} {x y : Sexp} {xs : List Sexp} {s s₁ : σ}
    (first : expandRounds limits (Sexp.asCallToAny get) apply n x s = (.ok y, s₁)) :
    (∃ front z back outs s', x :: xs = front ++ z :: back ∧
        expandItems limits (Sexp.asCallToAny get) apply n front s = (.ok outs, s') ∧
        Hides limits get apply n z s') ↔
      Hides limits get apply n x s ∨ ∃ front z back outs s', xs = front ++ z :: back ∧
        expandItems limits (Sexp.asCallToAny get) apply n front s₁ = (.ok outs, s') ∧
        Hides limits get apply n z s' := by
  -- The items in front are none, or they start with the first one.
  constructor
  · rintro ⟨front, z, back, outs, s', split, prior, hides⟩
    cases front with
    | nil =>
      simp only [expandItems_nil, Prod.mk.injEq, Except.ok.injEq] at prior
      obtain ⟨-, rfl⟩ := prior
      cases split
      exact .inl hides
    | cons w front =>
      cases split
      rw [expandItems_cons, first] at prior
      simp only at prior
      split at prior
      · cases prior
      · rename_i prior'
        cases prior
        exact .inr ⟨front, z, back, _, _, rfl, prior', hides⟩
  · rintro (hides | ⟨front, z, back, outs, s', rfl, prior, hides⟩)
    · exact ⟨[], x, xs, [], s, rfl, by simp, hides⟩
    · refine ⟨x :: front, z, back, y :: outs, s', rfl, ?_, hides⟩
      rw [expandItems_cons, first]
      simp only [prior]

/-- The items of a list expand to settled items exactly when none of them hides a call, and they
start with a symbol exactly when the first one ends in it. -/
theorem expandItems_settled {n : Nat} {items : List Sexp}
    (each : ∀ item ∈ items, ∀ s out s',
      expandRounds limits (Sexp.asCallToAny get) apply n item s = (.ok out, s') →
      (Settled get out ↔ ¬ Hides limits get apply n item s) ∧
        ∀ name, out = .atom (.symbol name) ↔ EndsIn limits get apply name n item s)
    {s s' : σ} {outs : List Sexp}
    (expanded : expandItems limits (Sexp.asCallToAny get) apply n items s = (.ok outs, s')) :
    ((∀ out ∈ outs, Settled get out) ↔
      ¬ ∃ front x back outs s', items = front ++ x :: back ∧
        expandItems limits (Sexp.asCallToAny get) apply n front s = (.ok outs, s') ∧
        Hides limits get apply n x s') ∧
      ∀ name, (∃ rest, outs = .atom (.symbol name) :: rest) ↔
        ∃ first rest, items = first :: rest ∧ EndsIn limits get apply name n first s := by
  induction items generalizing s outs with
  | nil =>
    simp only [expandItems_nil, Prod.mk.injEq, Except.ok.injEq] at expanded
    obtain ⟨rfl, rfl⟩ := expanded
    simp
  | cons x xs ih =>
    -- The first item is expanded in the given state, and the others in the state it leaves.
    rw [expandItems_cons] at expanded
    cases first : expandRounds limits (Sexp.asCallToAny get) apply n x s with
    | mk outcome s₁ =>
      rw [first] at expanded
      cases outcome with
      | error halt => cases expanded
      | ok y =>
        simp only at expanded
        cases others : expandItems limits (Sexp.asCallToAny get) apply n xs s₁ with
        | mk outcome s₂ =>
          rw [others] at expanded
          cases outcome with
          | error halt => cases expanded
          | ok ys =>
            simp only [Prod.mk.injEq, Except.ok.injEq] at expanded
            obtain ⟨rfl, rfl⟩ := expanded
            obtain ⟨settledHead, symbolHead⟩ := each x (by simp) s y s₁ first
            obtain ⟨settledRest, -⟩ :=
              ih (fun item member => each item (by simp [member])) others
            constructor
            · rw [List.forall_mem_cons, settledHead, settledRest, ← not_or,
                exists_hides_cons_iff first]
            · intro name
              simp only [List.cons.injEq]
              constructor
              · intro parts
                obtain ⟨rest, symbol, -⟩ := parts
                exact ⟨x, xs, ⟨rfl, rfl⟩, (symbolHead name).mp symbol⟩
              · intro parts
                obtain ⟨first', rest, ⟨rfl, rfl⟩, ends⟩ := parts
                exact ⟨ys, (symbolHead name).mpr ends, rfl⟩

/-- An expansion is settled exactly when it hides no call, and it is a symbol exactly when the
applications at its top end in that symbol. -/
theorem expandRounds_settled (n : Nat) (f : Sexp) : ∀ s out s',
    expandRounds limits (Sexp.asCallToAny get) apply n f s = (.ok out, s') →
    (Settled get out ↔ ¬ Hides limits get apply n f s) ∧
      ∀ name, out = .atom (.symbol name) ↔ EndsIn limits get apply name n f s := by
  induction n, f using expandInduction with
  | step n f ih each =>
    intro s out s' expanded
    cases found : f.asCallToAny get with
    | some query =>
      obtain ⟨defn, args⟩ := query
      rw [expandRounds_call found] at expanded
      cases n with
      | zero => cases expanded
      | succ n =>
        -- The output is that of what the macro produced.
        rw [applyRound_succ] at expanded
        split at expanded
        · cases expanded
        · rename_i x s₁ result
          split at expanded
          · cases expanded
          · rename_i small
            have inner := ih n (by omega) x s₁ out s' expanded
            rw [hides_call found result small]
            exact ⟨inner.1, fun name => by rw [endsIn_call found result small]; exact inner.2 name⟩
    | none =>
      cases f with
      | list items =>
        rw [expandRounds_list found] at expanded
        split at expanded
        · cases expanded
        · rename_i outs s₁ inside
          cases expanded
          obtain ⟨settled, symbol⟩ := expandItems_settled (each items rfl) inside
          refine ⟨?_, fun name => by rw [endsIn_other found]; simp⟩
          -- The rebuilt list is a call exactly when its first item has become a macro's name.
          rw [settled_list, settled, hides_list found, not_or, asCallToAny_list_eq_none]
          refine and_congr_left fun _ => ?_
          constructor
          · intro unknown parts
            obtain ⟨first, rest, name, same, ends, known⟩ := parts
            obtain ⟨others, outs_eq⟩ := (symbol name).mpr ⟨first, rest, same, ends⟩
            rw [unknown name others outs_eq] at known
            cases known
          · intro none name rest outs_eq
            obtain ⟨first, others, same, ends⟩ := (symbol name).mp ⟨rest, outs_eq⟩
            rw [← Option.not_isSome_iff_eq_none]
            exact fun known => none ⟨first, others, name, same, ends, known⟩
      | _ =>
        rw [expandRounds_other found (by simp)] at expanded
        cases expanded
        exact ⟨iff_of_true (settled_other found (by simp)) (not_hides_other (by simp)),
          fun name => (endsIn_other found).symm⟩

/-- A settled form is expanded to itself. -/
theorem expandRounds_of_settled {f : Sexp} (settled : Settled get f) (n : Nat) (s : σ) :
    expandRounds limits (Sexp.asCallToAny get) apply n f s = (.ok f, s) := by
  -- No macro is applied anywhere.
  induction f using Sexp.listInduction generalizing s with
  | step f each =>
    have notCall := settled f .self
    cases f with
    | list items =>
      have inside : ∀ xs ⊆ items, ∀ s,
          expandItems limits (Sexp.asCallToAny get) apply n xs s = (.ok xs, s) := by
        intro xs
        induction xs with
        | nil => simp
        | cons x xs ih =>
          intro sub s
          have first := each items rfl x (sub (by simp))
            ((settled_list.mp settled).2 x (sub (by simp))) s
          rw [expandItems_cons, first]
          simp only [ih (fun y member => sub (by simp [member])) s]
      rw [expandRounds_list notCall, inside items (fun _ => id)]
    | _ => exact expandRounds_other notCall (by simp)

end expansion

namespace Expander

variable [CharTable] [ArgsHasher]

/-- While the form is expanded, the head of a list that is no macro call becomes a macro's name. -/
def HidesCall (e : Expander) (form : Sexp) : Prop :=
  Hides e.limits e.macros.get e.apply e.limits.maxExpansionDepth form e.cache

/-- An expansion leaves no macro call, and is expanded to itself, exactly when no list that is not
yet a call gets the name of a macro at its head. -/
theorem expand_settled_iff (e e' : Expander) (form out : Sexp)
    (expanded : e.expand form = (.ok out, e')) :
    (Settled e'.macros.get out ∧ (e'.expand out).1 = .ok out) ↔ ¬ e.HidesCall form := by
  -- Expansion changes the cache only, so the output is read under the same macros.
  simp only [expand, expandWithDepth, Prod.mk.injEq] at expanded
  obtain ⟨result, rfl⟩ := expanded
  have settled := (@expandRounds_settled _ e.limits e.macros.get e.apply
    e.limits.maxExpansionDepth form e.cache out _ (Prod.ext result rfl)).1
  rw [HidesCall, ← settled]
  constructor
  · exact And.left
  · intro settled
    refine ⟨settled, ?_⟩
    -- Nothing is left to apply, whatever the cache holds by now.
    simp only [expand, expandWithDepth]
    exact congrArg Prod.fst (expandRounds_of_settled settled _ _)

end Expander

/-- Definitions of a macro that wraps its argument and of one whose output is the name of the
first. -/
def namingMacros : List Sexp :=
  [.list [.atom (.symbol "defmacro"), .atom (.symbol "m"), .list [.atom (.symbol "x")],
      .quasiquote (.list [.atom (.symbol "list"), .unquote (.atom (.symbol "x"))])],
    .list [.atom (.symbol "defmacro"), .atom (.symbol "h"), .list [], .atom (.symbol "m")]]

/-- The expander that has these macros registered. -/
def namingExpander : Expander :=
  (@Expander.expandProgram asciiTable sizeHasher .new namingMacros).2

/-- A call inside the argument of another call. -/
def nestedCall : Sexp :=
  .list [.atom (.symbol "m"), .list [.atom (.symbol "m"), .atom (.int 1)]]

/-- A list whose head is a call that gives the name of a macro. -/
def computedHead : Sexp := .list [.list [.atom (.symbol "h")], .atom (.int 1)]

/-- What nested calls expand to. -/
def nestedOutput : Sexp :=
  .list [.atom (.symbol "list"), .list [.atom (.symbol "list"), .atom (.int 1)]]

open Expander in
/-- Of nested calls none is left exactly when none is hidden. -/
theorem expand_settled_nestedCall :
    (Settled (@expand asciiTable sizeHasher namingExpander nestedCall).2.macros.get nestedOutput ∧
        (@expand asciiTable sizeHasher (@expand asciiTable sizeHasher namingExpander nestedCall).2
          nestedOutput).1 = .ok nestedOutput) ↔
      ¬ @HidesCall asciiTable sizeHasher namingExpander nestedCall :=
  @expand_settled_iff asciiTable sizeHasher namingExpander _ nestedCall nestedOutput
    (Prod.ext (by decide +kernel) rfl)

open Expander in
/-- The head of a list expands to the name of a macro, and the list is not looked at again, so its
output is a macro call. -/
theorem expand_not_settled_computedHead :
    ¬ ∀ (e e' : Expander) (form out : Sexp),
      @expand asciiTable sizeHasher e form = (.ok out, e') →
      Settled e'.macros.get out ∧ (@expand asciiTable sizeHasher e' out).1 = .ok out := by
  -- The output is a call of the first macro with one argument.
  intro allExpanded
  have left := allExpanded namingExpander _ computedHead
    (.list [.atom (.symbol "m"), .atom (.int 1)]) (Prod.ext (by decide +kernel) rfl)
  exact absurd left.2 (by decide +kernel)

end Tatara.Lisp
