import Tatara.Lisp.Expander

/-! Rules for reasoning about expansion, whatever state its applications of macros share. -/

namespace Tatara.Lisp

/-- A macro with the arguments it is called with. -/
abbrev MacroCall := MacroDef × List Sexp

/-- Expansion descends into the items of a list with the same rounds, and into what a macro
produced with fewer. -/
theorem expandInduction {motive : Nat → Sexp → Prop}
    (step : ∀ rounds form, (∀ fewer < rounds, ∀ other, motive fewer other) →
      (∀ items, form = .list items → ∀ item ∈ items, motive rounds item) → motive rounds form) :
    ∀ rounds form, motive rounds form := by
  -- The rounds come first, and the form counts only among equal rounds.
  intro rounds
  induction rounds using Nat.strongRecOn with
  | ind rounds ih =>
    intro form
    induction form using Sexp.listInduction with
    | step form each => exact step rounds form ih each

section equations

variable {σ : Type} {limits : ResourceLimits} {call : Sexp → Option MacroCall}
  {apply : MacroDef → List Sexp → σ → Except Halt Sexp × σ} {rounds : Nat} {s : σ}

/-- A macro call is applied. -/
theorem expandRounds_call {form : Sexp} {defn : MacroDef} {args : List Sexp}
    (found : call form = some (defn, args)) :
    expandRounds limits call apply rounds form s =
      applyRound limits call apply rounds defn args s := by
  -- The call is recognised before anything else is looked at.
  rw [expandRounds, expandPass.eq_def, found]

/-- A list that is no macro call is rebuilt from its expanded items. -/
theorem expandRounds_list {items : List Sexp} (other : call (.list items) = none) :
    expandRounds limits call apply rounds (.list items) s =
      match expandItems limits call apply rounds items s with
      | (.error halt, s) => (.error halt, s)
      | (.ok out, s) => (.ok (.list out), s) := by
  -- The items are expanded with the same rounds.
  rw [expandRounds, expandPass.eq_def, other]
  rfl

/-- A form that is neither a macro call nor a list stays as it is. -/
theorem expandRounds_other {form : Sexp} (other : call form = none)
    (notList : ∀ items, form ≠ .list items) :
    expandRounds limits call apply rounds form s = (.ok form, s) := by
  -- Only lists are rebuilt.
  rw [expandRounds, expandPass.eq_def, other]
  cases form with
  | list items => exact absurd rfl (notList items)
  | _ => rfl

/-- Nothing is expanded to nothing. -/
@[simp] theorem expandItems_nil :
    expandItems limits call apply rounds [] s = (.ok [], s) := by
  -- The loop is over.
  rw [expandItems, expandPassItems.eq_def]

/-- The items are expanded from the left, up to the first failure. -/
theorem expandItems_cons (x : Sexp) (xs : List Sexp) :
    expandItems limits call apply rounds (x :: xs) s =
      match expandRounds limits call apply rounds x s with
      | (.error halt, s) => (.error halt, s)
      | (.ok y, s) =>
        match expandItems limits call apply rounds xs s with
        | (.error halt, s) => (.error halt, s)
        | (.ok ys, s) => (.ok (y :: ys), s) := by
  -- The first item goes first.
  rw [expandItems, expandPassItems.eq_def]
  rfl

/-- With no rounds left a macro call is refused. -/
@[simp] theorem applyRound_zero (defn : MacroDef) (args : List Sexp) :
    applyRound limits call apply 0 defn args s =
      (.error (.error (.expansionDepthExceeded defn.name limits.maxExpansionDepth)), s) := rfl

/-- A round applies the macro and expands what it produced, unless that is too large. -/
theorem applyRound_succ (defn : MacroDef) (args : List Sexp) :
    applyRound limits call apply (rounds + 1) defn args s =
      match apply defn args s with
      | (.error halt, s) => (.error halt, s)
      | (.ok expanded, s) =>
        if limits.maxExpansionSize < expanded.nodeCount then
          (.error (.error (.expansionSizeExceeded defn.name expanded.nodeCount
            limits.maxExpansionSize)), s)
        else expandRounds limits call apply rounds expanded s := rfl

end equations

section rules

variable {σ : Type} {limits : ResourceLimits} {call : Sexp → Option MacroCall}
  {apply : MacroDef → List Sexp → σ → Except Halt Sexp × σ}
  {form : Nat → Sexp → σ → Except Halt Sexp → σ → Prop}
  {many : Nat → List Sexp → σ → Except Halt (List Sexp) → σ → Prop}

/-- What holds of the items of a list, from what holds of each of them. -/
theorem expandItems_rule {rounds : Nat}
    (nil : ∀ s, many rounds [] s (.ok []) s)
    (halts : ∀ {x xs s halt s'}, form rounds x s (.error halt) s' →
      many rounds (x :: xs) s (.error halt) s')
    (cons : ∀ {x xs s y s' r s''}, form rounds x s (.ok y) s' → many rounds xs s' r s'' →
      many rounds (x :: xs) s (r.map (y :: ·)) s'') {items : List Sexp}
    (each : ∀ item ∈ items, ∀ s, form rounds item s
      (expandRounds limits call apply rounds item s).1
      (expandRounds limits call apply rounds item s).2) (s : σ) :
    many rounds items s (expandItems limits call apply rounds items s).1
      (expandItems limits call apply rounds items s).2 := by
  -- The loop stops at the first item that fails.
  induction items generalizing s with
  | nil => simpa using nil s
  | cons x xs ih =>
    have first := each x (by simp) s
    rw [expandItems_cons]
    cases result : expandRounds limits call apply rounds x s with
    | mk outcome s' =>
      rw [result] at first
      cases outcome with
      | error halt => exact halts first
      | ok y =>
        have rest := cons first (ih (fun item member => each item (by simp [member])) s')
        simp only
        split <;> rename_i others <;> rw [others] at rest <;> exact rest

/-- What holds of an expansion, from what holds of each way it can go. -/
theorem expandRounds_rule
    (depth : ∀ {f defn args s}, call f = some (defn, args) → form 0 f s
      (.error (.error (.expansionDepthExceeded defn.name limits.maxExpansionDepth))) s)
    (failed : ∀ {n f defn args s halt s'}, call f = some (defn, args) →
      apply defn args s = (.error halt, s') → form (n + 1) f s (.error halt) s')
    (tooLarge : ∀ {n f defn args s x s'}, call f = some (defn, args) →
      apply defn args s = (.ok x, s') → limits.maxExpansionSize < x.nodeCount →
      form (n + 1) f s (.error (.error (.expansionSizeExceeded defn.name x.nodeCount
        limits.maxExpansionSize))) s')
    (applied : ∀ {n f defn args s x s' r s''}, call f = some (defn, args) →
      apply defn args s = (.ok x, s') → ¬ limits.maxExpansionSize < x.nodeCount →
      form n x s' r s'' → form (n + 1) f s r s'')
    (list : ∀ {n items s r s'}, call (.list items) = none → many n items s r s' →
      form n (.list items) s (r.map .list) s')
    (other : ∀ {n f s}, call f = none → (∀ items, f ≠ .list items) → form n f s (.ok f) s)
    (nil : ∀ {n} s, many n [] s (.ok []) s)
    (halts : ∀ {n x xs s halt s'}, form n x s (.error halt) s' →
      many n (x :: xs) s (.error halt) s')
    (cons : ∀ {n x xs s y s' r s''}, form n x s (.ok y) s' → many n xs s' r s'' →
      many n (x :: xs) s (r.map (y :: ·)) s'') :
    ∀ n f s, form n f s (expandRounds limits call apply n f s).1
      (expandRounds limits call apply n f s).2 := by
  intro n f
  induction n, f using expandInduction with
  | step n f ih each =>
    intro s
    cases found : call f with
    | some query =>
      obtain ⟨defn, args⟩ := query
      rw [expandRounds_call found]
      cases n with
      | zero => exact depth found
      | succ n =>
        -- The application comes first, and what it produced is expanded with a round less.
        rw [applyRound_succ]
        cases result : apply defn args s with
        | mk outcome s' =>
          cases outcome with
          | error halt => exact failed found result
          | ok x =>
            simp only
            split
            · rename_i large
              exact tooLarge found result large
            · rename_i small
              exact applied found result small (ih n (by omega) x s')
    | none =>
      cases f with
      | list items =>
        have inside := list found (expandItems_rule nil halts cons (each items rfl) s)
        rw [expandRounds_list found]
        split <;> rename_i result <;> rw [result] at inside <;> exact inside
      | _ =>
        rw [expandRounds_other found (by simp)]
        exact other found (by simp)

/-- What relates the states around every application relates the states around an expansion. -/
theorem expandRounds_preserves {P : σ → σ → Prop} (refl : ∀ s, P s s)
    (trans : ∀ {a b c}, P a b → P b c → P a c)
    (step : ∀ {f defn args} s, call f = some (defn, args) → P s (apply defn args s).2)
    (n : Nat) (f : Sexp) (s : σ) :
    P s (expandRounds limits call apply n f s).2 := by
  -- Expansion changes the state through applications only.
  have after : ∀ {f defn args s r s'}, call f = some (defn, args) →
      apply defn args s = (r, s') → P s s' := by
    intro f defn args s r s' found result
    have related := step s found
    rw [result] at related
    exact related
  refine @expandRounds_rule σ limits call apply (fun _ _ s _ s' => P s s')
    (fun _ _ s _ s' => P s s') ?_ ?_ ?_ ?_ ?_ ?_ ?_ ?_ ?_ n f s
  · exact fun _ => refl _
  · exact fun found result => after found result
  · exact fun found result _ => after found result
  · exact fun found result _ inner => trans (after found result) inner
  · exact fun _ inner => inner
  · exact fun _ _ => refl _
  · exact fun s => refl s
  · exact fun first => first
  · exact fun first rest => trans first rest

/-- What relates the states around every application relates the states around a list of forms. -/
theorem expandItems_preserves {P : σ → σ → Prop} (refl : ∀ s, P s s)
    (trans : ∀ {a b c}, P a b → P b c → P a c)
    (step : ∀ {f defn args} s, call f = some (defn, args) → P s (apply defn args s).2)
    (n : Nat) (items : List Sexp) (s : σ) :
    P s (expandItems limits call apply n items s).2 := by
  -- Each item keeps the relation.
  refine @expandItems_rule σ limits call apply (fun _ _ s _ s' => P s s')
    (fun _ _ s _ s' => P s s') n ?_ ?_ ?_ items ?_ s
  · exact fun s => refl s
  · exact fun first => first
  · exact fun first rest => trans first rest
  · exact fun item _ s => expandRounds_preserves refl trans step n item s

end rules

section simulation

variable {σ τ : Type} {limits : ResourceLimits} {call : Sexp → Option MacroCall}
  {apply : MacroDef → List Sexp → σ → Except Halt Sexp × σ}
  {apply' : MacroDef → List Sexp → τ → Except Halt Sexp × τ}

/-- Applications that are also recorded, in order. -/
def traced (apply : MacroDef → List Sexp → σ → Except Halt Sexp × σ) (defn : MacroDef)
    (args : List Sexp) (s : σ × List MacroCall) : Except Halt Sexp × (σ × List MacroCall) :=
  ((apply defn args s.1).1, ((apply defn args s.1).2, s.2 ++ [(defn, args)]))

/-- The record only grows. -/
theorem traced_log (n : Nat) (f : Sexp) (s : σ × List MacroCall) :
    s.2 ⊆ (expandRounds limits call (traced apply) n f s).2.2 := by
  -- Every application adds one call at the end.
  refine expandRounds_preserves (P := fun s s' : σ × List MacroCall => s.2 ⊆ s'.2) ?_ ?_ ?_ n f s
  · exact fun s => List.Subset.refl s.2
  · exact fun first second => List.Subset.trans first second
  · intro f defn args s _
    simp [traced]

/-- The record only grows over a list of forms. -/
theorem traced_log_items (n : Nat) (items : List Sexp) (s : σ × List MacroCall) :
    s.2 ⊆ (expandItems limits call (traced apply) n items s).2.2 := by
  -- Every application adds one call at the end.
  refine expandItems_preserves (P := fun s s' : σ × List MacroCall => s.2 ⊆ s'.2) ?_ ?_ ?_ n items s
  · exact fun s => List.Subset.refl s.2
  · exact fun first second => List.Subset.trans first second
  · intro f defn args s _
    simp [traced]

/-- What is recorded for the first form is recorded for the list. -/
theorem traced_head_items (n : Nat) (x : Sexp) (xs : List Sexp) (s : σ × List MacroCall) :
    (expandRounds limits call (traced apply) n x s).2.2 ⊆
      (expandItems limits call (traced apply) n (x :: xs) s).2.2 := by
  -- The other forms only add to the record.
  rw [expandItems_cons]
  cases expandRounds limits call (traced apply) n x s with
  | mk outcome s' =>
    cases outcome with
    | error halt => exact List.Subset.refl _
    | ok y =>
      have grows := @traced_log_items σ limits call apply n xs s'
      simp only
      split <;> rename_i result <;> rw [result] at grows <;> exact grows

/-- A call that is applied is recorded. -/
theorem mem_traced {n : Nat} {f : Sexp} {defn : MacroDef} {args : List Sexp}
    (found : call f = some (defn, args)) (s : σ × List MacroCall) :
    (defn, args) ∈ (expandRounds limits call (traced apply) (n + 1) f s).2.2 := by
  -- It is recorded by the application, and the record only grows from there.
  rw [expandRounds_call found, applyRound_succ]
  simp only [traced]
  split
  · rename_i same
    obtain ⟨-, rfl⟩ := Prod.mk.inj same
    simp
  · rename_i same
    obtain ⟨-, rfl⟩ := Prod.mk.inj same
    split
    · simp
    · exact traced_log _ _ _ (by simp)

/-- Every recorded call was recognised as one. -/
theorem call_of_traced {n : Nat} {f : Sexp} {s : σ} {query : MacroCall}
    (member : query ∈ (expandRounds limits call (traced apply) n f (s, [])).2.2) :
    ∃ f, call f = some query := by
  -- The record starts empty, and only recognised calls are added to it.
  have origin := @expandRounds_preserves _ limits call (traced apply)
    (fun s s' => ∀ query ∈ s'.2, query ∈ s.2 ∨ ∃ f, call f = some query) ?_ ?_ ?_ n f (s, [])
  · simpa using origin query member
  · exact fun s query member => .inl member
  · intro a b c first second query member
    rcases second query member with member | found
    · exact first query member
    · exact .inr found
  · intro f defn args s found query member
    simp only [traced, List.mem_append, List.mem_singleton] at member
    rcases member with member | rfl
    · exact .inl member
    · exact .inr ⟨f, found⟩

/-- Two expansions that apply the recorded calls alike agree in result and stay related. -/
theorem expandRounds_simulates {R : σ → τ → Prop} {known : MacroCall → Prop}
    (step : ∀ {defn args s t}, known (defn, args) → R s t →
      (apply defn args s).1 = (apply' defn args t).1 ∧
        R (apply defn args s).2 (apply' defn args t).2)
    (n : Nat) (f : Sexp) (s : σ) (t : τ × List MacroCall) (related : R s t.1)
    (covered : ∀ query ∈ (expandRounds limits call (traced apply') n f t).2.2, known query) :
    (expandRounds limits call apply n f s).1 =
        (expandRounds limits call (traced apply') n f t).1 ∧
      R (expandRounds limits call apply n f s).2
        (expandRounds limits call (traced apply') n f t).2.1 := by
  -- The first expansion is followed case by case, and the second takes the same way.
  refine @expandRounds_rule σ limits call apply
    (fun n f s r s' => ∀ t : τ × List MacroCall, R s t.1 →
      (∀ query ∈ (expandRounds limits call (traced apply') n f t).2.2, known query) →
      r = (expandRounds limits call (traced apply') n f t).1 ∧
        R s' (expandRounds limits call (traced apply') n f t).2.1)
    (fun n items s r s' => ∀ t : τ × List MacroCall, R s t.1 →
      (∀ query ∈ (expandItems limits call (traced apply') n items t).2.2, known query) →
      r = (expandItems limits call (traced apply') n items t).1 ∧
        R s' (expandItems limits call (traced apply') n items t).2.1)
    ?_ ?_ ?_ ?_ ?_ ?_ ?_ ?_ ?_ n f s t related covered
  · intro f defn args s found t related _
    rw [expandRounds_call found]
    exact ⟨rfl, related⟩
  · intro n f defn args s halt s' found result t related covered
    obtain ⟨same, after⟩ := step (covered _ (mem_traced found t)) related
    rw [result] at same after
    rw [expandRounds_call found, applyRound_succ]
    simp only [traced, ← same]
    exact ⟨trivial, after⟩
  · intro n f defn args s x s' found result large t related covered
    obtain ⟨same, after⟩ := step (covered _ (mem_traced found t)) related
    rw [result] at same after
    rw [expandRounds_call found, applyRound_succ]
    simp only [traced, ← same, if_pos large]
    exact ⟨trivial, after⟩
  · intro n f defn args s x s' r s'' found result small inner t related covered
    obtain ⟨same, after⟩ := step (covered _ (mem_traced found t)) related
    rw [result] at same after
    rw [expandRounds_call found, applyRound_succ] at covered ⊢
    simp only [traced, ← same, if_neg small] at covered ⊢
    exact inner _ after covered
  · intro n items s r s' none inner t related covered
    rw [expandRounds_list none] at covered ⊢
    cases result : expandItems limits call (traced apply') n items t with
    | mk outcome t' =>
      rw [result] at covered
      have agree := inner t related (by rw [result]; cases outcome <;> exact covered)
      rw [result] at agree
      obtain ⟨rfl, after⟩ := agree
      cases r <;> exact ⟨rfl, after⟩
  · intro n f s none notList t related _
    rw [expandRounds_other none notList]
    exact ⟨rfl, related⟩
  · intro n s t related _
    simpa using related
  · intro n x xs s halt s' first t related covered
    have agree := first t related fun query member => covered _ (traced_head_items n x xs t member)
    rw [expandItems_cons]
    cases result : expandRounds limits call (traced apply') n x t with
    | mk outcome t' =>
      rw [result] at agree
      obtain ⟨rfl, after⟩ := agree
      exact ⟨rfl, after⟩
  · intro n x xs s y s' r s'' first rest t related covered
    have agree := first t related fun query member => covered _ (traced_head_items n x xs t member)
    rw [expandItems_cons] at covered ⊢
    cases result : expandRounds limits call (traced apply') n x t with
    | mk outcome t' =>
      rw [result] at agree covered
      obtain ⟨rfl, after⟩ := agree
      simp only at covered ⊢
      cases others : expandItems limits call (traced apply') n xs t' with
      | mk outcome t'' =>
        rw [others] at covered
        have agree' := rest t' after (by rw [others]; cases outcome <;> exact covered)
        rw [others] at agree'
        obtain ⟨rfl, final⟩ := agree'
        cases r <;> exact ⟨rfl, final⟩

end simulation

end Tatara.Lisp
