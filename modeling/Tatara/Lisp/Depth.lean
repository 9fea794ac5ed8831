import Tatara.Lisp.Expansion

/-! Expansion ends, and no chain of expansions applies more macros than the depth limit allows. -/

namespace Tatara.Lisp

open Tatara.Rust

/-- A call of `expand_with_depth`, with the cache as it finds it. -/
structure Activation where
  form : Sexp
  depth : Nat
  cache : Cache

namespace Expander

/-- The loop over the items of a list, each of which is handed over at one depth, up to the first
failure. -/
def expandAll (recur : Sexp → Nat → Cache → Except Halt Sexp × Cache) (depth : Nat) :
    List Sexp → Cache → Except Halt (List Sexp) × Cache
  | [], cache => (.ok [], cache)
  | item :: rest, cache =>
    match recur item depth cache with
    | (.error halt, cache) => (.error halt, cache)
    | (.ok form, cache) =>
      match expandAll recur depth rest cache with
      | (.error halt, cache) => (.error halt, cache)
      | (.ok forms, cache) => (.ok (form :: forms), cache)

/-- Two functions that agree on the items agree on the loop over them. -/
theorem expandAll_congr {f g : Sexp → Nat → Cache → Except Halt Sexp × Cache} {depth : Nat}
    {items : List Sexp} (agree : ∀ item ∈ items, ∀ cache, f item depth cache = g item depth cache)
    (cache : Cache) : expandAll f depth items cache = expandAll g depth items cache := by
  -- Only the items of the list are expanded, whatever cache the ones before have left.
  induction items generalizing cache with
  | nil => rfl
  | cons item rest ih =>
    have others := ih fun other member => agree other (List.mem_cons_of_mem _ member)
    rw [expandAll, expandAll, agree item List.mem_cons_self]
    simp only [others]

/-- The loop stops at an item that fails. -/
theorem expandAll_error {f : Sexp → Nat → Cache → Except Halt Sexp × Cache} {depth : Nat}
    {front back outs : List Sexp} {item : Sexp} {cache cache' cache'' : Cache} {halt : Halt}
    (before : expandAll f depth front cache = (.ok outs, cache'))
    (fails : f item depth cache' = (.error halt, cache'')) :
    expandAll f depth (front ++ item :: back) cache = (.error halt, cache'') := by
  induction front generalizing cache outs with
  | nil =>
    cases before
    rw [List.nil_append, expandAll, fails]
  | cons first front ih =>
    -- The first item is expanded, and so are the others before the failure.
    rw [expandAll] at before
    rw [List.cons_append, expandAll]
    cases one : f first depth cache with
    | mk outcome middle =>
      rw [one] at before
      cases outcome with
      | error halt => cases before
      | ok form =>
        simp only at before ⊢
        cases rest : expandAll f depth front middle with
        | mk outcome last =>
          rw [rest] at before
          cases outcome with
          | error halt => cases before
          | ok forms =>
            cases before
            rw [ih rest]

variable [CharTable] [ArgsHasher]

/-- The body of `expand_with_depth`, whose recursive calls go to a given function. -/
def expandBody (e : Expander) (recur : Sexp → Nat → Cache → Except Halt Sexp × Cache)
    (form : Sexp) (depth : Nat) (cache : Cache) : Except Halt Sexp × Cache :=
  match e.macroCall form with
  | some (defn, args) =>
    if e.limits.maxExpansionDepth ≤ depth then
      (.error (.error (.expansionDepthExceeded defn.name e.limits.maxExpansionDepth)), cache)
    else
      match e.apply defn args cache with
      | (.error halt, cache) => (.error halt, cache)
      | (.ok expanded, cache) =>
        if e.limits.maxExpansionSize < expanded.nodeCount then
          (.error (.error (.expansionSizeExceeded defn.name expanded.nodeCount
            e.limits.maxExpansionSize)), cache)
        else recur expanded (depth + 1) cache
  | none =>
    match form with
    | .list items =>
      match expandAll recur depth items cache with
      | (.error halt, cache) => (.error halt, cache)
      | (.ok out, cache) => (.ok (.list out), cache)
    | _ => (.ok form, cache)

/-- The first call hands what a macro produced to the second one. -/
def Reexpands (e : Expander) (outer inner : Activation) : Prop :=
  ∃ defn args, e.macroCall outer.form = some (defn, args) ∧
    outer.depth < e.limits.maxExpansionDepth ∧
    e.apply defn args outer.cache = (.ok inner.form, inner.cache) ∧
    ¬ e.limits.maxExpansionSize < inner.form.nodeCount ∧ inner.depth = outer.depth + 1

/-- The first call hands an item to the second one, after those before it have been expanded. -/
def Descends (e : Expander) (outer inner : Activation) : Prop :=
  ∃ front back outs, outer.form = .list (front ++ inner.form :: back) ∧
    e.macroCall outer.form = none ∧
    expandAll e.expandWithDepth outer.depth front outer.cache = (.ok outs, inner.cache) ∧
    inner.depth = outer.depth

/-- The first call makes the second one. -/
def Calls (e : Expander) (outer inner : Activation) : Prop :=
  e.Reexpands outer inner ∨ e.Descends outer inner

/-- A chain of nested calls, with so many applications of macros on its way. -/
inductive Nested (e : Expander) (outer : Activation) : Nat → Activation → Prop
  | here : Nested e outer 0 outer
  | reexpands {n : Nat} {middle inner : Activation} :
      Nested e outer n middle → e.Reexpands middle inner → Nested e outer (n + 1) inner
  | descends {n : Nat} {middle inner : Activation} :
      Nested e outer n middle → e.Descends middle inner → Nested e outer n inner

/-- A call that applies a macro. -/
def Applies (e : Expander) (call : Activation) : Prop :=
  (e.macroCall call.form).isSome ∧ call.depth < e.limits.maxExpansionDepth

variable (e : Expander)

/-- The items of a list are expanded by the loop. -/
theorem expandItems_eq_expandAll (items : List Sexp) (depth : Nat) (cache : Cache) :
    expandItems e.limits e.macroCall e.apply (e.limits.maxExpansionDepth - depth) items cache =
      expandAll e.expandWithDepth depth items cache := by
  induction items generalizing cache with
  | nil => rw [expandItems_nil, expandAll]
  | cons item rest ih =>
    rw [expandItems_cons, expandAll, ← expandWithDepth]
    -- Both loops look at the outcome of the first item, and then at that of the others.
    rcases e.expandWithDepth item depth cache with ⟨halt | form, middle⟩
    · rfl
    · simp only [ih]
      rcases expandAll e.expandWithDepth depth rest middle with ⟨halt | forms, last⟩ <;> rfl

/-- Expansion with a depth is what its body says. -/
theorem expandWithDepth_eq (form : Sexp) (depth : Nat) (cache : Cache) :
    e.expandWithDepth form depth cache = e.expandBody e.expandWithDepth form depth cache := by
  rw [expandBody.eq_def]
  cases found : e.macroCall form with
  | some query =>
    obtain ⟨defn, args⟩ := query
    rw [expandWithDepth, expandRounds_call found]
    -- A depth below the limit leaves one round more than the next depth does.
    by_cases deep : e.limits.maxExpansionDepth ≤ depth
    · simp only [Nat.sub_eq_zero_of_le deep, applyRound_zero, if_pos deep]
    · have rounds : e.limits.maxExpansionDepth - depth =
          e.limits.maxExpansionDepth - (depth + 1) + 1 := by omega
      simp only [rounds, applyRound_succ, if_neg deep]
      rcases e.apply defn args cache with ⟨halt | expanded, middle⟩ <;> rfl
  | none =>
    cases form with
    | list items =>
      rw [expandWithDepth, expandRounds_list found, expandItems_eq_expandAll]
      dsimp only
      rcases expandAll e.expandWithDepth depth items cache with ⟨halt | out, last⟩ <;> rfl
    | _ => exact expandRounds_other found (by simp)

variable {e}

/-- A call that hands a form on is one step deeper, and was within the limit. -/
theorem Reexpands.deeper {outer inner : Activation} (reexpands : e.Reexpands outer inner) :
    outer.depth < inner.depth ∧ inner.depth ≤ e.limits.maxExpansionDepth := by
  obtain ⟨_, _, _, within, _, _, deeper⟩ := reexpands
  omega

/-- A call for an item stays at the depth, with a part of the form. -/
theorem Descends.smaller {outer inner : Activation} (descends : e.Descends outer inner) :
    inner.depth = outer.depth ∧ ∃ items, outer.form = .list items ∧ inner.form ∈ items := by
  obtain ⟨front, back, _, whole, _, _, level⟩ := descends
  exact ⟨level, _, whole, by simp⟩

/-- No call goes on calling for ever. -/
theorem wellFounded_calls (e : Expander) :
    WellFounded fun inner outer => e.Calls outer inner := by
  -- The depth comes first, and the form counts only at one depth.
  have each : ∀ rounds form, ∀ depth cache, e.limits.maxExpansionDepth - depth = rounds →
      Acc (fun inner outer => e.Calls outer inner) ⟨form, depth, cache⟩ := by
    intro rounds form
    induction rounds, form using expandInduction with
    | step rounds form fewer items =>
      intro depth cache left
      refine ⟨_, fun inner calls => ?_⟩
      rcases calls with reexpands | descends
      · have deeper := reexpands.deeper
        exact fewer (e.limits.maxExpansionDepth - inner.depth) (by simp only at deeper; omega)
          inner.form inner.depth inner.cache rfl
      · obtain ⟨level, parts, whole, part⟩ := descends.smaller
        exact items parts whole inner.form part inner.depth inner.cache (by rw [level]; exact left)
  exact ⟨fun call => each _ call.form call.depth call.cache rfl⟩

/-- Whatever satisfies the recursion of the body is expansion with a depth. -/
theorem eq_expandWithDepth {f : Sexp → Nat → Cache → Except Halt Sexp × Cache}
    (satisfies : ∀ form depth cache, f form depth cache = e.expandBody f form depth cache) :
    f = e.expandWithDepth := by
  have each : ∀ rounds form, ∀ depth cache, e.limits.maxExpansionDepth - depth = rounds →
      f form depth cache = e.expandWithDepth form depth cache := by
    intro rounds form
    induction rounds, form using expandInduction with
    | step rounds form fewer items =>
      intro depth cache left
      rw [satisfies, expandWithDepth_eq, expandBody.eq_def, expandBody.eq_def]
      cases found : e.macroCall form with
      | some query =>
        obtain ⟨defn, args⟩ := query
        by_cases deep : e.limits.maxExpansionDepth ≤ depth
        · simp only [if_pos deep]
        · -- Both go on with the next depth.
          have next (expanded : Sexp) (cache : Cache) :=
            fewer (e.limits.maxExpansionDepth - (depth + 1)) (by omega) expanded (depth + 1) cache
              rfl
          simp only [if_neg deep, next]
      | none =>
        cases form with
        | list parts =>
          have loops := expandAll_congr (fun item member cache =>
            items parts rfl item member depth cache left) cache
          simp only [loops]
        | _ => rfl
  funext form depth cache
  exact each _ form depth cache rfl

/-- A call fails with any call that it makes. -/
theorem Calls.error {outer inner : Activation} (calls : e.Calls outer inner) {halt : Halt}
    (fails : (e.expandWithDepth inner.form inner.depth inner.cache).1 = .error halt) :
    (e.expandWithDepth outer.form outer.depth outer.cache).1 = .error halt := by
  obtain ⟨last, failed⟩ : ∃ last,
      e.expandWithDepth inner.form inner.depth inner.cache = (.error halt, last) :=
    ⟨_, Prod.ext fails rfl⟩
  rw [expandWithDepth_eq, expandBody.eq_def]
  rcases calls with ⟨defn, args, found, within, applied, small, deeper⟩ |
    ⟨front, back, outs, whole, other, before, level⟩
  · -- The result of the expansion is handed back.
    simp only [found, if_neg (Nat.not_le.mpr within), applied, if_neg small, ← deeper, fails]
  · rw [level] at failed
    rw [other, whole]
    simp only [expandAll_error before failed]

/-- Along a chain the depth counts the applications. -/
theorem Nested.depth_eq {outer inner : Activation} {n : Nat} (nested : e.Nested outer n inner) :
    inner.depth = outer.depth + n := by
  -- Expanding the arguments of a form leaves the depth, expanding its result adds one.
  induction nested with
  | here => rfl
  | reexpands _ reexpands ih =>
    obtain ⟨_, _, _, _, _, _, deeper⟩ := reexpands
    rw [deeper, ih, Nat.add_assoc]
  | descends _ descends ih => rw [descends.smaller.1, ih]

/-- A chain does not go below the limit. -/
theorem Nested.le_limit {outer inner : Activation} {n : Nat} (nested : e.Nested outer n inner) :
    n ≤ e.limits.maxExpansionDepth - outer.depth := by
  -- An activation that expands a result has been below the limit itself.
  induction nested with
  | here => exact Nat.zero_le _
  | reexpands chain reexpands _ =>
    have level := chain.depth_eq
    have deeper := reexpands.deeper
    obtain ⟨_, _, _, _, _, _, next⟩ := reexpands
    omega
  | descends _ _ ih => exact ih

/-- The first call of a chain fails with the last one. -/
theorem Nested.error {outer inner : Activation} {n : Nat} (nested : e.Nested outer n inner)
    {halt : Halt}
    (fails : (e.expandWithDepth inner.form inner.depth inner.cache).1 = .error halt) :
    (e.expandWithDepth outer.form outer.depth outer.cache).1 = .error halt := by
  -- An error passes through the activation that has called, and so on outwards.
  induction nested with
  | here => exact fails
  | reexpands _ reexpands ih => exact ih (Calls.error (.inl reexpands) fails)
  | descends _ descends ih => exact ih (Calls.error (.inr descends) fails)

/-- A macro call beyond the limit is refused. -/
theorem expandWithDepth_refused {call : Activation} {defn : MacroDef} {args : List Sexp}
    (found : e.macroCall call.form = some (defn, args))
    (deep : e.limits.maxExpansionDepth ≤ call.depth) :
    (e.expandWithDepth call.form call.depth call.cache).1 =
      .error (.error (.expansionDepthExceeded defn.name e.limits.maxExpansionDepth)) := by
  -- The depth is looked at before the macro is applied.
  rw [expandWithDepth_eq, expandBody.eq_def]
  simp only [found, if_pos deep]

/-- The recursion of `expand_with_depth` defines one total function: a call that hands on what a
macro produced goes one step towards the limit, a call for an item stays at its depth with a part of
the form, and so no call goes on calling for ever. Along every chain of nested calls at most as many
macros are applied as there are steps to the limit, and a chain that comes to a macro call with none
left makes the whole expansion fail with the limit exceeded. -/
theorem expandWithDepth_bounded (e : Expander) :
    (∀ f, (∀ form depth cache, f form depth cache = e.expandBody f form depth cache) ↔
      f = e.expandWithDepth) ∧
    (WellFounded fun inner outer => e.Calls outer inner) ∧
    (∀ outer inner, e.Reexpands outer inner →
      outer.depth < inner.depth ∧ inner.depth ≤ e.limits.maxExpansionDepth) ∧
    (∀ outer inner, e.Descends outer inner →
      inner.depth = outer.depth ∧ ∃ items, outer.form = .list items ∧ inner.form ∈ items) ∧
    ∀ outer n inner, e.Nested outer n inner →
      n ≤ e.limits.maxExpansionDepth - outer.depth ∧
      (e.Applies inner → n + 1 ≤ e.limits.maxExpansionDepth - outer.depth) ∧
      ∀ defn args, e.macroCall inner.form = some (defn, args) → ¬ e.Applies inner →
        (e.expandWithDepth outer.form outer.depth outer.cache).1 =
          .error (.error (.expansionDepthExceeded defn.name e.limits.maxExpansionDepth)) := by
  refine ⟨fun f => ⟨eq_expandWithDepth, fun same => ?_⟩, wellFounded_calls e,
    fun _ _ => Reexpands.deeper, fun _ _ => Descends.smaller, fun outer n inner nested => ?_⟩
  · obtain rfl := same
    exact e.expandWithDepth_eq
  · refine ⟨nested.le_limit, fun applies => ?_, fun defn args found unapplied => ?_⟩
    · have level := nested.depth_eq
      have within := applies.2
      omega
    · -- The last call is refused, and the calls around it hand its error back.
      refine nested.error (expandWithDepth_refused found (Nat.not_lt.mp fun within => ?_))
      exact unapplied ⟨by rw [found]; rfl, within⟩

end Expander

end Tatara.Lisp
