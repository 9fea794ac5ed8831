import Tatara.Lisp.Expansion

/-! When the expansion cache cannot be seen in what a program expands to. -/

namespace Tatara.Lisp

open Tatara.Rust

namespace Expander

/-- A recognised call is a call of the macro registered under its name. -/
theorem registered_of_macroCall {e : Expander} {form : Sexp} {query : MacroCall}
    (found : e.macroCall form = some query) : e.macros.get query.1.name = some query.1 := by
  -- Every macro is registered under its own name.
  unfold macroCall Sexp.asCallToAny at found
  simp only [Option.bind_eq_some_iff, Option.map_eq_some_iff] at found
  obtain ⟨⟨head, args⟩, -, defn, registered, rfl⟩ := found
  have named := e.macros.named head defn registered
  simp only [named]
  exact registered

/-- Two expanders that differ at most in their caches. -/
structure SameTables (e e₀ : Expander) : Prop where
  macros : e.macros = e₀.macros
  templates : e.templates = e₀.templates
  compileTemplates : e.compileTemplates = e₀.compileTemplates
  limits : e.limits = e₀.limits

/-- Having the same tables is symmetric. -/
theorem SameTables.symm {e e₀ : Expander} (same : SameTables e e₀) : SameTables e₀ e :=
  ⟨same.macros.symm, same.templates.symm, same.compileTemplates.symm, same.limits.symm⟩

/-- Having the same tables is transitive. -/
theorem SameTables.trans {a b c : Expander} (first : SameTables a b) (second : SameTables b c) :
    SameTables a c :=
  ⟨first.macros.trans second.macros, first.templates.trans second.templates,
    first.compileTemplates.trans second.compileTemplates, first.limits.trans second.limits⟩

section registration

variable [CharTable]

/-- The same tables accept the same definitions. -/
theorem registerMacroDef_sameTables {e e₀ : Expander} (same : SameTables e e₀) (defn : MacroDef) :
    (∃ err, e.registerMacroDef defn = .error err ∧ e₀.registerMacroDef defn = .error err) ∨
      ∃ e' e₀', e.registerMacroDef defn = .ok e' ∧ e₀.registerMacroDef defn = .ok e₀' ∧
        SameTables e' e₀' := by
  -- Neither gate looks at the cache.
  obtain ⟨macros, templates, compileTemplates, limits⟩ := same
  unfold registerMacroDef
  rw [macros, templates, compileTemplates, limits]
  split
  · exact .inl ⟨_, rfl, rfl⟩
  split
  · exact .inl ⟨_, rfl, rfl⟩
  split
  · exact .inl ⟨_, rfl, rfl⟩
  split
  · split
    · exact .inl ⟨_, rfl, rfl⟩
    · exact .inr ⟨_, _, rfl, rfl, rfl, rfl, rfl, rfl⟩
  · exact .inr ⟨_, _, rfl, rfl, rfl, rfl, rfl, rfl⟩

end registration

variable [CharTable] [ArgsHasher]

/-- What a call is answered while the cache is as given. -/
def view (e : Expander) (cache : Cache) (query : MacroCall) : Except Halt Sexp :=
  if e.cacheEnabled then
    Memo.view (fun query : MacroCall => argsCacheKey query.1.name query.2)
      (fun query => e.compute query.1 query.2) cache query
  else e.compute query.1 query.2

/-- The calls that expanding a form applies, in order. -/
def reachedCalls (e : Expander) (form : Sexp) : List MacroCall :=
  (expandRounds e.limits e.macroCall (traced e.apply) e.limits.maxExpansionDepth form
    (e.cache, [])).2.2

/-- An enabled cache is a memo table in front of the computation. -/
theorem apply_eq_ask {e : Expander} (enabled : e.cacheEnabled = true) (defn : MacroDef)
    (args : List Sexp) (cache : Cache) :
    e.apply defn args cache =
      Memo.ask e.limits.maxCacheEntries (fun query : MacroCall => argsCacheKey query.1.name query.2)
        (fun query => e.compute query.1 query.2) (defn, args) cache := by
  -- Both look the key up first and remember a computed value while there is room.
  simp only [apply, enabled, if_true, Memo.ask]
  cases cache[argsCacheKey defn.name args]? with
  | some cached => rfl
  | none => cases e.compute defn args <;> rfl

/-- A call is answered by what the cache shows. -/
theorem apply_fst (e : Expander) (defn : MacroDef) (args : List Sexp) (cache : Cache) :
    (e.apply defn args cache).1 = e.view cache (defn, args) := by
  -- With the cache off the answer is computed, and with it on the table answers.
  by_cases enabled : e.cacheEnabled = true
  · rw [apply_eq_ask enabled, Memo.ask_fst, view, if_pos enabled]
  · simp [apply, view, enabled]

/-- A call changes no other answer unless the two share a key and differ in what they compute. -/
theorem view_apply {e : Expander} {defn : MacroDef} {args : List Sexp} {cache : Cache}
    {query : MacroCall}
    (apart : argsCacheKey defn.name args = argsCacheKey query.1.name query.2 →
      (defn, args) = query) :
    e.view (e.apply defn args cache).2 query = e.view cache query := by
  -- Only an enabled cache can change, and then only under the key of the call.
  by_cases enabled : e.cacheEnabled = true
  · rw [apply_eq_ask enabled]
    simp only [view, if_pos enabled]
    refine Memo.view_ask fun same => ?_
    rw [← apart (CacheKey.cmp_eq_iff.mp same)]
  · simp [view, enabled]

/-- Whether every call that an expansion reaches is answered by both expanders alike. -/
def agreesOn (e e₀ : Expander) (form : Sexp) : Bool :=
  (e₀.reachedCalls form).all fun query =>
    decide (e.view e.cache query = e₀.view e₀.cache query)

/-- Whether the argument lists that an expansion reaches have different hashes. -/
def collisionFreeOn (_ e₀ : Expander) (form : Sexp) : Bool :=
  (e₀.reachedCalls form).all fun query => (e₀.reachedCalls form).all fun other =>
    decide (ArgsHasher.finish query.2 = ArgsHasher.finish other.2 → query.2 = other.2)

/-- Whether a check passes at every form that a program expands, as two expanders run it side by
side. -/
def alongRun (check : Expander → Expander → Sexp → Bool) (e e₀ : Expander) : List Sexp → Bool
  | [] => true
  | form :: rest =>
    match macroDefFrom form with
    | .error _ => true
    | .ok (some defn) =>
      match e.registerMacroDef defn, e₀.registerMacroDef defn with
      | .ok e, .ok e₀ => alongRun check e e₀ rest
      | _, _ => true
    | .ok none =>
      check e e₀ form &&
        match e.expand form, e₀.expand form with
        | (.ok _, e), (.ok _, e₀) => alongRun check e e₀ rest
        | _, _ => true

/-- Expansion changes nothing but the cache. -/
theorem expand_sameTables (e : Expander) (form : Sexp) : SameTables (e.expand form).2 e :=
  ⟨rfl, rfl, rfl, rfl⟩

/-- Expanding a form is expanding it with a record of its calls. -/
theorem expand_fst_eq_traced (e : Expander) (form : Sexp) :
    (e.expand form).1 = (expandRounds e.limits e.macroCall (traced e.apply)
      e.limits.maxExpansionDepth form (e.cache, [])).1 := by
  -- The record does not change what an application answers.
  have simulated := @expandRounds_simulates Cache Cache e.limits e.macroCall e.apply e.apply
    (fun s t => s = t) (fun _ => True) (by rintro defn args s t - rfl; exact ⟨rfl, rfl⟩)
    e.limits.maxExpansionDepth form e.cache (e.cache, []) rfl (fun _ _ => trivial)
  exact simulated.1

/-- Two expanders with the same tables expand a form alike if they answer its calls alike. -/
theorem expand_agrees {e e₀ : Expander} (same : SameTables e e₀) {form : Sexp}
    (agrees : agreesOn e e₀ form = true) (collisionFree : collisionFreeOn e e₀ form = true) :
    (e.expand form).1 = (e₀.expand form).1 := by
  have sameCall : e.macroCall = e₀.macroCall := by
    funext form
    simp [macroCall, same.macros]
  -- Calls that are reached differ in their keys, since each is of the macro of its name.
  have apart : ∀ query ∈ e₀.reachedCalls form, ∀ other ∈ e₀.reachedCalls form,
      argsCacheKey query.1.name query.2 = argsCacheKey other.1.name other.2 → query = other := by
    intro query member other member' keys
    obtain ⟨f, found⟩ := call_of_traced member
    obtain ⟨f', found'⟩ := call_of_traced member'
    have registered := registered_of_macroCall found
    have registered' := registered_of_macroCall found'
    simp only [argsCacheKey, CacheKey.mk.injEq] at keys
    rw [keys.1, registered'] at registered
    simp only [collisionFreeOn, List.all_eq_true, decide_eq_true_eq] at collisionFree
    exact Prod.ext (Option.some.inj registered).symm
      (collisionFree query member other member' keys.2)
  simp only [agreesOn, List.all_eq_true, decide_eq_true_eq] at agrees
  rw [expand_fst_eq_traced e₀, expand, expandWithDepth, same.limits, sameCall, Nat.sub_zero]
  have simulated := @expandRounds_simulates Cache Cache e₀.limits e₀.macroCall e.apply e₀.apply
    (fun s t => ∀ query ∈ e₀.reachedCalls form, e.view s query = e₀.view t query)
    (fun query => query ∈ e₀.reachedCalls form) ?_ e₀.limits.maxExpansionDepth form e.cache
    (e₀.cache, []) agrees (fun _ member => member)
  · exact simulated.1
  · -- An application answers what the caches show, and leaves what they show unchanged.
    intro defn args s t known shown
    refine ⟨by rw [apply_fst, apply_fst, shown _ known], fun query member => ?_⟩
    rw [view_apply (apart _ known query member), view_apply (apart _ known query member)]
    exact shown query member

/-- Programs that start with a form to expand agree if the form and the rest of them do. -/
theorem expandProgram_congr {e e₀ : Expander} {form : Sexp} {rest : List Sexp}
    (plain : macroDefFrom form = .ok none) (first : (e.expand form).1 = (e₀.expand form).1)
    (others : ∀ out, (e.expand form).1 = .ok out →
      ((e.expand form).2.expandProgram rest).1 = ((e₀.expand form).2.expandProgram rest).1) :
    (e.expandProgram (form :: rest)).1 = (e₀.expandProgram (form :: rest)).1 := by
  simp only [expandProgram, plain]
  cases left : e.expand form with
  | mk result e' =>
    cases right : e₀.expand form with
    | mk result' e₀' =>
      simp only [left, right] at first others ⊢
      subst first
      cases result with
      | error halt => rfl
      | ok out =>
        -- The outputs of the rest follow the one of the form.
        have others := others out rfl
        cases leftRest : e'.expandProgram rest with
        | mk outs e'' =>
          cases rightRest : e₀'.expandProgram rest with
          | mk outs' e₀'' =>
            rw [leftRest, rightRest] at others
            simp only at others
            subst others
            cases outs <;> simp [leftRest, rightRest]

/-- Two expanders with the same tables expand a program alike if they answer its calls alike. -/
theorem expandProgram_agrees {e e₀ : Expander} (same : SameTables e e₀) {forms : List Sexp}
    (agrees : alongRun agreesOn e e₀ forms = true)
    (collisionFree : alongRun collisionFreeOn e e₀ forms = true) :
    (e.expandProgram forms).1 = (e₀.expandProgram forms).1 := by
  -- The two expanders keep the same tables from form to form.
  induction forms generalizing e e₀ with
  | nil => rfl
  | cons form rest ih =>
    simp only [alongRun] at agrees collisionFree
    cases defined : macroDefFrom form with
    | error err => simp only [expandProgram, defined]
    | ok found =>
      cases found with
      | some defn =>
        simp only [expandProgram, defined]
        rcases registerMacroDef_sameTables same defn with
          ⟨err, refused, refused'⟩ | ⟨e', e₀', accepted, accepted', same'⟩
        · simp only [refused, refused']
        · simp only [defined, accepted, accepted'] at agrees collisionFree ⊢
          exact ih same' agrees collisionFree
      | none =>
        simp only [defined, Bool.and_eq_true] at agrees collisionFree
        have result := expand_agrees same agrees.1 collisionFree.1
        have tables :=
          (expand_sameTables e form).trans (same.trans (expand_sameTables e₀ form).symm)
        refine expandProgram_congr defined result fun out expanded => ?_
        -- Both expansions succeed, so both checks go on with the rest.
        have expanded' := result ▸ expanded
        rw [show e.expand form = (.ok out, (e.expand form).2) from Prod.ext expanded rfl,
          show e₀.expand form = (.ok out, (e₀.expand form).2) from Prod.ext expanded' rfl]
          at agrees collisionFree
        exact ih tables agrees.2 collisionFree.2

/-- A fresh expander with its cache on, that compiles templates or leaves them to substitution. -/
def fresh (limits : ResourceLimits) (compileTemplates : Bool) : Expander :=
  { withLimits limits with compileTemplates := compileTemplates }

/-- A program expands with the cache as it does without, as long as no call that is reached finds an
entry that its macro's definition in force does not compute. -/
theorem expandProgram_cached_eq (limits : ResourceLimits) (compileTemplates : Bool)
    (forms : List Sexp)
    (collisionFree : alongRun collisionFreeOn (fresh limits compileTemplates)
      ((fresh limits compileTemplates).setCacheEnabled false) forms = true)
    (noStaleHit : alongRun agreesOn (fresh limits compileTemplates)
      ((fresh limits compileTemplates).setCacheEnabled false) forms = true) :
    ((fresh limits compileTemplates).expandProgram forms).1 =
      (((fresh limits compileTemplates).setCacheEnabled false).expandProgram forms).1 := by
  -- The two expanders differ in whether they consult the cache, and in nothing else.
  have same : SameTables (fresh limits compileTemplates)
      ((fresh limits compileTemplates).setCacheEnabled false) := ⟨rfl, rfl, rfl, rfl⟩
  exact expandProgram_agrees same noStaleHit collisionFree

end Expander

/-- A hash that tells argument lists apart by their size. -/
@[reducible] def sizeHasher : ArgsHasher := ⟨fun args => UInt64.ofNat (Sexp.nodeCountItems args)⟩

/-- A program that defines a macro of one parameter and calls it twice with the same argument. -/
def repeatedCall : List Sexp :=
  [.list [.atom (.symbol "defmacro"), .atom (.symbol "f"), .list [.atom (.symbol "x")],
      .quasiquote (.list [.atom (.symbol "list"), .unquote (.atom (.symbol "x"))])],
    .list [.atom (.symbol "f"), .atom (.int 1)], .list [.atom (.symbol "f"), .atom (.int 1)]]

/-- The second of two equal calls is answered from the cache, and nobody can tell. -/
theorem expandProgram_cached_repeatedCall :
    (@Expander.expandProgram asciiTable sizeHasher (.fresh defaultResourceLimits true)
        repeatedCall).1 =
      (@Expander.expandProgram asciiTable sizeHasher
        ((Expander.fresh defaultResourceLimits true).setCacheEnabled false) repeatedCall).1 :=
  @Expander.expandProgram_cached_eq asciiTable sizeHasher defaultResourceLimits true repeatedCall
    (by decide +kernel) (by decide +kernel)

/-- A program that defines a macro, calls it, defines it anew, and calls it again. -/
def redefinedCall : List Sexp :=
  [.list [.atom (.symbol "defmacro"), .atom (.symbol "f"), .list [], .atom (.int 1)],
    .list [.atom (.symbol "f")],
    .list [.atom (.symbol "defmacro"), .atom (.symbol "f"), .list [], .atom (.int 2)],
    .list [.atom (.symbol "f")]]

/-- The call of a macro that was defined anew is answered by its old definition, so the cache is
visible in what a program expands to. -/
theorem expandProgram_cached_ne_redefined :
    ¬ ∀ (limits : ResourceLimits) (compileTemplates : Bool) (forms : List Sexp),
      @Expander.alongRun asciiTable sizeHasher
        (@Expander.collisionFreeOn asciiTable sizeHasher) (.fresh limits compileTemplates)
        ((Expander.fresh limits compileTemplates).setCacheEnabled false) forms = true →
      (@Expander.expandProgram asciiTable sizeHasher (.fresh limits compileTemplates) forms).1 =
        (@Expander.expandProgram asciiTable sizeHasher
          ((Expander.fresh limits compileTemplates).setCacheEnabled false) forms).1 := by
  -- With the cache both calls give one, and without it the second gives two.
  intro invisible
  have same := invisible defaultResourceLimits true redefinedCall (by decide +kernel)
  exact absurd same (by decide +kernel)

end Tatara.Lisp
