import Tatara.Lisp.Cache

/-! Programs that define each macro once, which cannot see the expansion cache. -/

namespace Tatara.Lisp

open Tatara.Rust

namespace Expander

section definitions

variable [CharTable]

/-- The name that a form defines a macro under. -/
def definedName (form : Sexp) : Option String :=
  match macroDefFrom form with
  | .ok (some defn) => some defn.name
  | _ => none

/-- The names that a program defines macros under, in order. -/
def definedNames (forms : List Sexp) : List String := forms.filterMap definedName

/-- An accepted definition changes the tables under its name, and leaves the cache alone. -/
theorem registerMacroDef_ok {e e' : Expander} {defn : MacroDef}
    (accepted : e.registerMacroDef defn = .ok e') :
    e'.macros = e.macros.insert defn ∧ e'.cache = e.cache ∧ e'.cacheEnabled = e.cacheEnabled ∧
      ∀ name ≠ defn.name, e'.templates[name]? = e.templates[name]? := by
  -- Three ceilings and the template stand before the tables are written.
  unfold registerMacroDef at accepted
  split at accepted
  · cases accepted
  split at accepted
  · cases accepted
  split at accepted
  · cases accepted
  split at accepted
  · split at accepted
    · cases accepted
    · cases accepted
      refine ⟨rfl, rfl, rfl, fun name other => ?_⟩
      simp [Std.ExtTreeMap.getElem?_insert, Ne.symm other]
  · cases accepted
    exact ⟨rfl, rfl, rfl, fun _ _ => rfl⟩

end definitions

/-- Registering a macro leaves the macros of other names. -/
theorem get_insert {table : MacroTable} {defn : MacroDef} {name : String}
    (other : name ≠ defn.name) : (table.insert defn).get name = table.get name := by
  simp [MacroTable.insert, MacroTable.get, Std.ExtTreeMap.getElem?_insert, Ne.symm other]

variable [CharTable] [ArgsHasher]

/-- The calls that a program reaches, over all forms that it expands. -/
def reachedAlong (e : Expander) : List Sexp → List MacroCall
  | [] => []
  | form :: rest =>
    match macroDefFrom form with
    | .error _ => []
    | .ok (some defn) =>
      match e.registerMacroDef defn with
      | .error _ => []
      | .ok e => reachedAlong e rest
    | .ok none =>
      e.reachedCalls form ++
        match e.expand form with
        | (.error _, _) => []
        | (.ok _, e) => reachedAlong e rest

/-- A call of a registered macro with arguments that occur. -/
def Admitted (occurs : List Sexp → Prop) (e : Expander) (query : MacroCall) : Prop :=
  e.macros.get query.1.name = some query.1 ∧ occurs query.2

/-- Every entry of a cache is what a registered macro computes for arguments that occur. -/
def Sound (occurs : List Sexp → Prop) (e : Expander) (cache : Cache) : Prop :=
  Memo.Sound (Admitted occurs e) (fun query : MacroCall => argsCacheKey query.1.name query.2)
    (fun query => e.compute query.1 query.2) cache

variable {occurs : List Sexp → Prop}

/-- A definition under a new name keeps a cache sound. -/
theorem Sound.register {e e' : Expander} {cache : Cache} (sound : Sound occurs e cache)
    {defn : MacroDef} (fresh : e.macros.get defn.name = none)
    (accepted : e.registerMacroDef defn = .ok e') : Sound occurs e' cache := by
  obtain ⟨macros, -, -, templates⟩ := registerMacroDef_ok accepted
  intro key value found
  obtain ⟨query, ⟨registered, occurring⟩, keys, computed⟩ := sound key value found
  -- What the cache knows is registered already, so it is not what is being defined.
  have different : query.1.name ≠ defn.name := by
    intro same
    rw [same, fresh] at registered
    cases registered
  refine ⟨query, ⟨?_, occurring⟩, keys, ?_⟩
  · rw [macros, get_insert different, registered]
  · simp only [compute, templates query.1.name different] at computed ⊢
    exact computed

/-- With a sound cache a form expands as without one, and the cache stays sound. -/
theorem expand_sound {e e₀ : Expander} (same : SameTables e e₀) (enabled : e.cacheEnabled = true)
    (disabled : e₀.cacheEnabled = false) {form : Sexp}
    (apart : ∀ args args', occurs args → occurs args' →
      ArgsHasher.finish args = ArgsHasher.finish args' → args = args')
    (occurring : ∀ query ∈ e₀.reachedCalls form, occurs query.2)
    (sound : Sound occurs e e.cache) :
    (e.expand form).1 = (e₀.expand form).1 ∧ Sound occurs e (e.expand form).2.cache := by
  have sameCall : e.macroCall = e₀.macroCall := by
    funext form
    simp [macroCall, same.macros]
  have sameCompute : e.compute = e₀.compute := by
    funext defn args
    simp [compute, same.templates]
  -- Admitted calls with one key are one call.
  have oneAnswer : ∀ query other : MacroCall, Admitted occurs e query → Admitted occurs e other →
      CacheKey.cmp (argsCacheKey query.1.name query.2) (argsCacheKey other.1.name other.2) = .eq →
      e.compute query.1 query.2 = e.compute other.1 other.2 := by
    rintro query other ⟨registered, occurring⟩ ⟨registered', occurring'⟩ keys
    have keys := CacheKey.cmp_eq_iff.mp keys
    simp only [argsCacheKey, CacheKey.mk.injEq] at keys
    rw [keys.1, registered'] at registered
    rw [Option.some.inj registered, apart _ _ occurring occurring' keys.2]
  rw [expand_fst_eq_traced e₀]
  simp only [expand, expandWithDepth, same.limits, sameCall, Nat.sub_zero]
  refine @expandRounds_simulates Cache Cache e₀.limits e₀.macroCall e.apply e₀.apply
    (fun s _ => Sound occurs e s) (Admitted occurs e) ?_ e₀.limits.maxExpansionDepth form e.cache
    (e₀.cache, []) sound ?_
  · -- A sound cache answers what the other expander computes.
    intro defn args s t admitted sound
    rw [apply_eq_ask enabled, Memo.ask_fst, sound.view_eq oneAnswer admitted]
    refine ⟨?_, sound.ask _ admitted⟩
    simp [apply, disabled, sameCompute]
  · intro query member
    obtain ⟨f, found⟩ := call_of_traced member
    have registered := registered_of_macroCall found
    rw [← same.macros] at registered
    exact ⟨registered, occurring query member⟩

/-- With a sound cache a program that defines new macros, each of them once, expands as without a
cache. -/
theorem expandProgram_sound {e e₀ : Expander} (same : SameTables e e₀)
    (enabled : e.cacheEnabled = true) (disabled : e₀.cacheEnabled = false)
    (apart : ∀ args args', occurs args → occurs args' →
      ArgsHasher.finish args = ArgsHasher.finish args' → args = args')
    {forms : List Sexp} (occurring : ∀ query ∈ e₀.reachedAlong forms, occurs query.2)
    (sound : Sound occurs e e.cache) (once : (definedNames forms).Nodup)
    (unknown : ∀ name ∈ definedNames forms, e.macros.get name = none) :
    (e.expandProgram forms).1 = (e₀.expandProgram forms).1 := by
  -- Tables, soundness and the names still to come are followed from form to form.
  induction forms generalizing e e₀ with
  | nil => rfl
  | cons form rest ih =>
    simp only [reachedAlong] at occurring
    cases defined : macroDefFrom form with
    | error err => simp only [expandProgram, defined]
    | ok found =>
      cases found with
      | some defn =>
        have names : definedNames (form :: rest) = defn.name :: definedNames rest := by
          simp [definedNames, definedName, defined]
        rw [names] at once unknown
        rcases registerMacroDef_sameTables same defn with
          ⟨err, refused, refused'⟩ | ⟨e', e₀', accepted, accepted', same'⟩
        · simp only [expandProgram, defined, refused, refused']
        · obtain ⟨macros, cache, switch, -⟩ := registerMacroDef_ok accepted
          obtain ⟨-, -, switch', -⟩ := registerMacroDef_ok accepted'
          simp only [defined, accepted'] at occurring
          simp only [expandProgram, defined, accepted, accepted']
          have fresh := unknown defn.name (by simp)
          refine ih same' (switch.trans enabled) (switch'.trans disabled) occurring ?_
            (List.nodup_cons.mp once).2 fun name member => ?_
          · rw [cache]
            exact sound.register fresh accepted
          · -- A name that comes later is another one, and stays unknown.
            have different : name ≠ defn.name := by
              rintro rfl
              exact (List.nodup_cons.mp once).1 member
            rw [macros, get_insert different]
            exact unknown name (by simp [member])
      | none =>
        have names : definedNames (form :: rest) = definedNames rest := by
          simp [definedNames, definedName, defined]
        rw [names] at once unknown
        simp only [defined] at occurring
        obtain ⟨result, sound'⟩ := expand_sound same enabled disabled apart
          (fun query member => occurring query (List.mem_append_left _ member)) sound
        have tables :=
          (expand_sameTables e form).trans (same.trans (expand_sameTables e₀ form).symm)
        refine expandProgram_congr defined result fun out expanded => ?_
        have expanded' := result ▸ expanded
        rw [show e₀.expand form = (.ok out, (e₀.expand form).2) from Prod.ext expanded' rfl]
          at occurring
        exact ih tables enabled disabled
          (fun query member => occurring query (List.mem_append_right _ member)) sound' once unknown

/-- A program that defines each macro once expands with the cache as it does without, if the
argument lists that occur have different hashes. -/
theorem expandProgram_eq_of_definedOnce (limits : ResourceLimits) (compileTemplates : Bool)
    (forms : List Sexp)
    (collisionFree :
      ∀ query ∈ ((fresh limits compileTemplates).setCacheEnabled false).reachedAlong forms,
      ∀ other ∈ ((fresh limits compileTemplates).setCacheEnabled false).reachedAlong forms,
        ArgsHasher.finish query.2 = ArgsHasher.finish other.2 → query.2 = other.2)
    (once : (definedNames forms).Nodup) :
    ((fresh limits compileTemplates).expandProgram forms).1 =
      (((fresh limits compileTemplates).setCacheEnabled false).expandProgram forms).1 := by
  -- The cache is empty at first, and nothing is registered.
  have same : SameTables (fresh limits compileTemplates)
      ((fresh limits compileTemplates).setCacheEnabled false) := ⟨rfl, rfl, rfl, rfl⟩
  let occurs (args : List Sexp) : Prop :=
    ∃ query ∈ ((fresh limits compileTemplates).setCacheEnabled false).reachedAlong forms,
      query.2 = args
  have occurring :
      ∀ query ∈ ((fresh limits compileTemplates).setCacheEnabled false).reachedAlong forms,
        occurs query.2 := fun query member => ⟨query, member, rfl⟩
  refine expandProgram_sound same rfl rfl ?_ occurring ?_ once ?_
  · rintro args args' ⟨query, member, rfl⟩ ⟨other, member', rfl⟩
    exact collisionFree query member other member'
  · intro key value found
    simp [fresh, withLimits] at found
  · intro name _
    simp [fresh, withLimits, MacroTable.get, MacroTable.empty]

end Expander

end Tatara.Lisp
