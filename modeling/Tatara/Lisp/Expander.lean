import Tatara.Lib.Writes
import Tatara.Lisp.Macro
import Tatara.Lisp.Reader

/-! The expander: its registry, its expansion cache, and the expansion of forms and programs. -/

namespace Tatara.Lisp

open Tatara.Rust

/-- The ceilings an expander works under. -/
structure ResourceLimits where
  maxExpansionDepth : Nat
  maxCacheEntries : Nat
  maxExpansionSize : Nat
  maxMacroBodySize : Nat
  maxRegisteredMacros : Nat
  maxMacroArity : Nat
  deriving DecidableEq, Repr

/-- The ceilings that are shipped. -/
def defaultResourceLimits : ResourceLimits where
  maxExpansionDepth := 256
  maxCacheEntries := 8192
  maxExpansionSize := 65536
  maxMacroBodySize := 16384
  maxRegisteredMacros := 4096
  maxMacroArity := 128

/-- The hash of an argument list that `DefaultHasher` finishes with. -/
class ArgsHasher where
  /-- The 64-bit hash of the number of arguments and of each argument in turn. -/
  finish : List Sexp → UInt64

/-- A cache entry is found under a macro's name and the hash of its arguments. -/
structure CacheKey where
  macroName : String
  argsHash : UInt64
  deriving DecidableEq, Repr

/-- Keys are ordered by name and then by hash. -/
def CacheKey.cmp : CacheKey → CacheKey → Ordering :=
  compareLex (compareOn (·.macroName)) (compareOn (·.argsHash))

instance : Std.TransCmp CacheKey.cmp := by
  unfold CacheKey.cmp
  infer_instance

/-- Keys that compare equal are equal. -/
theorem CacheKey.cmp_eq_iff {a b : CacheKey} : CacheKey.cmp a b = .eq ↔ a = b := by
  -- Both parts are compared.
  cases a
  cases b
  simp [CacheKey.cmp, compareLex, compareOn]

/-- The memo table of an expander. -/
abbrev Cache := Std.ExtTreeMap CacheKey Sexp CacheKey.cmp

/-- The registered macros, each under its own name. -/
structure MacroTable where
  entries : Std.ExtTreeMap String MacroDef
  named : ∀ (name : String) (defn : MacroDef), entries[name]? = some defn → defn.name = name

namespace MacroTable

/-- No macro is registered. -/
def empty : MacroTable := ⟨∅, by simp⟩

/-- The macro of a name. -/
def get (table : MacroTable) (name : String) : Option MacroDef := table.entries[name]?

/-- Register a macro under its name, in place of the one that was there. -/
def insert (table : MacroTable) (defn : MacroDef) : MacroTable where
  entries := table.entries.insert defn.name defn
  named := by
    intro name other found
    rw [Std.ExtTreeMap.getElem?_insert] at found
    split at found
    · rename_i same
      cases found
      exact Std.LawfulEqOrd.eq_of_compare same
    · exact table.named name other found

end MacroTable

/-- The expander. Clones share the cache and own the rest, so the cache is passed on separately. -/
structure Expander where
  macros : MacroTable
  templates : Std.ExtTreeMap String CompiledTemplate
  compileTemplates : Bool
  cache : Cache
  cacheEnabled : Bool
  limits : ResourceLimits

namespace Expander

/-- A fresh expander under given ceilings. -/
def withLimits (limits : ResourceLimits) : Expander where
  macros := .empty
  templates := ∅
  compileTemplates := true
  cache := ∅
  cacheEnabled := true
  limits := limits

/-- A fresh expander under the shipped ceilings. -/
def new : Expander := withLimits defaultResourceLimits

/-- Turn the cache on or off. -/
def setCacheEnabled (e : Expander) (enabled : Bool) : Expander :=
  { e with cacheEnabled := enabled }

/-- The macro call a form is, under the registered macros. -/
def macroCall (e : Expander) (form : Sexp) : Option (MacroDef × List Sexp) :=
  form.asCallToAny e.macros.get

section registration

variable [CharTable]

/-- Register a macro, unless one of the ceilings or its template stands against it. -/
def registerMacroDef (e : Expander) (defn : MacroDef) : Except LispError Expander :=
  if (e.macros.get defn.name).isNone ∧ e.limits.maxRegisteredMacros ≤ e.macros.entries.size then
    .error (.registeredMacrosExceeded defn.name e.macros.entries.size e.limits.maxRegisteredMacros)
  else if e.limits.maxMacroArity < defn.params.totalArity then
    .error (.macroArityExceeded defn.name defn.params.totalArity e.limits.maxMacroArity)
  else if e.limits.maxMacroBodySize < defn.body.nodeCount then
    .error (.macroBodySizeExceeded defn.name defn.body.nodeCount e.limits.maxMacroBodySize)
  else if e.compileTemplates then
    -- A template that does not compile leaves both tables as they were.
    match compileTemplate defn with
    | .error err => .error err
    | .ok tmpl =>
      .ok { e with templates := e.templates.insert defn.name tmpl, macros := e.macros.insert defn }
  else .ok { e with macros := e.macros.insert defn }

end registration

section application

variable [CharTable]

/-- What a macro call computes without the cache. -/
def compute (e : Expander) (defn : MacroDef) (args : List Sexp) : Except Halt Sexp :=
  match e.templates[defn.name]? with
  | some tmpl => applyCompiled defn.name defn.params tmpl args
  | none => applySubstitute defn args

variable [ArgsHasher]

/-- `args_cache_key`. -/
def argsCacheKey (macroName : String) (args : List Sexp) : CacheKey :=
  ⟨macroName, ArgsHasher.finish args⟩

/-- Apply a macro to its arguments, with the cache as it is at that moment. -/
def apply (e : Expander) (defn : MacroDef) (args : List Sexp) (cache : Cache) :
    Except Halt Sexp × Cache :=
  if e.cacheEnabled then
    let key := argsCacheKey defn.name args
    match cache[key]? with
    | some cached => (.ok cached, cache)
    | none =>
      match e.compute defn args with
      | .error halt => (.error halt, cache)
      | .ok result =>
        -- A full table still returns the result it has no room for.
        (.ok result,
          if cache.size < e.limits.maxCacheEntries then cache.insert key result else cache)
  else (e.compute defn args, cache)

end application

end Expander

section traversal

variable {σ : Type}

mutual

/-- One pass over a form: a macro call is handed over, and a list is rebuilt from its items. -/
def expandPass (call : Sexp → Option (MacroDef × List Sexp))
    (onCall : MacroDef → List Sexp → σ → Except Halt Sexp × σ) (form : Sexp) (s : σ) :
    Except Halt Sexp × σ :=
  match call form with
  | some (defn, args) => onCall defn args s
  | none =>
    match form with
    | .list items =>
      match expandPassItems call onCall items s with
      | (.error halt, s) => (.error halt, s)
      | (.ok out, s) => (.ok (.list out), s)
    | _ => (.ok form, s)

/-- One pass over the items of a list, from the left, up to the first failure. -/
def expandPassItems (call : Sexp → Option (MacroDef × List Sexp))
    (onCall : MacroDef → List Sexp → σ → Except Halt Sexp × σ) (items : List Sexp) (s : σ) :
    Except Halt (List Sexp) × σ :=
  match items with
  | [] => (.ok [], s)
  | x :: xs =>
    match expandPass call onCall x s with
    | (.error halt, s) => (.error halt, s)
    | (.ok y, s) =>
      match expandPassItems call onCall xs s with
      | (.error halt, s) => (.error halt, s)
      | (.ok ys, s) => (.ok (y :: ys), s)

end

/-- A macro call with a number of rounds left, where each application of a macro takes one. -/
def applyRound (limits : ResourceLimits) (call : Sexp → Option (MacroDef × List Sexp))
    (apply : MacroDef → List Sexp → σ → Except Halt Sexp × σ) :
    Nat → MacroDef → List Sexp → σ → Except Halt Sexp × σ
  | 0, defn, _, s =>
    (.error (.error (.expansionDepthExceeded defn.name limits.maxExpansionDepth)), s)
  | rounds + 1, defn, args, s =>
    match apply defn args s with
    | (.error halt, s) => (.error halt, s)
    | (.ok expanded, s) =>
      if limits.maxExpansionSize < expanded.nodeCount then
        (.error (.error (.expansionSizeExceeded defn.name expanded.nodeCount
          limits.maxExpansionSize)), s)
      else expandPass call (applyRound limits call apply rounds) expanded s

/-- Expansion of a form with a number of rounds left. -/
def expandRounds (limits : ResourceLimits) (call : Sexp → Option (MacroDef × List Sexp))
    (apply : MacroDef → List Sexp → σ → Except Halt Sexp × σ) (rounds : Nat) :
    Sexp → σ → Except Halt Sexp × σ :=
  expandPass call (applyRound limits call apply rounds)

/-- Expansion of the items of a list with a number of rounds left. -/
def expandItems (limits : ResourceLimits) (call : Sexp → Option (MacroDef × List Sexp))
    (apply : MacroDef → List Sexp → σ → Except Halt Sexp × σ) (rounds : Nat) :
    List Sexp → σ → Except Halt (List Sexp) × σ :=
  expandPassItems call (applyRound limits call apply rounds)

end traversal

namespace Expander

variable [CharTable] [ArgsHasher]

/-- Expand a form at a depth, where depth counts the applications behind it. -/
def expandWithDepth (e : Expander) (form : Sexp) (depth : Nat) (cache : Cache) :
    Except Halt Sexp × Cache :=
  expandRounds e.limits e.macroCall e.apply (e.limits.maxExpansionDepth - depth) form cache

/-- Expand a form, with the cache that the expander holds afterwards. -/
def expand (e : Expander) (form : Sexp) : Except Halt Sexp × Expander :=
  let (result, cache) := e.expandWithDepth form 0 e.cache
  (result, { e with cache := cache })

/-- Expand a program: definitions are registered and every other form is expanded. -/
def expandProgram (e : Expander) : List Sexp → Except Halt (List Sexp) × Expander
  | [] => (.ok [], e)
  | form :: rest =>
    match macroDefFrom form with
    | .error err => (.error (.error err), e)
    | .ok (some defn) =>
      match e.registerMacroDef defn with
      | .error err => (.error (.error err), e)
      | .ok e => expandProgram e rest
    | .ok none =>
      match e.expand form with
      | (.error halt, e) => (.error halt, e)
      | (.ok out, e) =>
        match expandProgram e rest with
        | (.error halt, e) => (.error halt, e)
        | (.ok outs, e) => (.ok (out :: outs), e)

/-- Read a source text and expand it as a program. -/
def expandSourceProgram (e : Expander) (src : String) : Except Halt (List Sexp) × Expander :=
  match read src with
  | .error err => (.error (.error err), e)
  | .ok forms => e.expandProgram forms

end Expander

end Tatara.Lisp
