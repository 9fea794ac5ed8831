import Tatara.Lisp.Cache

/-! Compilers realized from a spec, whose compilations work on clones that share one cache. -/

namespace Tatara.Lisp

open Tatara.Rust

/-- The recipe of a compiler. -/
structure CompilerSpec where
  name : String
  dialect : String
  macros : List String
  domains : List String
  optimization : String
  description : Option String
  deriving DecidableEq, Repr

/-- A compiler with the macro library of its spec registered. -/
structure RealizedCompiler where
  spec : CompilerSpec
  preloaded : Expander

/-- One use of a realized compiler, from a source text or from parsed forms. -/
inductive CompileCall where
  | source (src : String)
  | forms (forms : List Sexp)
  deriving DecidableEq, Repr

namespace RealizedCompiler

variable [CharTable] [ArgsHasher]

/-- Register the macro sources of a library one after another. -/
def loadMacros (e : Expander) : List String → Except Halt Expander
  | [] => .ok e
  | src :: rest =>
    match e.expandSourceProgram src with
    | (.error halt, _) => .error halt
    | (.ok _, e) => loadMacros e rest

/-- `realize_in_memory`. -/
def realizeInMemory (spec : CompilerSpec) : Except Halt RealizedCompiler :=
  (loadMacros .new spec.macros).map fun preloaded => ⟨spec, preloaded⟩

/-- Expand parsed forms on a clone, of which only the shared cache outlives the call. -/
def compileFromForms (c : RealizedCompiler) (forms : List Sexp) :
    Except Halt (List Sexp) × RealizedCompiler :=
  let (result, clone) := c.preloaded.expandProgram forms
  (result, { c with preloaded := { c.preloaded with cache := clone.cache } })

/-- Read a source text and expand it on a clone. -/
def compile (c : RealizedCompiler) (src : String) : Except Halt (List Sexp) × RealizedCompiler :=
  match read src with
  | .error err => (.error (.error err), c)
  | .ok forms => c.compileFromForms forms

/-- The compiler after a sequence of uses. -/
def after (c : RealizedCompiler) : List CompileCall → RealizedCompiler
  | [] => c
  | .source src :: rest => (c.compile src).2.after rest
  | .forms forms :: rest => (c.compileFromForms forms).2.after rest

/-- Whether a check passes at every form of a source text, as two compilers expand it side by
side. -/
def alongCompile (check : Expander → Expander → Sexp → Bool) (c c₀ : RealizedCompiler)
    (src : String) : Bool :=
  match read src with
  | .error _ => true
  | .ok forms => Expander.alongRun check c.preloaded c₀.preloaded forms

/-- A use leaves everything but the cache as it was. -/
theorem compile_sameTables (c : RealizedCompiler) (src : String) :
    Expander.SameTables (c.compile src).2.preloaded c.preloaded := by
  -- Definitions are registered in the clone.
  unfold compile
  split <;> exact ⟨rfl, rfl, rfl, rfl⟩

/-- Any sequence of uses leaves everything but the cache as it was. -/
theorem after_sameTables (c : RealizedCompiler) (history : List CompileCall) :
    Expander.SameTables (c.after history).preloaded c.preloaded := by
  -- Each use does.
  induction history generalizing c with
  | nil => exact ⟨rfl, rfl, rfl, rfl⟩
  | cons call rest ih =>
    cases call with
    | source src => exact (ih _).trans (compile_sameTables c src)
    | forms forms => exact (ih _).trans ⟨rfl, rfl, rfl, rfl⟩

/-- Whatever a realized compiler was used for before, it compiles a source as a freshly realized one
does, as long as no call that is reached finds an entry of the shared cache that differs from what
the fresh compiler answers. -/
theorem compile_after_eq_fresh (spec : CompilerSpec) (c c₀ : RealizedCompiler)
    (realized : realizeInMemory spec = .ok c) (again : realizeInMemory spec = .ok c₀)
    (history : List CompileCall) (src : String)
    (collisionFree : alongCompile Expander.collisionFreeOn (c.after history) c₀ src = true)
    (noForeignHit : alongCompile Expander.agreesOn (c.after history) c₀ src = true) :
    ((c.after history).compile src).1 = (c₀.compile src).1 := by
  -- The history has changed nothing but the shared cache.
  have same : Expander.SameTables (c.after history).preloaded c₀.preloaded := by
    rw [← Except.ok.inj (realized.symm.trans again)]
    exact after_sameTables c history
  unfold alongCompile at collisionFree noForeignHit
  unfold compile
  cases parsed : read src with
  | error err => rfl
  | ok forms =>
    simp only [parsed] at collisionFree noForeignHit
    exact Expander.expandProgram_agrees same noForeignHit collisionFree

end RealizedCompiler

/-- A spec whose library defines one macro. -/
def libraryOfOne : CompilerSpec where
  name := "one"
  dialect := "standard"
  macros := ["(defmacro m () 1)"]
  domains := []
  optimization := "tree-walk"
  description := none

/-- The compiler that the spec is realized as. -/
def libraryCompiler : RealizedCompiler :=
  (@RealizedCompiler.realizeInMemory asciiTable sizeHasher libraryOfOne).toOption.getD
    ⟨libraryOfOne, .new⟩

/-- The library loads. -/
theorem realize_libraryOfOne :
    @RealizedCompiler.realizeInMemory asciiTable sizeHasher libraryOfOne = .ok libraryCompiler := by
  -- The library is a single definition that the expander accepts.
  have loads : (@RealizedCompiler.realizeInMemory asciiTable sizeHasher
      libraryOfOne).toOption.isSome = true := by decide +kernel
  unfold libraryCompiler
  cases result : @RealizedCompiler.realizeInMemory asciiTable sizeHasher libraryOfOne with
  | error halt => rw [result] at loads; cases loads
  | ok c => rfl

open RealizedCompiler in
/-- A compiler that has expanded a library macro before expands it again as a fresh one does. -/
theorem compile_after_eq_fresh_libraryOfOne :
    (@compile asciiTable sizeHasher
        (@RealizedCompiler.after asciiTable sizeHasher libraryCompiler [.source "(m)"]) "(m)").1 =
      (@compile asciiTable sizeHasher libraryCompiler "(m)").1 :=
  @compile_after_eq_fresh asciiTable sizeHasher libraryOfOne _ _ realize_libraryOfOne
    realize_libraryOfOne [.source "(m)"] "(m)" (by decide +kernel) (by decide +kernel)

open RealizedCompiler in
/-- A source that defines a library macro anew leaves its expansion behind for the sources after it,
so compilations on one compiler are not isolated. -/
theorem compile_after_ne_fresh_redefined :
    ¬ ∀ (spec : CompilerSpec) (c c₀ : RealizedCompiler) (history : List CompileCall) (src : String),
      @realizeInMemory asciiTable sizeHasher spec = .ok c →
      @realizeInMemory asciiTable sizeHasher spec = .ok c₀ →
      @alongCompile asciiTable sizeHasher (@Expander.collisionFreeOn asciiTable sizeHasher)
        (@RealizedCompiler.after asciiTable sizeHasher c history) c₀ src = true →
      (@compile asciiTable sizeHasher
          (@RealizedCompiler.after asciiTable sizeHasher c history) src).1 =
        (@compile asciiTable sizeHasher c₀ src).1 := by
  -- The library gives one, and the history leaves a two in the shared cache.
  intro isolated
  have same := isolated libraryOfOne _ _ [.source "(defmacro m () 2) (m)"] "(m)"
    realize_libraryOfOne realize_libraryOfOne (by decide +kernel)
  exact absurd same (by decide +kernel)

end Tatara.Lisp
