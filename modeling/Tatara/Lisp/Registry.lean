import Tatara.Lib.Fallible
import Tatara.Lisp.Expander

/-! The tables of macros and templates, as registrations change them in place. -/

namespace Tatara.Lisp

open Tatara.Rust Tatara.Fallible

/-- The macro of a name after one was registered. -/
theorem MacroTable.get_insert (table : MacroTable) (defn : MacroDef) (name : String) :
    (table.insert defn).get name = if defn.name = name then some defn else table.get name := by
  simp [insert, get, Std.ExtTreeMap.getElem?_insert]

namespace Expander

/-- `set_resource_limits`, by which each limit can be set. -/
def setResourceLimits (e : Expander) (limits : ResourceLimits) : Expander :=
  { e with limits := limits }

section

variable [CharTable]

/-- `register_macro_def` with its two writes one after the other. What it has written by the time
that it returns an error stays written. -/
def registering (defn : MacroDef) : ExceptT LispError (StateM Expander) Unit := do
  let e ← get
  let isOverwrite := (e.macros.get defn.name).isSome
  if isOverwrite = false ∧ e.limits.maxRegisteredMacros ≤ e.macros.entries.size then
    throw (.registeredMacrosExceeded defn.name e.macros.entries.size e.limits.maxRegisteredMacros)
  let arity := defn.params.totalArity
  if e.limits.maxMacroArity < arity then
    throw (.macroArityExceeded defn.name arity e.limits.maxMacroArity)
  let bodySize := defn.body.nodeCount
  if e.limits.maxMacroBodySize < bodySize then
    throw (.macroBodySizeExceeded defn.name bodySize e.limits.maxMacroBodySize)
  if e.compileTemplates then
    -- The template is compiled before the table is touched.
    match compileTemplate defn with
    | .error err => throw err
    | .ok tmpl => modify fun e => { e with templates := e.templates.insert defn.name tmpl }
  modify fun e => { e with macros := e.macros.insert defn }

/-- What a registration returns, and the expander that it leaves. -/
def register (e : Expander) (defn : MacroDef) : Except LispError Unit × Expander :=
  (registering defn).run.run e

end

/-- What can be done to an expander between two registrations, and the registrations. -/
inductive RegistryStep where
  | register (defn : MacroDef)
  | setResourceLimits (limits : ResourceLimits)
  | setCacheEnabled (enabled : Bool)

/-- The two tables have the same keys, and under each of them the template is that of the macro. -/
structure Paired [CharTable] (e : Expander) : Prop where
  keys : ∀ name, (e.templates[name]?).isSome ↔ (e.macros.get name).isSome
  compiled : ∀ name defn, e.macros.get name = some defn →
    ∃ tmpl, e.templates[name]? = some tmpl ∧ compileTemplate defn = .ok tmpl

/-- A step that leaves the number of macros that may be registered at what it is. -/
def RegistryStep.KeepsLimit (limit : Nat) : RegistryStep → Prop
  | setResourceLimits limits => limits.maxRegisteredMacros = limit
  | _ => True

section

variable [CharTable]

/-- One step. -/
def serve (e : Expander) : RegistryStep → Expander
  | .register defn => (e.register defn).2
  | .setResourceLimits limits => e.setResourceLimits limits
  | .setCacheEnabled enabled => e.setCacheEnabled enabled

/-- A registration in place does what the registration of a value does, and an error leaves the
expander as it was. -/
theorem register_eq (e : Expander) (defn : MacroDef) :
    e.register defn =
      match e.registerMacroDef defn with
      | .error err => (.error err, e)
      | .ok e' => (.ok (), e') := by
  have fresh : (e.macros.get defn.name).isNone = true ↔
      (e.macros.get defn.name).isSome = false := by
    cases e.macros.get defn.name <;> simp
  simp only [register, registering, registerMacroDef, fresh]
  -- The rejections come one after the other, each before the first write.
  by_cases full : (e.macros.get defn.name).isSome = false ∧
      e.limits.maxRegisteredMacros ≤ e.macros.entries.size
  · rw [if_pos full]
    change StateT.run (ExceptT.run (if _ then _ else _)) e = _
    rw [if_pos full]
    rfl
  rw [if_neg full]
  change StateT.run (ExceptT.run (if _ then _ else _)) e = _
  rw [if_neg full]
  by_cases wide : e.limits.maxMacroArity < defn.params.totalArity
  · rw [if_pos wide, if_pos wide]
    rfl
  rw [if_neg wide, if_neg wide]
  by_cases large : e.limits.maxMacroBodySize < defn.body.nodeCount
  · rw [if_pos large, if_pos large]
    rfl
  rw [if_neg large, if_neg large]
  by_cases compiles : e.compileTemplates = true
  · rw [if_pos compiles, if_pos compiles]
    cases compileTemplate defn <;> rfl
  · rw [if_neg compiles, if_neg compiles]
    rfl

/-- What a registration with templates that succeeds has checked, and what it writes. -/
theorem registerMacroDef_compiled {e e' : Expander} {defn : MacroDef}
    (compiles : e.compileTemplates) (done : e.registerMacroDef defn = .ok e') :
    ((e.macros.get defn.name).isSome ∨ e.macros.entries.size < e.limits.maxRegisteredMacros) ∧
      ∃ tmpl, compileTemplate defn = .ok tmpl ∧
        e' = { e with
          templates := e.templates.insert defn.name tmpl, macros := e.macros.insert defn } := by
  unfold registerMacroDef at done
  split at done
  · cases done
  rename_i room
  split at done
  · cases done
  split at done
  · cases done
  rw [compiles] at done
  split at done
  · cases done
  · rename_i tmpl compiled
    cases done
    refine ⟨?_, tmpl, compiled, by rw [compiles]⟩
    -- The table has room, or the name is there already.
    cases found : e.macros.get defn.name with
    | none => exact .inr (by simpa [found] using room)
    | some before => exact .inl rfl

/-- An unquote that does not resolve has no symbol, or one that is no parameter. -/
theorem resolveUnquoteInParams_error {inner : Sexp} {names : List String} {marker : UnquoteForm}
    {err : LispError} (failed : resolveUnquoteInParams inner names marker = .error err) :
    (∃ marker got, err = .nonSymbolUnquoteTarget marker got) ∨
      ∃ marker name hint, err = .unboundTemplateVar marker name hint := by
  -- What is unquoted is no symbol, or it is no parameter.
  unfold resolveUnquoteInParams unquoteTargetSymbol at failed
  cases named : inner.asSymbol with
  | none =>
    simp only [named, Except.error.injEq] at failed
    exact .inl ⟨_, _, failed.symm⟩
  | some name =>
    simp only [named, resolveParamIndex] at failed
    split at failed
    · cases failed
      exact .inr ⟨_, _, _, rfl⟩
    · cases failed

/-- Items that do not compile have one among them that does not. -/
theorem compileItems_error {names : List String} {items : List Sexp} {err : LispError}
    (failed : compileItems names items = .error err) :
    ∃ item ∈ items, compileNode names item = .error err := by
  -- The error is that of the first item that has one.
  induction items with
  | nil => cases failed
  | cons item rest ih =>
    rw [compileItems] at failed
    cases first : compileNode names item with
    | error err' =>
      rw [first] at failed
      cases failed
      exact ⟨item, List.mem_cons_self, first⟩
    | ok ops =>
      rw [first] at failed
      obtain ⟨other, member, failed⟩ := ih (map_eq_error_iff.mp failed)
      exact ⟨other, List.mem_cons_of_mem _ member, failed⟩

/-- A node that does not compile has such an unquote in it. -/
theorem compileNode_error {names : List String} {node : Sexp} {err : LispError}
    (failed : compileNode names node = .error err) :
    (∃ marker got, err = .nonSymbolUnquoteTarget marker got) ∨
      ∃ marker name hint, err = .unboundTemplateVar marker name hint := by
  induction node using Sexp.listInduction with
  | step node ih =>
    rw [compileNode.eq_def] at failed
    split at failed
    · cases failed
    split at failed
    · exact resolveUnquoteInParams_error (map_eq_error_iff.mp failed)
    · exact resolveUnquoteInParams_error (map_eq_error_iff.mp failed)
    · -- The error of a list is that of one of its items.
      obtain ⟨item, member, failed⟩ := compileItems_error (map_eq_error_iff.mp failed)
      exact ih _ rfl item member failed
    · cases failed

/-- A template that does not compile says nothing of the number of macros. -/
theorem compileTemplate_ne_exceeded (defn : MacroDef) (name : String) (count limit : Nat) :
    compileTemplate defn ≠ .error (.registeredMacrosExceeded name count limit) := by
  -- The errors of a template are those of the nodes in it.
  intro failed
  unfold compileTemplate at failed
  split at failed
  · cases failed
  · rcases compileNode_error (map_eq_error_iff.mp failed) with ⟨_, _, same⟩ | ⟨_, _, _, same⟩
    · cases same
    · cases same

/-- Only a fresh name is refused because of the number of macros. -/
theorem get_eq_none_of_exceeded {e : Expander} {defn : MacroDef} {name : String} {count limit : Nat}
    (refused : e.registerMacroDef defn = .error (.registeredMacrosExceeded name count limit)) :
    e.macros.get defn.name = none := by
  unfold registerMacroDef at refused
  split at refused
  · rename_i full
    exact Option.isNone_iff_eq_none.mp full.1
  split at refused
  · cases refused
  split at refused
  · cases refused
  split at refused
  · split at refused
    · -- A template that does not compile says so in other words.
      rename_i err failed
      cases refused
      exact absurd failed (compileTemplate_ne_exceeded defn name count limit)
    · cases refused
  · cases refused

/-- Writing a macro with its own template keeps the tables paired. -/
theorem Paired.write {e : Expander} (paired : e.Paired) {defn : MacroDef} {tmpl : CompiledTemplate}
    (compiled : compileTemplate defn = .ok tmpl) :
    Paired { e with
      templates := e.templates.insert defn.name tmpl, macros := e.macros.insert defn } where
  keys name := by
    -- Both tables have the new name.
    dsimp only
    rw [MacroTable.get_insert, Std.ExtTreeMap.getElem?_insert]
    by_cases same : defn.name = name
    · simp [same]
    · simpa [same] using paired.keys name
  compiled name other found := by
    dsimp only at found ⊢
    rw [MacroTable.get_insert] at found
    rw [Std.ExtTreeMap.getElem?_insert]
    by_cases same : defn.name = name
    · rw [if_pos same] at found
      cases found
      exact ⟨tmpl, by simp [same], compiled⟩
    · rw [if_neg same] at found
      obtain ⟨before, stored, its⟩ := paired.compiled name other found
      exact ⟨before, by simpa [same] using stored, its⟩

/-- What a registration leaves: the expander as it was, or one with a macro and its template
written. -/
theorem register_cases {e : Expander} (compiles : e.compileTemplates) (defn : MacroDef) :
    (∃ err, e.registerMacroDef defn = .error err ∧ e.register defn = (.error err, e)) ∨
    ((e.macros.get defn.name).isSome ∨ e.macros.entries.size < e.limits.maxRegisteredMacros) ∧
      ∃ tmpl, compileTemplate defn = .ok tmpl ∧
        e.register defn = (.ok (), { e with
          templates := e.templates.insert defn.name tmpl, macros := e.macros.insert defn }) := by
  -- A registration in place is one of a value, with the old value where it fails.
  rw [register_eq]
  cases done : e.registerMacroDef defn with
  | error err => exact .inl ⟨err, rfl, rfl⟩
  | ok e' =>
    obtain ⟨room, tmpl, compiled, rfl⟩ := registerMacroDef_compiled compiles done
    exact .inr ⟨room, tmpl, compiled, rfl⟩

/-- An expander whose templates are compiled and paired with its macros. -/
def InStep (e : Expander) : Prop := e.compileTemplates ∧ e.Paired

/-- Every step keeps the tables paired. -/
theorem InStep.serve {e : Expander} (inStep : e.InStep) (step : RegistryStep) :
    (e.serve step).InStep := by
  -- Only a registration touches the tables, and it writes to both of them.
  obtain ⟨compiles, paired⟩ := inStep
  cases step with
  | register defn =>
    rcases register_cases compiles defn with ⟨_, _, left⟩ | ⟨_, tmpl, compiled, left⟩
    · rw [Expander.serve, left]
      exact ⟨compiles, paired⟩
    · rw [Expander.serve, left]
      exact ⟨compiles, paired.write compiled⟩
  | setResourceLimits limits => exact ⟨compiles, paired.keys, paired.compiled⟩
  | setCacheEnabled enabled => exact ⟨compiles, paired.keys, paired.compiled⟩

/-- The tables are paired after every run. -/
theorem inStep_run {e : Expander} (start : e.InStep) (steps : List RegistryStep) :
    (steps.foldl Expander.serve e).InStep := by
  induction steps generalizing e with
  | nil => exact start
  | cons step steps ih => exact ih (start.serve step)

/-- No more macros than the limit, which is the given one. -/
def WithinLimit (limit : Nat) (e : Expander) : Prop :=
  e.limits.maxRegisteredMacros = limit ∧ e.macros.entries.size ≤ limit

/-- A step that keeps the limit keeps within it. -/
theorem WithinLimit.serve {e : Expander} {limit : Nat} (few : e.WithinLimit limit)
    (compiles : e.compileTemplates) {step : RegistryStep} (keeps : step.KeepsLimit limit) :
    (e.serve step).WithinLimit limit := by
  obtain ⟨same, within⟩ := few
  cases step with
  | register defn =>
    rcases register_cases compiles defn with ⟨_, _, left⟩ | ⟨room, tmpl, compiled, left⟩
    · rw [Expander.serve, left]
      exact ⟨same, within⟩
    · rw [Expander.serve, left]
      refine ⟨same, ?_⟩
      -- An overwrite does not make the table larger, and a fresh name found room.
      dsimp only [MacroTable.insert]
      rw [Std.ExtTreeMap.size_insert]
      split
      · exact within
      · rename_i fresh
        rcases room with present | less
        · exact absurd (Std.ExtTreeMap.mem_iff_isSome_getElem?.mpr present) fresh
        · omega
  | setResourceLimits limits => exact ⟨keeps, within⟩
  | setCacheEnabled enabled => exact ⟨same, within⟩

/-- A run that keeps the limit keeps within it. -/
theorem withinLimit_run {e : Expander} {limit : Nat} (start : e.InStep) (few : e.WithinLimit limit)
    {steps : List RegistryStep} (keep : ∀ step ∈ steps, step.KeepsLimit limit) :
    (steps.foldl Expander.serve e).WithinLimit limit := by
  -- Each step leaves the limit where it is, and the table within it.
  induction steps generalizing e with
  | nil => exact few
  | cons step steps ih =>
    obtain ⟨first, others⟩ := List.forall_mem_cons.mp keep
    exact ih (start.serve step) (few.serve start.1 first) others

/-- Nothing is registered in a new expander. -/
theorem inStep_start (limits : ResourceLimits) (enabled : Bool) :
    ((withLimits limits).setCacheEnabled enabled).InStep := by
  refine ⟨rfl, fun name => ?_, fun name defn found => ?_⟩
  · simp [setCacheEnabled, withLimits, MacroTable.empty, MacroTable.get]
  · simp [setCacheEnabled, withLimits, MacroTable.empty, MacroTable.get] at found

/-- In every run of registrations on an expander that compiles its templates, whatever limits are
set in between: a registration that fails leaves the expander as it was; both tables have the same
names, each with the compiled template of its macro; a name that is registered is never refused
because of the number of macros; and while the limit on that number stays what it is, the table
does not exceed it. -/
theorem registrations_paired (limits : ResourceLimits) (enabled : Bool)
    (steps : List RegistryStep) :
    let start := (withLimits limits).setCacheEnabled enabled
    let e := steps.foldl Expander.serve start
    (∀ defn err, (e.register defn).1 = .error err → (e.register defn).2 = e) ∧
    (∀ name, (e.templates[name]?).isSome ↔ (e.macros.get name).isSome) ∧
    (∀ name defn, e.macros.get name = some defn →
      ∃ tmpl, e.templates[name]? = some tmpl ∧ compileTemplate defn = .ok tmpl) ∧
    (∀ defn name count limit,
      (e.register defn).1 = .error (.registeredMacrosExceeded name count limit) →
        e.macros.get defn.name = none) ∧
    ((∀ step ∈ steps, step.KeepsLimit limits.maxRegisteredMacros) →
      e.macros.entries.size ≤ limits.maxRegisteredMacros) := by
  intro start e
  -- The invariant holds in the state reached, where one more registration is looked at.
  obtain ⟨compiles, paired⟩ := inStep_run (inStep_start limits enabled) steps
  refine ⟨fun defn err failed => ?_, paired.keys, paired.compiled,
    fun defn name count limit failed => ?_, fun keep => ?_⟩
  · rcases register_cases compiles defn with ⟨_, _, left⟩ | ⟨_, _, _, left⟩
    · rw [left]
    · rw [left] at failed
      cases failed
  · rcases register_cases compiles defn with ⟨_, refused, left⟩ | ⟨_, _, _, left⟩
    · rw [left] at failed
      cases failed
      exact get_eq_none_of_exceeded refused
    · rw [left] at failed
      cases failed
  · have empty : start.WithinLimit limits.maxRegisteredMacros :=
      ⟨rfl, by simp [start, setCacheEnabled, withLimits, MacroTable.empty]⟩
    exact (withinLimit_run (inStep_start limits enabled) empty keep).2

end

end Expander

end Tatara.Lisp
