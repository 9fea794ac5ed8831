import Mathlib.Data.List.Basic
import Mathlib.Data.List.Induction
import Tatara.Lisp.Macro

/-! When the compiled template and the substituted template of a macro agree. -/

namespace Tatara.Lisp

open Tatara.Rust

mutual

/-- The forms a node of a template contributes to the list around it. -/
def emit (value : String → Sexp) : Sexp → List Sexp
  | .unquote inner =>
    match inner.asSymbol with
    | some name => [value name]
    | none => [.unquote inner]
  | .unquoteSplice inner =>
    match inner.asSymbol with
    | some name => spliceValueInto [] (value name)
    | none => [.unquoteSplice inner]
  | .list items => [.list (emitItems value items)]
  | form => [form]

/-- The forms the items of a template's list contribute to it. -/
def emitItems (value : String → Sexp) : List Sexp → List Sexp
  | [] => []
  | x :: xs => emit value x ++ emitItems value xs

end

mutual

/-- The names that are unquoted where a template is filled in. -/
def liveNames : Sexp → List String
  | .unquote inner => inner.asSymbol.toList
  | .unquoteSplice inner => inner.asSymbol.toList
  | .list items => liveNamesItems items
  | _ => []

/-- The names that are unquoted in the items of a template's list. -/
def liveNamesItems : List Sexp → List String
  | [] => []
  | x :: xs => liveNames x ++ liveNamesItems xs

end

/-- A name stands at two places of a parameter list. -/
def Repeats (names : List String) (name : String) : Prop :=
  ∃ i j : Nat, i < j ∧ names[i]? = some name ∧ names[j]? = some name

/-- The items contribute one after another. -/
theorem emitItems_eq (value : String → Sexp) (items : List Sexp) :
    emitItems value items = items.flatMap (emit value) := by
  -- Both sides take the items from the left.
  induction items with
  | nil => rfl
  | cons x xs ih => rw [emitItems, ih, List.flatMap_cons]

/-- The names unquoted in the items are those unquoted in one of them. -/
theorem liveNamesItems_eq (items : List Sexp) :
    liveNamesItems items = items.flatMap liveNames := by
  -- Both sides take the items from the left.
  induction items with
  | nil => rfl
  | cons x xs ih => rw [liveNamesItems, ih, List.flatMap_cons]

/-- An unquote occurs in the items when it occurs in one of them. -/
theorem containsUnquoteItems_eq (items : List Sexp) :
    containsUnquoteItems items = items.any containsUnquote := by
  -- Both sides take the items from the left.
  induction items with
  | nil => rfl
  | cons x xs ih => rw [containsUnquoteItems, ih, List.any_cons]

/-- Splicing only appends to what was built. -/
theorem spliceValueInto_append (builder : List Sexp) (value : Sexp) :
    spliceValueInto builder value = builder ++ spliceValueInto [] value := by
  -- Each of the three coercions extends the builder.
  cases value <;> simp [spliceValueInto]

/-- What a node contributes depends only on the values of the names it unquotes. -/
theorem emit_congr {value other : String → Sexp} {node : Sexp}
    (agree : ∀ name ∈ liveNames node, value name = other name) :
    emit value node = emit other node := by
  -- Only an unquote looks at a value, and a list passes the question on to its items.
  induction node using Sexp.wrapInduction with
  | nil => rfl
  | atom a => rfl
  | list items ih =>
    simp only [liveNames, liveNamesItems_eq, List.mem_flatMap] at agree
    have each : ∀ item ∈ items, emit value item = emit other item :=
      fun item member => ih item member fun name live => agree name ⟨item, member, live⟩
    simp only [emit, emitItems_eq, List.flatMap_congr each]
  | wrap qf inner =>
    cases qf with
    | quote => rfl
    | quasiquote => rfl
    | unquote =>
      cases named : inner.asSymbol with
      | none => simp [QuoteForm.wrap, emit, named]
      | some name =>
        simp [QuoteForm.wrap, emit, named, agree name (by simp [QuoteForm.wrap, liveNames, named])]
    | unquoteSplice =>
      cases named : inner.asSymbol with
      | none => simp [QuoteForm.wrap, emit, named]
      | some name =>
        simp [QuoteForm.wrap, emit, named, agree name (by simp [QuoteForm.wrap, liveNames, named])]

/-- A node without unquotes contributes itself. -/
theorem emit_literal (value : String → Sexp) {node : Sexp}
    (literal : containsUnquote node = false) : emit value node = [node] := by
  -- A list is rebuilt from items that contribute themselves.
  induction node using Sexp.wrapInduction with
  | nil => rfl
  | atom a => rfl
  | list items ih =>
    simp only [containsUnquote, containsUnquoteItems_eq, List.any_eq_false] at literal
    have each : ∀ item ∈ items, emit value item = [item] :=
      fun item member => ih item member (by simpa using literal item member)
    simp only [emit, emitItems_eq, List.flatMap_congr each, List.flatMap_singleton']
  | wrap qf inner =>
    cases qf with
    | quote => rfl
    | quasiquote => rfl
    | unquote => simp [QuoteForm.wrap, containsUnquote] at literal
    | unquoteSplice => simp [QuoteForm.wrap, containsUnquote] at literal

/-- Running two pieces of code is running the first and then the second. -/
theorem runOps_append (macroName : String) (args : List Sexp) (front back : List TemplateOp)
    (stack : List (List Sexp)) :
    runOps macroName args (front ++ back) stack =
      (runOps macroName args front stack).bind (runOps macroName args back) := by
  -- The first piece is taken one instruction at a time.
  induction front generalizing stack with
  | nil => rfl
  | cons op front ih =>
    simp only [List.cons_append, runOps]
    cases stepOp macroName args stack op with
    | error halt => rfl
    | ok stack => exact ih stack

/-- The value bound at a name's first place in the parameter list. -/
def firstValue (names : List String) (values : List Sexp) (name : String) : Sexp :=
  ((names.findIdx? (· == name)).bind (values[·]?)).getD .nil

/-- The value a name is mapped to. -/
def boundValue (bindings : Bindings) (name : String) : Sexp := bindings[name]?.getD .nil

/-- A parameter's first value is the value at its index. -/
theorem getElem?_firstValue {names : List String} {values : List Sexp}
    (same : values.length = names.length) {name : String} {idx : Nat}
    (found : names.findIdx? (· == name) = some idx) :
    values[idx]? = some (firstValue names values name) := by
  -- The index lies inside the list of values because it lies inside the list of names.
  have inside : idx < values.length := by
    rw [same]
    exact (List.findIdx?_eq_some_iff_getElem.mp found).1
  simp [firstValue, found, List.getElem?_eq_getElem inside]

/-- A node that is emitted whole: it holds no unquote, or a quotation shields the ones it holds. -/
def Inert (node : Sexp) : Prop :=
  containsUnquote node = false ∨ (∃ inner, node = .quote inner) ∨ ∃ inner, node = .quasiquote inner

/-- An inert node contributes itself. -/
theorem Inert.emit_eq {node : Sexp} (inert : Inert node) (value : String → Sexp) :
    emit value node = [node] := by
  -- Quotations are not looked into.
  rcases inert with literal | ⟨inner, rfl⟩ | ⟨inner, rfl⟩
  · exact emit_literal value literal
  · rfl
  · rfl

/-- A name with an index is one of the parameters. -/
theorem mem_of_findIdx? {names : List String} {name : String} {idx : Nat}
    (found : names.findIdx? (· == name) = some idx) : name ∈ names := by
  -- The name at the index is the one that was looked for.
  obtain ⟨inside, hit, -⟩ := List.findIdx?_eq_some_iff_getElem.mp found
  exact (eq_of_beq hit) ▸ List.getElem_mem inside

/-- An inert node unquotes nothing that is filled in. -/
theorem Inert.liveNames_eq {node : Sexp} (inert : Inert node) : liveNames node = [] := by
  -- Quotations are not looked into, and elsewhere there is nothing to find.
  rcases inert with literal | ⟨inner, rfl⟩ | ⟨inner, rfl⟩
  · induction node using Sexp.listInduction with
    | step node ih =>
      cases node with
      | list items =>
        simp only [containsUnquote, containsUnquoteItems_eq, List.any_eq_false,
          Bool.not_eq_true] at literal
        simp only [liveNames, liveNamesItems_eq, List.flatMap_eq_nil_iff]
        exact fun item member => ih items rfl item member (literal item member)
      | unquote inner => simp [containsUnquote] at literal
      | unquoteSplice inner => simp [containsUnquote] at literal
      | _ => rfl
  · rfl
  · rfl

section strategies

variable [CharTable]

/-- A resolved unquote names a parameter. -/
theorem resolveUnquoteInParams_ok {inner : Sexp} {names : List String} {marker : UnquoteForm}
    {idx : Nat} (resolved : resolveUnquoteInParams inner names marker = .ok idx) :
    ∃ name, inner.asSymbol = some name ∧ names.findIdx? (· == name) = some idx := by
  -- Both gates have passed.
  unfold resolveUnquoteInParams unquoteTargetSymbol at resolved
  cases named : inner.asSymbol with
  | none => simp [named] at resolved
  | some name =>
    simp only [named, resolveParamIndex] at resolved
    cases found : names.findIdx? (· == name) with
    | none => simp [found] at resolved
    | some i =>
      simp only [found, Except.ok.injEq] at resolved
      exact ⟨name, rfl, by rw [← resolved]; exact found⟩

/-- What a node can compile to. -/
theorem compileNode_cases {names : List String} {node : Sexp} {ops : List TemplateOp}
    (compiled : compileNode names node = .ok ops) :
    (Inert node ∧ ops = [.literal node]) ∨
    (∃ inner name idx, node = .unquote inner ∧ inner.asSymbol = some name ∧
      names.findIdx? (· == name) = some idx ∧ ops = [.subst idx]) ∨
    (∃ inner name idx, node = .unquoteSplice inner ∧ inner.asSymbol = some name ∧
      names.findIdx? (· == name) = some idx ∧ ops = [.splice idx]) ∨
    ∃ items body, node = .list items ∧ compileItems names items = .ok body ∧
      ops = .beginList :: (body ++ [.endList]) := by
  -- The literal fast path comes first, and the shape of the node decides the rest.
  rw [compileNode.eq_def] at compiled
  split at compiled
  · rename_i literal
    cases compiled
    exact .inl ⟨.inl literal, rfl⟩
  · rename_i unquotes
    split at compiled
    · rename_i inner
      cases resolved : resolveUnquoteInParams inner names .unquote with
      | error err => simp [resolved, Except.map] at compiled
      | ok idx =>
        simp only [resolved, Except.map, Except.ok.injEq] at compiled
        obtain ⟨name, named, found⟩ := resolveUnquoteInParams_ok resolved
        exact .inr (.inl ⟨inner, name, idx, rfl, named, found, compiled.symm⟩)
    · rename_i inner
      cases resolved : resolveUnquoteInParams inner names .splice with
      | error err => simp [resolved, Except.map] at compiled
      | ok idx =>
        simp only [resolved, Except.map, Except.ok.injEq] at compiled
        obtain ⟨name, named, found⟩ := resolveUnquoteInParams_ok resolved
        exact .inr (.inr (.inl ⟨inner, name, idx, rfl, named, found, compiled.symm⟩))
    · rename_i items
      cases inner : compileItems names items with
      | error err => simp [inner, Except.map] at compiled
      | ok body =>
        simp only [inner, Except.map, Except.ok.injEq] at compiled
        exact .inr (.inr (.inr ⟨items, body, rfl, inner, compiled.symm⟩))
    · rename_i notUnquote notSplice notList
      cases compiled
      -- Of the forms that hold an unquote, only the quotations are left.
      refine .inl ⟨?_, rfl⟩
      cases node with
      | nil => exact .inl rfl
      | atom a => exact .inl rfl
      | list items => exact absurd rfl (notList items)
      | quote inner => exact .inr (.inl ⟨inner, rfl⟩)
      | quasiquote inner => exact .inr (.inr ⟨inner, rfl⟩)
      | unquote inner => exact absurd rfl (notUnquote inner)
      | unquoteSplice inner => exact absurd rfl (notSplice inner)

/-- The code of a list's items starts with the code of the first. -/
theorem compileItems_cons {names : List String} {x : Sexp} {xs : List Sexp} {ops : List TemplateOp}
    (compiled : compileItems names (x :: xs) = .ok ops) :
    ∃ front back, compileNode names x = .ok front ∧ compileItems names xs = .ok back ∧
      ops = front ++ back := by
  -- Both pieces compile, or the whole would not.
  rw [compileItems] at compiled
  cases first : compileNode names x with
  | error err => simp [first] at compiled
  | ok front =>
    cases others : compileItems names xs with
    | error err => simp [first, others, Except.map] at compiled
    | ok back =>
      simp only [first, others, Except.map, Except.ok.injEq] at compiled
      exact ⟨front, back, rfl, rfl, compiled.symm⟩

/-- Every item of compiled items compiles. -/
theorem compileItems_mem {names : List String} {items : List Sexp} {ops : List TemplateOp}
    (compiled : compileItems names items = .ok ops) {item : Sexp} (member : item ∈ items) :
    ∃ ops, compileNode names item = .ok ops := by
  -- The code of the items is taken apart one item at a time.
  induction items generalizing ops with
  | nil => simp at member
  | cons x xs ih =>
    obtain ⟨front, back, first, others, -⟩ := compileItems_cons compiled
    rcases List.mem_cons.mp member with rfl | member
    · exact ⟨front, first⟩
    · exact ih others member

/-- The code of a list's items appends what they contribute, if the code of each item does. -/
theorem runOps_compileItems {names : List String} {values : List Sexp} {macroName : String}
    {items : List Sexp}
    (each : ∀ item ∈ items, ∀ ops, compileNode names item = .ok ops → ∀ top below,
      runOps macroName values ops (top :: below) =
        .ok ((top ++ emit (firstValue names values) item) :: below))
    {ops : List TemplateOp} (compiled : compileItems names items = .ok ops)
    (top : List Sexp) (below : List (List Sexp)) :
    runOps macroName values ops (top :: below) =
      .ok ((top ++ items.flatMap (emit (firstValue names values))) :: below) := by
  -- The items extend the current list one after another.
  induction items generalizing ops top with
  | nil =>
    cases compiled
    simp [runOps]
  | cons x xs ih =>
    obtain ⟨front, back, first, others, rfl⟩ := compileItems_cons compiled
    have tail := ih (fun item member => each item (by simp [member])) others
    rw [runOps_append, each x (by simp) front first top below]
    simp only [Except.bind, tail, List.flatMap_cons, List.append_assoc]

/-- The code of a node appends what the node contributes to the current list. -/
theorem runOps_compileNode {names : List String} {values : List Sexp} (macroName : String)
    (same : values.length = names.length) {node : Sexp} {ops : List TemplateOp}
    (compiled : compileNode names node = .ok ops) (top : List Sexp) (below : List (List Sexp)) :
    runOps macroName values ops (top :: below) =
      .ok ((top ++ emit (firstValue names values) node) :: below) := by
  -- The induction is on the node, with the current list and those below it left open.
  induction node using Sexp.listInduction generalizing ops top below with
  | step node ih =>
    rcases compileNode_cases compiled with
      ⟨inert, rfl⟩ | ⟨inner, name, idx, rfl, named, found, rfl⟩ |
      ⟨inner, name, idx, rfl, named, found, rfl⟩ | ⟨items, body, rfl, inside, rfl⟩
    · simp [inert.emit_eq, runOps, stepOp, onCurrentBuilder]
    · simp [runOps, stepOp, getElem?_firstValue same found, onCurrentBuilder, emit, named]
    · simp [runOps, stepOp, getElem?_firstValue same found, onCurrentBuilder, emit, named,
        ← spliceValueInto_append]
    · -- A fresh list is built above the current one and then moved into it.
      have run := runOps_compileItems
        (fun item member ops compiled => ih items rfl item member compiled) inside [] (top :: below)
      simp only [runOps, stepOp, runOps_append, run, Except.bind]
      simp [onCurrentBuilder, emit, emitItems_eq]

/-- An item that the substitution loop handles, and what it appends for it. -/
def Substitutes (bindings : Bindings) (item : Sexp) : Prop :=
  (∃ inner value, item = .unquoteSplice inner ∧
    resolveUnquoteInBindings inner bindings .splice = .ok value ∧
    emit (boundValue bindings) item = spliceValueInto [] value) ∨
  ((∀ inner, item ≠ .unquoteSplice inner) ∧ ∃ value, substitute bindings item = .ok value ∧
    emit (boundValue bindings) item = [value])

/-- The substitution loop appends what each item contributes. -/
theorem substituteItems_eq {bindings : Bindings} {items : List Sexp}
    (each : ∀ item ∈ items, Substitutes bindings item) (out : List Sexp) :
    substituteItems bindings out items =
      .ok (out ++ items.flatMap (emit (boundValue bindings))) := by
  -- A splice takes the first arm of the loop and every other item the second.
  induction items generalizing out with
  | nil => simp [substituteItems]
  | cons x xs ih =>
    have tail := ih fun item member => each item (by simp [member])
    rcases each x (by simp) with
      ⟨inner, value, rfl, resolved, emitted⟩ | ⟨notSplice, value, substituted, emitted⟩
    · rw [substituteItems, resolved]
      simp only [tail, spliceValueInto_append out value, List.flatMap_cons, emitted,
        List.append_assoc]
    · rw [substituteItems]
      · simp only [substituted, tail, List.flatMap_cons, emitted, List.append_assoc]
      · exact notSplice

/-- A list is substituted by the list of what its items contribute. -/
theorem substitute_list {bindings : Bindings} {items : List Sexp}
    (each : ∀ item ∈ items, Substitutes bindings item) :
    substitute bindings (.list items) =
      .ok (.list (items.flatMap (emit (boundValue bindings)))) := by
  -- The loop starts from an empty list.
  simp [substitute, substituteItems_eq each, Except.map]

/-- Substitution leaves a form without unquotes as it is. -/
theorem substitute_literal (bindings : Bindings) {node : Sexp}
    (literal : containsUnquote node = false) : substitute bindings node = .ok node := by
  -- A list is rebuilt from items that are left as they are.
  induction node using Sexp.listInduction with
  | step node ih =>
    cases node with
    | list items =>
      have whole := emit_literal (boundValue bindings) literal
      simp only [containsUnquote, containsUnquoteItems_eq, List.any_eq_false,
        Bool.not_eq_true] at literal
      simp only [emit, emitItems_eq, List.cons.injEq, Sexp.list.injEq, and_true] at whole
      have each : ∀ item ∈ items, Substitutes bindings item := by
        intro item member
        have inert := literal item member
        refine .inr ⟨?_, item, ih items rfl item member inert, emit_literal _ inert⟩
        rintro inner rfl
        simp [containsUnquote] at inert
      rw [substitute_list each, whole]
    | unquote inner => simp [containsUnquote] at literal
    | unquoteSplice inner => simp [containsUnquote] at literal
    | nil => rfl
    | atom a => rfl
    | quote inner => rfl
    | quasiquote inner => rfl

/-- Substitution leaves an inert node as it is. -/
theorem Inert.substitute_eq {node : Sexp} (inert : Inert node) (bindings : Bindings) :
    substitute bindings node = .ok node := by
  -- Quotations are not looked into.
  rcases inert with literal | ⟨inner, rfl⟩ | ⟨inner, rfl⟩
  · exact substitute_literal bindings literal
  · rfl
  · rfl

/-- An unquote of a bound name resolves to the name's value. -/
theorem resolveUnquoteInBindings_eq {bindings : Bindings} {inner : Sexp} {name : String}
    (named : inner.asSymbol = some name) (bound : bindings[name]?.isSome) (marker : UnquoteForm) :
    resolveUnquoteInBindings inner bindings marker = .ok (boundValue bindings name) := by
  -- Both gates pass.
  obtain ⟨value, found⟩ := Option.isSome_iff_exists.mp bound
  simp [resolveUnquoteInBindings, unquoteTargetSymbol, named, resolveBinding, boundValue, found]

/-- Every compiled node is one that substitution handles. -/
theorem substitutes_of_compileNode {names : List String} {bindings : Bindings}
    (bound : ∀ name ∈ names, bindings[name]?.isSome) {node : Sexp} {ops : List TemplateOp}
    (compiled : compileNode names node = .ok ops) : Substitutes bindings node := by
  -- The induction follows the lists of the template.
  induction node using Sexp.listInduction generalizing ops with
  | step node ih =>
    rcases compileNode_cases compiled with
      ⟨inert, rfl⟩ | ⟨inner, name, idx, rfl, named, found, rfl⟩ |
      ⟨inner, name, idx, rfl, named, found, rfl⟩ | ⟨items, body, rfl, inside, rfl⟩
    · refine .inr ⟨?_, node, inert.substitute_eq bindings, inert.emit_eq _⟩
      rintro inner rfl
      have whole := inert.substitute_eq bindings
      cases whole
    · have resolved :=
        resolveUnquoteInBindings_eq named (bound name (mem_of_findIdx? found)) .unquote
      exact .inr ⟨by simp, _, by rw [substitute]; exact resolved, by simp [emit, named]⟩
    · have resolved :=
        resolveUnquoteInBindings_eq named (bound name (mem_of_findIdx? found)) .splice
      exact .inl ⟨inner, _, rfl, resolved, by simp [emit, named]⟩
    · have each : ∀ item ∈ items, Substitutes bindings item := by
        intro item member
        obtain ⟨ops, compiled⟩ := compileItems_mem inside member
        exact ih items rfl item member compiled
      exact .inr ⟨by simp, _, substitute_list each, by simp [emit, emitItems_eq]⟩

/-- The names a compiled node unquotes are parameters. -/
theorem liveNames_mem {names : List String} {node : Sexp} {ops : List TemplateOp}
    (compiled : compileNode names node = .ok ops) : ∀ name ∈ liveNames node, name ∈ names := by
  -- An inert node unquotes nothing that is filled in, and every other unquote was resolved.
  induction node using Sexp.listInduction generalizing ops with
  | step node ih =>
    intro name live
    rcases compileNode_cases compiled with
      ⟨inert, rfl⟩ | ⟨inner, other, idx, rfl, named, found, rfl⟩ |
      ⟨inner, other, idx, rfl, named, found, rfl⟩ | ⟨items, body, rfl, inside, rfl⟩
    · rw [inert.liveNames_eq] at live
      simp at live
    · simp only [liveNames, named, Option.toList_some, List.mem_singleton] at live
      exact live ▸ mem_of_findIdx? found
    · simp only [liveNames, named, Option.toList_some, List.mem_singleton] at live
      exact live ▸ mem_of_findIdx? found
    · simp only [liveNames, liveNamesItems_eq, List.mem_flatMap] at live
      obtain ⟨item, member, live⟩ := live
      obtain ⟨ops, compiled⟩ := compileItems_mem inside member
      exact ih items rfl item member compiled name live

/-- A template that compiles has a body other than a splice, and the body's code. -/
theorem compileTemplate_ok {defn : MacroDef} {tmpl : CompiledTemplate}
    (compiled : compileTemplate defn = .ok tmpl) :
    (∀ inner, defn.templateBody ≠ .unquoteSplice inner) ∧
      compileNode defn.params.names defn.templateBody = .ok tmpl.ops := by
  -- The gate on a splice comes before the body is compiled.
  unfold compileTemplate at compiled
  split at compiled
  · cases compiled
  · rename_i body notSplice
    refine ⟨fun inner same => notSplice inner same, ?_⟩
    cases inner : compileNode defn.params.names defn.templateBody with
    | error err => simp [inner, Except.map] at compiled
    | ok ops =>
      simp only [inner, Except.map, Except.ok.injEq] at compiled
      simp [← compiled]

end strategies

/-- A node other than a splice contributes one form. -/
theorem emit_one (value : String → Sexp) {node : Sexp}
    (notSplice : ∀ inner, node ≠ .unquoteSplice inner) : ∃ form, emit value node = [form] := by
  -- Only a splice may contribute several forms or none.
  cases node with
  | unquoteSplice inner => exact absurd rfl (notSplice inner)
  | unquote inner => cases named : inner.asSymbol <;> simp [emit, named]
  | _ => simp [emit]

/-- Required parameters are bound one value each. -/
theorem bindRequired_length {macroName : String} {args : List Sexp} {i : Nat}
    {required : List String} {values : List Sexp}
    (bound : MacroParams.bindRequired macroName args i required = .ok values) :
    values.length = required.length := by
  -- Each parameter takes the argument at its own position.
  induction required generalizing i values with
  | nil => cases bound; rfl
  | cons name required ih =>
    rw [MacroParams.bindRequired] at bound
    split at bound
    · cases bound
    · rename_i arg _
      cases rest : MacroParams.bindRequired macroName args (i + 1) required with
      | error err => simp [rest, Except.map] at bound
      | ok others =>
        simp only [rest, Except.map, Except.ok.injEq] at bound
        simp [← bound, ih rest]

/-- Optional parameters are bound one value each. -/
theorem bindOptional_length (args : List Sexp) (i : Nat) (optional : List OptionalParam) :
    (MacroParams.bindOptional args i optional).length = optional.length := by
  -- Each parameter takes its argument or its default.
  induction optional generalizing i with
  | nil => rfl
  | cons param optional ih => simp [MacroParams.bindOptional, ih]

/-- A call that binds gives each parameter one value. -/
theorem bind_length {params : MacroParams} {macroName : String} {args values : List Sexp}
    (bound : params.bind macroName args = .ok values) :
    values.length = params.names.length := by
  -- The rest parameter takes one list of all further arguments.
  unfold MacroParams.bind at bound
  cases required : MacroParams.bindRequired macroName args 0 params.required with
  | error err => simp [required] at bound
  | ok values' =>
    have lengths := bindRequired_length required
    simp only [required] at bound
    split at bound
    · rename_i rest found
      cases bound
      simp [MacroParams.names, lengths, bindOptional_length, found]
    · rename_i absent
      split at bound
      · cases bound
      · cases bound
        simp [MacroParams.names, lengths, bindOptional_length, absent]

/-- A key is mapped to the value of its last pair. -/
theorem collectBindings_last (pairs : List (String × Sexp)) {name : String}
    (present : name ∈ pairs.map (·.1)) :
    ∃ (j : Nat) (value : Sexp), pairs[j]? = some (name, value) ∧
      (∀ (k : Nat) other, pairs[k]? = some (name, other) → k ≤ j) ∧
      (collectBindings pairs)[name]? = some value := by
  -- The pairs are inserted from the left, so the induction adds one at the end.
  induction pairs using List.reverseRecOn with
  | nil => simp at present
  | append_singleton pairs pair ih =>
    obtain ⟨key, value⟩ := pair
    have extended : collectBindings (pairs ++ [(key, value)]) =
        (collectBindings pairs).insert key value := by
      simp [collectBindings, List.foldl_append]
    rw [extended, Std.ExtTreeMap.getElem?_insert]
    by_cases same : key = name
    · -- The new pair is the last one with this key.
      subst same
      refine ⟨pairs.length, value, by simp, ?_, by simp⟩
      intro k other found
      have inside := (List.getElem?_eq_some_iff.mp found).1
      simp only [List.length_append, List.length_singleton] at inside
      omega
    · have earlier : name ∈ pairs.map (·.1) := by
        simpa [Ne.symm same, fun h => same (Eq.symm h)] using present
      obtain ⟨j, found, located, last, bound⟩ := ih earlier
      have inside := (List.getElem?_eq_some_iff.mp located).1
      refine ⟨j, found, by rw [List.getElem?_append_left inside]; exact located, ?_, ?_⟩
      · intro k other hit
        by_cases before : k < pairs.length
        · rw [List.getElem?_append_left before] at hit
          exact last k other hit
        · have bounds := (List.getElem?_eq_some_iff.mp hit).1
          simp only [List.length_append, List.length_singleton] at bounds
          have atEnd : k = pairs.length := by omega
          subst atEnd
          simp at hit
          exact absurd hit.1 same
      · simpa [same] using bound

/-- A parameter is mapped to the value at its last place. -/
theorem boundValue_last {names : List String} {values : List Sexp}
    (same : values.length = names.length) {name : String} (member : name ∈ names) :
    ∃ j : Nat, names[j]? = some name ∧ (∀ k : Nat, names[k]? = some name → k ≤ j) ∧
      (collectBindings (names.zip values))[name]? = values[j]? := by
  -- Names and values are zipped, so their places correspond.
  have keys : (names.zip values).map (·.1) = names := List.map_fst_zip (by omega)
  obtain ⟨j, value, located, last, bound⟩ := collectBindings_last (names.zip values)
    (by rw [keys]; exact member)
  rw [List.getElem?_zip_eq_some] at located
  refine ⟨j, located.1, ?_, by rw [bound, located.2]⟩
  intro k hit
  have inside := (List.getElem?_eq_some_iff.mp hit).1
  refine last k (values.get ⟨k, by omega⟩) ?_
  rw [List.getElem?_zip_eq_some]
  exact ⟨hit, by simp⟩

/-- A parameter's first value is the value at its first place. -/
theorem firstValue_first {names : List String} {values : List Sexp}
    (same : values.length = names.length) {name : String} (member : name ∈ names) :
    ∃ i : Nat, names[i]? = some name ∧ (∀ k : Nat, names[k]? = some name → i ≤ k) ∧
      values[i]? = some (firstValue names values name) := by
  -- The index that the search returns is the first one with the name.
  cases found : names.findIdx? (· == name) with
  | none =>
    rw [List.findIdx?_eq_none_iff] at found
    simpa using found name member
  | some i =>
    obtain ⟨inside, hit, before⟩ := List.findIdx?_eq_some_iff_getElem.mp found
    refine ⟨i, ?_, ?_, getElem?_firstValue same found⟩
    · rw [List.getElem?_eq_getElem inside, eq_of_beq hit]
    · intro k hit'
      by_contra earlier
      obtain ⟨bound, equal⟩ := List.getElem?_eq_some_iff.mp hit'
      exact before k (by omega) (by simp [equal])

/-- The first and the last value of a name are the same if it is not repeated. -/
theorem firstValue_eq_boundValue {names : List String} {values : List Sexp}
    (same : values.length = names.length) {name : String} (member : name ∈ names)
    (once : ¬ Repeats names name) :
    firstValue names values name = boundValue (collectBindings (names.zip values)) name := by
  -- Both places hold the name, so they are one place.
  obtain ⟨i, hitFirst, first, valueFirst⟩ := firstValue_first same member
  obtain ⟨j, hitLast, last, valueLast⟩ := boundValue_last same member
  have places : i = j := by
    by_contra apart
    exact once ⟨i, j, by have := last i hitFirst; omega, hitFirst, hitLast⟩
  simp [boundValue, valueLast, ← places, valueFirst]

/-- A form that tells its own number. -/
def marker (n : Nat) : Sexp := .atom (.symbol (String.ofList (List.replicate n 'a')))

/-- Markers of different numbers differ. -/
theorem marker_inj {m n : Nat} (same : marker m = marker n) : m = n := by
  -- The number is the length of the name.
  simp only [marker, Sexp.atom.injEq, Atom.symbol.injEq, String.ofList_inj] at same
  simpa using congrArg List.length same

/-- A call with one marker for each parameter. -/
def markerArgs (params : MacroParams) : List Sexp := (List.range params.totalArity).map marker

/-- What a marker call binds at a place, where the rest parameter holds a list of one. -/
def markerValue (params : MacroParams) (i : Nat) : Sexp :=
  if i < params.fixedArity then marker i else .list [marker i]

/-- Places of a marker call are told apart by their values. -/
theorem markerValue_inj {params : MacroParams} {i j : Nat}
    (same : markerValue params i = markerValue params j) : i = j := by
  -- A marker is never a list.
  unfold markerValue at same
  split at same <;> split at same
  · exact marker_inj same
  · simp [marker] at same
  · simp [marker] at same
  · simp only [Sexp.list.injEq, List.cons.injEq, and_true] at same
    exact marker_inj same

/-- Splicing a value of a marker call appends its marker. -/
theorem spliceValueInto_markerValue (params : MacroParams) (i : Nat) :
    spliceValueInto [] (markerValue params i) = [marker i] := by
  -- The rest parameter's list has one item.
  unfold markerValue
  split <;> simp [spliceValueInto, marker]

/-- Required parameters take the arguments from their position on, when there are enough. -/
theorem bindRequired_enough (macroName : String) (args : List Sexp) (i : Nat)
    (required : List String) (enough : i + required.length ≤ args.length) :
    MacroParams.bindRequired macroName args i required =
      .ok ((args.drop i).take required.length) := by
  -- Each parameter finds the argument at its own position.
  induction required generalizing i with
  | nil => simp [MacroParams.bindRequired]
  | cons name required ih =>
    simp only [List.length_cons] at enough
    have inside : i < args.length := by omega
    rw [MacroParams.bindRequired, List.getElem?_eq_getElem inside]
    simp only [ih (i + 1) (by omega), Except.map]
    rw [List.drop_eq_getElem_cons inside, List.length_cons, List.take_succ_cons]

/-- Optional parameters take the arguments from their position on, when there are enough. -/
theorem bindOptional_enough (args : List Sexp) (i : Nat) (optional : List OptionalParam)
    (enough : i + optional.length ≤ args.length) :
    MacroParams.bindOptional args i optional = (args.drop i).take optional.length := by
  -- No default is needed.
  induction optional generalizing i with
  | nil => simp [MacroParams.bindOptional]
  | cons param optional ih =>
    simp only [List.length_cons] at enough
    have inside : i < args.length := by omega
    rw [MacroParams.bindOptional, List.getElem?_eq_getElem inside, ih (i + 1) (by omega),
      List.drop_eq_getElem_cons inside, List.length_cons, List.take_succ_cons]
    rfl

/-- A marker call binds, and each place holds its own marker. -/
theorem bind_markerArgs (params : MacroParams) (macroName : String) :
    params.bind macroName (markerArgs params) =
      .ok ((List.range params.names.length).map (markerValue params)) := by
  have lengths : (markerArgs params).length = params.totalArity := by simp [markerArgs]
  have required := bindRequired_enough macroName (markerArgs params) 0 params.required
    (by simp only [lengths, MacroParams.totalArity, MacroParams.fixedArity]; omega)
  have optional := bindOptional_enough (markerArgs params) params.required.length params.optional
    (by simp only [lengths, MacroParams.totalArity, MacroParams.fixedArity]; omega)
  -- The fixed parameters take the first arguments in order.
  have fixed : (markerArgs params).take params.fixedArity =
      (List.range params.fixedArity).map (markerValue params) := by
    have shorter : min params.fixedArity params.totalArity = params.fixedArity := by
      simp only [MacroParams.totalArity]; omega
    rw [markerArgs, ← List.map_take, List.take_range, shorter]
    refine List.map_congr_left fun i member => ?_
    rw [markerValue, if_pos (List.mem_range.mp member)]
  unfold MacroParams.bind
  simp only [required, List.drop_zero, optional, ← List.take_add]
  rw [show params.required.length + params.optional.length = params.fixedArity from rfl, fixed]
  cases found : params.rest with
  | none =>
    have places : params.names.length = params.fixedArity := by
      simp [MacroParams.names, MacroParams.fixedArity, found]
    have saturated : (markerArgs params).length = params.fixedArity := by
      simp [lengths, MacroParams.totalArity, found]
    simp [saturated, places]
  | some rest =>
    -- The rest parameter takes the one argument that is left.
    have places : params.names.length = params.fixedArity + 1 := by
      simp [MacroParams.names, MacroParams.fixedArity, found, Nat.add_assoc]
    have left : (markerArgs params).drop params.fixedArity = [marker params.fixedArity] := by
      simp [markerArgs, MacroParams.totalArity, found, List.range_succ]
    simp [places, List.range_succ, left, markerValue]

/-- A node filled in with the values of a marker call contributes one form. -/
theorem length_emit_markerValue {params : MacroParams} {value : String → Sexp} {node : Sexp}
    (filled : ∀ name ∈ liveNames node, ∃ i, value name = markerValue params i) :
    (emit value node).length = 1 := by
  -- A splice appends one marker, and every other node contributes one form anyway.
  cases node with
  | unquoteSplice inner =>
    cases named : inner.asSymbol with
    | none => simp [emit, named]
    | some name =>
      obtain ⟨i, place⟩ := filled name (by simp [liveNames, named])
      simp [emit, named, place, spliceValueInto_markerValue]
  | unquote inner => cases named : inner.asSymbol <;> simp [emit, named]
  | _ => simp [emit]

/-- Lists that are put together from pieces of length one agree only piece by piece. -/
theorem flatMap_inj {α β : Type} {f g : α → List β} {xs : List α}
    (left : ∀ x ∈ xs, (f x).length = 1) (right : ∀ x ∈ xs, (g x).length = 1)
    (same : xs.flatMap f = xs.flatMap g) : ∀ x ∈ xs, f x = g x := by
  -- The first pieces have the same length, so they end at the same place.
  induction xs with
  | nil => simp
  | cons x xs ih =>
    rw [List.flatMap_cons, List.flatMap_cons] at same
    obtain ⟨first, others⟩ := List.append_inj same
      (by rw [left x (by simp), right x (by simp)])
    have tail := ih (fun y member => left y (by simp [member]))
      (fun y member => right y (by simp [member])) others
    simpa [first] using tail

/-- Two ways to fill in a template with markers give the same form only if they take each unquoted
name from the same place. -/
theorem emit_markerValue_inj {params : MacroParams} {value other : String → Sexp}
    {i j : String → Nat} {node : Sexp}
    (left : ∀ name ∈ liveNames node, value name = markerValue params (i name))
    (right : ∀ name ∈ liveNames node, other name = markerValue params (j name))
    (same : emit value node = emit other node) : ∀ name ∈ liveNames node, i name = j name := by
  -- Every item of a list contributes one form, so the forms are compared item by item.
  induction node using Sexp.listInduction with
  | step node ih =>
    cases node with
    | list items =>
      simp only [liveNames, liveNamesItems_eq, List.mem_flatMap] at left right ⊢
      simp only [emit, emitItems_eq, List.cons.injEq, Sexp.list.injEq, and_true] at same
      have each := flatMap_inj
        (fun item member => length_emit_markerValue fun name live =>
          ⟨i name, left name ⟨item, member, live⟩⟩)
        (fun item member => length_emit_markerValue fun name live =>
          ⟨j name, right name ⟨item, member, live⟩⟩) same
      rintro name ⟨item, member, live⟩
      exact ih items rfl item member (fun name live => left name ⟨item, member, live⟩)
        (fun name live => right name ⟨item, member, live⟩) (each item member) name live
    | unquote inner =>
      intro name live
      have named : inner.asSymbol = some name := by simpa [liveNames] using live
      simp only [emit, named, List.cons.injEq, and_true, left name live, right name live] at same
      exact markerValue_inj same
    | unquoteSplice inner =>
      intro name live
      have named : inner.asSymbol = some name := by simpa [liveNames] using live
      simp only [emit, named, left name live, right name live, spliceValueInto_markerValue,
        List.cons.injEq, and_true] at same
      exact marker_inj same
    | _ => simp [liveNames]

/-- A marker call shows the first place of each parameter. -/
theorem firstValue_marker {params : MacroParams} {name : String} (member : name ∈ params.names) :
    ∃ i : Nat, (∀ k : Nat, params.names[k]? = some name → i ≤ k) ∧
      firstValue params.names ((List.range params.names.length).map (markerValue params)) name =
        markerValue params i := by
  -- The value at each place is that place's marker.
  obtain ⟨i, hit, first, value⟩ := firstValue_first
    (bind_length (bind_markerArgs params "")) member
  have inside := (List.getElem?_eq_some_iff.mp hit).1
  exact ⟨i, first, by simpa [inside] using value.symm⟩

/-- A marker call shows the last place of each parameter. -/
theorem boundValue_marker {params : MacroParams} {name : String} (member : name ∈ params.names) :
    ∃ j : Nat, (∀ k : Nat, params.names[k]? = some name → k ≤ j) ∧
      boundValue (collectBindings
        (params.names.zip ((List.range params.names.length).map (markerValue params)))) name =
        markerValue params j := by
  -- The value at each place is that place's marker.
  obtain ⟨j, hit, last, value⟩ := boundValue_last
    (bind_length (bind_markerArgs params "")) member
  have inside := (List.getElem?_eq_some_iff.mp hit).1
  exact ⟨j, last, by simp [boundValue, value, inside]⟩

section agreement

variable [CharTable]

/-- Running the code of a template fills it in with each name's first value. -/
theorem applyCompiled_eq {defn : MacroDef} {tmpl : CompiledTemplate}
    (compiled : compileTemplate defn = .ok tmpl) {args values : List Sexp}
    (bound : defn.params.bind defn.name args = .ok values) :
    ∃ form, emit (firstValue defn.params.names values) defn.templateBody = [form] ∧
      applyCompiled defn.name defn.params tmpl args = .ok form := by
  -- The code leaves the one form the body contributes in the outermost list.
  obtain ⟨notSplice, code⟩ := compileTemplate_ok compiled
  obtain ⟨form, emitted⟩ := emit_one (firstValue defn.params.names values) notSplice
  have run := runOps_compileNode defn.name (bind_length bound) code [] []
  rw [emitted, List.nil_append] at run
  exact ⟨form, emitted, by simp [applyCompiled, bound, run]⟩

/-- Substituting in a template fills it in with each name's last value. -/
theorem applySubstitute_eq {defn : MacroDef} {tmpl : CompiledTemplate}
    (compiled : compileTemplate defn = .ok tmpl) {args values : List Sexp}
    (bound : defn.params.bind defn.name args = .ok values) :
    ∃ form, emit (boundValue (collectBindings (defn.params.names.zip values)))
        defn.templateBody = [form] ∧
      applySubstitute defn args = .ok form := by
  -- Every parameter is bound, so substitution handles the body.
  obtain ⟨notSplice, code⟩ := compileTemplate_ok compiled
  have total : ∀ name ∈ defn.params.names,
      (collectBindings (defn.params.names.zip values))[name]?.isSome := by
    intro name member
    obtain ⟨j, hit, -, value⟩ := boundValue_last (bind_length bound) member
    have inside := (List.getElem?_eq_some_iff.mp hit).1
    rw [value, List.getElem?_eq_getElem (by rw [bind_length bound]; exact inside)]
    rfl
  rcases substitutes_of_compileNode total code with
    ⟨inner, _, splice, -⟩ | ⟨-, form, substituted, emitted⟩
  · exact absurd splice (notSplice inner)
  · refine ⟨form, emitted, ?_⟩
    simp [applySubstitute, bindArgs, bound, Except.map, substituted, Except.mapError]

/-- A compiled macro expands every call as substitution does, exactly when no name that its
template unquotes is repeated among its parameters. -/
theorem applyCompiled_eq_substitute_iff (defn : MacroDef) (tmpl : CompiledTemplate)
    (compiled : compileTemplate defn = .ok tmpl) :
    (∀ args, applyCompiled defn.name defn.params tmpl args = applySubstitute defn args) ↔
      ∀ name ∈ liveNames defn.templateBody, ¬ Repeats defn.params.names name := by
  obtain ⟨-, code⟩ := compileTemplate_ok compiled
  have known := liveNames_mem code
  constructor
  · -- A call with markers shows from which place each name is taken.
    intro agree name live repeated
    have bound := bind_markerArgs defn.params defn.name
    obtain ⟨form, emitted, run⟩ := applyCompiled_eq compiled bound
    obtain ⟨form', emitted', substituted⟩ := applySubstitute_eq compiled bound
    have same : form = form' := by
      have equal := (run.symm.trans (agree (markerArgs defn.params))).trans substituted
      exact Except.ok.inj equal
    -- Each unquoted name has a first and a last place.
    choose! i first firstIs using fun name live => firstValue_marker (known name live)
    choose! j last lastIs using fun name live => boundValue_marker (known name live)
    have places := emit_markerValue_inj firstIs lastIs
      (emitted.trans ((congrArg (fun form => [form]) same).trans emitted'.symm)) name live
    obtain ⟨k, l, before, hit, hit'⟩ := repeated
    have low := first name live k hit
    have high := last name live l hit'
    omega
  · intro once args
    cases bound : defn.params.bind defn.name args with
    | error err =>
      -- Both strategies bind first, and they fail in the same way.
      simp [applyCompiled, applySubstitute, bindArgs, bound, Except.map]
    | ok values =>
      obtain ⟨form, emitted, run⟩ := applyCompiled_eq compiled bound
      obtain ⟨form', emitted', substituted⟩ := applySubstitute_eq compiled bound
      have agree := emit_congr fun name live =>
        firstValue_eq_boundValue (bind_length bound) (known name live) (once name live)
      have same : [form] = [form'] := emitted.symm.trans (agree.trans emitted')
      rw [run, substituted, List.cons.inj same |>.1]

end agreement

/-- A macro with one parameter, whose template unquotes it once. -/
def wrapDef : MacroDef :=
  ⟨"f", ⟨["x"], [], none⟩,
    .quasiquote (.list [.atom (.symbol "list"), .unquote (.atom (.symbol "x"))])⟩

/-- The two strategies agree on every call of a macro without repeated names. -/
theorem applyCompiled_eq_substitute_wrapDef :
    @compileTemplate asciiTable wrapDef =
      .ok ⟨[.beginList, .literal (.atom (.symbol "list")), .subst 0, .endList]⟩ ∧
    ∀ args, applyCompiled wrapDef.name wrapDef.params
        ⟨[.beginList, .literal (.atom (.symbol "list")), .subst 0, .endList]⟩ args =
      @applySubstitute asciiTable wrapDef args := by
  have compiled : @compileTemplate asciiTable wrapDef =
      .ok ⟨[.beginList, .literal (.atom (.symbol "list")), .subst 0, .endList]⟩ := by decide +kernel
  refine ⟨compiled, (@applyCompiled_eq_substitute_iff asciiTable wrapDef _ compiled).mpr ?_⟩
  -- The only parameter stands at one place.
  rintro name - ⟨i, j, before, hit, hit'⟩
  have inside := (List.getElem?_eq_some_iff.mp hit').1
  simp only [wrapDef, MacroParams.names, List.map_nil, Option.toList_none, List.append_nil,
    List.length_singleton] at inside
  omega

/-- The bytecode takes the first of two parameters with one name and substitution takes the last,
so the strategies do not agree on every macro. -/
theorem applyCompiled_ne_substitute_repeated :
    ¬ ∀ (form : Sexp) (defn : MacroDef) (tmpl : CompiledTemplate) (args : List Sexp),
      @macroDefFrom asciiTable form = .ok (some defn) →
      @compileTemplate asciiTable defn = .ok tmpl →
      applyCompiled defn.name defn.params tmpl args = @applySubstitute asciiTable defn args := by
  -- The macro is (defmacro f (x x) (list ,x)), quasiquoted, and the call is (f 1 2).
  intro agree
  have differ := agree
    (.list [.atom (.symbol "defmacro"), .atom (.symbol "f"),
      .list [.atom (.symbol "x"), .atom (.symbol "x")],
      .quasiquote (.list [.atom (.symbol "list"), .unquote (.atom (.symbol "x"))])])
    ⟨"f", ⟨["x", "x"], [], none⟩,
      .quasiquote (.list [.atom (.symbol "list"), .unquote (.atom (.symbol "x"))])⟩
    ⟨[.beginList, .literal (.atom (.symbol "list")), .subst 0, .endList]⟩
    [.atom (.int 1), .atom (.int 2)] (by decide +kernel) (by decide +kernel)
  exact absurd differ (by decide +kernel)

end Tatara.Lisp
