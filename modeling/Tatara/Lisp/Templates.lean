import Tatara.Lisp.Strategies

/-! What a template means, and that its compiled code computes it. -/

namespace Tatara.Lisp

open Tatara.Rust

/-- What a spliced value contributes to the list around it. -/
def spliced : Sexp → List Sexp
  | .list items => items
  | .nil => []
  | other => [other]

/-- The value at the first place of a name. -/
def paramValue (names : List String) (values : List Sexp) (name : String) : Option Sexp :=
  (names.findIdx? (· == name)).bind (values[·]?)

mutual

/-- The form that a template stands for, where its parameters have the given values. -/
def meaning (names : List String) (values : List Sexp) : Sexp → Option Sexp
  | .unquote inner => inner.asSymbol.bind (paramValue names values)
  -- A splice has a meaning only among the items of a list.
  | .unquoteSplice _ => none
  | .list items => (meaningItems names values items).map .list
  -- Atoms and quotations are copied.
  | form => some form

/-- The items that the items of a template's list stand for. -/
def meaningItems (names : List String) (values : List Sexp) : List Sexp → Option (List Sexp)
  | [] => some []
  | .unquoteSplice inner :: rest => do
    let value ← inner.asSymbol.bind (paramValue names values)
    let others ← meaningItems names values rest
    return spliced value ++ others
  | item :: rest => do
    let form ← meaning names values item
    let others ← meaningItems names values rest
    return form :: others

end

/-- Splicing into an empty list leaves what the value contributes. -/
theorem spliceValueInto_nil (value : Sexp) : spliceValueInto [] value = spliced value := by
  cases value <;> rfl

/-- A parameter has its first value. -/
theorem paramValue_eq {names : List String} {values : List Sexp}
    (same : values.length = names.length) {name : String} {idx : Nat}
    (found : names.findIdx? (· == name) = some idx) :
    paramValue names values name = some (firstValue names values name) := by
  rw [paramValue, found, Option.bind_some, getElem?_firstValue same found]

section

variable {names : List String} {values : List Sexp}

/-- A node that stands for what it contributes: a splice contributes the items of its value, and
every other node the one form it means. -/
def Meant (names : List String) (values : List Sexp) (node : Sexp) : Prop :=
  (∃ inner value, node = .unquoteSplice inner ∧
    inner.asSymbol.bind (paramValue names values) = some value ∧
    emit (firstValue names values) node = spliced value) ∨
  ((∀ inner, node ≠ .unquoteSplice inner) ∧ ∃ form, meaning names values node = some form ∧
    emit (firstValue names values) node = [form])

/-- Items that each stand for what they contribute do so together. -/
theorem meaningItems_eq {items : List Sexp} (each : ∀ item ∈ items, Meant names values item) :
    meaningItems names values items = some (items.flatMap (emit (firstValue names values))) := by
  induction items with
  | nil => rfl
  | cons item rest ih =>
    have others := ih fun other member => each other (List.mem_cons_of_mem _ member)
    rw [List.flatMap_cons]
    rcases each item List.mem_cons_self with
      ⟨inner, value, rfl, bound, emitted⟩ | ⟨notSplice, form, meant, emitted⟩
    · -- A splice is taken apart, and the other items follow.
      simp [meaningItems, bound, others, emitted]
    · rw [meaningItems]
      · simp [meant, others, emitted]
      · exact notSplice

/-- A node without unquotes means itself. -/
theorem meant_literal {node : Sexp} (literal : containsUnquote node = false) :
    Meant names values node ∧ meaning names values node = some node := by
  have emitted := emit_literal (firstValue names values) literal
  -- The two statements follow from the second one, which goes by induction on lists.
  suffices means : meaning names values node = some node by
    refine ⟨.inr ⟨?_, node, means, emitted⟩, means⟩
    rintro inner rfl
    cases means
  induction node using Sexp.listInduction with
  | step node ih =>
    cases node with
    | list items =>
      have inside := literal
      simp only [containsUnquote, containsUnquoteItems_eq, List.any_eq_false,
        Bool.not_eq_true] at inside
      have each : ∀ item ∈ items, Meant names values item := by
        intro item member
        have means := ih items rfl item member (inside item member)
          (emit_literal _ (inside item member))
        refine .inr ⟨?_, item, means, emit_literal _ (inside item member)⟩
        rintro inner rfl
        cases means
      simp only [emit, emitItems_eq, List.cons.injEq, Sexp.list.injEq, and_true] at emitted
      rw [meaning, meaningItems_eq each, emitted]
      rfl
    | unquote inner => cases literal
    | unquoteSplice inner => cases literal
    | nil => rfl
    | atom a => rfl
    | quote inner => rfl
    | quasiquote inner => rfl

/-- Nodes that are emitted whole mean themselves. -/
theorem Inert.meant {node : Sexp} (inert : Inert node) : Meant names values node := by
  rcases inert with literal | ⟨inner, rfl⟩ | ⟨inner, rfl⟩
  · exact (meant_literal literal).1
  -- What a quotation shields is not looked at.
  · exact .inr ⟨by simp, _, rfl, rfl⟩
  · exact .inr ⟨by simp, _, rfl, rfl⟩

variable [CharTable]

/-- Every node that compiles has a meaning, which is what it contributes. -/
theorem meant_of_compileNode (same : values.length = names.length) {node : Sexp}
    {ops : List TemplateOp} (compiled : compileNode names node = .ok ops) :
    Meant names values node := by
  -- The induction follows the lists of the template.
  induction node using Sexp.listInduction generalizing ops with
  | step node ih =>
    rcases compileNode_cases compiled with
      ⟨inert, -⟩ | ⟨inner, name, idx, rfl, named, found, -⟩ |
      ⟨inner, name, idx, rfl, named, found, -⟩ | ⟨items, body, rfl, inside, -⟩
    · exact inert.meant
    · have bound := paramValue_eq same found
      refine .inr ⟨by simp, firstValue names values name, ?_, by simp [emit, named]⟩
      rw [meaning, named, Option.bind_some, bound]
    · have bound := paramValue_eq same found
      refine .inl ⟨inner, firstValue names values name, rfl, ?_, ?_⟩
      · rw [named, Option.bind_some, bound]
      · simp [emit, named, spliceValueInto_nil]
    · have each : ∀ item ∈ items, Meant names values item := by
        intro item member
        obtain ⟨code, itemCompiled⟩ := compileItems_mem inside member
        exact ih items rfl item member itemCompiled
      refine .inr ⟨by simp, _, ?_, by rw [emit, emitItems_eq]⟩
      rw [meaning, meaningItems_eq each]
      rfl

end

section

variable [CharTable]

/-- The code of a template runs through and leaves one form, in the outermost list and with no
other list above it, and that form is what the template means for the values that were bound. -/
theorem applyCompiled_meaning (defn : MacroDef) (tmpl : CompiledTemplate)
    (compiled : compileTemplate defn = .ok tmpl) (args values : List Sexp)
    (bound : defn.params.bind defn.name args = .ok values) :
    ∃ form, meaning defn.params.names values defn.templateBody = some form ∧
      runOps defn.name values tmpl.ops [[]] = .ok [[form]] ∧
      applyCompiled defn.name defn.params tmpl args = .ok form := by
  obtain ⟨notSplice, code⟩ := compileTemplate_ok compiled
  have same := bind_length bound
  -- The body is no splice, so that it contributes the one form it means.
  rcases meant_of_compileNode same code with
    ⟨inner, value, splice, -⟩ | ⟨-, form, means, emitted⟩
  · exact absurd splice (notSplice inner)
  · have run := runOps_compileNode defn.name same code [] []
    rw [emitted, List.nil_append] at run
    exact ⟨form, means, run, by simp [applyCompiled, bound, run]⟩

end

/-- A macro whose template fills in, splices, and quotes. -/
def spliceDef : MacroDef :=
  ⟨"f", ⟨["x"], [], some "xs"⟩,
    .quasiquote (.list [.atom (.symbol "g"), .unquote (.atom (.symbol "x")),
      .unquoteSplice (.atom (.symbol "xs")), .quote (.unquote (.atom (.symbol "x")))])⟩

/-- The call (f 1 2 3) becomes (g 1 2 3 ',x). -/
theorem applyCompiled_meaning_spliceDef :
    ∃ form, meaning spliceDef.params.names
        [.atom (.int 1), .list [.atom (.int 2), .atom (.int 3)]] spliceDef.templateBody =
          some form ∧
      runOps spliceDef.name [.atom (.int 1), .list [.atom (.int 2), .atom (.int 3)]]
        [.beginList, .literal (.atom (.symbol "g")), .subst 0, .splice 1,
          .literal (.quote (.unquote (.atom (.symbol "x")))), .endList] [[]] = .ok [[form]] ∧
      applyCompiled spliceDef.name spliceDef.params
        ⟨[.beginList, .literal (.atom (.symbol "g")), .subst 0, .splice 1,
          .literal (.quote (.unquote (.atom (.symbol "x")))), .endList]⟩
        [.atom (.int 1), .atom (.int 2), .atom (.int 3)] = .ok form :=
  @applyCompiled_meaning asciiTable spliceDef _ (by decide +kernel)
    [.atom (.int 1), .atom (.int 2), .atom (.int 3)]
    [.atom (.int 1), .list [.atom (.int 2), .atom (.int 3)]] (by decide +kernel)

end Tatara.Lisp
