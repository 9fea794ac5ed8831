import Tatara.Eval.Begin
import Tatara.Lisp.Strategies

/-! Templates without holes: what they evaluate to, and when that is what quoting them gives. -/

namespace Tatara.Eval

open Lisp (Sexp Atom QuoteForm containsUnquote containsUnquoteItems_eq)

variable {H : Host}

mutual

/-- The value of a template without holes; of a wrapper in it only the inside is kept. -/
def quasiValue : Sexp → Value H
  | .quote inner => .quoted inner
  | .quasiquote inner => .quoted inner
  | .list items => .list (quasiValues items)
  | other => sexpToValue other

/-- The values of templates without holes, one after the other. -/
def quasiValues : List Sexp → List (Value H)
  | [] => []
  | form :: rest => quasiValue form :: quasiValues rest

end

mutual

/-- Whether a quote or quasiquote occurs anywhere in a form. -/
def containsWrapper : Sexp → Bool
  | .quote _ => true
  | .quasiquote _ => true
  | .unquote inner => containsWrapper inner
  | .unquoteSplice inner => containsWrapper inner
  | .list items => containsWrapperItems items
  | _ => false

/-- Whether a quote or quasiquote occurs in one of the items. -/
def containsWrapperItems : List Sexp → Bool
  | [] => false
  | x :: xs => containsWrapper x || containsWrapperItems xs

end

/-- Evaluating a template succeeds with the value of the quoted form and changes nothing, given
calls that may nest deep enough. -/
def QuasiIsQuote [Builtins H] (t : Sexp) (env : Env H) (s : State H) : Prop :=
  ∃ enough value, ∀ budget, enough ≤ budget →
    (interp budget).eval (.quasiquote t) env s = some (.ok value, s) ∧
      (interp budget).eval (.quote t) env s = some (.ok value, s)

section values

/-- The values of quoted forms are taken one by one. -/
theorem sexpsToValues_eq (items : List Sexp) :
    (sexpsToValues items : List (Value H)) = items.map sexpToValue := by
  -- Both sides take the items from the left.
  induction items with
  | nil => rfl
  | cons x xs ih => rw [sexpsToValues, ih, List.map_cons]

/-- The values of templates are taken one by one. -/
theorem quasiValues_eq (items : List Sexp) :
    (quasiValues items : List (Value H)) = items.map quasiValue := by
  -- Both sides take the items from the left.
  induction items with
  | nil => rfl
  | cons x xs ih => rw [quasiValues, ih, List.map_cons]

/-- A wrapper occurs in the items when it occurs in one of them. -/
theorem containsWrapperItems_eq (items : List Sexp) :
    containsWrapperItems items = items.any containsWrapper := by
  -- Both sides take the items from the left.
  induction items with
  | nil => rfl
  | cons x xs ih => rw [containsWrapperItems, ih, List.any_cons]

/-- A template has the value of the quoted form when there is no wrapper in it. -/
theorem quasiValue_eq_sexpToValue {t : Sexp} (whole : containsUnquote t = false) :
    (quasiValue t : Value H) = sexpToValue t ↔ containsWrapper t = false := by
  -- A list passes the question on to its items; at a wrapper one side keeps it, the other does not.
  induction t using Sexp.wrapInduction with
  | nil => simp [quasiValue, containsWrapper]
  | atom a => simp [quasiValue, containsWrapper]
  | list items ih =>
    simp only [containsUnquote, containsUnquoteItems_eq, List.any_eq_false] at whole
    have each : ∀ item ∈ items,
        ((quasiValue item : Value H) = sexpToValue item ↔ containsWrapper item = false) :=
      fun item member => ih item member (by simpa using whole item member)
    simp only [quasiValue, sexpToValue, quasiValues_eq, sexpsToValues_eq, containsWrapper,
      containsWrapperItems_eq, Value.list.injEq, List.map_inj_left, List.any_eq_false]
    exact forall₂_congr fun item member => by simp [each item member]
  | wrap qf inner =>
    cases qf with
    -- No form is the inside of itself.
    | quote | quasiquote =>
      simp only [QuoteForm.wrap, quasiValue, sexpToValue, containsWrapper, Value.quoted.injEq,
        Bool.true_eq_false, iff_false]
      intro same
      have sizes := congrArg sizeOf same
      simp at sizes
    | unquote => simp [QuoteForm.wrap, containsUnquote] at whole
    | unquoteSplice => simp [QuoteForm.wrap, containsUnquote] at whole

end values

namespace Interp

variable (I : Interp H)

/-- An item that is no splice is a template of its own. -/
theorem quasiItems_cons {form : Sexp} (rest : List Sexp) (env : Env H)
    (plain : ∀ inner, form ≠ .unquoteSplice inner) :
    I.quasiItems (form :: rest) env =
      (I.quasi form env >>= fun value => I.quasiItems rest env >>= fun values =>
        pure (value :: values)) := by
  cases form with
  | unquoteSplice inner => exact absurd rfl (plain inner)
  | _ => rfl

/-- Items whose templates are values give the list of these. -/
theorem quasiItems_whole {items : List Sexp} {env : Env H}
    (whole : ∀ item ∈ items, containsUnquote item = false)
    (each : ∀ item ∈ items, I.quasi item env = pure (quasiValue item)) :
    I.quasiItems items env = pure (quasiValues items) := by
  -- By induction on the items, none of which is a splice.
  induction items with
  | nil => rfl
  | cons form rest ih =>
    have plain : ∀ inner, form ≠ .unquoteSplice inner := fun inner same => by
      simpa [same, containsUnquote] using whole form List.mem_cons_self
    rw [I.quasiItems_cons rest env plain, each form List.mem_cons_self,
      ih (fun item member => whole item (.tail _ member))
        (fun item member => each item (.tail _ member))]
    rfl

end Interp

/-- No item of a list is larger than all of them together. -/
theorem nodeCount_le_items {items : List Sexp} {item : Sexp} (member : item ∈ items) :
    item.nodeCount ≤ Sexp.nodeCountItems items := by
  induction items with
  | nil => cases member
  | cons x xs ih =>
    show item.nodeCount ≤ x.nodeCount + Sexp.nodeCountItems xs
    rcases List.mem_cons.mp member with rfl | later
    · omega
    · have := ih later
      omega

variable [Builtins H]

/-- A template without holes has its value without any evaluation, given calls that may nest as deep
as it has nodes. -/
theorem interp_quasi {t : Sexp} (whole : containsUnquote t = false) (env : Env H) {budget : Nat}
    (enough : t.nodeCount ≤ budget) : (interp budget).quasi t env = pure (quasiValue t) := by
  -- Only a list asks for more calls, which are about its items and have one less to spend.
  induction t using Sexp.wrapInduction generalizing budget with
  | nil | atom =>
    obtain ⟨budget, rfl⟩ : ∃ n, budget = n + 1 := Nat.exists_eq_add_one.mpr enough
    rfl
  | list items ih =>
    simp only [containsUnquote, containsUnquoteItems_eq, List.any_eq_false, Bool.not_eq_true]
      at whole
    simp only [Sexp.nodeCount] at enough
    obtain ⟨budget, rfl⟩ : ∃ n, budget = n + 1 := Nat.exists_eq_add_one.mpr (by omega)
    have each : ∀ item ∈ items, (interp budget).quasi item env = pure (quasiValue item) := by
      intro item member
      have small := nodeCount_le_items member
      exact ih item member (whole item member) (by omega)
    show ((interp budget).quasiItems items env >>= fun values => pure (Value.list values)) = _
    rw [Interp.quasiItems_whole _ whole each]
    rfl
  | wrap qf inner =>
    cases qf with
    | quote | quasiquote =>
      simp only [QuoteForm.wrap, Sexp.nodeCount] at enough
      obtain ⟨budget, rfl⟩ : ∃ n, budget = n + 1 := Nat.exists_eq_add_one.mpr (by omega)
      rfl
    | unquote => simp [QuoteForm.wrap, containsUnquote] at whole
    | unquoteSplice => simp [QuoteForm.wrap, containsUnquote] at whole

/-- A template without holes is what its quoted form is exactly when there is no quote or quasiquote
in it. -/
theorem quasiIsQuote_iff {t : Sexp} (whole : containsUnquote t = false) (env : Env H)
    (s : State H) : QuasiIsQuote t env s ↔ containsWrapper t = false := by
  rw [← quasiValue_eq_sexpToValue (H := H) whole]
  -- With a budget as large as the template, both evaluations are known.
  have known : ∀ budget, t.nodeCount + 1 ≤ budget →
      (interp budget).eval (.quasiquote t) env s = some (.ok (quasiValue t), s) ∧
        (interp budget).eval (.quote t) env s = some (.ok (sexpToValue t), s) := by
    intro budget enough
    match budget, enough with
    | budget + 1, enough =>
      have quasi := interp_quasi whole env (Nat.le_of_succ_le_succ enough)
      exact ⟨congrFun quasi s, rfl⟩
  constructor
  · rintro ⟨enough, value, alike⟩
    -- Some budget is large enough for both.
    obtain ⟨quasi, quote⟩ := alike (max enough (t.nodeCount + 1)) (Nat.le_max_left _ _)
    obtain ⟨quasi', quote'⟩ := known (max enough (t.nodeCount + 1)) (Nat.le_max_right _ _)
    simp only [quasi', Option.some.injEq, Prod.mk.injEq, Except.ok.injEq] at quasi
    simp only [quote', Option.some.injEq, Prod.mk.injEq, Except.ok.injEq] at quote
    rw [quasi.1, quote.1]
  · intro same
    exact ⟨t.nodeCount + 1, quasiValue t, fun budget enough =>
      ⟨(known budget enough).1, same ▸ (known budget enough).2⟩⟩

section

/-- A list with atoms and an empty list in it. -/
def plainTemplate : Sexp :=
  .list [.atom (.symbol "x"), .list [], .atom (.int 1)]

/-- A list of atoms and lists is the same quoted and as a template. -/
theorem quasiIsQuote_plain :
    containsUnquote plainTemplate = false ∧
      (QuasiIsQuote plainTemplate [] emptyState ↔ containsWrapper plainTemplate = false) :=
  ⟨rfl, quasiIsQuote_iff rfl [] emptyState⟩

/-- A quoted name is another value as a template than it is quoted. -/
theorem not_quasiIsQuote_quoted :
    containsUnquote (.quote (.atom (.symbol "x"))) = false ∧
      ¬ QuasiIsQuote (.quote (.atom (.symbol "x"))) [] emptyState := by
  refine ⟨rfl, ?_⟩
  rintro ⟨enough, value, alike⟩
  obtain ⟨quasi, quote⟩ := alike (enough + 2) (Nat.le_add_right _ _)
  -- The one keeps the name only, the other the quote as well.
  cases quasi
  cases quote

end

end Tatara.Eval
