import Tatara.Rust.Float

/-! S-expressions, their projections, and the text form `Display` gives them. -/

namespace Tatara.Lisp

open Tatara.Rust

/-- The two substitution markers of a template. -/
inductive UnquoteForm where
  | unquote
  | splice
  deriving DecidableEq, Repr

/-- The four prefix wrappers of the surface language. -/
inductive QuoteForm where
  | quote
  | quasiquote
  | unquote
  | unquoteSplice
  deriving DecidableEq, Repr

namespace QuoteForm

/-- The characters a wrapper is written with. -/
def prefixText : QuoteForm → List Char
  | quote => ['\x27']
  | quasiquote => ['\x60']
  | unquote => [',']
  | unquoteSplice => [',', '@']

/-- The wrapper a first character opens, where a comma still waits for its second character. -/
def fromLeadChar (c : Char) : Option QuoteForm :=
  if c = '\x27' then some quote
  else if c = '\x60' then some quasiquote
  else if c = ',' then some unquote
  else none

/-- Only a comma followed by an at sign becomes another wrapper. -/
def promoteViaNextChar : QuoteForm → Char → Option QuoteForm
  | unquote, next => if next = '@' then some unquoteSplice else none
  | _, _ => none

end QuoteForm

/-- The atomic payloads. -/
inductive Atom where
  | symbol (name : String)
  | keyword (name : String)
  | str (text : String)
  | int (value : Int64)
  | float (value : F64)
  | bool (value : Bool)
  deriving DecidableEq, Repr

/-- S-expressions as the reader builds them and the expander rewrites them. -/
inductive Sexp where
  | nil
  | atom (value : Atom)
  | list (items : List Sexp)
  | quote (inner : Sexp)
  | quasiquote (inner : Sexp)
  | unquote (inner : Sexp)
  | unquoteSplice (inner : Sexp)
  deriving Repr

/-- Put a wrapper around a form. -/
def QuoteForm.wrap : QuoteForm → Sexp → Sexp
  | .quote, inner => .quote inner
  | .quasiquote, inner => .quasiquote inner
  | .unquote, inner => .unquote inner
  | .unquoteSplice, inner => .unquoteSplice inner

namespace Sexp

/-- A form is empty, atomic, a list of smaller forms, or one of the four wrappers around one. -/
@[elab_as_elim]
theorem wrapInduction {motive : Sexp → Prop} (nil : motive nil) (atom : ∀ a, motive (atom a))
    (list : ∀ items, (∀ item ∈ items, motive item) → motive (list items))
    (wrap : ∀ (qf : QuoteForm) inner, motive inner → motive (qf.wrap inner)) :
    ∀ form, motive form := by
  -- The recursor descends into the items of a list, and membership collects what it finds there.
  refine @Sexp.rec motive (fun items => ∀ item ∈ items, motive item) nil atom list
    (wrap .quote) (wrap .quasiquote) (wrap .unquote) (wrap .unquoteSplice) ?_ ?_
  · simp
  · intro head tail first rest item member
    rcases List.mem_cons.mp member with rfl | member
    · exact first
    · exact rest item member

/-- What descends into lists only may take every other form as a whole. -/
@[elab_as_elim]
theorem listInduction {motive : Sexp → Prop}
    (step : ∀ form, (∀ items, form = .list items → ∀ item ∈ items, motive item) → motive form) :
    ∀ form, motive form := by
  -- Only a list has items to ask about.
  intro form
  induction form using wrapInduction with
  | nil => exact step _ (by simp)
  | atom a => exact step _ (by simp)
  | list items ih => exact step _ (by intro others same; cases same; exact ih)
  | wrap qf inner => exact step _ (by cases qf <;> simp [QuoteForm.wrap])

mutual

/-- Structural comparison, which descends through lists item by item. -/
def beq : Sexp → Sexp → Bool
  | .nil, .nil => true
  | .atom a, .atom b => a == b
  | .list xs, .list ys => beqItems xs ys
  | .quote a, .quote b => beq a b
  | .quasiquote a, .quasiquote b => beq a b
  | .unquote a, .unquote b => beq a b
  | .unquoteSplice a, .unquoteSplice b => beq a b
  | _, _ => false

/-- Structural comparison of two item lists. -/
def beqItems : List Sexp → List Sexp → Bool
  | [], [] => true
  | x :: xs, y :: ys => beq x y && beqItems xs ys
  | _, _ => false

end

/-- Item lists compare equal exactly when they are equal, given the same for their items. -/
theorem beqItems_iff {xs : List Sexp} (each : ∀ x ∈ xs, ∀ y, beq x y = true ↔ x = y) :
    ∀ ys, beqItems xs ys = true ↔ xs = ys := by
  -- Both lists are consumed together, so their lengths are compared along the way.
  induction xs with
  | nil => intro ys; cases ys <;> simp [beqItems]
  | cons x xs ih =>
    intro ys
    cases ys with
    | nil => simp [beqItems]
    | cons y ys =>
      have tail := ih (fun item member => each item (by simp [member])) ys
      simp [beqItems, each x (by simp) y, tail]

/-- Structural comparison decides equality. -/
theorem beq_iff (a : Sexp) : ∀ b, beq a b = true ↔ a = b := by
  -- Forms of different shape are unequal by construction, and equal shapes compare their parts.
  induction a using wrapInduction with
  | nil => intro b; cases b <;> simp [beq]
  | atom value => intro b; cases b <;> simp [beq]
  | list items ih =>
    intro b
    cases b with
    | list others => simpa [beq] using beqItems_iff ih others
    | _ => simp [beq]
  | wrap qf inner ih => intro b; cases qf <;> cases b <;> simp [QuoteForm.wrap, beq, ih]

instance : DecidableEq Sexp := fun a b => decidable_of_iff _ (beq_iff a b)

/-- The items of a list form. -/
def asList : Sexp → Option (List Sexp)
  | .list items => some items
  | _ => none

/-- The name of a symbol. -/
def asSymbol : Sexp → Option String
  | .atom (.symbol name) => some name
  | _ => none

/-- The operator and arguments of a form whose first item is a symbol. -/
def asCall : Sexp → Option (String × List Sexp)
  | .list (.atom (.symbol head) :: args) => some (head, args)
  | _ => none

/-- A call whose operator the decoder knows. -/
def asCallToAny {α : Type} (decode : String → Option α) (form : Sexp) : Option (α × List Sexp) :=
  form.asCall.bind fun (head, args) => (decode head).map fun known => (known, args)

mutual

/-- The number of nodes in a form, the form itself included. -/
def nodeCount : Sexp → Nat
  | .nil => 1
  | .atom _ => 1
  | .list items => 1 + nodeCountItems items
  | .quote inner => 1 + nodeCount inner
  | .quasiquote inner => 1 + nodeCount inner
  | .unquote inner => 1 + nodeCount inner
  | .unquoteSplice inner => 1 + nodeCount inner

/-- The nodes of all items together. -/
def nodeCountItems : List Sexp → Nat
  | [] => 0
  | x :: xs => nodeCount x + nodeCountItems xs

end

end Sexp

/-- The rendering of a float keeps a fractional part, so that it never reads back as an integer. -/
def fmtFloat (value : F64) : List Char :=
  if value.isFinite && value.isIntegral then value.render ++ ['.', '0'] else value.render

/-- The spelling of the two booleans. -/
def Atom.boolLiteral : Bool → List Char
  | true => ['#', 't']
  | false => ['#', 'f']

/-- `Display` for atoms. -/
def Atom.render [CharTable] : Atom → List Char
  | .symbol name => name.toList
  | .keyword name => ':' :: name.toList
  | .str text => debugStr text.toList
  | .int value => renderI64 value
  | .float value => fmtFloat value
  | .bool value => boolLiteral value

namespace Sexp

mutual

/-- `Display` for forms. -/
def render [CharTable] : Sexp → List Char
  | .nil => ['(', ')']
  | .atom value => value.render
  | .list items => '(' :: (renderItems true items ++ [')'])
  | .quote inner => QuoteForm.quote.prefixText ++ render inner
  | .quasiquote inner => QuoteForm.quasiquote.prefixText ++ render inner
  | .unquote inner => QuoteForm.unquote.prefixText ++ render inner
  | .unquoteSplice inner => QuoteForm.unquoteSplice.prefixText ++ render inner

/-- The items of a list, each but the first behind one space. -/
def renderItems [CharTable] (first : Bool) : List Sexp → List Char
  | [] => []
  | x :: xs => (if first then [] else [' ']) ++ render x ++ renderItems false xs

end

/-- `to_string`. -/
def toString [CharTable] (form : Sexp) : String := String.ofList form.render

/-- A wrapped form is its prefix followed by the form inside. -/
@[simp] theorem render_wrap [CharTable] (qf : QuoteForm) (inner : Sexp) :
    (qf.wrap inner).render = qf.prefixText ++ inner.render := by
  -- Each of the four wrappers is written by its own arm in the same way.
  cases qf <;> simp [QuoteForm.wrap, render]

end Sexp
end Tatara.Lisp
