import Mathlib.Data.List.Forall2
import Tatara.Eval.Interpreter

/-! Values that agree: they are the same, up to what their closures have captured of names that
their bodies do not refer to. -/

namespace Tatara.Eval

open Lisp (Sexp Atom)

mutual

/-- A form refers to a name from outside: evaluating the form may look the name up in its
environment. -/
inductive Refers (name : String) : Sexp → Prop
  | symbol : Refers name (.atom (.symbol name))
  | quasiquote {inner : Sexp} (within : RefersWithin name inner) : Refers name (.quasiquote inner)
  | application {head item : Sexp} {args : List Sexp} (plain : specialForm head = none)
      (listed : item ∈ head :: args) (refers : Refers name item) : Refers name (.list (head :: args))
  | operand {head item : Sexp} {args : List Sexp} {form : SpecialForm}
      (special : specialForm head = some form) (each : form = .if ∨ form = .begin ∨ form = .and ∨
        form = .or) (listed : item ∈ args) (refers : Refers name item) :
      Refers name (.list (head :: args))
  | define {head target value : Sexp} {more : List Sexp} (special : specialForm head = some .define)
      (refers : Refers name value) : Refers name (.list (head :: target :: value :: more))
  | lambda {head params item : Sexp} {body : List Sexp} {names : List String}
      {rest : Option String} (special : specialForm head = some .lambda)
      (parsed : parseParams params = .ok (names, rest)) (listed : item ∈ body)
      (refers : Refers name item) (free : name ∉ names) (notRest : rest ≠ some name) :
      Refers name (.list (head :: params :: body))
  | letValue {head binder value : Sexp} {bindings body more : List Sexp}
      (special : specialForm head = some .let) (listed : .list (binder :: value :: more) ∈ bindings)
      (refers : Refers name value) : Refers name (.list (head :: .list bindings :: body))
  | letBody {head item : Sexp} {bindings body : List Sexp} (special : specialForm head = some .let)
      (listed : item ∈ body) (refers : Refers name item)
      (free : name ∉ bindings.filterMap bindingName) :
      Refers name (.list (head :: .list bindings :: body))
  | letrecValue {head binder value : Sexp} {bindings body more : List Sexp}
      (special : specialForm head = some .letrec)
      (listed : .list (binder :: value :: more) ∈ bindings) (refers : Refers name value)
      (free : name ∉ bindings.filterMap bindingName) :
      Refers name (.list (head :: .list bindings :: body))
  | letrecBody {head item : Sexp} {bindings body : List Sexp}
      (special : specialForm head = some .letrec) (listed : item ∈ body)
      (refers : Refers name item) (free : name ∉ bindings.filterMap bindingName) :
      Refers name (.list (head :: .list bindings :: body))

/-- A template refers to a name in what it leaves open. -/
inductive RefersWithin (name : String) : Sexp → Prop
  | unquote {inner : Sexp} (refers : Refers name inner) : RefersWithin name (.unquote inner)
  | splice {items : List Sexp} {inner : Sexp} (listed : .unquoteSplice inner ∈ items)
      (refers : Refers name inner) : RefersWithin name (.list items)
  | item {items : List Sexp} {item : Sexp} (listed : item ∈ items)
      (within : RefersWithin name item) : RefersWithin name (.list items)

end

/-- The body of a closure refers to a name that is none of its parameters. -/
def Closes (params : List String) (rest : Option String) (body : List Sexp) (name : String) :
    Prop :=
  (∃ form ∈ body, Refers name form) ∧ name ∉ params ∧ rest ≠ some name

variable {H : Host}

/-- Values agree when they are the same but for closures, whose environments agree on the names
that are referred to. -/
inductive Agree : Value H → Value H → Prop
  | same (v : Value H) : Agree v v
  | list {items items' : List (Value H)} (each : List.Forall₂ Agree items items') :
      Agree (.list items) (.list items')
  | attrs {fields fields' : List (String × Value H)}
      (keys : fields.map Prod.fst = fields'.map Prod.fst)
      (each : List.Forall₂ Agree (fields.map Prod.snd) (fields'.map Prod.snd)) :
      Agree (.attrs fields) (.attrs fields')
  | lambda {params : List String} {rest : Option String} {body : List Sexp} {env env' : Env H}
      {name : Option String}
      (captured : ∀ x, Closes params rest body x → Option.Rel Agree (env.lookup x) (env'.lookup x)) :
      Agree (.lambda params rest body env name) (.lambda params rest body env' name)

/-- Environments agree on some names. -/
def EnvAgree (names : String → Prop) (env env' : Env H) : Prop :=
  ∀ x, names x → Option.Rel Agree (env.lookup x) (env'.lookup x)

/-- Cells agree when they are in the same state with values and environments that do. -/
inductive CellAgree : ThunkState H → ThunkState H → Prop
  | unevaluated {body : Sexp} {env env' : Env H} (envs : EnvAgree (Refers · body) env env') :
      CellAgree (.unevaluated body env) (.unevaluated body env')
  | evaluating : CellAgree .evaluating .evaluating
  | forced {v v' : Value H} (values : Agree v v') : CellAgree (.forced v) (.forced v')

/-- States agree cell by cell and binding by binding, on one world outside. -/
structure StatesAgree (s t : State H) : Prop where
  cells : List.Forall₂ CellAgree s.cells t.cells
  root : List.Forall₂ (fun p q => p.1 = q.1 ∧ Agree p.2 q.2) s.root t.root
  world : s.world = t.world

/-- Builtins that look at no environment of a closure. -/
class DiscreetBuiltins (H : Host) extends Builtins H where
  discreet : ∀ b args args', List.Forall₂ Agree args args' →
    Lockstep Eq Agree (run b args) (run b args')

section

variable {v w : Value H}

theorem Agree.isTruthy (agree : Agree v w) : v.isTruthy = w.isTruthy := by
  cases agree <;> rfl

instance : Std.Refl (@Agree H) := ⟨.same⟩

/-- What is found, or not, agrees with itself. -/
theorem rel_refl (found : Option (Value H)) : Option.Rel Agree found found := by
  cases found with
  | none => exact .none
  | some v => exact .some (.same v)

end

section

variable {names others : String → Prop} {env env' : Env H}

/-- Environments agree on fewer names as well. -/
theorem EnvAgree.mono (agree : EnvAgree names env env') (fewer : ∀ x, others x → names x) :
    EnvAgree others env env' := fun x asked => agree x (fewer x asked)

theorem EnvAgree.refl (env : Env H) : EnvAgree names env env := fun _ _ => rel_refl _

/-- Binding a name to values that agree makes the environments agree on it too. -/
theorem EnvAgree.extend (agree : EnvAgree names env env') (name : String) {v w : Value H}
    (values : Agree v w) :
    EnvAgree (fun x => names x ∨ x = name) ((name, v) :: env) ((name, w) :: env') := by
  -- The name that is bound is found in front, and any other further back.
  intro x asked
  by_cases own : x = name
  · subst own
    simpa [List.lookup_cons] using Option.Rel.some values
  · have other : (x == name) = false := beq_eq_false_iff_ne.mpr own
    simp only [List.lookup_cons, other]
    exact agree x (asked.resolve_right own)

/-- Binding names in a row to values that agree. -/
theorem EnvAgree.bindAll (agree : EnvAgree names env env') (params : List String)
    {args args' : List (Value H)} (values : List.Forall₂ Agree args args') :
    EnvAgree (fun x => names x ∨ x ∈ (params.zip args).map Prod.fst)
      ((params.zip args).foldl (fun env binding => binding :: env) env)
      ((params.zip args').foldl (fun env binding => binding :: env) env') := by
  -- By induction on the values; the names bound first are the deepest.
  induction values generalizing params names env env' with
  | nil => simpa using agree
  | @cons v w args args' first rest ih =>
    cases params with
    | nil => simpa using agree
    | cons name params =>
      refine (ih (agree.extend name first) params).mono fun x asked => ?_
      rw [List.zip_cons_cons, List.map_cons, List.mem_cons] at asked
      rcases asked with old | own | later
      · exact .inl (.inl old)
      · exact .inl (.inr own)
      · exact .inr later

/-- The parameters of a closure are bound to arguments that agree. -/
theorem EnvAgree.bindParams {params : List String} {rest : Option String}
    {args args' : List (Value H)} (agree : EnvAgree names env env')
    (values : List.Forall₂ Agree args args') (enough : params.length ≤ args.length) :
    EnvAgree (fun x => names x ∨ x ∈ params ∨ rest = some x) (bindParams params rest args env)
      (bindParams params rest args' env') := by
  have bound := agree.bindAll params values
  rw [List.map_fst_zip enough] at bound
  -- A rest parameter is one binding more.
  cases rest with
  | none =>
    refine bound.mono fun x asked => ?_
    rcases asked with old | own | none
    · exact .inl old
    · exact .inr own
    · cases none
  | some name =>
    refine (bound.extend name (.list (List.forall₂_drop params.length values))).mono ?_
    rintro x (old | own | same)
    · exact .inl (.inl old)
    · exact .inl (.inr own)
    · exact .inr (Option.some.inj same).symm

/-- Names bound to the thunks in a row of cells. -/
theorem EnvAgree.bindThunks (agree : EnvAgree names env env') (cell : Nat) (bound : List String) :
    EnvAgree (fun x => names x ∨ x ∈ bound) (bindThunks cell bound env)
      (bindThunks cell bound env') := by
  -- By induction on the names, whose cells follow one another.
  induction bound generalizing cell names env env' with
  | nil => simpa [Eval.bindThunks] using agree
  | cons name rest ih =>
    refine (ih (agree.extend name (.same (.thunk cell))) (cell + 1)).mono fun x asked => ?_
    rcases asked with old | among
    · exact .inl (.inl old)
    · rcases List.mem_cons.mp among with own | later
      · exact .inl (.inr own)
      · exact .inr later

end

end Tatara.Eval
