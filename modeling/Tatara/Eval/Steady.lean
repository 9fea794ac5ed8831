import Tatara.Eval.Agreement

/-! Evaluation in environments that agree on what a form refers to goes the same way. -/

namespace Tatara.Eval

open Lisp (Sexp Atom)

variable {H : Host}

/-- An interpreter goes the same way in environments that agree on what is referred to. -/
structure Interp.Steady (I : Interp H) : Prop where
  eval : ∀ {form env env'}, EnvAgree (Refers · form) env env' →
    Lockstep StatesAgree Agree (I.eval form env) (I.eval form env')
  quasi : ∀ {form env env'}, EnvAgree (RefersWithin · form) env env' →
    Lockstep StatesAgree Agree (I.quasi form env) (I.quasi form env')
  force : ∀ {v w}, Agree v w → Lockstep StatesAgree Agree (I.force v) (I.force w)

section

variable {env env' : Env H}

theorem lockstep_raise {α β : Type} {R : α → β → Prop} (e : EvalError) :
    Lockstep (StatesAgree (H := H)) R (raise e) (raise e) := .fail _

theorem lockstep_malformed {α β : Type} {R : α → β → Prop} (form reason : String) :
    Lockstep (StatesAgree (H := H)) R (malformed form reason) (malformed form reason) := .fail _

/-- Atoms are evaluated alike. -/
theorem evalAtom_lockstep {atom : Atom} (agree : EnvAgree (Refers · (.atom atom)) env env') :
    Lockstep StatesAgree Agree (evalAtom atom env) (evalAtom atom env') := by
  -- Only a symbol looks at its environment.
  cases atom with
  | symbol name =>
    have found := agree name .symbol
    simp only [evalAtom]
    generalize env.lookup name = x at found
    generalize env'.lookup name = y at found
    cases found with
    | none => exact lockstep_raise _
    | some values => exact .pure values
  | keyword | str | int | float | bool => exact .pure (.same _)

/-- A lambda captures environments that agree on what its body refers to. -/
theorem sfLambda_lockstep {head : Sexp} {args : List Sexp}
    (special : specialForm head = some .lambda)
    (agree : EnvAgree (Refers · (.list (head :: args))) env env') :
    Lockstep StatesAgree Agree (sfLambda (head :: args) env) (sfLambda (head :: args) env') := by
  -- The closure captures the environment, which agrees on what its body refers to.
  unfold sfLambda
  split
  · rename_i _ params first more same
    obtain ⟨rfl, rfl⟩ := List.cons.inj same
    cases parsed : parseParams params with
    | error e => exact lockstep_raise e
    | ok both =>
      obtain ⟨names, rest⟩ := both
      refine .pure (.lambda fun x closes => agree x ?_)
      obtain ⟨⟨form, listed, refers⟩, free, notRest⟩ := closes
      exact .lambda special parsed listed refers free notRest
  · exact lockstep_malformed _ _

/-- Installing values that agree. -/
theorem define_lockstep (name : String) {v w : Value H} (values : Agree v w) :
    Lockstep StatesAgree (fun _ _ => True) (define name v) (define name w) :=
  .change fun _ _ states =>
    ⟨trivial, states.cells, .cons ⟨rfl, values⟩ states.root, states.world⟩

/-- Setting cells that agree. -/
theorem setCell_lockstep (cell : Nat) {c d : ThunkState H} (cells : CellAgree c d) :
    Lockstep StatesAgree (fun _ _ => True) (setCell cell c) (setCell cell d) :=
  .change fun _ _ states =>
    ⟨trivial, forall₂_set states.cells cell cells, states.root, states.world⟩

end

namespace Interp.Steady

variable {I : Interp H} {env env' : Env H}

/-- Bodies are evaluated alike. -/
theorem evalBodyFrom (steady : I.Steady) {forms : List Sexp} {last last' : Value H}
    (values : Agree last last')
    (agree : ∀ form ∈ forms, EnvAgree (Refers · form) env env') :
    Lockstep StatesAgree Agree (I.evalBodyFrom last forms env)
      (I.evalBodyFrom last' forms env') := by
  -- By induction on the forms.
  induction forms generalizing last last' with
  | nil => exact .pure values
  | cons form rest ih =>
    obtain ⟨first, others⟩ := List.forall_mem_cons.mp agree
    exact (steady.eval first).bind fun _ _ values => ih values others

/-- A body is evaluated alike. -/
theorem evalBody (steady : I.Steady) {forms : List Sexp}
    (agree : ∀ form ∈ forms, EnvAgree (Refers · form) env env') :
    Lockstep StatesAgree Agree (I.evalBody forms env) (I.evalBody forms env') :=
  steady.evalBodyFrom (.same .nil) agree

/-- Arguments are evaluated alike. -/
theorem evalArgs (steady : I.Steady) {forms : List Sexp}
    (agree : ∀ form ∈ forms, EnvAgree (Refers · form) env env') :
    Lockstep StatesAgree (List.Forall₂ Agree) (I.evalArgs forms env) (I.evalArgs forms env') := by
  -- By induction on the forms.
  induction forms with
  | nil => exact .pure .nil
  | cons form rest ih =>
    obtain ⟨first, others⟩ := List.forall_mem_cons.mp agree
    exact (steady.eval first).bind fun _ _ value =>
      (ih others).bind fun _ _ values => .pure (.cons value values)

/-- Values that agree are forced alike. -/
theorem forceAll (steady : I.Steady) {args args' : List (Value H)}
    (values : List.Forall₂ Agree args args') :
    Lockstep StatesAgree (List.Forall₂ Agree) (I.forceAll args) (I.forceAll args') := by
  -- By induction on the values, side by side.
  induction values with
  | nil => exact .pure .nil
  | cons first _ ih =>
    exact (steady.force first).bind fun _ _ value =>
      ih.bind fun _ _ values => .pure (.cons value values)

/-- The items of templates are evaluated alike. -/
theorem quasiItems (steady : I.Steady) {items : List Sexp}
    (agree : EnvAgree (RefersWithin · (.list items)) env env') :
    Lockstep StatesAgree (List.Forall₂ Agree) (I.quasiItems items env)
      (I.quasiItems items env') := by
  -- By induction on the items; a splice spreads a list, and anything else gives one item.
  induction items with
  | nil => exact .pure .nil
  | cons item rest ih =>
    have later := ih (agree.mono fun x within => by
      cases within with
      | splice listed refers => exact .splice (List.mem_cons_of_mem _ listed) refers
      | item listed within => exact .item (List.mem_cons_of_mem _ listed) within)
    have whole : Lockstep StatesAgree Agree (I.quasi item env) (I.quasi item env') :=
      steady.quasi (agree.mono fun x within => .item List.mem_cons_self within)
    have append := fun (v w : Value H) (value : Agree v w) =>
      later.bind fun vs ws values => @Lockstep.pure (State H) (State H) Failure _ _ StatesAgree _
        (v :: vs) (w :: ws) (List.Forall₂.cons value values)
    cases item with
    | unquoteSplice form =>
      refine (steady.eval (agree.mono fun x refers => .splice List.mem_cons_self refers)).bind
        fun v w value => ?_
      cases value with
      | same v =>
        cases v with
        | list spread =>
          exact later.bind fun _ _ values =>
            .pure (List.rel_append (List.forall₂_refl _) values)
        | _ => exact lockstep_raise _
      | list each =>
        exact later.bind fun _ _ values => .pure (List.rel_append each values)
      | attrs => exact lockstep_raise _
      | lambda => exact lockstep_raise _
    | nil | atom | list | quote | quasiquote | unquote => exact whole.bind append

/-- Templates are evaluated alike. -/
theorem evalQuasiquote (steady : I.Steady) {inner : Sexp}
    (agree : EnvAgree (RefersWithin · inner) env env') :
    Lockstep StatesAgree Agree (I.evalQuasiquote inner env) (I.evalQuasiquote inner env') := by
  -- Only unquoted forms and lists are evaluated within a template.
  cases inner with
  | unquote form => exact steady.eval (agree.mono fun _ refers => .unquote refers)
  | list items => exact (steady.quasiItems agree).bind fun _ _ values => .pure (.list values)
  | unquoteSplice => exact lockstep_malformed _ _
  | atom | nil | quote | quasiquote => exact .pure (.same _)

/-- The branch that is taken depends on a value that agrees. -/
theorem ite_lockstep {v w : Value H} (values : Agree v w) {x x' y y' : Evaluation H (Value H)}
    (yes : Lockstep StatesAgree Agree x x') (no : Lockstep StatesAgree Agree y y') :
    Lockstep StatesAgree Agree (if v.isTruthy then x else y)
      (if w.isTruthy then x' else y') := by
  -- Both take the same branch.
  rw [values.isTruthy]
  split
  · exact yes
  · exact no

/-- Conditionals are evaluated alike. -/
theorem sfIf (steady : I.Steady) {head : Sexp} {args : List Sexp}
    (agree : ∀ form ∈ args, EnvAgree (Refers · form) env env') :
    Lockstep StatesAgree Agree (I.sfIf (head :: args) env) (I.sfIf (head :: args) env') := by
  -- The conditions agree, so both sides take the same branch.
  unfold Interp.sfIf
  split
  · rename_i _ c t same
    obtain ⟨rfl, rfl⟩ := List.cons.inj same
    simp only [List.forall_mem_cons] at agree
    exact (steady.eval agree.1).bind fun _ _ values =>
      ite_lockstep values (steady.eval agree.2.1) (.pure (.same _))
  · rename_i _ c t e same
    obtain ⟨rfl, rfl⟩ := List.cons.inj same
    simp only [List.forall_mem_cons] at agree
    exact (steady.eval agree.1).bind fun _ _ values =>
      ite_lockstep values (steady.eval agree.2.1) (steady.eval agree.2.2.1)
  · exact lockstep_malformed _ _

/-- Forms in a row are evaluated alike as long as they are true. -/
theorem andFrom (steady : I.Steady) {forms : List Sexp} {last last' : Value H}
    (values : Agree last last')
    (agree : ∀ form ∈ forms, EnvAgree (Refers · form) env env') :
    Lockstep StatesAgree Agree (I.andFrom last forms env) (I.andFrom last' forms env') := by
  -- By induction on the forms, with values that agree so far.
  induction forms generalizing last last' with
  | nil => exact .pure values
  | cons form rest ih =>
    obtain ⟨first, others⟩ := List.forall_mem_cons.mp agree
    exact (steady.eval first).bind fun _ _ values =>
      ite_lockstep values (ih values others) (.pure values)

/-- Forms in a row are evaluated alike until one is true. -/
theorem orFrom (steady : I.Steady) {forms : List Sexp}
    (agree : ∀ form ∈ forms, EnvAgree (Refers · form) env env') :
    Lockstep StatesAgree Agree (I.orFrom forms env) (I.orFrom forms env') := by
  -- By induction on the forms.
  induction forms with
  | nil => exact .pure (.same _)
  | cons form rest ih =>
    obtain ⟨first, others⟩ := List.forall_mem_cons.mp agree
    exact (steady.eval first).bind fun _ _ values =>
      ite_lockstep values (.pure values) (ih others)

/-- A definition installs values that agree. -/
theorem sfDefine (steady : I.Steady) {head : Sexp} {args : List Sexp}
    (special : specialForm head = some .define)
    (agree : EnvAgree (Refers · (.list (head :: args))) env env') :
    Lockstep StatesAgree Agree (I.sfDefine (head :: args) env)
      (I.sfDefine (head :: args) env') := by
  -- The values agree, so the roots still do once they are bound.
  unfold Interp.sfDefine
  split
  · rename_i _ target form same
    obtain ⟨rfl, rfl⟩ := List.cons.inj same
    cases target.asSymbol with
    | none => exact lockstep_malformed _ _
    | some name =>
      exact (steady.eval (agree.mono fun x refers => .define special refers)).bind
        fun _ _ values => (define_lockstep name values).bind fun _ _ _ => .pure values
  · exact lockstep_malformed _ _

/-- The bindings of a let lead to environments that agree on their names as well. -/
theorem letEnv (steady : I.Steady) {bindings : List Sexp} {names wanted : String → Prop}
    {newEnv newEnv' : Env H}
    (agree : ∀ binder value more, .list (binder :: value :: more) ∈ bindings →
      EnvAgree (Refers · value) env env') (new : EnvAgree names newEnv newEnv')
    (covers : ∀ x, wanted x → names x ∨ x ∈ bindings.filterMap bindingName) :
    Lockstep StatesAgree (EnvAgree wanted) (I.letEnv env newEnv bindings)
      (I.letEnv env' newEnv' bindings) := by
  -- By induction on the bindings, each of which adds its name.
  induction bindings generalizing names newEnv newEnv' with
  | nil => exact .pure (new.mono fun x asked => (covers x asked).resolve_right (by simp))
  | cons binding rest ih =>
    have later := fun binder value more listed =>
      agree binder value more (List.mem_cons_of_mem _ listed)
    rw [Interp.letEnv, Interp.letEnv]
    split
    · exact lockstep_malformed _ _
    · rename_i binder value isList
      cases named : binder.asSymbol with
      | none => exact lockstep_malformed _ _
      | some name =>
        cases binding with
        | list items =>
          cases isList
          refine (steady.eval (agree binder value [] List.mem_cons_self)).bind fun v w values => ?_
          refine ih later (new.extend name values) fun x asked => ?_
          have own : bindingName (.list [binder, value]) = some name := named
          rcases covers x asked with old | among
          · exact .inl (.inl old)
          · rw [List.filterMap_cons_some own, List.mem_cons] at among
            exact among.imp_left .inr
        | _ => cases isList
    · exact lockstep_malformed _ _

/-- A let is evaluated alike. -/
theorem sfLet (steady : I.Steady) {head : Sexp} {args : List Sexp}
    (special : specialForm head = some .let)
    (agree : EnvAgree (Refers · (.list (head :: args))) env env') :
    Lockstep StatesAgree Agree (I.sfLet (head :: args) env) (I.sfLet (head :: args) env') := by
  -- The bindings are evaluated first, and the body sees the names that they bind.
  unfold Interp.sfLet
  split
  · rename_i _ binder first more same
    obtain ⟨rfl, rfl⟩ := List.cons.inj same
    cases binder with
    | list bindings =>
      have bound : Lockstep StatesAgree (EnvAgree fun x => ∃ form ∈ first :: more, Refers x form)
          (I.letEnv env env bindings) (I.letEnv env' env' bindings) := by
        refine steady.letEnv (fun binder value others listed => agree.mono fun x refers =>
          .letValue special listed refers) agree fun x asked => ?_
        obtain ⟨form, listed, refers⟩ := asked
        by_cases own : x ∈ bindings.filterMap bindingName
        · exact .inr own
        · exact .inl (.letBody special listed refers own)
      exact bound.bind fun _ _ new =>
        steady.evalBody fun form listed => new.mono fun x refers => ⟨form, listed, refers⟩
    | _ => exact lockstep_malformed _ _
  · exact lockstep_malformed _ _

/-- The bindings of a letrec are as many names with expressions of the form. -/
theorem letrecBindings_ok {forms : List Sexp} {bindings : List (String × Sexp)}
    (read : letrecBindings forms = .ok bindings) :
    bindings.map Prod.fst = forms.filterMap bindingName ∧
      ∀ binding ∈ bindings, ∃ binder more, .list (binder :: binding.2 :: more) ∈ forms := by
  -- By induction on the bindings, as they are gone through.
  induction forms generalizing bindings with
  | nil =>
    cases read
    exact ⟨rfl, by simp⟩
  | cons form rest ih =>
    cases form with
    | list items =>
      cases items with
      | nil => cases read
      | cons binder more =>
        cases named : binder.asSymbol with
        | none => simp [letrecBindings, Sexp.asList, named] at read
        | some name =>
          cases more with
          | nil => simp [letrecBindings, Sexp.asList, named] at read
          | cons value more =>
            cases tail : letrecBindings rest with
            | error e => simp [letrecBindings, Sexp.asList, named, tail, Except.map] at read
            | ok others =>
              simp only [letrecBindings, Sexp.asList, named, tail, Except.map,
                Except.ok.injEq] at read
              subst read
              obtain ⟨names, values⟩ := ih tail
              have own : bindingName (.list (binder :: value :: more)) = some name := named
              refine ⟨by rw [List.filterMap_cons_some own, List.map_cons, names], ?_⟩
              intro binding listed
              rcases List.mem_cons.mp listed with rfl | later
              · exact ⟨binder, more, List.mem_cons_self⟩
              · obtain ⟨other, others, among⟩ := values binding later
                exact ⟨other, others, List.mem_cons_of_mem _ among⟩
    | _ => cases read

/-- The thunks of a letrec are made in the same cells. -/
theorem allocate_lockstep {bindings : List (String × Sexp)} {names : String → Prop}
    (agree : EnvAgree names env env')
    (covers : ∀ binding ∈ bindings, ∀ x, Refers x binding.2 →
      names x ∨ x ∈ bindings.map Prod.fst) :
    Lockstep StatesAgree (EnvAgree fun x => names x ∨ x ∈ bindings.map Prod.fst)
      (allocate bindings env) (allocate bindings env') := by
  refine .change fun s t states => ?_
  -- The cells are as many on both sides, so the thunks have the same ones.
  have new := agree.bindThunks s.cells.length (bindings.map Prod.fst)
  have same := states.cells.length_eq
  dsimp only
  rw [← same]
  refine ⟨new, List.rel_append states.cells ?_, states.root, states.world⟩
  rw [List.forall₂_map_left_iff, List.forall₂_map_right_iff]
  exact List.forall₂_same.mpr fun binding listed =>
    .unevaluated (new.mono (covers binding listed))

/-- A letrec is evaluated alike. -/
theorem sfLetrec (steady : I.Steady) {head : Sexp} {args : List Sexp}
    (special : specialForm head = some .letrec)
    (agree : EnvAgree (Refers · (.list (head :: args))) env env') :
    Lockstep StatesAgree Agree (I.sfLetrec (head :: args) env)
      (I.sfLetrec (head :: args) env') := by
  -- The cells are allocated in step, and the body sees their names.
  unfold Interp.sfLetrec
  split
  · rename_i _ binder first more same
    obtain ⟨rfl, rfl⟩ := List.cons.inj same
    cases binder with
    | list forms =>
      simp only [Sexp.asList]
      cases read : letrecBindings forms with
      | error e => exact .fail e
      | ok bindings =>
        obtain ⟨names, values⟩ := letrecBindings_ok read
        refine (allocate_lockstep agree ?_).bind fun _ _ new =>
          steady.evalBody fun form listed => new.mono fun x refers => ?_
        · intro binding listed x refers
          obtain ⟨other, others, among⟩ := values binding listed
          by_cases own : x ∈ bindings.map Prod.fst
          · exact .inr own
          · exact .inl (.letrecValue special among refers (names ▸ own))
        · by_cases own : x ∈ bindings.map Prod.fst
          · exact .inr own
          · exact .inl (.letrecBody special listed refers (names ▸ own))
    | _ => exact lockstep_malformed _ _
  · exact lockstep_malformed _ _

/-- Closures that agree are called alike. -/
theorem applyLambda (steady : I.Steady) {params : List String} {rest : Option String}
    {body : List Sexp} {name : Option String} {args args' : List (Value H)}
    (captured : EnvAgree (Closes params rest body) env env')
    (values : List.Forall₂ Agree args args') :
    Lockstep StatesAgree Agree (I.applyLambda params rest body env name args)
      (I.applyLambda params rest body env' name args') := by
  -- The numbers of arguments are the same, so both calls are refused or made.
  have same := values.length_eq
  have called (enough : params.length ≤ args.length) :
      Lockstep StatesAgree Agree (I.evalBody body (bindParams params rest args env))
        (I.evalBody body (bindParams params rest args' env')) := by
    refine steady.evalBody fun form listed =>
      (captured.bindParams values enough).mono fun x refers => ?_
    by_cases bound : x ∈ params ∨ rest = some x
    · exact .inr bound
    · obtain ⟨free, notRest⟩ := not_or.mp bound
      exact .inl ⟨⟨form, listed, refers⟩, free, notRest⟩
  unfold Interp.applyLambda
  rw [← same]
  cases rest with
  | none =>
    dsimp only
    split
    · exact lockstep_raise _
    · rename_i enough
      exact called (Nat.le_of_eq (not_not.mp enough).symm)
  | some others =>
    dsimp only
    split
    · exact lockstep_raise _
    · rename_i enough
      exact called (Nat.le_of_not_lt enough)

/-- Thunks in the same cell are forced alike, and so are other values that agree. -/
theorem forceValue (steady : I.Steady) {v w : Value H} (values : Agree v w) :
    Lockstep StatesAgree Agree (I.forceValue v) (I.forceValue w) := by
  cases values with
  | same v =>
    cases v with
    | thunk cell =>
      have looked : Lockstep (StatesAgree (H := H)) (Option.Rel CellAgree)
          (Comp.look fun s => s.cells[cell]? : Evaluation H _) (Comp.look fun s => s.cells[cell]?) :=
        .look fun _ _ states => forall₂_getElem? states.cells cell
      refine looked.bind fun state state' cells => ?_
      cases cells with
      | none => exact .exhausted
      | some both =>
        cases both with
        | evaluating => exact lockstep_raise _
        | forced values => exact .pure values
        | unevaluated envs =>
          -- The cell is in progress while its body is evaluated.
          exact (setCell_lockstep cell .evaluating).bind fun _ _ _ =>
            (steady.eval envs).bind fun _ _ values =>
              (steady.force values).bind fun _ _ values =>
                (setCell_lockstep cell (.forced values)).bind fun _ _ _ => .pure values
    | _ => exact .pure (.same _)
  | list each => exact .pure (.list each)
  | attrs keys each => exact .pure (.attrs keys each)
  | lambda captured => exact .pure (.lambda captured)

variable [DiscreetBuiltins H]

/-- Values that agree are called alike with arguments that agree. -/
theorem applyForced (steady : I.Steady) {f g : Value H} {args args' : List (Value H)}
    (functions : Agree f g) (values : List.Forall₂ Agree args args') :
    Lockstep StatesAgree Agree (I.applyForced f args) (I.applyForced g args') := by
  -- What is called is a builtin, a closure or nothing that can be.
  cases functions with
  | same f =>
    cases f with
    | builtin b =>
      unfold Interp.applyForced
      dsimp only
      rw [values.length_eq]
      split
      · exact .zoom (fun _ _ states => states.world)
          (fun _ _ states _ _ worlds => ⟨states.cells, states.root, worlds⟩)
          (DiscreetBuiltins.discreet b _ _ values)
      · exact lockstep_raise _
    | lambda params rest body env name => exact steady.applyLambda (.refl env) values
    | _ => exact lockstep_raise _
  | lambda captured => exact steady.applyLambda captured values
  | list | attrs => exact lockstep_raise _

/-- Application forces what agrees, and calls it alike. -/
theorem apply (steady : I.Steady) {f g : Value H} {args args' : List (Value H)}
    (functions : Agree f g) (values : List.Forall₂ Agree args args') :
    Lockstep StatesAgree Agree (I.apply f args) (I.apply g args') :=
  (steady.forceAll values).bind fun _ _ forced =>
    (steady.force functions).bind fun _ _ called => steady.applyForced called forced

omit [DiscreetBuiltins H] in
/-- The operands of these special forms are all evaluated in the environment of the form. -/
theorem operands_agree {head : Sexp} {args : List Sexp} {special : SpecialForm}
    (is : specialForm head = some special)
    (each : special = .if ∨ special = .begin ∨ special = .and ∨ special = .or)
    (agree : EnvAgree (Refers · (.list (head :: args))) env env') :
    ∀ form ∈ args, EnvAgree (Refers · form) env env' := fun _ listed =>
  agree.mono fun _ refers => .operand is each listed refers

omit [DiscreetBuiltins H] in
/-- Special forms are evaluated alike. -/
theorem evalSpecial [Builtins H] (steady : I.Steady) {head : Sexp} {args : List Sexp}
    {special : SpecialForm} (is : specialForm head = some special)
    (agree : EnvAgree (Refers · (.list (head :: args))) env env') :
    Lockstep StatesAgree Agree (I.evalSpecial special (head :: args) env)
      (I.evalSpecial special (head :: args) env') := by
  -- One special form after the other.
  cases special with
  | quote =>
    unfold Interp.evalSpecial sfQuote
    dsimp only
    split
    · exact .pure (.same _)
    · exact lockstep_malformed _ _
  | «if» => exact steady.sfIf (operands_agree is (by decide) agree)
  | «let» => exact steady.sfLet is agree
  | letrec => exact steady.sfLetrec is agree
  | lambda => exact sfLambda_lockstep is agree
  | define => exact steady.sfDefine is agree
  | begin => exact steady.evalBody (operands_agree is (by decide) agree)
  | and => exact steady.andFrom (.same _) (operands_agree is (by decide) agree)
  | or => exact steady.orFrom (operands_agree is (by decide) agree)

/-- Forms are evaluated alike. -/
theorem evalForm (steady : I.Steady) {form : Sexp} (agree : EnvAgree (Refers · form) env env') :
    Lockstep StatesAgree Agree (I.evalForm form env) (I.evalForm form env') := by
  -- By the shape of the form.
  cases form with
  | nil => exact .pure (.same _)
  | atom a => exact evalAtom_lockstep agree
  | quote => exact .pure (.same _)
  | quasiquote inner => exact steady.quasi (agree.mono fun _ within => .quasiquote within)
  | unquote | unquoteSplice => exact lockstep_malformed _ _
  | list items =>
    cases items with
    | nil => exact .pure (.same _)
    | cons head args =>
      cases is : specialForm head with
      | some special =>
        rw [I.evalForm_special is, I.evalForm_special is]
        exact steady.evalSpecial is agree
      | none =>
        rw [I.evalForm_application is, I.evalForm_application is]
        have each : ∀ item ∈ head :: args, EnvAgree (Refers · item) env env' :=
          fun _ listed => agree.mono fun _ refers => .application is listed refers
        obtain ⟨first, others⟩ := List.forall_mem_cons.mp each
        exact (steady.eval first).bind fun _ _ functions =>
          (steady.evalArgs others).bind fun _ _ values => steady.apply functions values

/-- One more call of the budget. -/
theorem next (steady : I.Steady) : I.next.Steady where
  eval := steady.evalForm
  quasi := steady.evalQuasiquote
  force := steady.forceValue

end Interp.Steady

/-- The interpreter goes the same way in environments that agree, whatever its budget. -/
theorem interp_steady [DiscreetBuiltins H] (budget : Nat) : (interp (H := H) budget).Steady := by
  induction budget with
  | zero => exact ⟨fun _ => .exhausted, fun _ => .exhausted, fun _ => .exhausted⟩
  | succ budget ih => exact ih.next

end Tatara.Eval
