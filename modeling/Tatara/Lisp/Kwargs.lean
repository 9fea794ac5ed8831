import Mathlib.Data.List.Induction
import Mathlib.Data.String.Basic
import Std.Data.ExtTreeMap
import Tatara.Lisp.Json

/-! The gate that the keyword arguments of a form go through, and what it says of those that it
refuses. -/

namespace Tatara.Lisp

open Tatara.Rust

/-- The keyword arguments of a form. -/
abbrev Kwargs := Std.ExtTreeMap String Sexp

/-- The order in which a `HashMap` yields its keys, which can be any. -/
structure KwargsIteration where
  keys : Kwargs → List String
  perm : ∀ kw, (keys kw).Perm kw.keys

/-- `unknown_kwarg`. -/
def unknownKwarg (key : String) (allowed : List String) : LispError :=
  .unknownKwarg key (suggest key allowed) (allowed.mergeSort (· ≤ ·))

/-- `reject_unknown_kwargs`, for the keys in the order in which the map yields them. -/
def rejectUnknownKwargs (keys allowed : List String) : Except LispError Unit :=
  match keys.find? (· ∉ allowed) with
  | some key => .error (unknownKwarg key allowed)
  | none => .ok ()

section

variable [CharTable]

/-- The loop of `parse_kwargs`, from a position on and with what has been read so far. -/
def parseKwargsFrom : (i : Nat) → Kwargs → List Sexp → Except LispError Kwargs
  | _, kw, [] => .ok kw
  | _, _, [last] => .error (.oddKwargs last.toString)
  | i, kw, key :: value :: rest =>
    match key.asKeyword with
    | none => .error (.typeMismatch (.slot i) .keyword key.shape)
    | some name =>
      if name ∈ kw then .error (.duplicateKwarg name)
      else parseKwargsFrom (i + 2) (kw.insert name value) rest

/-- `parse_kwargs`. -/
def parseKwargs (args : List Sexp) : Except LispError Kwargs := parseKwargsFrom 0 ∅ args

/-- `parse_kwargs_strict`. -/
def parseKwargsStrict (iteration : KwargsIteration) (args : List Sexp) (allowed : List String) :
    Except LispError Kwargs := do
  let kw ← parseKwargs args
  rejectUnknownKwargs (iteration.keys kw) allowed
  return kw

end

/-- Keywords with their values, as they stand in a form. -/
def spellKwargs (pairs : List (String × Sexp)) : List Sexp :=
  pairs.flatMap fun (name, value) => [.atom (.keyword name), value]

/-- The keywords of some pairs. -/
def kwargNames (pairs : List (String × Sexp)) : List String := pairs.map Prod.fst

/-- The map of some pairs. -/
def kwargsOf (pairs : List (String × Sexp)) : Kwargs :=
  pairs.foldl (fun kw (name, value) => kw.insert name value) ∅

/-- The pairs that have been read are the entries of the map. -/
theorem mem_kwargsOf {pairs : List (String × Sexp)} {name : String} :
    name ∈ kwargsOf pairs ↔ name ∈ kwargNames pairs := by
  -- The induction takes the pair away that was inserted last.
  induction pairs using List.reverseRecOn with
  | nil => simp [kwargsOf, kwargNames]
  | append_singleton front pair ih =>
    rw [kwargsOf, List.foldl_append, ← kwargsOf]
    simp only [List.foldl_cons, List.foldl_nil, Std.ExtTreeMap.mem_insert, ih, kwargNames,
      List.map_append, List.mem_append, List.map_cons, List.map_nil, List.mem_singleton,
      Std.LawfulEqCmp.compare_eq_iff_eq]
    exact or_comm.trans (or_congr_right eq_comm)

section

variable [CharTable]

/-- What stands in front of some arguments is read pair by pair. -/
theorem parseKwargsFrom_spell {earlier pairs : List (String × Sexp)} {rest : List Sexp}
    (distinct : (kwargNames (earlier ++ pairs)).Nodup) :
    parseKwargsFrom (2 * earlier.length) (kwargsOf earlier) (spellKwargs pairs ++ rest) =
      parseKwargsFrom (2 * (earlier ++ pairs).length) (kwargsOf (earlier ++ pairs)) rest := by
  induction pairs generalizing earlier with
  | nil => simp [spellKwargs]
  | cons pair more ih =>
    -- The first pair joins those that have been read.
    have joined : earlier ++ pair :: more = (earlier ++ [pair]) ++ more := by simp
    have new : pair.1 ∉ kwargsOf earlier := by
      rw [mem_kwargsOf]
      intro among
      rw [kwargNames, List.map_append, List.map_cons] at distinct
      exact (List.nodup_append.mp distinct).2.2 _ among _ List.mem_cons_self rfl
    have further := @ih (earlier ++ [pair]) (by rwa [← joined])
    rw [joined, ← further]
    simp only [spellKwargs, List.flatMap_cons, List.cons_append, List.nil_append, parseKwargsFrom,
      Sexp.asKeyword, if_neg new, List.length_append, List.length_singleton, Nat.mul_add]
    rw [kwargsOf, kwargsOf, List.foldl_append]
    rfl

/-- From the start, pairs with distinct keywords are read into their map. -/
theorem parseKwargs_spell {pairs : List (String × Sexp)} {rest : List Sexp}
    (distinct : (kwargNames pairs).Nodup) :
    parseKwargs (spellKwargs pairs ++ rest) =
      parseKwargsFrom (2 * pairs.length) (kwargsOf pairs) rest :=
  @parseKwargsFrom_spell _ [] pairs rest distinct

omit [CharTable] in
/-- Any arguments are pairs with distinct keywords, and then nothing, one element, or a pair whose
key is no keyword or a keyword that was there before. -/
theorem kwargs_cases (args : List Sexp) :
    ∃ pairs rest, args = spellKwargs pairs ++ rest ∧ (kwargNames pairs).Nodup ∧
      (rest = [] ∨ (∃ last, rest = [last]) ∨
        ∃ key value more, rest = key :: value :: more ∧
          ∀ name, key.asKeyword = some name → name ∈ kwargNames pairs) := by
  -- The pairs are collected as long as they have new keywords.
  have general : ∀ (n : Nat) (earlier : List (String × Sexp)) (args : List Sexp),
      args.length ≤ n → (kwargNames earlier).Nodup →
      ∃ pairs rest, args = spellKwargs pairs ++ rest ∧ (kwargNames (earlier ++ pairs)).Nodup ∧
        (rest = [] ∨ (∃ last, rest = [last]) ∨
          ∃ key value more, rest = key :: value :: more ∧
            ∀ name, key.asKeyword = some name → name ∈ kwargNames (earlier ++ pairs)) := by
    intro n
    induction n with
    | zero =>
      intro earlier args short distinct
      exact ⟨[], [], List.length_eq_zero_iff.mp (by omega), by simpa using distinct, .inl rfl⟩
    | succ n ih =>
      intro earlier args short distinct
      match args with
      | [] => exact ⟨[], [], rfl, by simpa using distinct, .inl rfl⟩
      | [last] => exact ⟨[], [last], rfl, by simpa using distinct, .inr (.inl ⟨last, rfl⟩)⟩
      | key :: value :: more =>
        by_cases new : ∃ name, key.asKeyword = some name ∧ name ∉ kwargNames earlier
        · obtain ⟨name, keyword, fresh⟩ := new
          have spelled : key = .atom (.keyword name) := by
            unfold Sexp.asKeyword at keyword
            split at keyword
            · rw [Option.some.inj keyword]
            · cases keyword
          have shorter : more.length ≤ n := by
            simp only [List.length_cons] at short
            omega
          have longer : (kwargNames (earlier ++ [(name, value)])).Nodup := by
            rw [kwargNames, List.map_append]
            refine List.nodup_append.mpr ⟨distinct, by simp, ?_⟩
            rintro a among b last rfl
            rw [List.mem_singleton.mp last] at among
            exact fresh among
          obtain ⟨pairs, rest, parts, distinct, ends⟩ := ih _ more shorter longer
          rw [List.append_assoc] at distinct ends
          refine ⟨(name, value) :: pairs, rest, ?_, distinct, ends⟩
          rw [spelled, parts]
          rfl
        · refine ⟨[], key :: value :: more, rfl, by simpa using distinct, .inr (.inr ?_)⟩
          refine ⟨key, value, more, rfl, fun name keyword => ?_⟩
          by_contra fresh
          exact new ⟨name, keyword, by simpa using fresh⟩
  simpa using general args.length [] args le_rfl List.nodup_nil

variable {iteration : KwargsIteration} {allowed : List String}

/-- What the parser refuses, the gate refuses with the same error. -/
theorem parseKwargsStrict_error {args : List Sexp} {e : LispError}
    (refused : parseKwargs args = .error e) :
    parseKwargsStrict iteration args allowed = .error e := by
  rw [parseKwargsStrict, refused]
  rfl

/-- Pairs with distinct keywords pass, unless the map yields a keyword that is not allowed. -/
theorem parseKwargsStrict_spell {pairs : List (String × Sexp)}
    (distinct : (kwargNames pairs).Nodup) :
    parseKwargsStrict iteration (spellKwargs pairs) allowed =
      match (iteration.keys (kwargsOf pairs)).find? (· ∉ allowed) with
      | some key => .error (unknownKwarg key allowed)
      | none => .ok (kwargsOf pairs) := by
  -- The pairs are read into their map, and then the map is looked at.
  have read : parseKwargs (spellKwargs pairs) = .ok (kwargsOf pairs) := by
    have read := @parseKwargs_spell _ pairs [] distinct
    rwa [List.append_nil] at read
  rw [parseKwargsStrict, read]
  dsimp only [rejectUnknownKwargs, bind, Except.bind, pure, Except.pure]
  cases (iteration.keys (kwargsOf pairs)).find? (· ∉ allowed) <;> rfl

omit [CharTable] in
/-- The keywords that are yielded are those of the pairs. -/
theorem mem_keys_iff {pairs : List (String × Sexp)} {name : String} :
    name ∈ iteration.keys (kwargsOf pairs) ↔ name ∈ kwargNames pairs := by
  rw [(iteration.perm _).mem_iff, Std.ExtTreeMap.mem_keys, mem_kwargsOf]

/-- A keyword without a value is refused. -/
theorem parseKwargs_odd {pairs : List (String × Sexp)} {last : Sexp}
    (distinct : (kwargNames pairs).Nodup) :
    parseKwargs (spellKwargs pairs ++ [last]) = .error (.oddKwargs last.toString) := by
  rw [parseKwargs_spell distinct]
  rfl

/-- What is no keyword is refused in its place. -/
theorem parseKwargs_notKeyword {pairs : List (String × Sexp)} {key value : Sexp}
    {more : List Sexp} (distinct : (kwargNames pairs).Nodup) (other : key.asKeyword = none) :
    parseKwargs (spellKwargs pairs ++ key :: value :: more) =
      .error (.typeMismatch (.slot (2 * pairs.length)) .keyword key.shape) := by
  rw [parseKwargs_spell distinct, parseKwargsFrom, other]

/-- A keyword that has been there is refused. -/
theorem parseKwargs_repeated {pairs : List (String × Sexp)} {key value : Sexp}
    {more : List Sexp} {name : String} (distinct : (kwargNames pairs).Nodup)
    (keyword : key.asKeyword = some name) (there : name ∈ kwargNames pairs) :
    parseKwargs (spellKwargs pairs ++ key :: value :: more) = .error (.duplicateKwarg name) := by
  rw [parseKwargs_spell distinct, parseKwargsFrom, keyword]
  exact if_pos (mem_kwargsOf.mpr there)

/-- Arguments are pairs with distinct keywords, or the parser refuses them. -/
theorem spelled_or_refused (args : List Sexp) :
    (∃ pairs, args = spellKwargs pairs ∧ (kwargNames pairs).Nodup) ∨
      ∃ e, parseKwargs args = .error e := by
  -- What is behind the pairs is nothing, or it is one of the three faults.
  obtain ⟨pairs, rest, rfl, distinct, rfl | ⟨last, rfl⟩ | ⟨key, value, more, rfl, ends⟩⟩ :=
    kwargs_cases args
  · exact .inl ⟨pairs, List.append_nil _, distinct⟩
  · exact .inr ⟨_, parseKwargs_odd distinct⟩
  · cases keyword : key.asKeyword with
    | none => exact .inr ⟨_, parseKwargs_notKeyword distinct keyword⟩
    | some name => exact .inr ⟨_, parseKwargs_repeated distinct keyword (ends name keyword)⟩

variable (allowed)

/-- The gate lets through what it is meant to let through, and what it says of anything else does
not depend on the order in which a map yields its keys. -/
structure GateExact (args : List Sexp) : Prop where
  /-- Two runs on the same arguments have the same result. -/
  deterministic : ∀ one other : KwargsIteration,
    parseKwargsStrict one args allowed = parseKwargsStrict other args allowed
  accepts : ∀ (iteration : KwargsIteration) (kw : Kwargs),
    parseKwargsStrict iteration args allowed = .ok kw ↔
      ∃ pairs, args = spellKwargs pairs ∧ (kwargNames pairs).Nodup ∧
        (∀ name ∈ kwargNames pairs, name ∈ allowed) ∧ kw = kwargsOf pairs
  /-- Behind pairs that are well formed stands a pair whose key is no keyword. -/
  notKeyword : ∀ (iteration : KwargsIteration) pairs key value more,
    args = spellKwargs pairs ++ key :: value :: more → (kwargNames pairs).Nodup →
    key.asKeyword = none →
    parseKwargsStrict iteration args allowed =
      .error (.typeMismatch (.slot (2 * pairs.length)) .keyword key.shape)
  /-- Behind pairs that are well formed stands a pair whose key has been there before. -/
  repeated : ∀ (iteration : KwargsIteration) pairs key value more name,
    args = spellKwargs pairs ++ key :: value :: more → (kwargNames pairs).Nodup →
    key.asKeyword = some name → name ∈ kwargNames pairs →
    parseKwargsStrict iteration args allowed = .error (.duplicateKwarg name)
  /-- Behind pairs that are well formed stands one last element. -/
  dangling : ∀ (iteration : KwargsIteration) pairs last,
    args = spellKwargs pairs ++ [last] → (kwargNames pairs).Nodup →
    parseKwargsStrict iteration args allowed = .error (.oddKwargs last.toString)
  /-- All pairs are well formed, and some keyword is not allowed. -/
  unknown : ∀ pairs, args = spellKwargs pairs → (kwargNames pairs).Nodup →
    (∃ name ∈ kwargNames pairs, name ∉ allowed) →
    ∃ name ∈ kwargNames pairs, name ∉ allowed ∧ ∀ iteration : KwargsIteration,
      parseKwargsStrict iteration args allowed = .error (unknownKwarg name allowed)

omit [CharTable] in
/-- The arguments have at most one keyword that is not allowed, where they are pairs with distinct
keywords. -/
def AtMostOneUnknown (args : List Sexp) : Prop :=
  ∀ pairs, args = spellKwargs pairs → (kwargNames pairs).Nodup →
    ∀ a ∈ kwargNames pairs, ∀ b ∈ kwargNames pairs, a ∉ allowed → b ∉ allowed → a = b

omit [CharTable] in
/-- A map may yield any of its keys first. -/
def yieldingFirst (name : String) : KwargsIteration where
  keys kw := if name ∈ kw.keys then name :: kw.keys.erase name else kw.keys
  perm kw := by
    split
    · exact (List.perm_cons_erase ‹_›).symm
    · exact .refl _

variable {allowed}

/-- An order may yield any of the keywords first. -/
theorem parseKwargsStrict_yieldingFirst {pairs : List (String × Sexp)} {name : String}
    (distinct : (kwargNames pairs).Nodup) (there : name ∈ kwargNames pairs)
    (unknown : name ∉ allowed) :
    parseKwargsStrict (yieldingFirst name) (spellKwargs pairs) allowed =
      .error (unknownKwarg name allowed) := by
  have key : name ∈ (kwargsOf pairs).keys :=
    Std.ExtTreeMap.mem_keys.mpr (mem_kwargsOf.mpr there)
  have first : (yieldingFirst name).keys (kwargsOf pairs) =
      name :: (kwargsOf pairs).keys.erase name := if_pos key
  rw [parseKwargsStrict_spell distinct, first, List.find?_cons_of_pos (by simpa using unknown)]

/-- With one unknown keyword at most, this one is reported in every order. -/
theorem parseKwargsStrict_unknown {args : List Sexp} (single : AtMostOneUnknown allowed args)
    (pairs : List (String × Sexp)) (spelled : args = spellKwargs pairs)
    (distinct : (kwargNames pairs).Nodup) (bad : ∃ name ∈ kwargNames pairs, name ∉ allowed) :
    ∃ name ∈ kwargNames pairs, name ∉ allowed ∧ ∀ iteration : KwargsIteration,
      parseKwargsStrict iteration args allowed = .error (unknownKwarg name allowed) := by
  -- What the search finds is unknown, and so it is the one keyword.
  subst spelled
  obtain ⟨name, among, unknown⟩ := bad
  refine ⟨name, among, unknown, fun iteration => ?_⟩
  rw [parseKwargsStrict_spell distinct]
  cases first : (iteration.keys (kwargsOf pairs)).find? (· ∉ allowed) with
  | none =>
    have none := List.find?_eq_none.mp first name (mem_keys_iff.mpr among)
    simp [unknown] at none
  | some other =>
    have among' := mem_keys_iff.mp (List.mem_of_find?_eq_some first)
    have unknown' := List.find?_some first
    rw [single pairs rfl distinct name among other among' unknown (by simpa using unknown')]

/-- Without an unknown keyword the map is returned. -/
theorem parseKwargsStrict_known {iteration : KwargsIteration} {pairs : List (String × Sexp)}
    (distinct : (kwargNames pairs).Nodup) (known : ¬ ∃ name ∈ kwargNames pairs, name ∉ allowed) :
    parseKwargsStrict iteration (spellKwargs pairs) allowed = .ok (kwargsOf pairs) := by
  -- The search goes through the keywords and finds nothing.
  have none : (iteration.keys (kwargsOf pairs)).find? (· ∉ allowed) = none := by
    refine List.find?_eq_none.mpr fun name among bad => known ⟨name, ?_, by simpa using bad⟩
    exact mem_keys_iff.mp among
  rw [parseKwargsStrict_spell distinct, none]

/-- The gate is exact for some arguments exactly if at most one of their keywords is unknown, in
case nothing else is wrong with them. -/
theorem gateExact_iff (args : List Sexp) (allowed : List String) :
    GateExact allowed args ↔ AtMostOneUnknown allowed args := by
  constructor
  · intro exact_ pairs spelled distinct a among b among' unknown unknown'
    subst spelled
    -- Each of the two is reported where it is the first one that the map yields.
    have same := exact_.deterministic (yieldingFirst a) (yieldingFirst b)
    rw [parseKwargsStrict_yieldingFirst distinct among unknown,
      parseKwargsStrict_yieldingFirst distinct among' unknown'] at same
    simp only [unknownKwarg, Except.error.injEq, LispError.unknownKwarg.injEq] at same
    exact same.1
  · intro single
    have reported := parseKwargsStrict_unknown single
    constructor
    case deterministic =>
      intro one other
      rcases spelled_or_refused args with ⟨pairs, spelled, distinct⟩ | ⟨e, refused⟩
      · by_cases bad : ∃ name ∈ kwargNames pairs, name ∉ allowed
        · obtain ⟨name, -, -, all⟩ := reported pairs spelled distinct bad
          rw [all one, all other]
        · rw [spelled, parseKwargsStrict_known distinct bad, parseKwargsStrict_known distinct bad]
      · rw [parseKwargsStrict_error refused, parseKwargsStrict_error refused]
    case accepts =>
      intro iteration kw
      constructor
      · intro accepted
        rcases spelled_or_refused args with ⟨pairs, spelled, distinct⟩ | ⟨e, refused⟩
        · by_cases bad : ∃ name ∈ kwargNames pairs, name ∉ allowed
          · obtain ⟨name, -, -, all⟩ := reported pairs spelled distinct bad
            rw [all iteration] at accepted
            cases accepted
          · rw [spelled, parseKwargsStrict_known distinct bad] at accepted
            exact ⟨pairs, spelled, distinct,
              fun name among => not_not.mp fun unknown => bad ⟨name, among, unknown⟩,
              (Except.ok.inj accepted).symm⟩
        · rw [parseKwargsStrict_error refused] at accepted
          cases accepted
      · rintro ⟨pairs, spelled, distinct, known, rfl⟩
        rw [spelled]
        exact parseKwargsStrict_known distinct
          fun ⟨name, among, unknown⟩ => unknown (known name among)
    case notKeyword =>
      rintro iteration pairs key value more rfl distinct other
      exact parseKwargsStrict_error (parseKwargs_notKeyword distinct other)
    case repeated =>
      rintro iteration pairs key value more name rfl distinct keyword there
      exact parseKwargsStrict_error (parseKwargs_repeated distinct keyword there)
    case dangling =>
      rintro iteration pairs last rfl distinct
      exact parseKwargsStrict_error (parseKwargs_odd distinct)
    case unknown => exact reported

end

/-- A form with two keywords that the gate does not know. -/
def twoUnknown : List Sexp := spellKwargs [("a", .nil), ("b", .nil)]

/-- Which of two unknown keywords is reported depends on the order of a map. -/
theorem not_gateExact : ¬ ∀ (table : CharTable) (allowed : List String) (args : List Sexp),
    @GateExact table allowed args := by
  intro exact_
  let _ : CharTable := asciiTable
  -- Either of the unknown keywords may come first.
  have same := (exact_ asciiTable [] twoUnknown).deterministic (yieldingFirst "a")
    (yieldingFirst "b")
  have distinct : (kwargNames [("a", Sexp.nil), ("b", .nil)]).Nodup := by decide
  -- Each of the orders reports its own.
  rw [twoUnknown, parseKwargsStrict_yieldingFirst distinct (by decide) (by decide),
    parseKwargsStrict_yieldingFirst distinct (by decide) (by decide)] at same
  simp [unknownKwarg] at same

end Tatara.Lisp
