import Tatara.Eval.Agreement

/-! The arithmetic builtins, and when what they give is the exact result; equality and the builtins
that make and open a list. -/

namespace Tatara.Rust

/-- `as i64` of a double: it is cut off to an integer, a value out of range becomes the nearest one
in it, and what is not a number becomes zero. -/
def F64.toI64 (x : F64) : Int64 :=
  if specialBits < x.magnitude then 0
  else
    let (num, den) := x.ratio
    let whole : Int := if x.isNegative then -(num / den : Nat) else (num / den : Nat)
    .ofInt (max (-2 ^ 63) (min whole (2 ^ 63 - 1)))

/-- `==` of doubles: what is not a number equals nothing, and the zeros equal each other. -/
def F64.eq (x y : F64) : Bool := !x.isNan && !y.isNan && decide (x.place = y.place)

end Tatara.Rust

namespace Tatara.Eval

/-- An integer that an `i64` can hold. -/
def InRange (n : Int) : Prop := -2 ^ 63 ≤ n ∧ n < 2 ^ 63

instance : DecidablePred InRange := fun _ => inferInstanceAs (Decidable (_ ∧ _))

/-- An operation on integers, and what it is for those of 64 bits, where it wraps around. -/
structure Operation where
  wrapping : Int64 → Int64 → Int64
  exact : Int → Int → Int
  wraps : ∀ a b, (wrapping a b).toInt = (exact a.toInt b.toInt).bmod (2 ^ 64)
  reduces : ∀ x y, (exact (x.bmod (2 ^ 64)) y).bmod (2 ^ 64) = (exact x y).bmod (2 ^ 64)

namespace Operation

/-- Addition. -/
def plus : Operation := ⟨(· + ·), (· + ·), Int64.toInt_add, fun _ _ => Int.bmod_add_bmod⟩

/-- Subtraction. -/
def minus : Operation := ⟨(· - ·), (· - ·), Int64.toInt_sub, fun _ _ => Int.bmod_sub_bmod⟩

/-- Multiplication. -/
def times : Operation := ⟨(· * ·), (· * ·), Int64.toInt_mul, fun _ _ => Int.bmod_mul_bmod⟩

/-- An operator of the language: a result out of range wraps around, or panics in a build that
checks for overflow. -/
def run (op : Operation) (overflowChecks : Bool) (a b : Int64) : Except Failure Int64 :=
  if overflowChecks ∧ ¬ InRange (op.exact a.toInt b.toInt) then .error .panicked
  else .ok (op.wrapping a b)

end Operation

section builtins

variable {H : Host} (overflowChecks : Bool)

/-- `coerce_int`. -/
def coerceInt (v : Value H) (op : String) : Except Failure Int64 :=
  match v with
  | .int n => .ok n
  | .float f => .ok f.toI64
  | other => .error (.error (.type ("int (for " ++ op ++ ")") other.typeName))

/-- Take the arguments into an accumulator, one after the other. -/
def accumulate (step : Int64 → Int64 → Except Failure Int64) (op : String) (acc : Int64) :
    List (Value H) → Except Failure Int64
  | [] => .ok acc
  | a :: rest => do
    let n ← coerceInt a op
    let acc ← step acc n
    accumulate step op acc rest

/-- `add`. -/
def add (args : List (Value H)) : Except Failure (Value H) :=
  (accumulate (Operation.plus.run overflowChecks) "+" 0 args).map .int

/-- `-` in front of an integer. -/
def negate (n : Int64) : Except Failure Int64 :=
  if overflowChecks ∧ ¬ InRange (-n.toInt) then .error .panicked else .ok (-n)

/-- `sub`. -/
def sub (args : List (Value H)) : Except Failure (Value H) :=
  match args with
  -- The first argument is taken by its place, whether there is one or not.
  | [] => .error .panicked
  | [a] => do
    let first ← coerceInt a "-"
    (negate overflowChecks first).map .int
  | a :: rest => do
    let first ← coerceInt a "-"
    (accumulate (Operation.minus.run overflowChecks) "-" first rest).map .int

/-- `mul`. -/
def mul (args : List (Value H)) : Except Failure (Value H) :=
  (accumulate (Operation.times.run overflowChecks) "*" 1 args).map .int

/-- A division of the language: a quotient out of range panics in every build. -/
def divide (a b : Int64) : Except Failure Int64 :=
  if b = 0 then .error (.error .divByZero)
  else if ¬ InRange (a.toInt.tdiv b.toInt) then .error .panicked
  else .ok (a / b)

/-- `div`. -/
def div (args : List (Value H)) : Except Failure (Value H) :=
  match args with
  | [] => .error .panicked
  | a :: rest => do
    let first ← coerceInt a "/"
    (accumulate divide "/" first rest).map .int

/-- The arithmetic builtins. -/
inductive Arith
  | add | sub | mul | div
  deriving DecidableEq, Repr

namespace Arith

/-- The name of a builtin. -/
def symbol : Arith → String
  | add => "+"
  | sub => "-"
  | mul => "*"
  | div => "/"

/-- How many arguments a builtin takes. -/
def arity : Arith → Arity
  | add => .atLeast 0
  | sub => .atLeast 1
  | mul => .atLeast 0
  | div => .atLeast 2

/-- The function of a builtin. -/
def func : Arith → List (Value H) → Except Failure (Value H)
  | add => Eval.add overflowChecks
  | sub => Eval.sub overflowChecks
  | mul => Eval.mul overflowChecks
  | div => Eval.div

/-- A call of a builtin with arguments that are forced. -/
def call (op : Arith) (args : List (Value H)) : Except Failure (Value H) :=
  if op.arity.check args.length then op.func overflowChecks args
  else .error (.error (.arity op.symbol op.arity.describe args.length))

/-- Truncating division by one divisor after the other, where none is zero. -/
def quotient (acc : Int) : List Int → Option Int
  | [] => some acc
  | n :: rest => if n = 0 then none else quotient (acc.tdiv n) rest

/-- The exact result of folding the operation from the left, if there is one; a single argument of
the subtraction is negated. -/
def exact (op : Arith) (first : Int) (rest : List Int) : Option Int :=
  match op with
  | add => some ((first :: rest).foldl (· + ·) 0)
  | sub => some (if rest = [] then -first else rest.foldl (· - ·) first)
  | mul => some ((first :: rest).foldl (· * ·) 1)
  | div => quotient first rest

end Arith

/-- What a builtin gives is the exact result or an error, and no wrapped value and no panic. -/
def ExactOrRefused (op : Arith) (first : Int64) (rest : List Int64)
    (result : Except Failure (Value H)) : Prop :=
  (∃ e, result = .error (.error e)) ∨
    ∃ n : Int64, result = .ok (.int n) ∧
      op.exact first.toInt (rest.map Int64.toInt) = some n.toInt

/-- Every result on the way is in range. -/
def StaysInRange (step : Int → Int → Int) (acc : Int) : List Int → Prop
  | [] => True
  | n :: rest => InRange (step acc n) ∧ StaysInRange step (step acc n) rest

/-- The results of folding from the left fit: with overflow checks each one on the way, and without
only the last one. -/
def Folds (step : Int → Int → Int) (acc : Int) (ns : List Int) : Prop :=
  if overflowChecks then StaysInRange step acc ns else InRange (ns.foldl step acc)

/-- No quotient is out of range, up to the first divisor that is zero. -/
def Divides (acc : Int) : List Int → Prop
  | [] => True
  | n :: rest => n ≠ 0 → InRange (acc.tdiv n) ∧ Divides (acc.tdiv n) rest

/-- The arguments are those for which the results fit. -/
def Fits (op : Arith) (first : Int) (rest : List Int) : Prop :=
  match op with
  | .add => Folds overflowChecks (· + ·) 0 (first :: rest)
  | .sub => if rest = [] then InRange (-first) else Folds overflowChecks (· - ·) first rest
  | .mul => Folds overflowChecks (· * ·) 1 (first :: rest)
  | .div => Divides first rest

end builtins

section

variable {H : Host}

/-- An `i64` is in its range. -/
theorem inRange_toInt (n : Int64) : InRange n.toInt := ⟨n.le_toInt, n.toInt_lt⟩

/-- What is in range is the same reduced to 64 bits, and nothing else is. -/
theorem inRange_iff {x : Int} : InRange x ↔ x.bmod (2 ^ 64) = x := by
  -- What is reduced is always in range.
  unfold InRange
  constructor
  · rintro ⟨low, high⟩
    exact Int.bmod_eq_of_le low high
  · intro same
    have low := Int.le_bmod (x := x) (m := 2 ^ 64) (by decide)
    have high := Int.bmod_lt (x := x) (m := 2 ^ 64) (by decide)
    omega

/-- A result is an error, or the exact result there is. -/
def Yields (exact : Option Int) (result : Except Failure Int64) : Prop :=
  (∃ e, result = .error (.error e)) ∨ ∃ n : Int64, result = .ok n ∧ exact = some n.toInt

/-- Builtins give their results as values. -/
theorem exactOrRefused_map {op : Arith} {first : Int64} {rest : List Int64}
    {result : Except Failure Int64} :
    ExactOrRefused op first rest (result.map Value.int : Except Failure (Value H)) ↔
      Yields (op.exact first.toInt (rest.map Int64.toInt)) result := by
  cases result <;> simp [ExactOrRefused, Yields, Except.map]

/-- Integers are taken into the accumulator as they are. -/
theorem accumulate_int (step : Int64 → Int64 → Except Failure Int64) (op : String) (acc : Int64)
    (ns : List Int64) :
    accumulate step op acc (ns.map (Value.int (H := H))) = ns.foldlM step acc := by
  -- By induction on the integers, with the accumulator so far.
  induction ns generalizing acc with
  | nil => rfl
  | cons n rest ih =>
    rw [List.map_cons, accumulate, List.foldlM_cons]
    exact congrArg (step acc n >>= ·) (funext fun acc => ih acc)

/-- What is the same reduced to 64 bits stays so under an operation. -/
theorem foldl_bmod_congr (op : Operation) {x y : Int} (same : x.bmod (2 ^ 64) = y.bmod (2 ^ 64))
    (ns : List Int) :
    (ns.foldl op.exact x).bmod (2 ^ 64) = (ns.foldl op.exact y).bmod (2 ^ 64) := by
  -- By induction on the operands: each step only needs the accumulator up to the reduction.
  induction ns generalizing x y with
  | nil => exact same
  | cons n rest ih =>
    refine ih ?_
    calc (op.exact x n).bmod (2 ^ 64)
        = (op.exact (x.bmod (2 ^ 64)) n).bmod (2 ^ 64) := (op.reduces x n).symm
      _ = (op.exact (y.bmod (2 ^ 64)) n).bmod (2 ^ 64) := by rw [same]
      _ = (op.exact y n).bmod (2 ^ 64) := op.reduces y n

section

variable (op : Operation) (acc : Int64) (ns : List Int64)

/-- Without overflow checks there is a result, which is the exact one reduced to 64 bits. -/
theorem foldlM_run_unchecked :
    ∃ n : Int64, ns.foldlM (op.run false) acc = .ok n ∧
      n.toInt = ((ns.map Int64.toInt).foldl op.exact acc.toInt).bmod (2 ^ 64) := by
  induction ns generalizing acc with
  | nil => exact ⟨acc, rfl, by simp⟩
  | cons n rest ih =>
    obtain ⟨m, folded, value⟩ := ih (op.wrapping acc n)
    have first : op.run false acc n = .ok (op.wrapping acc n) := by simp [Operation.run]
    refine ⟨m, by rw [List.foldlM_cons, first]; exact folded, ?_⟩
    -- Reducing the result so far does not matter to what comes out at the end.
    rw [value, op.wraps]
    exact foldl_bmod_congr op (by simp) _

/-- With overflow checks a result in range is exact, as nothing wraps around. -/
theorem run_of_inRange (n : Int64) (fits : InRange (op.exact acc.toInt n.toInt)) :
    op.run true acc n = .ok (op.wrapping acc n) ∧
      (op.wrapping acc n).toInt = op.exact acc.toInt n.toInt :=
  ⟨by simp [Operation.run, fits], by rw [op.wraps, inRange_iff.mp fits]⟩

/-- With overflow checks there is the exact result when all results on the way are in range. -/
theorem foldlM_run_of_staysInRange (stays : StaysInRange op.exact acc.toInt (ns.map Int64.toInt)) :
    ∃ n : Int64, ns.foldlM (op.run true) acc = .ok n ∧
      n.toInt = (ns.map Int64.toInt).foldl op.exact acc.toInt := by
  -- By induction on the operands, as long as each result is in range.
  induction ns generalizing acc with
  | nil => exact ⟨acc, rfl, rfl⟩
  | cons n rest ih =>
    obtain ⟨fits, stays⟩ := stays
    obtain ⟨first, value⟩ := run_of_inRange op acc n fits
    obtain ⟨m, folded, final⟩ := ih (op.wrapping acc n) (by rwa [value])
    rw [value] at final
    exact ⟨m, by rw [List.foldlM_cons, first]; exact folded, final⟩

/-- With overflow checks the first result out of range is a panic. -/
theorem foldlM_run_of_not_staysInRange
    (leaves : ¬ StaysInRange op.exact acc.toInt (ns.map Int64.toInt)) :
    ns.foldlM (op.run true) acc = .error .panicked := by
  induction ns generalizing acc with
  | nil => exact absurd trivial leaves
  | cons n rest ih =>
    rw [List.foldlM_cons]
    by_cases fits : InRange (op.exact acc.toInt n.toInt)
    · -- The panic comes behind a result in range.
      obtain ⟨first, value⟩ := run_of_inRange op acc n fits
      rw [first]
      exact ih (op.wrapping acc n) (by rw [value]; exact fun stays => leaves ⟨fits, stays⟩)
    · have first : op.run true acc n = .error .panicked := by simp [Operation.run, fits]
      rw [first]
      rfl

/-- Folding gives the exact result when the results fit. -/
theorem yields_fold (overflowChecks : Bool) :
    Yields (some ((ns.map Int64.toInt).foldl op.exact acc.toInt))
        (ns.foldlM (op.run overflowChecks) acc) ↔
      Folds overflowChecks op.exact acc.toInt (ns.map Int64.toInt) := by
  unfold Folds
  cases overflowChecks with
  | false =>
    obtain ⟨n, folded, value⟩ := foldlM_run_unchecked op acc ns
    rw [folded]
    -- The result is the exact one when reducing does not change that.
    simp [Yields, value, inRange_iff, eq_comm]
  | true =>
    simp only [if_true]
    by_cases stays : StaysInRange op.exact acc.toInt (ns.map Int64.toInt)
    · obtain ⟨n, folded, value⟩ := foldlM_run_of_staysInRange op acc ns stays
      rw [folded]
      exact iff_of_true (.inr ⟨n, rfl, by rw [value]⟩) stays
    · rw [foldlM_run_of_not_staysInRange op acc ns stays]
      exact iff_of_false (by simp [Yields]) stays

/-- Dividing gives the exact quotient, or meets a zero, when the quotients fit. -/
theorem yields_divide :
    Yields (Arith.quotient acc.toInt (ns.map Int64.toInt)) (ns.foldlM divide acc) ↔
      Divides acc.toInt (ns.map Int64.toInt) := by
  induction ns generalizing acc with
  | nil => exact iff_of_true (.inr ⟨acc, rfl, rfl⟩) trivial
  | cons n rest ih =>
    have zero : n.toInt = 0 ↔ n = 0 := Int64.toInt_inj (y := 0)
    rw [List.foldlM_cons, List.map_cons, Arith.quotient, Divides]
    by_cases none : n = 0
    · -- A zero is refused before anything is divided by it.
      subst none
      exact iff_of_true (.inl ⟨.divByZero, rfl⟩) fun nonzero => absurd rfl nonzero
    · have nonzero : n.toInt ≠ 0 := fun same => none (zero.mp same)
      by_cases fits : InRange (acc.toInt.tdiv n.toInt)
      · have value : (acc / n).toInt = acc.toInt.tdiv n.toInt := by
          rw [Int64.toInt_div, inRange_iff.mp fits]
        have divided : divide acc n = .ok (acc / n) := by simp [divide, none, fits]
        have behind := ih (acc / n)
        rw [value] at behind
        rw [if_neg nonzero, divided]
        exact behind.trans ⟨fun all _ => ⟨fits, all⟩, fun all => (all nonzero).2⟩
      · have panics : divide acc n = .error .panicked := by simp [divide, none, fits]
        rw [panics]
        exact iff_of_false (by simp [Yields, bind, Except.bind]) fun all => fits (all nonzero).1

end

/-- A negation is exact when it is in range. -/
theorem yields_negate (overflowChecks : Bool) (n : Int64) :
    Yields (some (-n.toInt)) (negate overflowChecks n) ↔ InRange (-n.toInt) := by
  by_cases fits : InRange (-n.toInt)
  · have value : (-n).toInt = -n.toInt := by rw [Int64.toInt_neg, inRange_iff.mp fits]
    refine iff_of_true (.inr ⟨-n, by simp [negate, fits], by rw [value]⟩) fits
  · refine iff_of_false ?_ fits
    -- Out of range it panics, or wraps around to something else.
    have wrapped : ¬ -n.toInt = (-n).toInt := fun same => fits (same ▸ inRange_toInt (-n))
    cases overflowChecks with
    | true => simp [Yields, negate, fits]
    | false => simpa [Yields, negate, fits] using wrapped

/-- A builtin gives the exact result or an error exactly when the results fit, in a build with
overflow checks and in one without. -/
theorem exactOrRefused_iff (overflowChecks : Bool) (op : Arith) (first : Int64)
    (rest : List Int64) :
    ExactOrRefused op first rest
        (op.call overflowChecks ((first :: rest).map (Value.int (H := H)))) ↔
      Fits overflowChecks op first.toInt (rest.map Int64.toInt) := by
  cases op with
  | add =>
    have called : Arith.add.call overflowChecks ((first :: rest).map (Value.int (H := H))) =
        ((first :: rest).foldlM (Operation.plus.run overflowChecks) 0).map Value.int := by
      rw [← accumulate_int (H := H)]
      rfl
    rw [called, exactOrRefused_map]
    exact yields_fold Operation.plus 0 (first :: rest) overflowChecks
  | sub =>
    cases rest with
    | nil =>
      -- There is nothing to subtract, and the argument is negated.
      have called : Arith.sub.call overflowChecks ([first].map (Value.int (H := H))) =
          (negate overflowChecks first).map Value.int := rfl
      rw [called, exactOrRefused_map]
      exact yields_negate overflowChecks first
    | cons second rest =>
      have called : Arith.sub.call overflowChecks
          ((first :: second :: rest).map (Value.int (H := H))) =
          ((second :: rest).foldlM (Operation.minus.run overflowChecks) first).map Value.int := by
        rw [← accumulate_int (H := H)]
        rfl
      rw [called, exactOrRefused_map]
      exact yields_fold Operation.minus first (second :: rest) overflowChecks
  | mul =>
    have called : Arith.mul.call overflowChecks ((first :: rest).map (Value.int (H := H))) =
        ((first :: rest).foldlM (Operation.times.run overflowChecks) 1).map Value.int := by
      rw [← accumulate_int (H := H)]
      rfl
    rw [called, exactOrRefused_map]
    exact yields_fold Operation.times 1 (first :: rest) overflowChecks
  | div =>
    cases rest with
    | nil =>
      -- A single argument is refused.
      exact iff_of_true (.inl ⟨_, rfl⟩) trivial
    | cons second rest =>
      have called : Arith.div.call overflowChecks
          ((first :: second :: rest).map (Value.int (H := H))) =
          ((second :: rest).foldlM divide first).map Value.int := by
        rw [← accumulate_int (H := H)]
        rfl
      rw [called, exactOrRefused_map]
      exact yields_divide first (second :: rest)

/-- A host in which an operation is a builtin calls it as the interpreter applies it. -/
theorem applyForced_arith [Builtins H] (I : Interp H) {overflowChecks : Bool} {op : Arith}
    {b : H.Builtin} (named : H.name b = op.symbol) (takes : H.arity b = op.arity)
    (runs : ∀ args world,
      Builtins.run b args world = some (op.func overflowChecks args, world))
    (args : List (Value H)) (s : State H) :
    I.applyForced (.builtin b) args s = some (op.call overflowChecks args, s) := by
  unfold Interp.applyForced Arith.call
  simp only [named, takes]
  -- Too many or too few arguments are refused by both.
  split
  · simp [Comp.zoom, runs]
  · rfl

/-- The largest integer and one more have no sum: it panics, or wraps around. -/
theorem not_exactOrRefused_maximum :
    let sum (overflowChecks : Bool) : Except Failure (Value emptyHost) :=
      Arith.add.call overflowChecks ([Int64.maxValue, 1].map Value.int)
    ¬ ExactOrRefused .add Int64.maxValue [1] (sum true) ∧
      ¬ ExactOrRefused .add Int64.maxValue [1] (sum false) := by
  -- With checks there is a panic, which is no refusal; without them the least integer.
  intro sum
  have panics : sum true = .error .panicked := rfl
  have wraps : sum false = .ok (.int Int64.minValue) := rfl
  rw [panics, wraps]
  constructor
  · rintro (⟨e, refused⟩ | ⟨n, given, -⟩)
    · cases refused
    · cases given
  · rintro (⟨e, refused⟩ | ⟨n, given, value⟩)
    · cases refused
    · cases given
      exact absurd value (by decide)

end

section lists

variable {H : Host}

mutual

/-- `value_eq`: values of one kind that are the same, lists item by item; values of any other kind
are equal to none. -/
def valueEq : Value H → Value H → Bool
  | .nil, .nil => true
  | .bool a, .bool b => a == b
  | .int a, .int b => a == b
  | .float a, .float b => a.eq b
  | .str a, .str b => a == b
  | .symbol a, .symbol b => a == b
  | .keyword a, .keyword b => a == b
  | .path a, .path b => a == b
  | .list a, .list b => valuesEq a b
  | _, _ => false

/-- Lists that are as long as each other and equal item by item. -/
def valuesEq : List (Value H) → List (Value H) → Bool
  | [], [] => true
  | a :: as, b :: bs => valueEq a b && valuesEq as bs
  | _, _ => false

end

/-- `eq`. -/
def eq (args : List (Value H)) : Except Failure (Value H) :=
  match args with
  | a :: b :: _ => .ok (.bool (valueEq a b))
  -- An argument that is taken by its place and is not there.
  | _ => .error .panicked

/-- `list_`. -/
def list (args : List (Value H)) : Except Failure (Value H) := .ok (.list args)

/-- `car`. -/
def car (args : List (Value H)) : Except Failure (Value H) :=
  match args with
  | [] => .error .panicked
  | .list (first :: _) :: _ => .ok first
  | .list [] :: _ => .error (.error (.other "car of empty list"))
  | v :: _ => .error (.error (.type "list" v.typeName))

/-- Builtins on numbers and lists, which need nothing of the world outside. -/
inductive Basic
  | arith (op : Arith) | eq | list | car
  deriving DecidableEq, Repr

namespace Basic

/-- The name of a builtin. -/
def name : Basic → String
  | arith op => op.symbol
  | eq => "="
  | list => "list"
  | car => "car"

/-- How many arguments a builtin takes. -/
def arity : Basic → Arity
  | arith op => op.arity
  | eq => .exact 2
  | list => .any
  | car => .exact 1

/-- The function of a builtin. -/
def func (overflowChecks : Bool) : Basic → List (Value H) → Except Failure (Value H)
  | arith op => op.func overflowChecks
  | eq => Eval.eq
  | list => Eval.list
  | car => Eval.car

end Basic

/-- Numbers are taken from values that agree alike. -/
theorem coerceInt_agree {v w : Value H} (agree : Agree v w) (op : String) :
    coerceInt v op = coerceInt w op := by
  cases agree <;> rfl

/-- Arguments that agree are taken into an accumulator alike. -/
theorem accumulate_agree (step : Int64 → Int64 → Except Failure Int64) (op : String)
    {args args' : List (Value H)} (agree : List.Forall₂ Agree args args') (acc : Int64) :
    accumulate step op acc args = accumulate step op acc args' := by
  -- By induction on the arguments.
  induction agree generalizing acc with
  | nil => rfl
  | cons first _ ih => simp only [accumulate, coerceInt_agree first, ih]

/-- An arithmetic builtin gives the same number for arguments that agree. -/
theorem Arith.func_agree (overflowChecks : Bool) (op : Arith) {args args' : List (Value H)}
    (agree : List.Forall₂ Agree args args') :
    op.func overflowChecks args = op.func overflowChecks args' := by
  cases op with
  | add => simp only [func, Eval.add, accumulate_agree _ _ agree]
  | mul => simp only [func, Eval.mul, accumulate_agree _ _ agree]
  | sub =>
    -- A single argument is negated, and the others are taken off the first.
    cases agree with
    | nil => rfl
    | cons first rest =>
      cases rest with
      | nil => simp only [func, Eval.sub, coerceInt_agree first]
      | cons second rest =>
        simp only [func, Eval.sub, coerceInt_agree first, accumulate_agree _ _ (.cons second rest)]
  | div =>
    cases agree with
    | nil => rfl
    | cons first rest =>
      simp only [func, Eval.div, coerceInt_agree first, accumulate_agree _ _ rest]

end lists

end Tatara.Eval
