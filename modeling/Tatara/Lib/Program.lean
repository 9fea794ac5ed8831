import Mathlib.Tactic.Common

/-! Programs that call their surroundings and go on with the answers, and what their runs show. -/

namespace Tatara

/-- A program that calls its surroundings; the type of an answer depends on the call. -/
inductive Program (Call : Type) (Answer : Call → Type) (α : Type) where
  | done (result : α)
  | ask (call : Call) (next : Answer call → Program Call Answer α)

namespace Program

variable {Call : Type} {Answer : Call → Type} {α β ε μ : Type}

/-- Go on with the result of a program. -/
def bind : Program Call Answer α → (α → Program Call Answer β) → Program Call Answer β
  | done a, f => f a
  | ask call next, f => ask call fun answer => (next answer).bind f

instance : Monad (Program Call Answer) where
  pure := done
  bind := bind

/-- It makes no difference how programs in a row are put together. -/
theorem bind_assoc {γ : Type} (x : Program Call Answer α) (f : α → Program Call Answer β)
    (g : β → Program Call Answer γ) : (x.bind f).bind g = x.bind fun a => (f a).bind g := by
  -- By induction on the first program, whose calls come first on either side.
  induction x with
  | done a => rfl
  | ask c next ih => exact congrArg (ask c) (funext ih)

/-- A program behind which nothing is done is that program. -/
theorem bind_done (x : Program Call Answer α) : x.bind done = x := by
  -- By induction on the program: only its results are handed on.
  induction x with
  | done a => rfl
  | ask c next ih => exact congrArg (ask c) (funext ih)

instance : LawfulMonad (Program Call Answer) :=
  LawfulMonad.mk' _ bind_done (fun _ _ => rfl) bind_assoc

/-- A program of one call, whose answer is its result. -/
def call (c : Call) : Program Call Answer (Answer c) := ask c done

/-- A call together with the answer to it. -/
abbrev Exchange (Answer : Call → Type) := (call : Call) × Answer call

/-- The program exchanges these calls and answers, one after the other, and ends in this result. -/
inductive Runs : Program Call Answer α → List (Exchange Answer) → α → Prop where
  | done (a : α) : Runs (done a) [] a
  | ask (c : Call) (next : Answer c → Program Call Answer α) (answer : Answer c)
      {trace : List (Exchange Answer)} {a : α} (rest : Runs (next answer) trace a) :
      Runs (ask c next) (⟨c, answer⟩ :: trace) a

/-- What is handed back at once exchanges nothing. -/
theorem runs_pure_iff {a b : α} {trace : List (Exchange Answer)} :
    Runs (pure a : Program Call Answer α) trace b ↔ trace = [] ∧ b = a := by
  -- There is one way to run it.
  constructor
  · intro runs
    cases runs
    exact ⟨rfl, rfl⟩
  · intro ended
    obtain ⟨rfl, rfl⟩ := ended
    exact .done b

/-- A single call is run by its one exchange. -/
theorem runs_call_iff {c : Call} {answer : Answer c} {trace : List (Exchange Answer)} :
    Runs (call c) trace answer ↔ trace = [⟨c, answer⟩] := by
  constructor
  · intro runs
    cases runs with
    | ask _ _ _ rest =>
      -- Behind the one call there is nothing left to do.
      cases rest
      rfl
  · intro single
    subst single
    exact .ask c done answer (.done answer)

/-- A run of two programs in a row is a run of the first and then one of the second. -/
theorem runs_bind_iff {x : Program Call Answer α} {f : α → Program Call Answer β}
    {trace : List (Exchange Answer)} {b : β} :
    Runs (x >>= f) trace b ↔
      ∃ front a back, Runs x front a ∧ Runs (f a) back b ∧ trace = front ++ back := by
  show Runs (x.bind f) trace b ↔ _
  -- A call of the first program comes first, and its answer selects what remains.
  induction x generalizing trace with
  | done a =>
    constructor
    · intro runs
      exact ⟨[], a, trace, .done a, runs, rfl⟩
    · intro parts
      obtain ⟨front, _, back, ⟨⟩, second, rfl⟩ := parts
      exact second
  | ask c next ih =>
    constructor
    · intro runs
      cases runs with
      | ask _ _ answer rest =>
        obtain ⟨front, a, back, first, second, rfl⟩ := (ih answer).mp rest
        exact ⟨⟨c, answer⟩ :: front, a, back, .ask c next answer first, second, rfl⟩
    · intro parts
      obtain ⟨front, a, back, first, second, rfl⟩ := parts
      cases first with
      | ask _ _ answer rest =>
        exact .ask _ _ answer ((ih answer).mpr ⟨_, a, back, rest, second, rfl⟩)

/-- The same for programs that may fail, where a failure of the first one is that of the whole. -/
theorem runs_try_iff {x : ExceptT ε (Program Call Answer) α}
    {f : α → ExceptT ε (Program Call Answer) β} {trace : List (Exchange Answer)}
    {outcome : Except ε β} :
    Runs (x >>= f).run trace outcome ↔
      (∃ error, Runs x.run trace (.error error) ∧ outcome = .error error) ∨
        ∃ front a back, Runs x.run front (.ok a) ∧ Runs (f a).run back outcome ∧
          trace = front ++ back := by
  -- Underneath, the second program looks at how the first one has ended.
  show Runs (x.run >>= ExceptT.bindCont f) trace outcome ↔ _
  rw [runs_bind_iff]
  constructor
  · intro parts
    obtain ⟨front, result, back, first, second, rfl⟩ := parts
    cases result with
    | error error =>
      obtain ⟨rfl, rfl⟩ := runs_pure_iff.mp second
      exact .inl ⟨error, by simpa using first, rfl⟩
    | ok a => exact .inr ⟨front, a, back, first, second, rfl⟩
  · intro either
    rcases either with ⟨error, first, rfl⟩ | ⟨front, a, back, first, second, rfl⟩
    · exact ⟨trace, .error error, [], first, runs_pure_iff.mpr ⟨rfl, rfl⟩, by simp⟩
    · exact ⟨front, .ok a, back, first, second, rfl⟩

/-- Peel the first part off a program that has gone through. -/
theorem runs_try_ok {x : ExceptT ε (Program Call Answer) α}
    {f : α → ExceptT ε (Program Call Answer) β} {trace : List (Exchange Answer)} {b : β}
    (runs : Runs (x >>= f).run trace (.ok b)) :
    ∃ front a back, Runs x.run front (.ok a) ∧ Runs (f a).run back (.ok b) ∧
      trace = front ++ back := by
  -- It has not failed in front, or else it could not have gone through.
  rcases runs_try_iff.mp runs with ⟨error, -, failed⟩ | through
  · cases failed
  · exact through

/-- A run over the items of a list comes to one result for each of them. -/
theorem runs_mapM {f : β → Program Call Answer α} {items : List β} {trace : List (Exchange Answer)}
    {results : List α} (runs : Runs (items.mapM f) trace results) :
    List.Forall₂ (fun item result => ∃ trace, Runs (f item) trace result) items results := by
  induction items generalizing trace results with
  | nil =>
    obtain ⟨-, rfl⟩ := runs_pure_iff.mp (List.mapM_nil (f := f) ▸ runs)
    exact .nil
  | cons item items ih =>
    rw [List.mapM_cons] at runs
    -- The first item comes to its result, and the others to theirs.
    obtain ⟨front, result, back, first, rest, rfl⟩ := runs_bind_iff.mp runs
    obtain ⟨middle, others, last, second, final, rfl⟩ := runs_bind_iff.mp rest
    obtain ⟨rfl, rfl⟩ := runs_pure_iff.mp final
    exact .cons ⟨front, first⟩ (ih second)

/-- Run a program where each call has one answer, the same at all times. -/
def play (answer : ∀ c, Answer c) : Program Call Answer α → List (Exchange Answer) × α
  | done a => ([], a)
  | ask c next =>
    let (trace, a) := (next (answer c)).play answer
    (⟨c, answer c⟩ :: trace, a)

/-- A call is answered first, and the rest of the program goes on with the answer. -/
theorem play_call_bind (answer : ∀ c, Answer c) (c : Call) (f : Answer c → Program Call Answer α) :
    (call c >>= f).play answer =
      (⟨c, answer c⟩ :: ((f (answer c)).play answer).1, ((f (answer c)).play answer).2) :=
  rfl

/-- A program that is done has nothing to play. -/
theorem play_pure (answer : ∀ c, Answer c) (a : α) :
    (pure a : Program Call Answer α).play answer = ([], a) :=
  rfl

/-- Whatever the answers are, playing them is a run of the program. -/
theorem runs_play (answer : ∀ c, Answer c) (x : Program Call Answer α) :
    Runs x (x.play answer).1 (x.play answer).2 := by
  -- The run goes through the calls in the order in which the program makes them.
  induction x with
  | done a => exact .done a
  | ask c next ih => exact .ask c next (answer c) (ih (answer c))

/-- Every answer in it is the one that is given to its call. -/
theorem play_answered (answer : ∀ c, Answer c) (x : Program Call Answer α) :
    ∀ exchange ∈ (x.play answer).1, exchange.2 = answer exchange.1 := by
  -- By induction on the program, which is answered call by call.
  induction x with
  | done a => simp [play]
  | ask c next ih => simpa [play] using ih (answer c)

/-- Lifting a program that cannot fail adds nothing to its runs. -/
theorem runs_lift_iff {x : Program Call Answer α} {trace : List (Exchange Answer)}
    {outcome : Except ε α} :
    Runs (liftM x : ExceptT ε (Program Call Answer) α).run trace outcome ↔
      ∃ a, Runs x trace a ∧ outcome = .ok a := by
  -- The lifting only wraps the result.
  show Runs (x >>= fun a => pure (.ok a)) trace outcome ↔ _
  rw [runs_bind_iff]
  constructor
  · intro parts
    obtain ⟨front, a, back, first, second, rfl⟩ := parts
    obtain ⟨rfl, rfl⟩ := runs_pure_iff.mp second
    exact ⟨a, by simpa using first, rfl⟩
  · intro parts
    obtain ⟨a, runs, rfl⟩ := parts
    exact ⟨trace, a, [], runs, runs_pure_iff.mpr ⟨rfl, rfl⟩, by simp⟩

/-- Behind a part that cannot fail the rest of a program runs on its result. -/
theorem runs_liftBind_iff {x : Program Call Answer α} {f : α → ExceptT ε (Program Call Answer) β}
    {trace : List (Exchange Answer)} {outcome : Except ε β} :
    Runs ((liftM x : ExceptT ε (Program Call Answer) α) >>= f).run trace outcome ↔
      ∃ front a back, Runs x front a ∧ Runs (f a).run back outcome ∧ trace = front ++ back := by
  rw [runs_try_iff]
  constructor
  · intro either
    rcases either with ⟨error, failed, rfl⟩ | ⟨front, a, back, lifted, rest, rfl⟩
    · -- Lifting does not make a program fail.
      obtain ⟨_, -, impossible⟩ := runs_lift_iff.mp failed
      cases impossible
    · obtain ⟨_, runs, same⟩ := runs_lift_iff.mp lifted
      cases same
      exact ⟨front, a, back, runs, rest, rfl⟩
  · intro parts
    obtain ⟨front, a, back, runs, rest, rfl⟩ := parts
    exact .inr ⟨front, a, back, runs_lift_iff.mpr ⟨a, runs, rfl⟩, rest, rfl⟩

section

variable {mark : Exchange Answer → Option μ} {allowed : μ → Prop}

/-- Every run has at most one marked exchange, and its mark is one of those that are allowed. -/
def MarksOnce (mark : Exchange Answer → Option μ) (allowed : μ → Prop)
    (x : Program Call Answer α) : Prop :=
  ∀ trace a, Runs x trace a →
    trace.filterMap mark = [] ∨ ∃ m, trace.filterMap mark = [m] ∧ allowed m

/-- No run has a marked exchange. -/
def Quiet (mark : Exchange Answer → Option μ) (x : Program Call Answer α) : Prop :=
  ∀ trace a, Runs x trace a → trace.filterMap mark = []

/-- Every run has these marks, in this order. -/
def Shows (mark : Exchange Answer → Option μ) (marks : List μ) (x : Program Call Answer α) : Prop :=
  ∀ trace a, Runs x trace a → trace.filterMap mark = marks

namespace Shows

/-- A call that is always marked shows its mark. -/
theorem call {c : Call} {m : μ} (marked : ∀ answer, mark ⟨c, answer⟩ = some m) :
    Shows mark [m] (call c : Program Call Answer (Answer c)) := by
  -- The call is all that a run of it consists of.
  intro trace answer runs
  rw [runs_call_iff.mp runs]
  simp [marked]

/-- Programs in a row show their marks in a row. -/
theorem bind {x : Program Call Answer α} {f : α → Program Call Answer β} {marks more : List μ}
    (first : Shows mark marks x) (second : ∀ a, Shows mark more (f a)) :
    Shows mark (marks ++ more) (x >>= f) := by
  intro trace b runs
  -- The marks of the whole run are those of its two parts.
  obtain ⟨front, a, back, runsFirst, runsSecond, rfl⟩ := runs_bind_iff.mp runs
  rw [List.filterMap_append, first _ _ runsFirst, second a _ _ runsSecond]

/-- A part that cannot fail shows its marks before what follows it. -/
theorem liftBind {x : Program Call Answer α} {f : α → ExceptT ε (Program Call Answer) β}
    {marks more : List μ} (first : Shows mark marks x) (second : ∀ a, Shows mark more (f a).run) :
    Shows mark (marks ++ more) ((liftM x : ExceptT ε (Program Call Answer) α) >>= f).run := by
  -- The lifted part is run like the part itself.
  intro trace outcome runs
  obtain ⟨front, a, back, runsFirst, runsSecond, rfl⟩ := runs_liftBind_iff.mp runs
  rw [List.filterMap_append, first _ _ runsFirst, second a _ _ runsSecond]

/-- A loop shows the marks of its items in their order. -/
theorem forM {each : β → Program Call Answer PUnit} {shown : β → μ} (items : List β)
    (shows : ∀ item, Shows mark [shown item] (each item)) :
    Shows mark (items.map shown) (items.forM each) := by
  -- The loop runs its body on one item after the other.
  induction items with
  | nil =>
    intro trace a runs
    obtain ⟨rfl, -⟩ := runs_pure_iff.mp runs
    rfl
  | cons item items ih => exact Shows.bind (shows item) fun _ => ih

end Shows

namespace Quiet

/-- What marks nothing marks nothing more than once. -/
theorem marksOnce {x : Program Call Answer α} (quiet : Quiet mark x) : MarksOnce mark allowed x :=
  -- Of its two ways there is only the first.
  fun trace a runs => .inl (quiet trace a runs)

/-- What marks nothing shows no marks. -/
theorem shows {x : Program Call Answer α} (quiet : Quiet mark x) : Shows mark [] x := quiet

/-- A program that is done marks nothing. -/
theorem pure (a : α) : Quiet mark (pure a : Program Call Answer α) := by
  -- Its run is empty.
  intro trace b runs
  obtain ⟨rfl, -⟩ := runs_pure_iff.mp runs
  rfl

/-- A call that is never marked is quiet. -/
theorem call {c : Call} (unmarked : ∀ answer, mark ⟨c, answer⟩ = none) :
    Quiet mark (call c : Program Call Answer (Answer c)) := by
  -- Its only exchange is without a mark.
  intro trace answer runs
  rw [runs_call_iff.mp runs]
  simp [unmarked]

/-- Quiet programs in a row are quiet. -/
theorem bind {x : Program Call Answer α} {f : α → Program Call Answer β} (first : Quiet mark x)
    (second : ∀ a, Quiet mark (f a)) : Quiet mark (x >>= f) := by
  intro trace b runs
  -- Neither of the two parts of the run has a mark.
  obtain ⟨front, a, back, runsFirst, runsSecond, rfl⟩ := runs_bind_iff.mp runs
  rw [List.filterMap_append, first _ _ runsFirst, second a _ _ runsSecond, List.append_nil]

/-- Programs that may fail are quiet in a row as well. -/
theorem tryBind {x : ExceptT ε (Program Call Answer) α} {f : α → ExceptT ε (Program Call Answer) β}
    (first : Quiet mark x.run) (second : ∀ a, Quiet mark (f a).run) : Quiet mark (x >>= f).run := by
  refine Quiet.bind first fun result => ?_
  cases result with
  -- A failure ends the program at once.
  | error error => exact Quiet.pure _
  | ok a => exact second a

/-- A quiet program stays so where it could fail. -/
theorem lift {x : Program Call Answer α} (quiet : Quiet mark x) :
    Quiet mark (liftM x : ExceptT ε (Program Call Answer) α).run :=
  -- Behind the program only its result is wrapped.
  Quiet.bind quiet fun _ => Quiet.pure _

/-- A loop over quiet bodies that may fail is quiet. -/
theorem forM {each : β → ExceptT ε (Program Call Answer) PUnit} (items : List β)
    (quiet : ∀ item, Quiet mark (each item).run) : Quiet mark (items.forM each).run := by
  -- The loop runs its body on one item after the other.
  induction items with
  | nil => exact Quiet.pure _
  | cons item items ih => exact Quiet.tryBind (quiet item) fun _ => ih

/-- A loop over quiet bodies is quiet. -/
theorem each {each : β → Program Call Answer PUnit} (items : List β)
    (quiet : ∀ item, Quiet mark (each item)) : Quiet mark (items.forM each) := by
  -- By induction on the items.
  induction items with
  | nil => exact Quiet.pure _
  | cons item items ih => exact Quiet.bind (quiet item) fun _ => ih

/-- Taking the results of quiet programs is quiet. -/
theorem mapM {f : β → Program Call Answer α} (items : List β)
    (quiet : ∀ item, Quiet mark (f item)) : Quiet mark (items.mapM f) := by
  -- By induction on the items, whose results are collected at the end.
  induction items with
  | nil =>
    rw [List.mapM_nil]
    exact Quiet.pure _
  | cons item items ih =>
    rw [List.mapM_cons]
    exact Quiet.bind (quiet item) fun _ => Quiet.bind ih fun _ => Quiet.pure _

/-- A mark behind a quiet part comes from what follows that part. -/
theorem marked_behind {x : Program Call Answer α} {f : α → Program Call Answer β}
    {trace : List (Exchange Answer)} {b : β} {m : μ} (quiet : Quiet mark x)
    (runs : Runs (x >>= f) trace b) (marked : m ∈ trace.filterMap mark) :
    ∃ front a back, Runs x front a ∧ Runs (f a) back b ∧ trace = front ++ back ∧
      m ∈ back.filterMap mark := by
  obtain ⟨front, a, back, first, second, rfl⟩ := runs_bind_iff.mp runs
  -- The first part has no mark to offer.
  rw [List.filterMap_append, quiet _ _ first, List.nil_append] at marked
  exact ⟨front, a, back, first, second, rfl, marked⟩

/-- Behind a quiet program that may fail, a mark is one of what follows, which it has reached. -/
theorem marked_behind_try {x : ExceptT ε (Program Call Answer) α}
    {f : α → ExceptT ε (Program Call Answer) β} {trace : List (Exchange Answer)}
    {outcome : Except ε β} {m : μ} (quiet : Quiet mark x.run)
    (runs : Runs (x >>= f).run trace outcome) (marked : m ∈ trace.filterMap mark) :
    ∃ front a back, Runs x.run front (.ok a) ∧ Runs (f a).run back outcome ∧
      trace = front ++ back ∧ m ∈ back.filterMap mark := by
  obtain ⟨front, result, back, first, second, rfl, behind⟩ := marked_behind quiet runs marked
  cases result with
  | error error =>
    -- A failure ends the program, with no exchange left for the mark.
    obtain ⟨rfl, -⟩ := runs_pure_iff.mp second
    cases behind
  | ok a => exact ⟨front, a, back, first, second, rfl, behind⟩

end Quiet

namespace MarksOnce

/-- Whatever is marked is allowed. -/
theorem allowed_of_mem {x : Program Call Answer α} {trace : List (Exchange Answer)} {a : α} {m : μ}
    (marks : MarksOnce mark allowed x) (runs : Runs x trace a)
    (marked : m ∈ trace.filterMap mark) : allowed m := by
  -- A run with a mark has just the one, and it is allowed.
  rcases marks trace a runs with none | ⟨_, one, legal⟩
  · simp [none] at marked
  · rw [one, List.mem_singleton] at marked
    exact marked ▸ legal

/-- What is marked at most once stays so where more is allowed. -/
theorem mono {weaker : μ → Prop} {x : Program Call Answer α} (marks : MarksOnce mark allowed x)
    (implies : ∀ m, allowed m → weaker m) : MarksOnce mark weaker x := by
  -- The marks themselves are the same.
  intro trace a runs
  exact (marks trace a runs).imp id fun ⟨m, marked, legal⟩ => ⟨m, marked, implies m legal⟩

/-- What only prepares for a marked exchange goes before it, and may say which result it has. -/
theorem afterRun {x : Program Call Answer α} {f : α → Program Call Answer β} (first : Quiet mark x)
    (second : ∀ front a, Runs x front a → MarksOnce mark allowed (f a)) :
    MarksOnce mark allowed (x >>= f) := by
  intro trace b runs
  obtain ⟨front, a, back, runsFirst, runsSecond, rfl⟩ := runs_bind_iff.mp runs
  -- The marks of the whole run are those of its second part.
  rw [List.filterMap_append, first _ _ runsFirst, List.nil_append]
  exact second front a runsFirst _ _ runsSecond

/-- Behind a quiet program, what follows marks at most once. -/
theorem after {x : Program Call Answer α} {f : α → Program Call Answer β} (first : Quiet mark x)
    (second : ∀ a, MarksOnce mark allowed (f a)) : MarksOnce mark allowed (x >>= f) :=
  -- What the first part ends in does not matter here.
  afterRun first fun _ a _ => second a

/-- What only follows a marked exchange goes behind it. -/
theorem before {x : Program Call Answer α} {f : α → Program Call Answer β}
    (first : MarksOnce mark allowed x) (second : ∀ a, Quiet mark (f a)) :
    MarksOnce mark allowed (x >>= f) := by
  intro trace b runs
  obtain ⟨front, a, back, runsFirst, runsSecond, rfl⟩ := runs_bind_iff.mp runs
  -- The marks of the whole run are those of its first part.
  rw [List.filterMap_append, second a _ _ runsSecond, List.append_nil]
  exact first _ _ runsFirst

/-- Behind a quiet program that may fail, what follows marks at most once. -/
theorem tryAfter {x : ExceptT ε (Program Call Answer) α}
    {f : α → ExceptT ε (Program Call Answer) β} (first : Quiet mark x.run)
    (second : ∀ a, MarksOnce mark allowed (f a).run) : MarksOnce mark allowed (x >>= f).run := by
  refine MarksOnce.after first fun result => ?_
  cases result with
  -- Where the preparation fails, nothing is marked at all.
  | error error => exact (Quiet.pure _).marksOnce
  | ok a => exact second a

/-- In front of a quiet program that may follow, the first one marks at most once. -/
theorem tryBefore {x : ExceptT ε (Program Call Answer) α}
    {f : α → ExceptT ε (Program Call Answer) β} (first : MarksOnce mark allowed x.run)
    (second : ∀ a, Quiet mark (f a).run) : MarksOnce mark allowed (x >>= f).run := by
  -- Whether it fails or not, nothing is marked behind it.
  refine MarksOnce.before first fun result => ?_
  cases result with
  | error error => exact Quiet.pure _
  | ok a => exact second a

end MarksOnce

end

section

variable {cost : Call → Option Nat}

/-- From here on a program makes calls that are allowed, at a cost of so much at most. -/
def Spends (cost : Call → Option Nat) : Program Call Answer α → Nat → Prop
  | done _, _ => True
  | ask c next, budget =>
    ∃ price, cost c = some price ∧ price ≤ budget ∧
      ∀ answer, Spends cost (next answer) (budget - price)

namespace Spends

/-- What can be afforded can be afforded with more. -/
theorem mono {x : Program Call Answer α} {budget more : Nat} (spends : Spends cost x budget)
    (enough : budget ≤ more) : Spends cost x more := by
  -- By induction on the program: at each call as much is left over.
  induction x generalizing budget more with
  | done a => trivial
  | ask c next ih =>
    obtain ⟨price, priced, affordable, rest⟩ := spends
    exact ⟨price, priced, Nat.le_trans affordable enough, fun answer =>
      ih answer (rest answer) (Nat.sub_le_sub_right enough price)⟩

/-- What is done costs nothing. -/
theorem pure (a : α) (budget : Nat) : Spends cost (pure a : Program Call Answer α) budget := trivial

/-- A call costs its price. -/
theorem call {c : Call} {price : Nat} (priced : cost c = some price) :
    Spends cost (call c : Program Call Answer (Answer c)) price :=
  -- Behind it nothing has to be paid for.
  ⟨price, priced, Nat.le_refl price, fun _ => trivial⟩

/-- What follows a program may go by the results that this one can have. -/
theorem bindRun {x : Program Call Answer α} {f : α → Program Call Answer β} {budget more : Nat}
    (first : Spends cost x budget) (second : ∀ trace a, Runs x trace a → Spends cost (f a) more) :
    Spends cost (x >>= f) (budget + more) := by
  induction x generalizing budget with
  | done a => exact (second [] a (.done a)).mono (Nat.le_add_left more budget)
  | ask c next ih =>
    -- The first call is paid from the budget of the first program.
    obtain ⟨price, priced, affordable, rest⟩ := first
    refine ⟨price, priced, Nat.le_add_right_of_le affordable, fun answer => ?_⟩
    have spends := ih answer (rest answer) fun trace a runs =>
      second (⟨c, answer⟩ :: trace) a (.ask c next answer runs)
    exact spends.mono (by omega)

/-- Programs in a row cost what they cost together. -/
theorem bind {x : Program Call Answer α} {f : α → Program Call Answer β} {budget more : Nat}
    (first : Spends cost x budget) (second : ∀ a, Spends cost (f a) more) :
    Spends cost (x >>= f) (budget + more) :=
  -- The second one may depend on the result, but not its budget.
  first.bindRun fun _ a _ => second a

/-- A program that cannot fail is paid for in front of one that may. -/
theorem liftBind {x : Program Call Answer α} {f : α → ExceptT ε (Program Call Answer) β}
    {budget more : Nat} (first : Spends cost x budget)
    (second : ∀ trace a, Runs x trace a → Spends cost (f a).run more) :
    Spends cost ((liftM x : ExceptT ε (Program Call Answer) α) >>= f).run (budget + more) := by
  -- Lifting the program adds no call to it.
  have lifted : Spends cost (liftM x : ExceptT ε (Program Call Answer) α).run (budget + 0) :=
    first.bind fun _ => Spends.pure _ 0
  refine lifted.bindRun fun trace result runs => ?_
  obtain ⟨a, ran, rfl⟩ := runs_lift_iff.mp runs
  exact second trace a ran

/-- Programs that may fail cost no more in a row than together. -/
theorem tryBind {x : ExceptT ε (Program Call Answer) α} {f : α → ExceptT ε (Program Call Answer) β}
    {budget more : Nat} (first : Spends cost x.run budget)
    (second : ∀ a, Spends cost (f a).run more) : Spends cost (x >>= f).run (budget + more) := by
  -- After a failure the second budget is left over.
  refine first.bind fun result => ?_
  cases result with
  | error error => exact Spends.pure _ more
  | ok a => exact second a

/-- A list of free programs is free. -/
theorem mapM {f : β → Program Call Answer α} (items : List β)
    (free : ∀ item, Spends cost (f item) 0) : Spends cost (items.mapM f) 0 := by
  -- By induction on the items, each of which leaves the budget as it is.
  induction items with
  | nil =>
    rw [List.mapM_nil]
    exact Spends.pure _ 0
  | cons item items ih =>
    rw [List.mapM_cons]
    exact (free item).bind fun _ => ih.bind fun _ => Spends.pure _ 0

end Spends

end

section

variable {Call' : Type} {Answer' : Call' → Type}

/-- A program as a part of a larger system, where its calls and the answers to them are wrapped. -/
def through (wrap : Call → Call') (unwrap : ∀ c, Answer' (wrap c) → Answer c) :
    Program Call Answer α → Program Call' Answer' α
  | done a => done a
  | ask c next => ask (wrap c) fun answer => (next (unwrap c answer)).through wrap unwrap

end

/-- A protocol: which calls may be made at a stage, and the stage that an answer leads to. -/
structure Protocol (Call : Type) (Answer : Call → Type) (S : Type) where
  allows : S → Call → Prop
  next : S → (c : Call) → Answer c → S

section

variable {S : Type} {protocol : Protocol Call Answer S}

/-- From this stage on a program keeps to the protocol, whatever the answers are, and the stage at
which it ends goes with its result. -/
def Follows (protocol : Protocol Call Answer S) (ends : S → α → Prop) :
    Program Call Answer α → S → Prop
  | done a, stage => ends stage a
  | ask c next, stage =>
    protocol.allows stage c ∧
      ∀ answer, Follows protocol ends (next answer) (protocol.next stage c answer)

namespace Follows

/-- A program keeps to its protocol also where less is asked of its end. -/
theorem mono {ends weaker : S → α → Prop} {x : Program Call Answer α} {stage : S}
    (follows : Follows protocol ends x stage) (implies : ∀ stage a, ends stage a → weaker stage a) :
    Follows protocol weaker x stage := by
  -- By induction on the program, down to its ends.
  induction x generalizing stage with
  | done a => exact implies stage a follows
  | ask c next ih => exact ⟨follows.1, fun answer => ih answer (follows.2 answer)⟩

/-- A program that is done keeps to any protocol. -/
theorem pure {ends : S → α → Prop} {stage : S} {a : α} (ended : ends stage a) :
    Follows protocol ends (pure a : Program Call Answer α) stage := ended

/-- A call that is allowed keeps to the protocol. -/
theorem call {c : Call} {ends : S → Answer c → Prop} {stage : S} (allowed : protocol.allows stage c)
    (ended : ∀ answer, ends (protocol.next stage c answer) answer) :
    Follows protocol ends (call c : Program Call Answer (Answer c)) stage := ⟨allowed, ended⟩

/-- What follows a program goes on at the stage at which that one ends. -/
theorem bind {middle : S → α → Prop} {ends : S → β → Prop} {x : Program Call Answer α}
    {f : α → Program Call Answer β} {stage : S} (first : Follows protocol middle x stage)
    (second : ∀ stage a, middle stage a → Follows protocol ends (f a) stage) :
    Follows protocol ends (x >>= f) stage := by
  -- By induction on the first program, at whose ends the second one takes over.
  show Follows protocol ends (x.bind f) stage
  induction x generalizing stage with
  | done a => exact second stage a first
  | ask c next ih => exact ⟨first.1, fun answer => ih answer (first.2 answer)⟩

/-- A program that may fail goes on where it has not failed. -/
theorem tryBind {middle : S → Except ε α → Prop} {ends : S → Except ε β → Prop}
    {x : ExceptT ε (Program Call Answer) α} {f : α → ExceptT ε (Program Call Answer) β} {stage : S}
    (first : Follows protocol middle x.run stage)
    (failed : ∀ stage error, middle stage (.error error) → ends stage (.error error))
    (second : ∀ stage a, middle stage (.ok a) → Follows protocol ends (f a).run stage) :
    Follows protocol ends (x >>= f).run stage := by
  -- A failure is handed on from where it has come up.
  refine Follows.bind first fun stage result ended => ?_
  cases result with
  | error error => exact Follows.pure (failed stage error ended)
  | ok a => exact second stage a ended

/-- What follows a program that cannot fail goes on at its end. -/
theorem liftBind {middle : S → α → Prop} {ends : S → Except ε β → Prop} {x : Program Call Answer α}
    {f : α → ExceptT ε (Program Call Answer) β} {stage : S}
    (first : Follows protocol middle x stage)
    (second : ∀ stage a, middle stage a → Follows protocol ends (f a).run stage) :
    Follows protocol ends ((liftM x : ExceptT ε (Program Call Answer) α) >>= f).run stage := by
  have lifted : Follows protocol (fun stage result => ∃ a, result = .ok a ∧ middle stage a)
      (liftM x : ExceptT ε (Program Call Answer) α).run stage :=
    first.bind fun stage a ended => ⟨a, rfl, ended⟩
  refine lifted.bind fun stage result ended => ?_
  -- A program that cannot fail is never at an error here.
  obtain ⟨a, rfl, holds⟩ := ended
  exact second stage a holds

/-- Where the calls of a program are allowed at every stage, nothing else is asked of it. -/
theorem through {Call' : Type} {Answer' : Call' → Type} {wrap : Call' → Call}
    {unwrap : ∀ c, Answer (wrap c) → Answer' c}
    (allowed : ∀ stage c, protocol.allows stage (wrap c))
    (x : Program Call' Answer' α) (stage : S) :
    Follows protocol (fun _ _ => True) (x.through wrap unwrap) stage := by
  -- By induction on the program, whose calls are all allowed.
  induction x generalizing stage with
  | done a => trivial
  | ask c next ih => exact ⟨allowed stage c, fun answer => ih _ _⟩

end Follows

end

/-- A call in two steps: it is submitted, and its answer is awaited under the ticket that it got. -/
inductive Deferred (Call : Type) where
  | submit (c : Call)
  | await (c : Call) (ticket : Nat)

/-- A submission is answered with a ticket. -/
@[reducible] def DeferredAnswer (Answer : Call → Type) : Deferred Call → Type
  | .submit _ => Nat
  | .await c _ => Answer c

/-- The program that makes each of its calls in two steps. -/
def deferred : Program Call Answer α → Program (Deferred Call) (DeferredAnswer Answer) α
  | done a => done a
  | ask c next =>
    ask (.submit c) fun ticket => ask (.await c ticket) fun answer => (next answer).deferred

section

variable {S : Type} {protocol : Protocol Call Answer S}

/-- The protocol in two steps: a call is awaited where it has been submitted, and leads on to the next
stage only then. -/
def Protocol.deferred (protocol : Protocol Call Answer S) :
    Protocol (Deferred Call) (DeferredAnswer Answer) (S × Option (Call × Nat)) where
  allows
    | (stage, none), .submit c => protocol.allows stage c
    | (stage, some awaited), .await c ticket => awaited = (c, ticket) ∧ protocol.allows stage c
    | _, _ => False
  next
    | (stage, _), .submit c, ticket => (stage, some (c, ticket))
    | (stage, _), .await c _, answer => (protocol.next stage c answer, none)

/-- What keeps to a protocol keeps to it in two steps. -/
theorem Follows.deferred {ends : S → α → Prop} {x : Program Call Answer α} {stage : S}
    (follows : Follows protocol ends x stage) :
    Follows protocol.deferred (fun last a => ends last.1 a) x.deferred (stage, none) := by
  -- By induction on the program, whose every call is awaited before anything else is submitted.
  induction x generalizing stage with
  | done a => exact follows
  | ask c next ih =>
    obtain ⟨allowed, rest⟩ := follows
    exact ⟨allowed, fun ticket => ⟨⟨rfl, allowed⟩, fun answer => ih answer (rest answer)⟩⟩

end

end Program

end Tatara

/-! What the runs of a program mark whose calls are answered in a certain way. -/

namespace Tatara.Program

variable {Call : Type} {Answer : Call → Type} {α β ε μ : Type}

section

variable (answered : Exchange Answer → Prop) (mark : Exchange Answer → Option μ)
  (allowed : μ → Prop)

/-- From here on, whatever the answers are among those in question, only what is allowed is
marked. -/
def MarksOnly : Program Call Answer α → Prop
  | done _ => True
  | ask c next =>
    ∀ answer, answered ⟨c, answer⟩ →
      (∀ m ∈ mark ⟨c, answer⟩, allowed m) ∧ MarksOnly (next answer)

/-- A program that may fail can end without a failure, with answers of this kind. -/
def Completes (x : ExceptT ε (Program Call Answer) α) : Prop :=
  ∃ trace a, Runs x.run trace (.ok a) ∧ ∀ event ∈ trace, answered event

end

variable {answered : Exchange Answer → Prop} {mark : Exchange Answer → Option μ}
variable {allowed : μ → Prop}

/-- Where every call has an answer of the kind in question, every program has such a run. -/
theorem exists_run (answerable : ∀ c, ∃ answer, answered ⟨c, answer⟩) (x : Program Call Answer α) :
    ∃ trace a, Runs x trace a ∧ ∀ event ∈ trace, answered event := by
  -- The run takes one fixed answer for each call.
  choose answer fits using answerable
  refine ⟨_, _, runs_play answer x, fun event among => ?_⟩
  have given := play_answered answer x event among
  obtain ⟨c, reply⟩ := event
  have given : reply = answer c := given
  exact given ▸ fits c

/-- It is the marks of the runs that the definition speaks of. -/
theorem marksOnly_iff_runs (answerable : ∀ c, ∃ answer, answered ⟨c, answer⟩)
    {x : Program Call Answer α} :
    MarksOnly answered mark allowed x ↔
      ∀ trace a, Runs x trace a → (∀ event ∈ trace, answered event) →
        ∀ m ∈ trace.filterMap mark, allowed m := by
  -- A run is one answer to the first call and a run of what follows it.
  induction x with
  | done a =>
    refine iff_of_true trivial fun trace b runs _ m marked => ?_
    cases runs
    cases marked
  | ask c next ih =>
    constructor
    · intro marks trace a runs fits m marked
      cases runs with
      | ask _ _ answer rest =>
        obtain ⟨fit, fits⟩ := List.forall_mem_cons.mp fits
        obtain ⟨here, later⟩ := marks answer fit
        rcases List.mem_filterMap.mp marked with ⟨event, among, marks⟩
        rcases List.mem_cons.mp among with rfl | among
        · exact here m marks
        · exact (ih answer).mp later _ _ rest fits m (List.mem_filterMap.mpr ⟨event, among, marks⟩)
    · intro marks answer fit
      have extended (trace : List (Exchange Answer)) (a : _) (runs : Runs (next answer) trace a)
          (fits : ∀ event ∈ trace, answered event) :=
        marks _ a (.ask c next answer runs) (List.forall_mem_cons.mpr ⟨fit, fits⟩)
      refine ⟨fun m marked => ?_, (ih answer).mpr fun trace a runs fits m marked => ?_⟩
      · -- The first call is marked in every run, however the run goes on.
        obtain ⟨trace, a, runs, fits⟩ := exists_run answerable (next answer)
        exact extended trace a runs fits m
          (List.mem_filterMap.mpr ⟨_, List.mem_cons_self, marked⟩)
      · obtain ⟨event, among, marks⟩ := List.mem_filterMap.mp marked
        exact extended trace a runs fits m
          (List.mem_filterMap.mpr ⟨event, List.mem_cons_of_mem _ among, marks⟩)

/-- A single call marks only what is allowed where its answers do. -/
theorem marksOnly_call_iff {c : Call} :
    MarksOnly answered mark allowed (call c : Program Call Answer (Answer c)) ↔
      ∀ answer, answered ⟨c, answer⟩ → ∀ m ∈ mark ⟨c, answer⟩, allowed m := by
  -- Behind the call there is nothing to mark.
  simp [call, MarksOnly]

/-- Two programs in a row mark what the first one marks, and the second one on each result. -/
theorem marksOnly_bind_iff {x : Program Call Answer α} {f : α → Program Call Answer β} :
    MarksOnly answered mark allowed (x >>= f) ↔
      MarksOnly answered mark allowed x ∧
        ∀ trace a, Runs x trace a → (∀ event ∈ trace, answered event) →
          MarksOnly answered mark allowed (f a) := by
  show MarksOnly answered mark allowed (x.bind f) ↔ _
  -- The answer to the first call selects what remains of the first program.
  induction x with
  | done a =>
    constructor
    · intro marks
      refine ⟨trivial, fun trace b runs _ => ?_⟩
      cases runs
      exact marks
    · intro both
      exact both.2 [] a (.done a) (by simp)
  | ask c next ih =>
    constructor
    · intro marks
      refine ⟨fun answer fit => ?_, fun trace a runs fits => ?_⟩
      · obtain ⟨here, later⟩ := marks answer fit
        exact ⟨here, ((ih answer).mp later).1⟩
      · cases runs with
        | ask _ _ answer rest =>
          obtain ⟨fit, fits⟩ := List.forall_mem_cons.mp fits
          exact ((ih answer).mp (marks answer fit).2).2 _ _ rest fits
    · intro both answer fit
      obtain ⟨here, later⟩ := both.1 answer fit
      refine ⟨here, (ih answer).mpr ⟨later, fun trace a runs fits => ?_⟩⟩
      exact both.2 _ a (.ask c next answer runs) (List.forall_mem_cons.mpr ⟨fit, fits⟩)

/-- The same for programs that may fail, of which the second one runs where the first succeeds. -/
theorem marksOnly_try_iff {x : ExceptT ε (Program Call Answer) α}
    {f : α → ExceptT ε (Program Call Answer) β} :
    MarksOnly answered mark allowed (x >>= f).run ↔
      MarksOnly answered mark allowed x.run ∧
        ∀ trace a, Runs x.run trace (.ok a) → (∀ event ∈ trace, answered event) →
          MarksOnly answered mark allowed (f a).run := by
  -- Underneath, the second program looks at how the first one has ended.
  show MarksOnly answered mark allowed (x.run >>= ExceptT.bindCont f) ↔ _
  rw [marksOnly_bind_iff]
  refine and_congr_right fun _ => ⟨fun marks trace a runs fits => marks trace (.ok a) runs fits, ?_⟩
  intro marks trace result runs fits
  cases result with
  | error error => trivial
  | ok a => exact marks trace a runs fits

/-- Lifting a program changes nothing about its marks. -/
theorem marksOnly_lift_iff {x : Program Call Answer α} :
    MarksOnly answered mark allowed (liftM x : ExceptT ε (Program Call Answer) α).run ↔
      MarksOnly answered mark allowed x := by
  -- The lifting only wraps the result.
  show MarksOnly answered mark allowed (x >>= fun a => pure (Except.ok a : Except ε α)) ↔ _
  rw [marksOnly_bind_iff]
  exact and_iff_left fun _ _ _ _ => trivial

/-- Behind a call that marks nothing and has just one answer, it is what follows that marks. -/
theorem marksOnly_read_iff {c : Call} {f : Answer c → ExceptT ε (Program Call Answer) β}
    {a : Answer c} (fixed : ∀ answer, answered ⟨c, answer⟩ ↔ answer = a)
    (unmarked : mark ⟨c, a⟩ = none) :
    MarksOnly answered mark allowed
        ((liftM (call c : Program Call Answer (Answer c)) : ExceptT ε (Program Call Answer) _) >>=
          f).run ↔
      MarksOnly answered mark allowed (f a).run := by
  show (∀ answer, answered ⟨c, answer⟩ →
    (∀ m ∈ mark ⟨c, answer⟩, allowed m) ∧ MarksOnly answered mark allowed (f answer).run) ↔ _
  constructor
  · intro marks
    exact (marks a ((fixed a).mpr rfl)).2
  · -- There is only one answer to go on with.
    intro marks answer fit
    obtain rfl := (fixed answer).mp fit
    refine ⟨fun m marked => ?_, marks⟩
    rw [unmarked] at marked
    cases marked

namespace Completes

/-- What is done completes. -/
theorem pure (a : α) : Completes answered (pure a : ExceptT ε (Program Call Answer) α) :=
  -- The empty run will do.
  ⟨[], a, .done _, by simp⟩

/-- Programs in a row complete where both of them do. -/
theorem bind {x : ExceptT ε (Program Call Answer) α} {f : α → ExceptT ε (Program Call Answer) β}
    (first : Completes answered x) (second : ∀ a, Completes answered (f a)) :
    Completes answered (x >>= f) := by
  -- The two runs are put one behind the other.
  obtain ⟨front, a, runs, fits⟩ := first
  obtain ⟨back, b, runs', fits'⟩ := second a
  refine ⟨front ++ back, b, runs_try_iff.mpr (.inr ⟨front, a, back, runs, runs', rfl⟩), ?_⟩
  intro event among
  rcases List.mem_append.mp among with among | among
  · exact fits event among
  · exact fits' event among

/-- A program whose calls can all be answered completes. -/
theorem lift (answerable : ∀ c, ∃ answer, answered ⟨c, answer⟩) (x : Program Call Answer α) :
    Completes answered (liftM x : ExceptT ε (Program Call Answer) α) := by
  -- What cannot fail only has to be answered.
  obtain ⟨trace, a, runs, fits⟩ := exists_run answerable x
  exact ⟨trace, a, runs_lift_iff.mpr ⟨a, runs, rfl⟩, fits⟩

/-- A loop completes where its body does for every item. -/
theorem forM {each : β → ExceptT ε (Program Call Answer) PUnit} (items : List β)
    (completes : ∀ item, Completes answered (each item)) :
    Completes answered (items.forM each) := by
  -- The loop runs its body on one item after the other.
  induction items with
  | nil => exact Completes.pure _
  | cons item items ih => exact Completes.bind (completes item) fun _ => ih

end Completes

/-- What does not look at the result of what goes before it marks the same each time. -/
theorem marksOnly_seq_iff {x : ExceptT ε (Program Call Answer) α}
    {y : ExceptT ε (Program Call Answer) β} (completes : Completes answered x) :
    MarksOnly answered mark allowed (x >>= fun _ => y).run ↔
      MarksOnly answered mark allowed x.run ∧ MarksOnly answered mark allowed y.run := by
  rw [marksOnly_try_iff]
  refine and_congr_right fun _ => ⟨fun later => ?_, fun later _ _ _ _ => later⟩
  -- One run past the first part is enough to see what the second one does.
  obtain ⟨trace, a, runs, fits⟩ := completes
  exact later trace a runs fits

/-- A loop marks only what is allowed where its body does so for each item; for the other direction
the body must be able to get past each item. -/
theorem marksOnly_forM_iff {each : β → ExceptT ε (Program Call Answer) PUnit}
    (completes : ∀ item, Completes answered (each item)) {items : List β} :
    MarksOnly answered mark allowed (items.forM each).run ↔
      ∀ item ∈ items, MarksOnly answered mark allowed (each item).run := by
  -- Each item is done with before the next one, and what it returns is dropped.
  induction items with
  | nil => exact iff_of_true trivial (by simp)
  | cons item items ih =>
    rw [List.forall_mem_cons, ← ih]
    show MarksOnly answered mark allowed (each item >>= fun _ => items.forM each).run ↔ _
    exact marksOnly_seq_iff (completes item)

end Tatara.Program
