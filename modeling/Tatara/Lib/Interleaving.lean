import Mathlib.Logic.Function.Basic
import Tatara.Lib.Program

/-! Programs that share a store and take turns with their calls, in any order and at any speed. -/

namespace Tatara

/-- Programs over a shared store: which ones start at a place, what the store answers to a call from
there and what becomes of it, and how it changes by itself. -/
structure System (σ ι Call : Type) (Answer : Call → Type) (α : Type) where
  starts : σ → ι → Program Call Answer α → Prop
  answers : σ → ι → (c : Call) → Answer c → σ → Prop
  drifts : σ → σ → Prop

/-- A shared store, and what is left of the program that each place runs. -/
structure World (σ ι Call : Type) (Answer : Call → Type) (α : Type) where
  store : σ
  running : ι → Option (Program Call Answer α)

/-- The store once a program has run to its end on a server that has one answer to each call. -/
def Program.drive {σ Call α : Type} {Answer : Call → Type}
    (serve : σ → (c : Call) → Answer c × σ) : Program Call Answer α → σ → σ
  | .done _, store => store
  | .ask c next, store => (next (serve store c).1).drive serve (serve store c).2

/-- Every exchange on the way to the end of a program is as it should be, given the store before it
and the one after it. -/
def Program.DrivesWithin {σ Call α : Type} {Answer : Call → Type}
    (serve : σ → (c : Call) → Answer c × σ) (ok : σ → Exchange Answer → σ → Prop) :
    Program Call Answer α → σ → Prop
  | .done _, _ => True
  | .ask c next, store =>
    ok store ⟨c, (serve store c).1⟩ (serve store c).2 ∧
      (next (serve store c).1).DrivesWithin serve ok (serve store c).2

namespace Program

variable {σ Call α : Type} {Answer : Call → Type} {serve : σ → (c : Call) → Answer c × σ}
  {ok also : σ → Exchange Answer → σ → Prop}

/-- Whatever it is answered, a program comes to a result of this kind. -/
def ComesTo (good : α → Prop) (x : Program Call Answer α) : Prop :=
  ∀ trace a, Runs x trace a → good a

/-- What a program comes to is come to behind its first call. -/
theorem ComesTo.next {good : α → Prop} {c : Call} {next : Answer c → Program Call Answer α}
    (comes : ComesTo good (.ask c next)) (answer : Answer c) : ComesTo good (next answer) :=
  -- The answer goes in front of what the rest of the program exchanges.
  fun _ _ runs => comes _ _ (.ask c next answer runs)

/-- A program leaves a good store behind where every exchange does. -/
theorem drive_good {G : σ → Prop} (every : ∀ store c, G store → G (serve store c).2)
    (x : Program Call Answer α) {store : σ} (good : G store) : G (x.drive serve store) := by
  -- The store in front of each call is good, and so is the one behind it.
  induction x generalizing store with
  | done a => exact good
  | ask c next ih => exact ih _ (every store c good)

/-- Where every exchange is as it should be on stores that are good, and leads to such stores, those
of a program are that starts on one. -/
theorem drivesWithin_of_good {G : σ → Prop}
    (every : ∀ store c, G store →
      ok store ⟨c, (serve store c).1⟩ (serve store c).2 ∧ G (serve store c).2)
    (x : Program Call Answer α) {store : σ} (good : G store) : x.DrivesWithin serve ok store := by
  -- Each call leaves a smaller program, on the store that it leads to.
  induction x generalizing store with
  | done a => trivial
  | ask c next ih =>
    obtain ⟨right, still⟩ := every store c good
    exact ⟨right, ih _ still⟩

/-- Where every exchange is as it should be, those of a program are. -/
theorem drivesWithin_of_forall
    (every : ∀ store c, ok store ⟨c, (serve store c).1⟩ (serve store c).2)
    (x : Program Call Answer α) (store : σ) : x.DrivesWithin serve ok store :=
  drivesWithin_of_good (G := fun _ => True) (fun store c _ => ⟨every store c, trivial⟩) x trivial

/-- What the exchanges of a program are like may be shown one thing after the other. -/
theorem DrivesWithin.and {x : Program Call Answer α} {store : σ}
    (first : x.DrivesWithin serve also store) (second : x.DrivesWithin serve ok store) :
    x.DrivesWithin serve (fun before exchange after =>
      also before exchange after ∧ ok before exchange after) store := by
  -- Both of them speak about the same calls on the same stores.
  induction x generalizing store with
  | done a => trivial
  | ask c next ih => exact ⟨⟨first.1, second.1⟩, ih _ first.2 second.2⟩

end Program

namespace System

open Program

variable {σ ι Call α : Type} {Answer : Call → Type} [DecidableEq ι]
  {sys : System σ ι Call Answer α}

/-- One step, with the call of a program where it is one. -/
inductive Step (sys : System σ ι Call Answer α) :
    World σ ι Call Answer α → Option (ι × Exchange Answer) → World σ ι Call Answer α → Prop where
  | start {w : World σ ι Call Answer α} {i : ι} {x : Program Call Answer α}
      (idle : w.running i = none) (starts : sys.starts w.store i x) :
      Step sys w none { w with running := Function.update w.running i (some x) }
  | call {w : World σ ι Call Answer α} {i : ι} {c : Call} {next : Answer c → Program Call Answer α}
      {answer : Answer c} {store : σ} (busy : w.running i = some (.ask c next))
      (answers : sys.answers w.store i c answer store) :
      Step sys w (some (i, ⟨c, answer⟩))
        { store, running := Function.update w.running i (some (next answer)) }
  /-- A program leaves when it is done, or else because it crashes. -/
  | leave {w : World σ ι Call Answer α} {i : ι} {x : Program Call Answer α}
      (busy : w.running i = some x) :
      Step sys w none { w with running := Function.update w.running i none }
  | drift {w : World σ ι Call Answer α} {store : σ} (drifts : sys.drifts w.store store) :
      Step sys w none { w with store }

/-- A run, with the calls made in it; every one of them is made where it may be. -/
inductive Run (sys : System σ ι Call Answer α)
    (may : World σ ι Call Answer α → ι × Exchange Answer → Prop) (w : World σ ι Call Answer α) :
    List (ι × Exchange Answer) → World σ ι Call Answer α → Prop where
  | refl : Run sys may w [] w
  | silent {calls : List (ι × Exchange Answer)} {v u : World σ ι Call Answer α}
      (run : Run sys may w calls v) (step : Step sys v none u) : Run sys may w calls u
  | call {calls : List (ι × Exchange Answer)} {v u : World σ ι Call Answer α}
      {made : ι × Exchange Answer} (run : Run sys may w calls v) (step : Step sys v (some made) u)
      (allowed : may v made) : Run sys may w (calls ++ [made]) u

namespace Run

variable {may : World σ ι Call Answer α → ι × Exchange Answer → Prop}
  {w v u : World σ ι Call Answer α} {calls more : List (ι × Exchange Answer)}

/-- Two runs, one behind the other, are one run. -/
theorem trans (first : Run sys may w calls v) (second : Run sys may v more u) :
    Run sys may w (calls ++ more) u := by
  -- The steps of the second run are put behind the first one, one after the other.
  induction second with
  | refl =>
    rw [List.append_nil]
    exact first
  | silent run step ih => exact ih.silent step
  | call run step allowed ih =>
    rw [← List.append_assoc]
    exact ih.call step allowed

/-- What every step keeps holds after every run. -/
theorem invariant {I : World σ ι Call Answer α → Prop} (run : Run sys may w calls v)
    (holds : I w) (silent : ∀ w v, I w → Step sys w none v → I v)
    (call : ∀ w made v, I w → Step sys w (some made) v → may w made → I v) : I v := by
  -- By induction on the run.
  induction run with
  | refl => exact holds
  | silent run step ih => exact silent _ _ ih step
  | call run step allowed ih => exact call _ _ _ ih step allowed

/-- Where an invariant rules out a call, no run makes it. -/
theorem forall_calls {I : World σ ι Call Answer α → Prop} {ok : ι × Exchange Answer → Prop}
    (run : Run sys may w calls v) (holds : I w) (silent : ∀ w v, I w → Step sys w none v → I v)
    (call : ∀ w made v, I w → Step sys w (some made) v → may w made → I v ∧ ok made) :
    ∀ made ∈ calls, ok made := by
  -- The calls before the last one are ruled out by the run before it.
  induction run with
  | refl => simp
  | silent run step ih => exact ih
  | call run step allowed ih =>
    have before := run.invariant holds silent fun w made v holds step allowed =>
      (call w made v holds step allowed).1
    intro made among
    -- The last call is made where the invariant holds.
    rcases List.mem_append.mp among with earlier | last
    · exact ih made earlier
    · rw [List.mem_singleton] at last
      subst last
      exact (call _ _ _ before step allowed).2

/-- A program can run to its end while all the others wait. -/
theorem drive {serve : σ → (c : Call) → Answer c × σ} (may : σ → ι × Exchange Answer → Prop)
    (i : ι) (running : ι → Option (Program Call Answer α)) (x : Program Call Answer α) (store : σ)
    (within : x.DrivesWithin serve (fun before exchange after =>
      sys.answers before i exchange.1 exchange.2 after ∧ may before (i, exchange)) store) :
    ∃ calls, Run sys (fun w => may w.store) ⟨store, Function.update running i (some x)⟩ calls
      ⟨x.drive serve store, Function.update running i none⟩ := by
  induction x generalizing store with
  | done a =>
    -- What is done leaves its place.
    have step : Step sys ⟨store, Function.update running i (some (.done a))⟩ none _ :=
      Step.leave (Function.update_self i _ running)
    simp only [Function.update_idem] at step
    exact ⟨[], Run.refl.silent step⟩
  | ask c next ih =>
    obtain ⟨⟨answers, allowed⟩, within⟩ := within
    -- The call takes the same place on to the rest of the program.
    have step : Step sys ⟨store, Function.update running i (some (.ask c next))⟩ _ _ :=
      Step.call (Function.update_self i _ running) answers
    simp only [Function.update_idem] at step
    obtain ⟨calls, rest⟩ := ih (serve store c).1 (serve store c).2 within
    exact ⟨_, (Run.refl.call step allowed).trans rest⟩

/-- A program may start and run to its end where all the other places are idle. -/
theorem alone {serve : σ → (c : Call) → Answer c × σ} (may : σ → ι × Exchange Answer → Prop)
    {i : ι} {x : Program Call Answer α} {store : σ} (starts : sys.starts store i x)
    (within : x.DrivesWithin serve (fun before exchange after =>
      sys.answers before i exchange.1 exchange.2 after ∧ may before (i, exchange)) store) :
    ∃ calls, Run sys (fun w => may w.store) ⟨store, fun _ => none⟩ calls
      ⟨x.drive serve store, fun _ => none⟩ := by
  have start : Step sys ⟨store, fun _ => none⟩ none _ := .start rfl starts
  -- At the end all the places are idle again.
  obtain ⟨calls, rest⟩ := drive may i (fun _ => none) x store within
  rw [Function.update_eq_self] at rest
  exact ⟨_, (Run.refl.silent start).trans rest⟩

end Run

section

variable {good : α → Prop} {w v : World σ ι Call Answer α}

/-- All the programs under way come to results of this kind. -/
def AllComeTo (good : α → Prop) (w : World σ ι Call Answer α) : Prop :=
  ∀ i x, w.running i = some x → ComesTo good x

/-- Where one program moves on, the others are still on their way. -/
theorem AllComeTo.update (all : AllComeTo good w) (i : ι) (store : σ)
    {left : Option (Program Call Answer α)} (comes : ∀ x, left = some x → ComesTo good x) :
    AllComeTo good ⟨store, Function.update w.running i left⟩ := by
  intro j x busy
  by_cases same : j = i
  · subst same
    exact comes x (by simpa using busy)
  · exact all j x (by simpa [same] using busy)

/-- No step leads a program away from what it comes to. -/
theorem AllComeTo.step {made : Option (ι × Exchange Answer)} (all : AllComeTo good w)
    (starts : ∀ store i x, sys.starts store i x → ComesTo good x) (step : Step sys w made v) :
    AllComeTo good v := by
  cases step with
  | @start i x idle begins =>
    -- Only one program moves, and the others are still on their way.
    refine all.update i w.store fun y begun => ?_
    cases begun
    exact starts _ _ _ begins
  | @call i c next answer store busy answers =>
    refine all.update i store fun y left => ?_
    cases left
    exact (all i _ busy).next answer
  | @leave i x busy => exact all.update i w.store fun y left => by cases left
  | drift drifts => exact all

/-- Where the programs that start come to results of one kind, these are all that a run shows. -/
theorem Run.results {may : World σ ι Call Answer α → ι × Exchange Answer → Prop}
    {calls : List (ι × Exchange Answer)} (run : Run sys may w calls v)
    (starts : ∀ store i x, sys.starts store i x → ComesTo good x)
    (idle : ∀ i, w.running i = none) {i : ι} {a : α} (ended : v.running i = some (.done a)) :
    good a := by
  -- In the beginning nothing runs that could go wrong.
  have start : AllComeTo good w := by
    intro i x busy
    rw [idle i] at busy
    cases busy
  have kept : AllComeTo good v := run.invariant start (fun _ _ all step => all.step starts step)
    fun _ _ _ all step _ => all.step starts step
  exact kept i _ ended [] a (.done a)

end

section

variable {S : Type} {protocol : Protocol Call Answer S} {start idle : S}
  {may : σ → ι × Exchange Answer → Prop} {I : σ → (ι → S) → Prop}

/-- Something holds of the store and of the stages that the programs are at, and from there on these
keep to the protocol. -/
structure Keeps (protocol : Protocol Call Answer S) (I : σ → (ι → S) → Prop)
    (w : World σ ι Call Answer α) (stage : ι → S) : Prop where
  holds : I w.store stage
  follows : ∀ i x, w.running i = some x → Follows protocol (fun _ _ => True) x (stage i)

/-- What holds of the store and the stages is kept by every step, where a program that starts keeps
to the protocol and a call is one that the protocol allows and that may be made. -/
structure Stable (sys : System σ ι Call Answer α) (protocol : Protocol Call Answer S)
    (start idle : S) (may : σ → ι × Exchange Answer → Prop) (I : σ → (ι → S) → Prop) : Prop where
  starts : ∀ store stage i x, I store stage → sys.starts store i x →
    Follows protocol (fun _ _ => True) x start ∧ I store (Function.update stage i start)
  leaves : ∀ store stage i, I store stage → I store (Function.update stage i idle)
  drifts : ∀ store stage changed, I store stage → sys.drifts store changed → I changed stage
  calls : ∀ store stage i c answer changed, I store stage → protocol.allows (stage i) c →
    sys.answers store i c answer changed → may store (i, ⟨c, answer⟩) →
    I changed (Function.update stage i (protocol.next (stage i) c answer))

/-- What one place goes on with leaves the others at their stages. -/
theorem Keeps.follows_update {w : World σ ι Call Answer α} {stage : ι → S}
    (keeps : Keeps protocol I w stage) (i : ι) {next : S}
    {left : Option (Program Call Answer α)}
    (follows : ∀ x, left = some x → Follows protocol (fun _ _ => True) x next) :
    ∀ j x, Function.update w.running i left j = some x →
      Follows protocol (fun _ _ => True) x (Function.update stage i next j) := by
  intro j x busy
  by_cases same : j = i
  · -- The place itself goes on with what is left of its program.
    subst same
    rw [Function.update_self] at busy ⊢
    exact follows x busy
  · rw [Function.update_of_ne same] at busy ⊢
    exact keeps.follows j x busy

/-- The programs under way go on to results that go with the stages at which they end. -/
def Ending (protocol : Protocol Call Answer S) (ends : S → α → Prop) (I : σ → (ι → S) → Prop)
    (w : World σ ι Call Answer α) (stage : ι → S) : Prop :=
  I w.store stage ∧ ∀ i x, w.running i = some x → Follows protocol ends x (stage i)

/-- Where one program moves on with its stage, the others are still where they were. -/
theorem Ending.update {ends : S → α → Prop} {w : World σ ι Call Answer α} {stage : ι → S}
    (ending : Ending protocol ends I w stage) (i : ι) {store : σ} {next : S}
    {left : Option (Program Call Answer α)} (holds : I store (Function.update stage i next))
    (follows : ∀ x, left = some x → Follows protocol ends x next) :
    Ending protocol ends I ⟨store, Function.update w.running i left⟩
      (Function.update stage i next) := by
  refine ⟨holds, fun j x (busy : Function.update w.running i left j = some x) => ?_⟩
  -- Either the program is the one that has moved, or it is where it was.
  by_cases same : j = i
  · subst same
    rw [Function.update_self] at busy ⊢
    exact follows x busy
  · rw [Function.update_of_ne same]
    exact ending.2 j x (by simpa [same] using busy)

namespace Stable

variable {w v : World σ ι Call Answer α} {stage : ι → S}

/-- A step that is no call. -/
theorem silent (stable : Stable sys protocol start idle may I) (keeps : Keeps protocol I w stage)
    (step : Step sys w none v) : ∃ stage, Keeps protocol I v stage := by
  cases step with
  | @start i x free starts =>
    -- A program that starts brings the stage that its protocol starts in.
    obtain ⟨follows, holds⟩ := stable.starts w.store stage i x keeps.holds starts
    refine ⟨_, holds, keeps.follows_update i fun y begun => ?_⟩
    cases begun
    exact follows
  | @leave i x busy =>
    refine ⟨_, stable.leaves w.store stage i keeps.holds, keeps.follows_update i fun y left => ?_⟩
    cases left
  | drift drifts => exact ⟨stage, stable.drifts _ _ _ keeps.holds drifts, keeps.follows⟩

/-- A call, which takes its program to the next stage. -/
theorem call (stable : Stable sys protocol start idle may I) (keeps : Keeps protocol I w stage)
    {made : ι × Exchange Answer} (step : Step sys w (some made) v) (allowed : may w.store made) :
    ∃ stage, Keeps protocol I v stage := by
  cases step with
  | @call i c next answer store busy answers =>
    -- The program keeps to the protocol, so the call is one of those that it allows.
    obtain ⟨legal, rest⟩ := keeps.follows i _ busy
    refine ⟨_, stable.calls _ _ _ _ _ _ keeps.holds legal answers allowed,
      keeps.follows_update i fun y left => ?_⟩
    cases left
    exact rest answer

/-- What is stable holds at the end of a run, if it holds where the run starts. -/
theorem run (stable : Stable sys protocol start idle may I)
    {calls : List (ι × Exchange Answer)} (run : Run sys (fun w => may w.store) w calls v)
    (keeps : Keeps protocol I w stage) : ∃ stage, Keeps protocol I v stage :=
  Run.invariant (I := fun w => ∃ stage, Keeps protocol I w stage) run ⟨stage, keeps⟩
    (fun _ _ ⟨_, keeps⟩ step => stable.silent keeps step)
    fun _ _ _ ⟨_, keeps⟩ step allowed => stable.call keeps step allowed

/-- What is stable holds at the end of a run, and what the programs have come to goes with their
stages, if this is so of every one that starts. -/
theorem results {ends : S → α → Prop} (stable : Stable sys protocol start idle may I)
    (starts : ∀ store i x, sys.starts store i x → Follows protocol ends x start)
    {calls : List (ι × Exchange Answer)} (run : Run sys (fun w => may w.store) w calls v)
    (ending : Ending protocol ends I w stage) : ∃ stage, Ending protocol ends I v stage := by
  -- A step moves one program at most, and its place to the next stage.
  have silent (w v : World σ ι Call Answer α) (before : ∃ stage, Ending protocol ends I w stage)
      (step : Step sys w none v) : ∃ stage, Ending protocol ends I v stage := by
    obtain ⟨stage, ending⟩ := before
    cases step with
    | @start i x free begins =>
      refine ⟨_, ending.update i (stable.starts _ _ i x ending.1 begins).2 fun y begun => ?_⟩
      cases begun
      exact starts _ _ _ begins
    | @leave i x busy =>
      refine ⟨_, ending.update i (stable.leaves _ _ i ending.1) fun y left => ?_⟩
      cases left
    | drift drifts => exact ⟨stage, stable.drifts _ _ _ ending.1 drifts, ending.2⟩
  refine Run.invariant (I := fun w => ∃ stage, Ending protocol ends I w stage) run ⟨stage, ending⟩
    silent fun w made v before step allowed => ?_
  obtain ⟨stage, ending⟩ := before
  cases step with
  | @call i c next answer store busy answers =>
    obtain ⟨legal, rest⟩ := ending.2 i _ busy
    refine ⟨_, ending.update i (stable.calls _ _ _ _ _ _ ending.1 legal answers allowed)
      fun y left => ?_⟩
    cases left
    exact rest answer

end Stable

end

end System

end Tatara
