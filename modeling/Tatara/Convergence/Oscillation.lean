import Mathlib.Algebra.Order.Field.Rat
import Mathlib.Tactic.Linarith
import Mathlib.Tactic.Positivity
import Tatara.Convergence.Graph

/-! The telemetry of a point over a row of observations, and when it takes progress for an
oscillation. -/

namespace Tatara.Convergence

open Tatara.Rust

namespace ConvergenceDistance

/-- `is_converged`. -/
def isConverged : ConvergenceDistance → Bool
  | converged => true
  | partial_ _ _ _ | diverged _ | unknown => false

/-- `numeric`, as an exact number. -/
def numeric : ConvergenceDistance → ℚ
  | converged => 0
  | partial_ matching total _ =>
    if total = 0 then 0 else 1 - (matching.toNat : ℚ) / (total.toNat : ℚ)
  | diverged _ => 1
  | unknown => 1

/-- Whether two distances have one discriminant. -/
def sameVariant : ConvergenceDistance → ConvergenceDistance → Bool
  | converged, converged | partial_ _ _ _, partial_ _ _ _ | diverged _, diverged _
  | unknown, unknown => true
  | _, _ => false

/-- Nothing is further away than what has not been observed yet. -/
theorem numeric_le_unknown (d : ConvergenceDistance) : d.numeric ≤ unknown.numeric := by
  -- A share is at most one, and what is unknown is further away.
  cases d with
  | converged => exact zero_le_one
  | partial_ matching total pending =>
    have share : (0 : ℚ) ≤ (matching.toNat : ℚ) / (total.toNat : ℚ) := by positivity
    simp only [numeric]
    split
    · exact zero_le_one
    · linarith
  | diverged reason => exact le_rfl
  | unknown => exact le_rfl

end ConvergenceDistance

/-- The telemetry of a point, with all that an observation changes; durations are in
milliseconds. -/
structure ConvergenceTelemetry extends ConvergenceState where
  rate : ℚ
  oscillating : Bool
  ticks : UInt64
  lastConvergedAt : Option DateTime
  timeInCurrentState : Int
  damping : ℚ
  recentPhaseChanges : UInt32

/-- One observation of a point: the distance, the length of the tick, and the clock. -/
structure Observation where
  distance : ConvergenceDistance
  tickDurationMs : UInt64
  now : DateTime

namespace ConvergenceTelemetry

/-- `new`. -/
def new : ConvergenceTelemetry :=
  { distance := .unknown
    rate := 0
    oscillating := false
    ticks := 0
    lastConvergedAt := none
    timeInCurrentState := 0
    damping := 1
    recentPhaseChanges := 0 }

/-- The rate after an observation; a tick without length leaves it as it is. -/
def nextRate (s : ConvergenceTelemetry) (ob : Observation) : ℚ :=
  if 0 < ob.tickDurationMs then
    (ob.distance.numeric - s.distance.numeric) / ((ob.tickDurationMs.toNat : ℚ) / 1000)
  else s.rate

/-- `direction_changed`. -/
def directionChanged (s : ConvergenceTelemetry) (ob : Observation) : Bool :=
  decide (0 < s.nextRate ob) != decide (ob.distance.numeric < s.distance.numeric)

/-- The damping, once it is known whether the point oscillates. -/
def nextDamping (damping : ℚ) (oscillating : Bool) : ℚ :=
  if oscillating then min (damping * 3 / 2) 32
  else if 1 < damping then max (damping * 9 / 10) 1
  else damping

/-- `update`. -/
def update (s : ConvergenceTelemetry) (ob : Observation) : ConvergenceTelemetry :=
  let recentPhaseChanges :=
    if s.directionChanged ob ∧ 2 < s.ticks then s.recentPhaseChanges + 1
    else s.recentPhaseChanges
  let oscillating : Bool := 3 < recentPhaseChanges
  { distance := ob.distance
    rate := s.nextRate ob
    oscillating
    ticks := s.ticks + 1
    lastConvergedAt :=
      if ob.distance.isConverged && !s.distance.isConverged then some ob.now
      else s.lastConvergedAt
    timeInCurrentState :=
      -- The length of the tick goes through a cast to `i64`.
      if s.distance.sameVariant ob.distance then
        s.timeInCurrentState + ob.tickDurationMs.toInt64.toInt
      else 0
    damping := nextDamping s.damping oscillating
    recentPhaseChanges }

/-- The telemetry of a new point after some observations. -/
def after (obs : List Observation) : ConvergenceTelemetry := obs.foldl update new

/-- After one more observation the telemetry has been updated with it. -/
theorem after_concat (obs : List Observation) (ob : Observation) :
    after (obs ++ [ob]) = (after obs).update ob := by
  simp [after]

/-- The distance that was observed last. -/
def lastDistance (obs : List Observation) : ConvergenceDistance :=
  (obs.getLast?.map (·.distance)).getD .unknown

/-- The distance is that of the last observation. -/
theorem distance_after (obs : List Observation) : (after obs).distance = lastDistance obs := by
  rcases List.eq_nil_or_concat' obs with rfl | ⟨front, ob, rfl⟩
  · rfl
  · rw [after_concat, lastDistance, List.getLast?_concat]
    rfl

/-- The ticks are counted, as far as the counter goes. -/
theorem ticks_after (obs : List Observation) :
    (after obs).ticks = UInt64.ofNat obs.length := by
  -- By induction on the observations, from the last one on.
  induction obs using List.reverseRecOn with
  | nil => rfl
  | append_singleton front ob ih =>
    rw [after_concat, List.length_append, List.length_singleton, UInt64.ofNat_add, ← ih]
    rfl

/-- Over a tick with a length every change of the distance counts as a change of direction, also
one that goes on in the direction of the one before. -/
theorem directionChanged_iff {s : ConvergenceTelemetry} {ob : Observation}
    (long : 0 < ob.tickDurationMs) :
    s.directionChanged ob = true ↔ ob.distance.numeric ≠ s.distance.numeric := by
  have tick : (0 : ℚ) < (ob.tickDurationMs.toNat : ℚ) / 1000 := by
    have positive : 0 < ob.tickDurationMs.toNat := UInt64.lt_iff_toNat_lt.mp long
    positivity
  -- The rate is positive where the distance has grown, and the comparison says where it has shrunk.
  have grows : 0 < s.nextRate ob ↔ s.distance.numeric < ob.distance.numeric := by
    rw [nextRate, if_pos long, div_pos_iff_of_pos_right tick, sub_pos]
  rw [directionChanged, bne_iff_ne, ne_eq, decide_eq_decide, grows]
  rcases lt_trichotomy s.distance.numeric ob.distance.numeric with up | level | down
  · simp [up, up.le, up.ne']
  · simp [level]
  · simp [down, down.le, down.ne]

/-- As long as the rate is not positive, a fall of the distance counts as a change of direction. -/
theorem directionChanged_iff_falls {s : ConvergenceTelemetry} {ob : Observation}
    (settling : s.nextRate ob ≤ 0) :
    s.directionChanged ob = true ↔ ob.distance.numeric < s.distance.numeric := by
  simp [directionChanged, settling.not_gt]

/-- What comes no further away has no positive rate. -/
theorem nextRate_nonpos {s : ConvergenceTelemetry} {ob : Observation} (settling : s.rate ≤ 0)
    (near : ob.distance.numeric ≤ s.distance.numeric) : s.nextRate ob ≤ 0 := by
  unfold nextRate
  split
  · exact div_nonpos_of_nonpos_of_nonneg (sub_nonpos.mpr near) (by positivity)
  · exact settling

/-- Nothing tells of an oscillation. -/
structure Calm (s : ConvergenceTelemetry) : Prop where
  steady : s.oscillating = false
  unchanged : s.recentPhaseChanges = 0
  undamped : s.damping = 1

theorem calm_new : Calm new := ⟨rfl, rfl, rfl⟩

/-- Where nothing is counted, an update leaves all calm. -/
theorem Calm.update {s : ConvergenceTelemetry} {ob : Observation} (calm : Calm s)
    (straight : ¬ (s.directionChanged ob = true ∧ 2 < s.ticks)) : Calm (s.update ob) := by
  -- The counter stays at zero, which is no oscillation, so the damping has no reason to move.
  simp only [ConvergenceTelemetry.update, if_neg straight, calm.unchanged, calm.undamped]
  exact ⟨rfl, rfl, by simp [nextDamping]⟩

end ConvergenceTelemetry

open ConvergenceTelemetry

/-- No observation is further away than the ones before it. -/
def NeverIncreases (obs : List Observation) : Prop :=
  obs.Pairwise fun earlier later => later.distance.numeric ≤ earlier.distance.numeric

/-- None of the observations marks the point as oscillating, counts a change of phase, or reduces
the damping. -/
def NoOscillation (obs : List Observation) : Prop :=
  ∀ front ob back, obs = front ++ ob :: back →
    (after (front ++ [ob])).oscillating = false ∧
      (after (front ++ [ob])).recentPhaseChanges = 0 ∧
      (after front).damping ≤ (after (front ++ [ob])).damping

/-- No observation comes closer than the one before it once the counter of the ticks, a `u64`, is
above two. -/
def SettlesEarly (obs : List Observation) : Prop :=
  ∀ front ob back, obs = front ++ ob :: back → 2 < front.length % 2 ^ 64 →
    (lastDistance front).numeric ≤ ob.distance.numeric

/-- What never increases is at most what it was before. -/
theorem NeverIncreases.le_last {front back : List Observation} {ob : Observation}
    (never : NeverIncreases (front ++ ob :: back)) :
    ob.distance.numeric ≤ (lastDistance front).numeric := by
  rcases List.eq_nil_or_concat' front with rfl | ⟨earlier, last, rfl⟩
  · exact ob.distance.numeric_le_unknown
  · rw [lastDistance, List.getLast?_concat]
    exact (List.pairwise_append.mp never).2.2 last (by simp) ob List.mem_cons_self

/-- The front of what never increases never increases. -/
theorem NeverIncreases.front {front back : List Observation}
    (never : NeverIncreases (front ++ back)) : NeverIncreases front :=
  (List.pairwise_append.mp never).1

/-- What never increases never has a positive rate. -/
theorem NeverIncreases.rate_nonpos {obs : List Observation} (never : NeverIncreases obs) :
    (after obs).rate ≤ 0 := by
  -- By induction on the observations, from the last one on.
  induction obs using List.reverseRecOn with
  | nil => exact le_rfl
  | append_singleton front ob ih =>
    have near := never.le_last
    rw [← distance_after] at near
    rw [after_concat]
    exact nextRate_nonpos (ih never.front) near

/-- Whether there were more than two ticks is a matter of the counter. -/
theorem ticks_gt_two_iff (obs : List Observation) :
    2 < (after obs).ticks ↔ 2 < obs.length % 2 ^ 64 := by
  rw [ticks_after, UInt64.lt_iff_toNat_lt, UInt64.toNat_ofNat']
  rfl

/-- What counts as a change of phase in a row of observations that never increase. -/
theorem NeverIncreases.counted_iff {front back : List Observation} {ob : Observation}
    (never : NeverIncreases (front ++ ob :: back)) :
    ((after front).directionChanged ob = true ∧ 2 < (after front).ticks) ↔
      2 < front.length % 2 ^ 64 ∧ ob.distance.numeric < (lastDistance front).numeric := by
  -- The rate was not positive before, and it is not after.
  have near := never.le_last
  rw [← distance_after] at near
  rw [directionChanged_iff_falls (nextRate_nonpos never.front.rate_nonpos near), distance_after,
    ticks_gt_two_iff, and_comm]

/-- Where nothing is counted, all stays calm. -/
theorem calm_after {obs : List Observation} (never : NeverIncreases obs)
    (early : SettlesEarly obs) : Calm (after obs) := by
  -- By induction on the observations, from the last one on: the others have settled as well.
  induction obs using List.reverseRecOn with
  | nil => exact calm_new
  | append_singleton front ob ih =>
    have settled : SettlesEarly front := by
      intro first mid last parts
      exact early first mid (last ++ [ob]) (by simp [parts])
    rw [after_concat]
    refine (ih never.front settled).update fun counted => ?_
    obtain ⟨late, falls⟩ := never.counted_iff.mp counted
    exact (early front ob [] rfl late).not_gt falls

/-- Observations that never increase are taken for an oscillation exactly if one of them, after the
first three, comes closer than the one before it. -/
theorem noOscillation_iff_settlesEarly {obs : List Observation} (never : NeverIncreases obs) :
    NoOscillation obs ↔ SettlesEarly obs := by
  constructor
  · intro quiet front ob back parts late
    by_contra falls
    subst parts
    have counted := never.counted_iff.mpr ⟨late, not_le.mp falls⟩
    -- Up to here the counter is at zero, and this observation adds one to it.
    have zero : (after front).recentPhaseChanges = 0 := by
      rcases List.eq_nil_or_concat' front with rfl | ⟨earlier, last, rfl⟩
      · rfl
      · exact (quiet earlier last (ob :: back) (by simp)).2.1
    have one := (quiet front ob back rfl).2.1
    rw [after_concat, ConvergenceTelemetry.update] at one
    simp only [if_pos counted, zero] at one
    exact absurd one (by decide)
  · intro early front ob back parts
    subst parts
    -- What holds of the whole row holds up to this observation, and before it.
    have settled : SettlesEarly (front ++ [ob]) := by
      intro first mid last parts
      refine early first mid (last ++ back) ?_
      rw [← List.singleton_append, ← List.append_assoc, parts, List.append_assoc, List.cons_append]
    have never' : NeverIncreases (front ++ [ob]) := by
      have whole := never
      rw [← List.singleton_append, ← List.append_assoc] at whole
      exact whole.front
    have here := calm_after never' settled
    have before : SettlesEarly front := by
      intro first mid last parts
      exact early first mid (last ++ ob :: back) (by simp [parts])
    exact ⟨here.steady, here.unchanged,
      by rw [here.undamped, (calm_after never.front before).undamped]⟩

/-- So many observations, each one eighth closer than the one before it. -/
def eighths (n : Nat) : List Observation :=
  (List.range n).map fun i => ⟨.partial_ (UInt32.ofNat (i + 1)) 8 [], 1000, ⟨i⟩⟩

/-- Three steps closer are not taken for an oscillation. -/
theorem noOscillation_eighths : NoOscillation (eighths 3) := by
  refine (noOscillation_iff_settlesEarly ?_).mpr ?_
  · unfold NeverIncreases
    decide +kernel
  · -- No observation stands behind three others.
    intro front ob back parts late
    have long := congrArg List.length parts
    simp only [eighths, List.length_map, List.length_range, List.length_append,
      List.length_cons] at long
    omega

/-- A point that comes closer with every tick is marked as oscillating at the seventh one. -/
theorem not_noOscillation :
    ¬ ∀ obs : List Observation, NeverIncreases obs → NoOscillation obs := by
  intro quiet
  -- Every eighth is closer than the one before.
  have never : NeverIncreases (eighths 7) := by
    unfold NeverIncreases
    decide +kernel
  -- At the seventh tick the mark is set, though it should never be.
  have steady := (quiet (eighths 7) never (eighths 6) ⟨.partial_ 7 8 [], 1000, ⟨6⟩⟩ [] rfl).1
  have marked : (after (eighths 6 ++ [⟨.partial_ 7 8 [], 1000, ⟨6⟩⟩])).oscillating = true := by
    decide +kernel
  rw [marked] at steady
  cases steady

end Tatara.Convergence
