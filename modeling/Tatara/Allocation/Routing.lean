import Mathlib.Data.List.Nodup
import Mathlib.Data.List.Perm.Subperm
import Tatara.Allocation.Decide
import Tatara.Pool.Decide

/-! The pool that a request is routed to, in whatever order the pools are listed. -/

namespace Tatara.Allocation

open Tatara.Crd Tatara.Rust

/-- A selector restricts the repositories, the branches and the kinds where another one does. -/
def RestrictsMore (narrow wide : PoolSelector) : Prop :=
  (narrow.repos.isEmpty → wide.repos.isEmpty) ∧ (narrow.branches.isEmpty → wide.branches.isEmpty) ∧
    (narrow.kinds.isEmpty → wide.kinds.isEmpty)

/-- A list has all the entries of another one, and more besides. -/
def StrictlyContains {α : Type} (items others : List α) : Prop :=
  ∃ more, more ≠ [] ∧ items.Perm (others ++ more)

/-- What a request is routed to is a pool that matches it, the most specific one, and of those that
are as specific the one with the smallest name. -/
structure MostSpecific (candidates : List EphemeralPool) (key : MatchKey) (taken : MatchedPool) :
    Prop where
  listed : taken.pool ∈ candidates
  matching : taken.pool.spec.selector.matchesKey key = true
  score : taken.specificity = taken.pool.spec.selector.specificity
  greatest : ∀ pool ∈ candidates, pool.spec.selector.matchesKey key = true →
    pool.spec.selector.specificity ≤ taken.specificity
  first : ∀ pool ∈ candidates, pool.spec.selector.matchesKey key = true →
    pool.spec.selector.specificity = taken.specificity →
      taken.pool.metadata.name ≤ pool.metadata.name

/-- A list without duplicates is strictly contained in one with all its entries and others too. -/
theorem strictlyContains_of_subset {α : Type} [DecidableEq α] {items others : List α}
    (distinct : others.Nodup) (subset : others ⊆ items) (strict : ¬ items ⊆ others) :
    StrictlyContains items others := by
  -- The entries of the one are taken out of the other, and what is left over is the rest.
  have within : others.Subperm items := List.subperm_of_subset distinct subset
  have whole : (others ++ items.diff others).Perm items := List.subperm_append_diff_self_of_count_le
    (List.subperm_ext_iff.mp within)
  refine ⟨items.diff others, ?_, whole.symm⟩
  intro none
  rw [none, List.append_nil] at whole
  exact strict whole.symm.subset

/-- A selector that restricts more and asks for more labels is more specific. -/
theorem specificity_lt {narrow wide : PoolSelector} (more : RestrictsMore narrow wide)
    (labels : StrictlyContains narrow.prLabels wide.prLabels) :
    wide.specificity < narrow.specificity := by
  obtain ⟨repos, branches, kinds⟩ := more
  obtain ⟨others, some, whole⟩ := labels
  -- There is at least one more label, and no other part of the sum is smaller.
  have longer : narrow.prLabels.length = wide.prLabels.length + others.length := by
    rw [whole.length_eq, List.length_append]
  have positive : 0 < others.length := List.length_pos_iff.mpr some
  have eight : (if wide.repos.isEmpty then 0 else 8) ≤ if narrow.repos.isEmpty then 0 else 8 := by
    split <;> split <;> simp_all
  have four :
      (if wide.branches.isEmpty then 0 else 4) ≤ if narrow.branches.isEmpty then 0 else 4 := by
    split <;> split <;> simp_all
  have one : (if wide.kinds.isEmpty then 0 else 1) ≤ if narrow.kinds.isEmpty then 0 else 1 := by
    split <;> split <;> simp_all
  simp only [PoolSelector.specificity]
  omega

section

variable {candidates : List EphemeralPool} {key : MatchKey}

/-- The best of the pools that match is the most specific one. -/
theorem IsBestMatch.mostSpecific {taken : MatchedPool}
    (isBest : IsBestMatch key candidates (some taken)) : MostSpecific candidates key taken := by
  obtain ⟨score, present, least⟩ := isBest
  rw [List.mem_filter] at present
  -- No pool that matches comes before it in line.
  have notBefore : ∀ pool ∈ candidates, pool.spec.selector.matchesKey key = true →
      ¬ matchRank pool < matchRank taken.pool :=
    fun pool listed matching => (least pool (List.mem_filter.mpr ⟨listed, matching⟩)).not_gt
  refine ⟨present.1, present.2, score, ?_, ?_⟩
  · intro pool listed matching
    have behind := notBefore pool listed matching
    rw [matchRank_lt_iff] at behind
    omega
  · intro pool listed matching level
    have behind := notBefore pool listed matching
    rw [matchRank_lt_iff] at behind
    exact not_lt.mp fun smaller => behind (.inr ⟨by omega, smaller⟩)

/-- Of pools with distinct names only one can be the most specific one. -/
theorem MostSpecific.unique (distinct : (candidates.map (·.metadata.name)).Nodup)
    {one other : MatchedPool} (best : MostSpecific candidates key one)
    (best' : MostSpecific candidates key other) : one = other := by
  -- Neither is more specific than the other, nor has the smaller name.
  have level : one.specificity = other.specificity := by
    have below := best'.greatest _ best.listed best.matching
    have above := best.greatest _ best'.listed best'.matching
    rw [← best.score] at below
    rw [← best'.score] at above
    omega
  have name : one.pool.metadata.name = other.pool.metadata.name := by
    have below := best.first _ best'.listed best'.matching (best'.score.symm.trans level.symm)
    have above := best'.first _ best.listed best.matching (best.score.symm.trans level)
    exact le_antisymm below above
  have pool : one.pool = other.pool :=
    List.inj_on_of_nodup_map distinct best.listed best'.listed name
  cases one
  cases other
  cases pool
  cases level
  rfl

/-- Nothing is taken exactly when no pool matches. -/
theorem bestMatch_eq_none_iff :
    bestMatch candidates key = none ↔
      ∀ pool ∈ candidates, pool.spec.selector.matchesKey key = false := by
  -- What is taken matches, so it is taken only where some pool does.
  have isBest := bestMatch_isBest candidates key
  cases taken : bestMatch candidates key with
  | none =>
    rw [taken] at isBest
    exact iff_of_true rfl isBest
  | some b =>
    rw [taken] at isBest
    have best := isBest.mostSpecific
    refine iff_of_false (by simp) fun unmatched => ?_
    simpa [best.matching] using unmatched b.pool best.listed

/-- What the fold takes is most specific. -/
theorem bestMatch_mostSpecific {taken : MatchedPool}
    (found : bestMatch candidates key = some taken) : MostSpecific candidates key taken := by
  have isBest := bestMatch_isBest candidates key
  rw [found] at isBest
  exact isBest.mostSpecific

/-- The most specific pool of a list is that of the list in any other order. -/
theorem MostSpecific.perm {others : List EphemeralPool} {taken : MatchedPool}
    (best : MostSpecific candidates key taken) (same : others.Perm candidates) :
    MostSpecific others key taken where
  listed := same.mem_iff.mpr best.listed
  matching := best.matching
  score := best.score
  greatest pool listed := best.greatest pool (same.mem_iff.mp listed)
  first pool listed := best.first pool (same.mem_iff.mp listed)

/-- Pools in another order are routed to alike. -/
theorem bestMatch_perm (distinct : (candidates.map (·.metadata.name)).Nodup)
    {others : List EphemeralPool} (same : others.Perm candidates) :
    bestMatch others key = bestMatch candidates key := by
  cases found : bestMatch candidates key with
  | none =>
    -- A pool that matches in one order does so in the other.
    rw [bestMatch_eq_none_iff] at found ⊢
    exact fun pool listed => found pool (same.mem_iff.mp listed)
  | some taken =>
    have best := bestMatch_mostSpecific found
    cases found' : bestMatch others key with
    | none =>
      rw [bestMatch_eq_none_iff] at found'
      have unmatched := found' taken.pool (same.mem_iff.mpr best.listed)
      rw [best.matching] at unmatched
      cases unmatched
    | some taken' =>
      have best' := (bestMatch_mostSpecific found').perm same.symm
      rw [best'.unique distinct best]

/-- A pool is passed over for none that restricts less and asks for fewer labels. -/
theorem MostSpecific.not_passedOver {taken : MatchedPool} (best : MostSpecific candidates key taken)
    {a b : EphemeralPool} (listed : a ∈ candidates)
    (matching : a.spec.selector.matchesKey key = true)
    (more : RestrictsMore a.spec.selector b.spec.selector)
    (labels : StrictlyContains a.spec.selector.prLabels b.spec.selector.prLabels) :
    taken.pool ≠ b := by
  -- The pool that restricts more is more specific than the one that is taken.
  rintro rfl
  have behind := best.greatest a listed matching
  have before := specificity_lt more labels
  rw [best.score] at behind
  omega

/-- No pool is passed over for one that restricts less, where the labels of the one contain those
of the other in some sense. -/
def NotPassedOver (contains : List String → List String → Prop) (candidates : List EphemeralPool)
    (key : MatchKey) : Prop :=
  ∀ a ∈ candidates, ∀ b ∈ candidates, a.spec.selector.matchesKey key = true →
    b.spec.selector.matchesKey key = true → RestrictsMore a.spec.selector b.spec.selector →
      contains a.spec.selector.prLabels b.spec.selector.prLabels →
        ∀ taken, bestMatch candidates key = some taken → taken.pool ≠ b

/-- A request is routed to the most specific pool that matches it, in whatever order the pools are
listed, and past no pool that restricts more and asks for more labels. -/
theorem bestMatch_routes (distinct : (candidates.map (·.metadata.name)).Nodup) :
    (bestMatch candidates key = none ↔
        ∀ pool ∈ candidates, pool.spec.selector.matchesKey key = false) ∧
      (∀ taken, bestMatch candidates key = some taken → MostSpecific candidates key taken) ∧
      (∀ others, others.Perm candidates → bestMatch others key = bestMatch candidates key) ∧
      NotPassedOver StrictlyContains candidates key ∧
      NotPassedOver (fun labels others => others.Nodup ∧ others ⊆ labels ∧ ¬ labels ⊆ others)
        candidates key := by
  -- Four of the five parts are facts about the fold, whatever the order.
  refine ⟨bestMatch_eq_none_iff, fun _ => bestMatch_mostSpecific, fun _ => bestMatch_perm distinct,
    ?_, ?_⟩
  · intro a listed b _ matching _ more labels taken found
    exact (bestMatch_mostSpecific found).not_passedOver listed matching more labels
  · -- Without repetitions a proper subset has fewer labels.
    rintro a listed b _ matching _ more ⟨apart, subset, strict⟩ taken found
    have labels := strictlyContains_of_subset apart subset strict
    exact (bestMatch_mostSpecific found).not_passedOver listed matching more labels

end

/-- A pool of this name with this selector. -/
def routedPool (name : String) (selector : PoolSelector) : EphemeralPool :=
  { metadata := { name, ns := some "pools" }
    spec := { (Pool.sizedPool 1 0 0).spec with selector } }

/-- A request with two labels goes to the pool that asks for both, and neither to the one that asks
for one of them nor to the one whose repository is another. -/
theorem bestMatch_routes_labels :
    let pools := [routedPool "any" { prLabels := ["ci"] },
      routedPool "both" { prLabels := ["slow", "ci"] }, routedPool "other" { repos := ["lib"] }]
    let key : MatchKey :=
      { repo := "app", branch := "main", prLabels := ["ci", "slow"], kind := "pr" }
    (bestMatch pools key).map (·.pool.metadata.name) = some "both" ∧
      (bestMatch pools key = none ↔
        ∀ pool ∈ pools, pool.spec.selector.matchesKey key = false) ∧
      (∀ taken, bestMatch pools key = some taken → MostSpecific pools key taken) ∧
      (∀ others, others.Perm pools → bestMatch others key = bestMatch pools key) ∧
      NotPassedOver StrictlyContains pools key ∧
      NotPassedOver (fun labels others => others.Nodup ∧ others ⊆ labels ∧ ¬ labels ⊆ others)
        pools key := by
  intro pools key
  exact ⟨by decide, bestMatch_routes (by decide)⟩

end Tatara.Allocation
