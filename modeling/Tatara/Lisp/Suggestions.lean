import Mathlib.Data.List.Induction
import Mathlib.Data.List.Sort
import Mathlib.Data.String.Basic
import Tatara.Lib.EditDistance
import Tatara.Lisp.Error

/-! What is suggested for a name that is not known: the nearest one that is. -/

namespace Tatara.Lisp

open EditDistance

/-- What `unknown_domain_keyword` tells of a keyword that is not registered. -/
structure UnknownDomainKeyword where
  keyword : String
  hint : Option String
  registered : List String

/-- `suggest_keyword`, for the registered keywords in the order in which the registry yields
them. -/
def suggestKeyword (registeredKeywords : List String) (needle : String) : Option String :=
  suggest needle registeredKeywords

/-- `unknown_domain_keyword`. -/
def unknownDomainKeyword (registeredKeywords : List String) (keyword : String) :
    UnknownDomainKeyword where
  keyword
  hint := suggestKeyword registeredKeywords keyword
  registered := registeredKeywords.mergeSort (· ≤ ·)

/-- A row of the table of distances: of one word to another one and to all that continue it, both
backwards. -/
def distanceRow (as : List Char) : List Char → List Char → List Nat
  | bs, [] => [distance as bs]
  | bs, b :: rest => distance as bs :: distanceRow as (b :: bs) rest

/-- A row has a distance in front. -/
theorem distanceRow_eq_cons (as bs rest : List Char) :
    distanceRow as bs rest = distance as bs :: (distanceRow as bs rest).tail := by
  cases rest <;> rfl

/-- A row is computed from the row above. -/
theorem levenshteinRow_eq (a : Char) (as bs rest : List Char) :
    levenshteinRow a rest (distanceRow as bs rest) (distance (a :: as) bs) =
      (distanceRow (a :: as) bs rest).tail := by
  induction rest generalizing bs with
  | nil => rfl
  | cons b rest ih =>
    rw [distanceRow, distanceRow_eq_cons as (b :: bs), levenshteinRow, ← distanceRow_eq_cons]
    -- The entry is the distance of the two words that are one longer.
    have entry : min (min (distance as (b :: bs) + 1) (distance (a :: as) bs + 1))
        (distance as bs + if a = b then 0 else 1) = distance (a :: as) (b :: bs) := by
      rw [distance, Nat.min_comm (distance as (b :: bs) + 1)]
    rw [entry, ih, distanceRow, List.tail_cons, ← distanceRow_eq_cons]

/-- The rows are gone through up to the last one. -/
theorem levenshteinRows_eq (as front b : List Char) :
    levenshteinRows b as front.length (distanceRow front [] b) =
      distanceRow (as.reverse ++ front) [] b := by
  -- By induction on the word, each of whose characters makes a row out of the one before.
  induction as generalizing front with
  | nil => rfl
  | cons a as ih =>
    have left : front.length + 1 = distance (a :: front) [] := by simp
    rw [levenshteinRows, left, levenshteinRow_eq, ← distanceRow_eq_cons, ← left]
    simpa using ih (a :: front)

/-- The last entry of a row is for the whole word. -/
theorem getLastD_distanceRow (as bs rest : List Char) :
    (distanceRow as bs rest).getLastD 0 = distance as (rest.reverse ++ bs) := by
  -- By induction on what is left of the other word.
  induction rest generalizing bs with
  | nil => rfl
  | cons b rest ih =>
    have further := ih (b :: bs)
    rw [distanceRow_eq_cons] at further
    rw [distanceRow, distanceRow_eq_cons]
    simpa using further

/-- The table starts with the lengths. -/
theorem distanceRow_nil (bs rest : List Char) :
    distanceRow [] bs rest = List.range' bs.length (rest.length + 1) := by
  -- By induction on the word: without characters of the first one everything is inserted.
  induction rest generalizing bs with
  | nil => simp [distanceRow]
  | cons b rest ih =>
    rw [distanceRow, ih, distance_nil_left]
    rfl

/-- The table comes to the least number of single-character edits. -/
theorem levenshtein_eq (a b : String) : levenshtein a b = distance a.toList b.toList := by
  rw [levenshtein]
  -- Where one of the words is empty, the distance is the length of the other one.
  split
  next none => rw [none, distance_nil_left, String.length_toList]
  next some =>
    split
    next none => rw [none, distance_nil_right, String.length_toList]
    next some =>
      have start : List.range (b.length + 1) = distanceRow [] [] b.toList := by
        rw [distanceRow_nil, String.length_toList, List.range_eq_range']
        rfl
      -- The last of the rows is for both words, read backwards.
      have rows := levenshteinRows_eq a.toList [] b.toList
      rw [start]
      rw [List.length_nil] at rows
      rw [rows, getLastD_distanceRow, List.append_nil, List.append_nil, distance_reverse]

/-- One of two names is nearer than the other, or as near and not behind it in the alphabet. -/
def Nearer (needle c d : String) : Prop :=
  levenshtein needle c < levenshtein needle d ∨
    levenshtein needle c = levenshtein needle d ∧ c ≤ d

/-- A name that may be suggested for another one. -/
def Near (needle c : String) : Prop :=
  c ≠ needle ∧ levenshtein needle c ≤ suggestionBound needle

/-- What is kept of the candidates so far, with its distance. -/
def KeptNearest (needle : String) (candidates : List String) : Option (Nat × String) → Prop
  | none => ∀ c ∈ candidates, ¬ Near needle c
  | some (n, c) => n = levenshtein needle c ∧ c ∈ candidates ∧ Near needle c ∧
      ∀ d ∈ candidates, Near needle d → Nearer needle c d

section

variable {needle c d : String} {candidates : List String}

/-- Being nearer passes on. -/
theorem Nearer.trans {e : String} (first : Nearer needle c d) (second : Nearer needle d e) :
    Nearer needle c e := by
  -- The distances decide, or else the words themselves.
  rcases first with less | ⟨same, before⟩
  · rcases second with further | ⟨same, -⟩
    · exact .inl (less.trans further)
    · exact .inl (same ▸ less)
  · rcases second with further | ⟨same', before'⟩
    · exact .inl (same ▸ further)
    · exact .inr ⟨same.trans same', before.trans before'⟩

/-- Of two words that are nearer than each other there is only one. -/
theorem Nearer.antisymm (first : Nearer needle c d) (second : Nearer needle d c) : c = d := by
  -- The distances decide, or else the words themselves.
  rcases first with less | ⟨same, before⟩
  · rcases second with more | ⟨same, -⟩
    · exact absurd more less.asymm
    · exact absurd same less.ne'
  · rcases second with more | ⟨-, behind⟩
    · exact absurd same more.ne'
    · exact le_antisymm before behind

/-- A name is nearer, or as near, as soon as the other one takes no fewer edits. -/
theorem nearer_iff : Nearer needle c d ↔ ∀ m, Edits m needle.toList d.toList →
    levenshtein needle c < m ∨ levenshtein needle c = m ∧ c ≤ d := by
  -- The number of edits that is the least settles it for all numbers.
  obtain ⟨edits, least⟩ := isDistance_distance needle.toList d.toList
  rw [← levenshtein_eq] at edits least
  refine ⟨fun nearer m other => ?_, fun all => all _ edits⟩
  rcases nearer with less | ⟨same, before⟩
  · exact .inl (less.trans_le (least m other))
  · rcases (least m other).lt_or_eq with more | equal
    · exact .inl (same ▸ more)
    · exact .inr ⟨same.trans equal, before⟩

/-- A candidate beyond the bound is not nearer than one within it. -/
theorem Near.nearer (near : Near needle c) (other : d ≠ needle)
    (nearest : Near needle d → Nearer needle c d) : Nearer needle c d := by
  -- What is within the bound is compared, and what is beyond it is further away.
  by_cases close : levenshtein needle d ≤ suggestionBound needle
  · exact nearest ⟨other, close⟩
  · exact .inl (near.2.trans_lt (Nat.lt_of_not_le close))

/-- A candidate that may not be suggested is passed by. -/
theorem KeptNearest.skip {best : Option (Nat × String)} (kept : KeptNearest needle candidates best)
    (far : ¬ Near needle c) : KeptNearest needle (candidates ++ [c]) best := by
  -- The last candidate could only be the nearest one if it were near.
  cases best with
  | none =>
    intro d among
    rcases List.mem_append.mp among with earlier | last
    · exact kept d earlier
    · exact List.mem_singleton.mp last ▸ far
  | some entry =>
    obtain ⟨n, d⟩ := entry
    obtain ⟨measured, among, near, nearest⟩ := kept
    refine ⟨measured, List.mem_append_left _ among, near, fun e member may => ?_⟩
    rcases List.mem_append.mp member with earlier | last
    · exact nearest e earlier may
    · exact absurd (List.mem_singleton.mp last ▸ may) far

/-- A candidate that may be suggested takes the place of what is kept, or is not nearer. -/
theorem KeptNearest.take {best : Option (Nat × String)} (kept : KeptNearest needle candidates best)
    (near : Near needle c) (first : ∀ n d, best = some (n, d) → Nearer needle c d) :
    KeptNearest needle (candidates ++ [c]) (some (levenshtein needle c, c)) := by
  refine ⟨rfl, List.mem_append_right _ (List.mem_singleton_self c), near, fun e member may => ?_⟩
  rcases List.mem_append.mp member with earlier | last
  -- What is nearer than the one kept so far is nearer than all before it.
  · cases best with
    | none => exact absurd may (kept e earlier)
    | some entry => exact (first _ _ rfl).trans (kept.2.2.2 e earlier may)
  · exact .inr ⟨congrArg _ (List.mem_singleton.mp last).symm, (List.mem_singleton.mp last).ge⟩

/-- A candidate that is not nearer is passed by. -/
theorem KeptNearest.stay {n : Nat} (kept : KeptNearest needle candidates (some (n, d)))
    (first : Nearer needle d c) : KeptNearest needle (candidates ++ [c]) (some (n, d)) := by
  obtain ⟨measured, among, near, nearest⟩ := kept
  refine ⟨measured, List.mem_append_left _ among, near, fun e member may => ?_⟩
  rcases List.mem_append.mp member with earlier | last
  · exact nearest e earlier may
  · exact List.mem_singleton.mp last ▸ first

/-- What is kept in the end is what is suggested. -/
theorem exists_kept (needle : String) (candidates : List String) :
    ∃ best, KeptNearest needle candidates best ∧ suggest needle candidates = best.map (·.2) := by
  refine ⟨_, ?_, rfl⟩
  induction candidates using List.reverseRecOn with
  | nil =>
    intro c none
    cases none
  | append_singleton candidates c kept =>
    rw [List.foldl_concat]
    generalize candidates.foldl _ none = best at kept ⊢
    -- The cases are those of the loop.
    by_cases same : c = needle
    · rw [if_pos same]
      exact kept.skip fun near => near.1 same
    rw [if_neg same]
    dsimp only
    by_cases far : suggestionBound needle < levenshtein needle c
    · rw [if_pos far]
      exact kept.skip fun near => Nat.not_le_of_gt far near.2
    rw [if_neg far]
    have near : Near needle c := ⟨same, Nat.le_of_not_lt far⟩
    cases best with
    | none => exact kept.take near (by simp)
    | some entry =>
      obtain ⟨n, d⟩ := entry
      obtain rfl := kept.1
      dsimp only
      -- Between equals the alphabet decides.
      split
      next first =>
        refine kept.take near fun n e same => ?_
        cases same
        exact first.imp_right fun tie => ⟨tie.1, tie.2.le⟩
      next later =>
        obtain ⟨notLess, notBefore⟩ := not_or.mp later
        refine kept.stay ?_
        rcases (Nat.le_of_not_lt notLess).lt_or_eq with less | same
        · exact .inl less
        · exact .inr ⟨same, le_of_not_gt fun before => notBefore ⟨same.symm, before⟩⟩

/-- What is suggested is a candidate that may be, and none that may be is nearer. -/
theorem suggest_eq_some_iff_nearer : suggest needle candidates = some c ↔
    c ∈ candidates ∧ Near needle c ∧ ∀ d ∈ candidates, Near needle d → Nearer needle c d := by
  obtain ⟨best, kept, found⟩ := exists_kept needle candidates
  rw [found]
  -- If nothing has been kept, nothing is near.
  cases best with
  | none => exact ⟨nofun, fun ⟨among, near, _⟩ => absurd near (kept c among)⟩
  | some entry =>
    obtain ⟨n, d⟩ := entry
    obtain ⟨-, among, near, nearest⟩ := kept
    constructor
    · rintro ⟨⟩
      exact ⟨among, near, nearest⟩
    · rintro ⟨member, may, least⟩
      rw [Option.map_some, (nearest c member may).antisymm (least d among near)]

/-- What is suggested is another candidate within the bound, at the least number of
single-character edits, and of those at this number the first one in the alphabet. -/
theorem suggest_eq_some_iff : suggest needle candidates = some c ↔
    c ∈ candidates ∧ c ≠ needle ∧ ∃ n ≤ suggestionBound needle,
      IsDistance n needle.toList c.toList ∧ ∀ d ∈ candidates, d ≠ needle →
        ∀ m, Edits m needle.toList d.toList → n < m ∨ n = m ∧ c ≤ d := by
  -- To be nearer is to need fewer edits, or as many and to come first.
  rw [suggest_eq_some_iff_nearer]
  constructor
  · rintro ⟨among, near, nearest⟩
    refine ⟨among, near.1, _, near.2, isDistance_iff.mpr (levenshtein_eq needle c), ?_⟩
    intro d member other
    exact nearer_iff.mp (near.nearer other (nearest d member))
  · rintro ⟨among, other, n, close, distant, least⟩
    obtain rfl := (isDistance_iff.mp distant).trans (levenshtein_eq needle c).symm
    exact ⟨among, ⟨other, close⟩, fun d member near => nearer_iff.mpr (least d member near.1)⟩

/-- What is told of an unknown keyword does not depend on the order in which the registry yields
its keywords. -/
theorem unknownDomainKeyword_perm {registered others : List String}
    (perm : registered.Perm others) (keyword : String) :
    unknownDomainKeyword registered keyword = unknownDomainKeyword others keyword := by
  -- Which candidate is nearest is not a matter of their order.
  have hint : suggest keyword registered = suggest keyword others := by
    refine Option.ext fun c => ?_
    simp only [suggest_eq_some_iff_nearer, perm.mem_iff]
  -- Sorted, the two lists are one.
  have sorted : registered.mergeSort (· ≤ ·) = others.mergeSort (· ≤ ·) := by
    have both := (List.mergeSort_perm registered (· ≤ ·)).trans
      (perm.trans (List.mergeSort_perm others (· ≤ ·)).symm)
    exact both.eq_of_sortedLE List.sortedLE_mergeSort List.sortedLE_mergeSort
  simp only [unknownDomainKeyword, suggestKeyword, hint, sorted]

/-- Two keywords that are equally near are told alike in either order. -/
theorem unknownDomainKeyword_perm_swap :
    unknownDomainKeyword ["defmonitor", "defmonitors"] "defmoniter" =
      unknownDomainKeyword ["defmonitors", "defmonitor"] "defmoniter" :=
  unknownDomainKeyword_perm (.swap _ _ _) "defmoniter"

end

end Tatara.Lisp
