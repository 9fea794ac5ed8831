import Mathlib
import Tatara.Lib.Delimited
import Tatara.Watcher.Handler

/-! When the name of an allocation tells the pull request that it is for. -/

namespace Tatara.Watcher

open Tatara.Rust Tatara.Crd
open Tatara.Delimited (append_mark_inj)

-- A statement about the characters of a text is decided on these, not on all characters.
attribute [local instance (high)] List.decidableBAll

/-- The owner of a repository: letters, digits and single dashes between them. -/
def IsOwner (owner : List Char) : Prop :=
  owner ≠ [] ∧ (∀ c ∈ owner, c.isAlphanum = true ∨ c = '-') ∧ owner.head? ≠ some '-' ∧
    owner.getLast? ≠ some '-' ∧ ¬ ['-', '-'] <:+: owner

instance : DecidablePred IsOwner := fun _ => inferInstanceAs (Decidable (_ ∧ _))

/-- The name of a repository: letters, digits, dashes, underscores and dots. -/
def IsName (name : List Char) : Prop :=
  name ≠ [] ∧ ∀ c ∈ name, c.isAlphanum = true ∨ c = '-' ∨ c = '_' ∨ c = '.'

instance : DecidablePred IsName := fun _ => inferInstanceAs (Decidable (_ ∧ _))

/-- A repository. -/
structure Repository where
  owner : List Char
  name : List Char
  isOwner : IsOwner owner
  isName : IsName name

namespace Repository

/-- The characters of `full_name`. -/
def chars (r : Repository) : List Char := r.owner ++ '/' :: r.name

/-- `full_name`. -/
def fullName (r : Repository) : String := String.ofList r.chars

/-- Two repositories are one for whoever ignores case. -/
def Same (r r' : Repository) : Prop := r.chars.map Char.toLower = r'.chars.map Char.toLower

instance (r r' : Repository) : Decidable (r.Same r') := inferInstanceAs (Decidable (_ = _))

/-- Nothing but letters and digits around the slash, and few enough of them. -/
def Telling (r : Repository) : Prop :=
  r.chars.length < maxRepoLength ∧ ∀ c ∈ r.owner ++ r.name, c.isAlphanum = true

end Repository

/-- A name for an object of the cluster: lowercase letters, digits, and dashes and dots inside. -/
def IsObjectName (text : List Char) : Prop :=
  text.length ≤ 253 ∧ ∀ label ∈ text.splitOn '.',
    label ≠ [] ∧ (∀ c ∈ label, (c.isLower || c.isDigit) = true ∨ c = '-') ∧
      label.head? ≠ some '-' ∧ label.getLast? ≠ some '-'

/-- The names of the pull requests of a repository are names for objects, no other pull request has
one of them, and none that is closed takes the allocation of another one away. -/
def Identifies (r : Repository) : Prop :=
  (∀ n, IsObjectName (allocationName r.fullName n).toList) ∧
  (∀ n r' n', allocationName r.fullName n = allocationName r'.fullName n' → r.Same r' ∧ n = n') ∧
  ∀ n r' n', ¬ (r.Same r' ∧ n = n') → ∀ config server evt now allocations,
    evt.action = .closed → evt.repository = Repository.fullName r' → evt.number = n' →
      (handlePrEvent config server evt now allocations).2 (allocationName r.fullName n) =
        allocations (allocationName r.fullName n)

/-! ### The name, character by character -/

/-- What a character of a repository becomes. -/
def slugChar (c : Char) : Char := (if c.isAlphanum ∨ c = '-' then c else '-').toLower

theorem slugChar_alphanum {c : Char} (plain : c.isAlphanum = true) : slugChar c = c.toLower := by
  rw [slugChar, if_pos (.inl plain)]

/-- A letter or a digit stays one, in lowercase. -/
theorem isLower_slugChar {c : Char} (plain : c.isAlphanum = true) :
    ((slugChar c).isLower || (slugChar c).isDigit) = true := by
  -- The ranges of the characters are compared by their codes.
  rw [slugChar_alphanum plain]
  simp only [Char.isAlphanum, Char.isAlpha, Char.isUpper, Char.isLower, Char.isDigit,
    Bool.or_eq_true, Bool.and_eq_true, decide_eq_true_eq, UInt32.le_iff_toNat_le, ge_iff_le] at plain
  simp only [Char.isLower, Char.isDigit, Char.toLower, Bool.or_eq_true, Bool.and_eq_true,
    decide_eq_true_eq, UInt32.le_iff_toNat_le, ge_iff_le]
  split
  · rename_i upper
    simp [UInt32.toNat_add] at upper ⊢
    omega
  · rename_i other
    simp at other plain ⊢
    omega

/-- Everything else becomes a dash. -/
theorem slugChar_eq_dash_iff {c : Char} : slugChar c = '-' ↔ c.isAlphanum = false := by
  -- A letter or a digit never becomes a dash, and anything else is one or becomes one.
  constructor
  · intro dash
    refine Bool.eq_false_iff.mpr fun plain => ?_
    have letter := isLower_slugChar plain
    rw [dash] at letter
    exact absurd letter (by decide)
  · intro other
    rw [slugChar]
    split
    · rename_i kept
      rw [other] at kept
      rcases kept with impossible | rfl
      · cases impossible
      · rfl
    · rfl

/-- A number is written with digits, in either case. -/
theorem map_toLower_renderNat (n : Nat) : (renderNat n).map Char.toLower = renderNat n := by
  -- A digit has no upper case.
  refine (List.map_congr_left fun c digit => ?_).trans (List.map_id _)
  have decimal := renderNat_isDigit digit
  simp only [Char.isDigit, Bool.and_eq_true, decide_eq_true_eq, UInt32.le_iff_toNat_le, ge_iff_le]
    at decimal
  simp only [Char.toLower, UInt32.le_iff_toNat_le, ge_iff_le]
  split
  · rename_i upper
    simp at upper decimal
    omega
  · rfl

/-- The name of an allocation. -/
theorem toList_allocationName (r : Repository) (n : UInt64) :
    (allocationName r.fullName n).toList =
      "pr-".toList ++ (renderNat n.toNat ++ '-' :: (r.chars.map slugChar).take maxRepoLength) := by
  -- The front is lowercase already, and the digits are as well.
  have front : "pr-".toList.map Char.toLower = "pr-".toList := by decide
  unfold allocationName Repository.fullName
  simp only [String.toList_ofList, List.map_append, List.map_cons, map_toLower_renderNat,
    List.map_take, List.map_map, List.append_assoc, front]
  rfl

/-- Names are the same where the numbers are, and what is kept of the repositories. -/
theorem allocationName_eq_iff {r r' : Repository} {n n' : UInt64} :
    allocationName r.fullName n = allocationName r'.fullName n' ↔
      n = n' ∧ (r.chars.map slugChar).take maxRepoLength =
        (r'.chars.map slugChar).take maxRepoLength := by
  -- The number ends at the first dash behind the front.
  have decimal (n : UInt64) : '-' ∉ renderNat n.toNat := by
    intro inside
    exact absurd (renderNat_isDigit inside) (by decide)
  rw [← String.toList_inj, toList_allocationName, toList_allocationName, List.append_cancel_left_eq]
  constructor
  · intro same
    obtain ⟨digits, repo⟩ := append_mark_inj (decimal n) (decimal n') same
    have numbers := congrArg parseNat digits
    rw [parseNat_renderNat, parseNat_renderNat, Option.some_inj] at numbers
    exact ⟨UInt64.toNat_inj.mp numbers, repo⟩
  · rintro ⟨rfl, repo⟩
    rw [repo]

/-- The slash becomes a dash. -/
theorem map_slugChar_chars (r : Repository) :
    r.chars.map slugChar = r.owner.map slugChar ++ '-' :: r.name.map slugChar := by
  rw [Repository.chars, List.map_append, List.map_cons]
  rfl

/-- What letters and digits become has no dash. -/
theorem dash_notMem_map {text : List Char} (plain : ∀ c ∈ text, c.isAlphanum = true) :
    '-' ∉ text.map slugChar := by
  -- The dash comes from some character, which is no letter and no digit.
  intro inside
  obtain ⟨c, member, dash⟩ := List.mem_map.mp inside
  rw [slugChar_eq_dash_iff, plain c member] at dash
  cases dash

/-- What has become no dash is letters and digits in lowercase. -/
theorem map_slugChar_of_notMem {text : List Char} (absent : '-' ∉ text.map slugChar) :
    text.map slugChar = text.map Char.toLower := by
  refine List.map_congr_left fun c inside => slugChar_alphanum ?_
  refine Bool.of_not_eq_false fun other => absent ?_
  exact List.mem_map.mpr ⟨c, inside, slugChar_eq_dash_iff.mpr other⟩

namespace Repository

variable {r r' : Repository}

/-- Nothing of the repository is cut off. -/
theorem Telling.take (telling : r.Telling) :
    (r.chars.map slugChar).take maxRepoLength = r.chars.map slugChar :=
  List.take_of_length_le (by rw [List.length_map]; exact telling.1.le)

/-- The name is one for objects. -/
theorem Telling.isObjectName (telling : r.Telling) (n : UInt64) :
    IsObjectName (allocationName r.fullName n).toList := by
  have plainOwner (c) (inside : c ∈ r.owner) := telling.2 c (List.mem_append_left _ inside)
  have plainName (c) (inside : c ∈ r.name) := telling.2 c (List.mem_append_right _ inside)
  rw [toList_allocationName, telling.take, map_slugChar_chars]
  have allowed : ∀ c ∈ "pr-".toList ++ (renderNat n.toNat ++
      '-' :: (r.owner.map slugChar ++ '-' :: r.name.map slugChar)),
      (c.isLower || c.isDigit) = true ∨ c = '-' := by
    intro c inside
    rw [List.mem_append, List.mem_append, List.mem_cons, List.mem_append, List.mem_cons] at inside
    rcases inside with front | digit | rfl | owner | rfl | name
    · have fixed : ∀ d ∈ "pr-".toList, (d.isLower || d.isDigit) = true ∨ d = '-' := by decide
      exact fixed c front
    · exact .inl (by rw [renderNat_isDigit digit, Bool.or_true])
    · exact .inr rfl
    · obtain ⟨d, inside, rfl⟩ := List.mem_map.mp owner
      exact .inl (isLower_slugChar (plainOwner d inside))
    · exact .inr rfl
    · obtain ⟨d, inside, rfl⟩ := List.mem_map.mp name
      exact .inl (isLower_slugChar (plainName d inside))
  have undotted : '.' ∉ "pr-".toList ++ (renderNat n.toNat ++
      '-' :: (r.owner.map slugChar ++ '-' :: r.name.map slugChar)) := by
    intro inside
    exact absurd (allowed _ inside) (by decide)
  refine ⟨?_, fun label inside => ?_⟩
  · have digits : (renderNat n.toNat).length ≤ 20 :=
      (Nat.length_toDigits_le_iff (by decide) (by decide)).mpr (n.toNat_lt.trans (by decide))
    have kept := telling.1
    simp only [Repository.chars, maxRepoLength, List.length_append, List.length_cons] at kept
    simp only [List.length_append, List.length_cons, List.length_map]
    have front : "pr-".toList.length = 3 := rfl
    omega
  · rw [List.splitOn_eq_singleton undotted, List.mem_singleton] at inside
    subst inside
    refine ⟨by simp, allowed, by simp, fun last => ?_⟩
    -- The last character is the last one of the name.
    obtain ⟨c, ended⟩ := Option.ne_none_iff_exists'.mp
      (mt List.getLast?_eq_none_iff.mp r.isName.1)
    have letter : slugChar c = '-' := by
      simpa [List.getLast?_append, List.getLast?_cons, ended] using last
    rw [slugChar_eq_dash_iff, plainName c (List.mem_of_getLast? ended)] at letter
    cases letter

/-- A repository is told, up to case, by what its characters become. -/
theorem Telling.same (telling : r.Telling)
    (kept : (r.chars.map slugChar).take maxRepoLength =
      (r'.chars.map slugChar).take maxRepoLength) : r.Same r' := by
  have plainOwner (c) (inside : c ∈ r.owner) := telling.2 c (List.mem_append_left _ inside)
  have plainName (c) (inside : c ∈ r.name) := telling.2 c (List.mem_append_right _ inside)
  -- Nothing of the other one is cut off either.
  have short := telling.1
  have lengths := congrArg List.length kept
  simp only [List.length_take, List.length_map] at lengths
  rw [telling.take, List.take_of_length_le (by rw [List.length_map]; omega),
    map_slugChar_chars, map_slugChar_chars] at kept
  -- The one dash is that of the slash, on both sides.
  have once := congrArg (List.count '-') kept
  simp only [List.count_append, List.count_cons_self,
    List.count_eq_zero.mpr (dash_notMem_map plainOwner),
    List.count_eq_zero.mpr (dash_notMem_map plainName)] at once
  have absentOwner : '-' ∉ r'.owner.map slugChar := List.count_eq_zero.mp (by omega)
  have absentName : '-' ∉ r'.name.map slugChar := List.count_eq_zero.mp (by omega)
  obtain ⟨owners, names⟩ := append_mark_inj (dash_notMem_map plainOwner) absentOwner kept
  rw [map_slugChar_of_notMem (dash_notMem_map plainOwner), map_slugChar_of_notMem absentOwner]
    at owners
  rw [map_slugChar_of_notMem (dash_notMem_map plainName), map_slugChar_of_notMem absentName]
    at names
  simp only [Repository.Same, Repository.chars, List.map_append, List.map_cons, owners, names]

/-! ### Repositories that share a name -/

/-- A repository with a long name is not told from one with a longer name. -/
theorem exists_of_long (long : maxRepoLength ≤ r.chars.length) : ∃ r' : Repository,
    ¬ r.Same r' ∧ (r.chars.map slugChar).take maxRepoLength =
      (r'.chars.map slugChar).take maxRepoLength := by
  -- The other repository has one letter more, which is cut.
  have valid : IsName (r.name ++ ['a']) := by
    refine ⟨by simp, fun c inside => ?_⟩
    rcases List.mem_append.mp inside with inside | inside
    · exact r.isName.2 c inside
    · obtain rfl := List.mem_singleton.mp inside
      decide
  have longer : (⟨r.owner, r.name ++ ['a'], r.isOwner, valid⟩ : Repository).chars =
      r.chars ++ ['a'] := by
    simp [Repository.chars]
  refine ⟨⟨r.owner, r.name ++ ['a'], r.isOwner, valid⟩, fun same => ?_, ?_⟩
  · have lengths := congrArg List.length same
    simp [longer] at lengths
  · rw [longer, List.map_append, List.take_append_of_le_length (by simpa using long)]

/-- A separator in the name is not told from another one. -/
theorem exists_of_separator {c : Char} (inside : c ∈ r.name) (other : c.isAlphanum = false) :
    ∃ r' : Repository, ¬ r.Same r' ∧ (r.chars.map slugChar).take maxRepoLength =
      (r'.chars.map slugChar).take maxRepoLength := by
  obtain ⟨front, back, split⟩ := List.append_of_mem inside
  -- A dash is taken for an underscore, and everything else for a dash.
  obtain ⟨d, separator, different⟩ : ∃ d, (d = '-' ∨ d = '_') ∧ c.toLower ≠ d.toLower := by
    rcases r.isName.2 c inside with plain | rfl | rfl | rfl
    · rw [other] at plain
      cases plain
    · exact ⟨'_', .inr rfl, by decide⟩
    · exact ⟨'-', .inl rfl, by decide⟩
    · exact ⟨'-', .inl rfl, by decide⟩
  have dashed : slugChar d = '-' := by
    rcases separator with rfl | rfl <;> decide
  have valid : IsName (front ++ d :: back) := by
    refine ⟨by simp, fun e inside => ?_⟩
    rcases List.mem_append.mp inside with inside | inside
    · exact r.isName.2 e (split ▸ List.mem_append_left _ inside)
    · rcases List.mem_cons.mp inside with rfl | inside
      · rcases separator with rfl | rfl <;> decide
      · exact r.isName.2 e (split ▸ List.mem_append_right _ (List.mem_cons_of_mem _ inside))
  refine ⟨⟨r.owner, front ++ d :: back, r.isOwner, valid⟩, fun same => different ?_, ?_⟩
  · simpa [Repository.Same, Repository.chars, split] using same
  · simp only [Repository.chars, split, List.map_append, List.map_cons, dashed,
      slugChar_eq_dash_iff.mpr other]

/-- A dash of the owner is not told from the slash. -/
theorem exists_of_dash (inside : '-' ∈ r.owner) : ∃ r' : Repository,
    ¬ r.Same r' ∧ (r.chars.map slugChar).take maxRepoLength =
      (r'.chars.map slugChar).take maxRepoLength := by
  -- The owner is cut at the dash, and what is behind it goes to the name of the repository.
  obtain ⟨front, back, split, absent⟩ := List.eq_append_cons_of_mem inside
  have validOwner : IsOwner front := by
    refine ⟨?_, fun c inside => r.isOwner.2.1 c (split ▸ List.mem_append_left _ inside),
      fun head => absent (List.mem_of_head? head), fun last => absent (List.mem_of_getLast? last),
      fun twice => absent (twice.subset List.mem_cons_self)⟩
    rintro rfl
    exact r.isOwner.2.2.1 (by rw [split]; rfl)
  have validName : IsName (back ++ '-' :: r.name) := by
    refine ⟨by simp, fun c inside => ?_⟩
    rcases List.mem_append.mp inside with inside | inside
    · rcases r.isOwner.2.1 c (split ▸ List.mem_append_right _ (List.mem_cons_of_mem _ inside))
        with plain | dash
      · exact .inl plain
      · exact .inr (.inl dash)
    · rcases List.mem_cons.mp inside with rfl | inside
      · exact .inr (.inl rfl)
      · exact r.isName.2 c inside
  refine ⟨⟨front, back ++ '-' :: r.name, validOwner, validName⟩, fun same => ?_, ?_⟩
  · have marks : '-'.toLower = '/'.toLower := by
      simp only [Repository.Same, Repository.chars, split, List.map_append, List.map_cons,
        List.append_assoc, List.cons_append, List.append_cancel_left_eq] at same
      exact (List.cons.inj same).1
    exact absurd marks (by decide)
  · have slash : slugChar '/' = '-' := rfl
    have dash : slugChar '-' = '-' := rfl
    simp only [Repository.chars, split, List.map_append, List.map_cons, slash, dash,
      List.append_assoc, List.cons_append]

/-- A repository that is not told has a name that another one has too. -/
theorem exists_of_not_telling (untold : ¬ r.Telling) : ∃ r' : Repository,
    ¬ r.Same r' ∧ (r.chars.map slugChar).take maxRepoLength =
      (r'.chars.map slugChar).take maxRepoLength := by
  -- The name is too long, or it has a dash or another such character, in the one part or the other.
  rcases Nat.lt_or_ge r.chars.length maxRepoLength with short | long
  · have some : ∃ c ∈ r.owner ++ r.name, c.isAlphanum = false := by
      by_contra plain
      refine untold ⟨short, fun c inside => Bool.of_not_eq_false fun other => plain ?_⟩
      exact ⟨c, inside, other⟩
    obtain ⟨c, inside, other⟩ := some
    rcases List.mem_append.mp inside with owner | name
    · rcases r.isOwner.2.1 c owner with plain | rfl
      · rw [other] at plain
        cases plain
      · exact exists_of_dash owner
    · exact exists_of_separator name other
  · exact exists_of_long long

end Repository

/-- What happens to one pull request leaves the allocations of every other name alone. -/
theorem handlePrEvent_of_ne {config : WatcherConfig} {server : Server} {evt : PullRequestEvent}
    {now : DateTime} {allocations : Allocations} {name : String} (closed : evt.action = .closed)
    (other : name ≠ allocationName evt.repository evt.number) :
    (handlePrEvent config server evt now allocations).2 name = allocations name := by
  -- Nothing but the one name is read or written.
  simp only [handlePrEvent, closed]
  split
  · rfl
  · split
    · rename_i rest deleted
      unfold deleteAllocation at deleted
      split at deleted
      · cases deleted
      · split_ifs at deleted <;> cases deleted <;> simp [Function.update_of_ne other]
    · split <;> rfl

/-- The names of a repository identify its pull requests just where there are letters and digits
around the slash, and few of them. -/
theorem allocationName_identifies_iff (r : Repository) : Identifies r ↔ r.Telling := by
  constructor
  · rintro ⟨-, identified, -⟩
    -- Another repository with the same names has a pull request with each of them.
    by_contra untold
    obtain ⟨r', different, kept⟩ := Repository.exists_of_not_telling untold
    exact different (identified 0 r' 0 (allocationName_eq_iff.mpr ⟨rfl, kept⟩)).1
  · intro telling
    have identified (n r' n')
        (named : allocationName r.fullName n = allocationName (Repository.fullName r') n') :
        r.Same r' ∧ n = n' := by
      obtain ⟨numbers, kept⟩ := allocationName_eq_iff.mp named
      exact ⟨telling.same kept, numbers⟩
    refine ⟨telling.isObjectName, identified, ?_⟩
    intro n r' n' different config server evt now allocations closed repository number
    refine handlePrEvent_of_ne closed fun named => different (identified n r' n' ?_)
    rw [named, repository, number]

/-- The repository `a-b/c`, whose names are those of `a/b-c`. -/
def dashed : Repository where
  owner := ['a', '-', 'b']
  name := ['c']
  isOwner := by decide
  isName := by decide

/-- The repository `a/b-c`. -/
def slashed : Repository where
  owner := ['a']
  name := ['b', '-', 'c']
  isOwner := by decide
  isName := by decide

/-- Names do not identify pull requests, for a dash of an owner is as good as the slash. -/
theorem allocationName_not_identifies : ¬ ∀ r : Repository, Identifies r := by
  intro identifies
  obtain ⟨same, -⟩ := (identifies dashed).2.1 1 slashed 1 (by decide)
  exact absurd same (by decide)

end Tatara.Watcher
