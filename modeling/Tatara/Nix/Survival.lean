import Mathlib
import Tatara.Nix.Indented

/-! The strings and names that survive the Nix back end. -/

namespace Tatara.Nix

section survival

variable (rules : LexicalRules)

/-- Where only quotes and dollar signs come from escapes, a text stays when its characters are not
indented. -/
theorem strip_eq_iff_unindented {pieces : List Piece}
    (marked : ∀ piece ∈ pieces, piece.2 = true → piece.1 = '\x27' ∨ piece.1 = '$') :
    strip rules pieces = pieces ↔ Unindented rules (pieces.map Prod.fst) := by
  -- The spaces and line breaks among the characters are the pieces that count as such.
  have plain {c : Char} (noQuote : c ≠ '\x27') (noDollar : c ≠ '$') (piece : Piece)
      (inside : piece ∈ pieces) : piece.1 = c ↔ piece = (c, false) := by
    constructor
    · rintro rfl
      cases flag : piece.2 with
      | true => exact ((marked piece inside flag).elim noQuote noDollar).elim
      | false => exact Prod.ext rfl flag
    · rintro rfl
      rfl
  have lines : (pieces.map Prod.fst).splitOn '\n' =
      (pieces.splitOn ('\n', false)).map (List.map Prod.fst) := by
    show (pieces.map Prod.fst).splitOn (Prod.fst (('\n', false) : Piece)) = _
    exact Delimited.splitOn_map Prod.fst fun piece inside same =>
      (plain (by decide) (by decide) piece inside).mp same
  have space (line : List Piece) (among : line ∈ pieces.splitOn ('\n', false)) (piece : Piece)
      (inside : piece ∈ line) : isSpace piece = true ↔ piece.1 = ' ' := by
    rw [isSpace, beq_iff_eq]
    exact (plain (by decide) (by decide) piece ((Delimited.mem_splitOn among).2 piece inside)).symm
  rw [strip_eq_iff, stripLines_eq_iff, lost_eq_zero_iff, Unindented, lines]
  refine and_congr (or_congr ?_ (by simp)) (forall_congr' fun _ => ?_)
  · -- A line begins with a piece that is no space when its characters do.
    constructor
    · rintro ⟨line, inside, piece, rest, rfl, other⟩
      refine ⟨_, List.mem_map_of_mem inside, piece.1, rest.map Prod.fst, rfl, fun same => ?_⟩
      rw [(space _ inside piece List.mem_cons_self).mpr same] at other
      cases other
    · rintro ⟨chars, inside, c, rest, first, other⟩
      obtain ⟨line, among, rfl⟩ := List.mem_map.mp inside
      obtain ⟨piece, behind, rfl, rfl, -⟩ := List.map_eq_cons_iff.mp first
      refine ⟨_, among, piece, behind, rfl, ?_⟩
      rw [← Bool.not_eq_true, space _ among piece List.mem_cons_self]
      exact other
  · rw [List.getLast?_map]
    cases last : (pieces.splitOn ('\n', false)).getLast? with
    | none => simp
    | some line =>
      have blank : line.all isSpace = true ↔ ∀ c ∈ line.map Prod.fst, c = ' ' := by
        rw [List.all_eq_true, List.forall_mem_map]
        exact forall₂_congr (space line (List.mem_of_getLast? last))
      simp only [Option.map_some, Option.some.injEq, forall_eq', blank, List.map_eq_nil_iff]

/-- The expression denotes the string. -/
def StringSurvives (s : String) : Prop :=
  literalText rules (nixString s).toList = some s.toList

instance (s : String) : Decidable (StringSurvives rules s) :=
  inferInstanceAs (Decidable (_ = _))

/-- The name of the attribute denotes the name. -/
def NameSurvives [Alphanumerics] (name : String) : Prop :=
  attributeName rules (nixIdentifier name).toList = some name.toList

/-- A text comes back from an indented literal when its quotes are apart and it is not indented. -/
theorem indented_survives_iff (text : List Char) :
    (readIndented rules (doubleQuotePairs text ++ closing)).map
        (fun pieces => (strip rules pieces).map Prod.fst) = some text ↔
      QuotesApart rules text ∧ Unindented rules text := by
  constructor
  · intro found
    obtain ⟨pieces, found, same⟩ := Option.map_eq_some_iff.mp found
    -- All spaces of the text come back, so none has been stripped.
    have whole : strip rules pieces = pieces := by
      refine (shortened_strip rules pieces).eq ?_
      rw [same, (count_readIndented rules found).1, List.count_append, List.count_eq_countP,
        List.count_eq_countP, countP_doubleQuotePairs (by decide)]
      rfl
    rw [whole] at same
    have apart := quotesApart_of_readIndented found same
    obtain ⟨pieces', found', same', marked⟩ := readIndented_of_quotesApart rules apart
    obtain rfl : pieces = pieces' := Option.some.inj (found.symm.trans found')
    exact ⟨apart, same ▸ (strip_eq_iff_unindented rules marked).mp whole⟩
  · rintro ⟨apart, unindented⟩
    obtain ⟨pieces, found, rfl, marked⟩ := readIndented_of_quotesApart rules apart
    rw [found, Option.map_some, (strip_eq_iff_unindented rules marked).mpr unindented]

/-- A string survives when it is a literal. -/
theorem stringSurvives_iff (s : String) : StringSurvives rules s ↔ Literal rules s := by
  rw [StringSurvives, nixString, Literal]
  -- Either kind of literal has its own condition.
  split
  · rw [String.toList_ofList, ← indented_survives_iff]
    rfl
  · rw [String.toList_ofList, ← readPlain_escaped]
    rfl

/-- A letter is no digit. -/
theorem isDigit_of_isAlpha {c : Char} (letter : c.isAlpha = true) : c.isDigit = false := by
  rw [← Bool.not_eq_true]
  -- The two ranges of characters do not meet.
  simp only [Char.isAlpha, Char.isUpper, Char.isLower, Char.isDigit, Bool.or_eq_true,
    decide_eq_true_eq, Bool.and_eq_true, UInt32.le_iff_toNat_le] at letter ⊢
  simp at letter ⊢
  omega

/-- Letters, digits and underscores are a bare name, but for a digit in front and for keywords. -/
theorem isIdentifier_iff {text : List Char} (nonempty : text ≠ [])
    (noMark : '\x27' ∉ text ∧ '-' ∉ text) :
    isIdentifier text = true ↔
      (∀ c ∈ text, c.isAlphanum = true ∨ c = '_') ∧
        (∀ c, text.head? = some c → c.isDigit = false) ∧ text ∉ keywords.map String.toList := by
  obtain ⟨first, rest, rfl⟩ := List.exists_cons_of_ne_nil nonempty
  have letter : (first.isAlpha = true ∨ first = '_') ↔
      (first.isAlphanum = true ∨ first = '_') ∧ first.isDigit = false := by
    rw [Char.isAlphanum, Bool.or_eq_true]
    constructor
    · rintro (letter | rfl)
      · exact ⟨.inl (.inl letter), isDigit_of_isAlpha letter⟩
      · decide
    · grind
  have others : (∀ c ∈ rest, (((c.isAlphanum = true ∨ c = '_') ∨ c = '\x27') ∨ c = '-')) ↔
      ∀ c ∈ rest, c.isAlphanum = true ∨ c = '_' := by
    -- The text has neither of the other two marks.
    refine forall₂_congr fun c inside => ⟨?_, fun plain => .inl (.inl plain)⟩
    rintro ((plain | rfl) | rfl)
    · exact plain
    · exact absurd (List.mem_cons_of_mem first inside) noMark.1
    · exact absurd (List.mem_cons_of_mem first inside) noMark.2
  simp only [isIdentifier, Bool.and_eq_true, Bool.or_eq_true, beq_iff_eq, List.all_eq_true,
    Bool.not_eq_true', List.contains_eq_mem, decide_eq_false_iff_not, letter, others,
    List.forall_mem_cons, List.head?_cons, Option.some.injEq, forall_eq']
  tauto

/-- A name survives when it is nameable. -/
theorem nameSurvives_iff [Alphanumerics] (name : String) :
    NameSurvives rules name ↔ Nameable rules name := by
  rw [NameSurvives, nixIdentifier, Nameable]
  split
  · next bare =>
    simp only [Bool.and_eq_true, List.all_eq_true, Bool.or_eq_true, beq_iff_eq,
      Bool.not_eq_true', List.isEmpty_eq_false_iff] at bare
    obtain ⟨plain, nonempty⟩ := bare
    -- None of the characters of ASCII beyond letters, digits and underscores is in the name.
    have noMark {c : Char} (ascii : c.toNat < 128) (mark : c.isAlphanum = false)
        (other : c ≠ '_') : c ∉ name.toList := by
      intro inside
      rcases plain c inside with letter | same
      · rw [Alphanumerics.ascii c ascii, mark] at letter
        cases letter
      · exact other same
    have quote : '"' ∉ name.toList := noMark (by decide) (by decide) (by decide)
    -- So it is read as a bare name, and not as a literal.
    have read : attributeName rules name.toList =
        if isIdentifier name.toList then some name.toList else none := by
      rw [attributeName]
      rintro rest same
      rw [same] at quote
      exact quote List.mem_cons_self
    have keyword : name ∈ keywords ↔ name.toList ∈ keywords.map String.toList := by
      rw [List.mem_map_of_injective fun _ _ => String.toList_injective]
    rw [read, Option.ite_none_right_eq_some, and_iff_left rfl, keyword]
    exact isIdentifier_iff nonempty ⟨noMark (by decide) (by decide) (by decide),
      noMark (by decide) (by decide) (by decide)⟩
  · rw [String.toList_ofList, ← readPlain_backslashed]
    rfl

/-- Strings and names survive the back end exactly when they are literals and nameable. -/
theorem survives_iff [Alphanumerics] (rules : LexicalRules) :
    (∀ s, StringSurvives rules s ↔ Literal rules s) ∧
      ∀ name, NameSurvives rules name ↔ Nameable rules name :=
  ⟨stringSurvives_iff rules, nameSurvives_iff rules⟩

/-- What a shell would expand is an interpolation, and two quotes of a script come back as three. -/
theorem not_survives_expansion :
    ¬ StringSurvives plainRules "$\x7bHOME\x7d" ∧
      ¬ StringSurvives extendedRules "$\x7bHOME\x7d" ∧
      ¬ StringSurvives plainRules "set -eu\necho ''\n" ∧
      ¬ StringSurvives extendedRules "set -eu\necho ''\n" := by
  refine ⟨?_, ?_, ?_, ?_⟩ <;> decide

end survival

end Tatara.Nix
