import Mathlib.Data.Nat.Init
import Tatara.Lib.Delimited
import Tatara.Nix.Literals

/-! Indented literals are read back when their quotes stand apart, and stay whole when they are not
indented. -/

namespace Tatara.Nix

-- A statement about the characters of a text is decided on these, not on all characters.
attribute [local instance (high)] List.decidableBAll

section indented

variable (rules : LexicalRules)

/-- What closes an indented literal. -/
def closing : List Char := ['\x27', '\x27']

/-- A character that opens nothing is read as itself. -/
theorem readIndented_other {c : Char} (noQuote : c ≠ '\x27') (noDollar : c ≠ '$')
    (rest : List Char) :
    readIndented rules (c :: rest) = (readIndented rules rest).map ((c, false) :: ·) := by
  rw [readIndented] <;> grind

/-- So is a dollar sign in front of neither a brace nor another dollar sign. -/
theorem readIndented_dollar {rest : List Char} (noBrace : rest.head? ≠ some '\x7b')
    (noDollar : rest.head? ≠ some '$') :
    readIndented rules ('$' :: rest) = (readIndented rules rest).map (('$', false) :: ·) := by
  rw [readIndented] <;> grind

/-- A quote that no other one follows is read as itself. -/
theorem readIndented_quote {rest : List Char} (apart : rest.head? ≠ some '\x27') :
    readIndented rules ('\x27' :: rest) =
      (readIndented rules rest).map (('\x27', false) :: ·) := by
  rw [readIndented] <;> grind

/-- Three quotes are read as two. -/
theorem readIndented_triples (count : Nat) (rest : List Char) :
    readIndented rules (List.replicate (3 * count) '\x27' ++ rest) =
      (readIndented rules rest).map (List.replicate (2 * count) ('\x27', true) ++ ·) := by
  -- By induction on the triples, the first one being read as two quotes.
  induction count with
  | zero => simp
  | succ count ih =>
    rw [show 3 * (count + 1) = 3 * count + 1 + 1 + 1 by omega,
      show 2 * (count + 1) = 2 * count + 1 + 1 by omega]
    simp only [List.replicate_succ, List.cons_append, readIndented, ih, Option.map_map]
    rfl

/-- A character other than a quote is read before what is behind it. -/
theorem head_readIndented {c : Char} (noQuote : c ≠ '\x27') {rest : List Char}
    {pieces : List Piece} (found : readIndented rules (c :: rest) = some pieces) :
    (pieces.map Prod.fst).head? = some c := by
  -- Unless it is a dollar sign the character is read by itself.
  by_cases dollar : c = '$'
  · subst dollar
    rw [readIndented.eq_def] at found
    split at found <;> grind [Option.map_eq_some_iff]
  · grind [readIndented_other, Option.map_eq_some_iff]

/-- No escape stands for a space. -/
theorem escapedChar_eq_space {c : Char} : escapedChar c = ' ' ↔ c = ' ' := by
  unfold escapedChar
  split <;> simp

/-- No space is lost in reading, and no character but quotes is gained. -/
theorem count_readIndented {text : List Char} {pieces : List Piece}
    (found : readIndented rules text = some pieces) :
    (pieces.map Prod.fst).count ' ' = text.count ' ' ∧
      (pieces.map Prod.fst).countP (· != '\x27') ≤ text.countP (· != '\x27') := by
  -- By induction on the reading, with what is read behind the first piece taken apart.
  fun_induction readIndented rules text generalizing pieces with
  | case1 rest ih | case2 rest ih | case7 rest pairs ih | case8 rest single ih =>
    obtain ⟨behind, inner, rfl⟩ := Option.map_eq_some_iff.mp found
    obtain ⟨spaces, others⟩ := ih inner
    simp [-List.countP_map] at spaces others ⊢
    omega
  | case3 c rest ih =>
    obtain ⟨behind, inner, rfl⟩ := Option.map_eq_some_iff.mp found
    obtain ⟨spaces, others⟩ := ih inner
    -- The backslash is no quote, so it makes up for the character that it escapes.
    have one : (if escapedChar c = '\x27' then 0 else 1) ≤ 1 := by split <;> decide
    simp [List.count_cons, List.countP_cons, escapedChar_eq_space, -List.countP_map]
      at spaces others ⊢
    omega
  | case4 =>
    cases found
    simp
  | case5 | case6 | case10 => cases found
  | case9 c rest _ _ _ _ _ _ _ ih =>
    obtain ⟨behind, inner, rfl⟩ := Option.map_eq_some_iff.mp found
    obtain ⟨spaces, others⟩ := ih inner
    simp [List.count_cons, List.countP_cons, -List.countP_map] at spaces others ⊢
    omega

/-- Only quotes are doubled. -/
theorem doubleQuotePairs_other {c : Char} (noQuote : c ≠ '\x27') (rest : List Char) :
    doubleQuotePairs (c :: rest) = c :: doubleQuotePairs rest := by
  rw [doubleQuotePairs]
  grind

/-- In a run of quotes each pair becomes two pairs. -/
theorem doubleQuotePairs_replicate (count : Nat) {rest : List Char}
    (apart : rest.head? ≠ some '\x27') :
    doubleQuotePairs (List.replicate count '\x27' ++ rest) =
      List.replicate (4 * (count / 2) + count % 2) '\x27' ++ doubleQuotePairs rest := by
  -- Two quotes at a time; a single one is left as it is.
  induction count using Nat.twoStepInduction with
  | zero => simp
  | one =>
    rw [List.replicate_one, List.singleton_append, doubleQuotePairs]
    · rfl
    · grind
  | more count ih =>
    rw [show 4 * ((count + 2) / 2) + (count + 2) % 2 = 4 * (count / 2) + count % 2 + 4 by omega]
    simp only [List.replicate_succ, List.cons_append, doubleQuotePairs, ih]

/-- No character but quotes is gained or lost in doubling. -/
theorem countP_doubleQuotePairs {select : Char → Bool} (noQuote : select '\x27' = false)
    (text : List Char) : (doubleQuotePairs text).countP select = text.countP select := by
  fun_induction doubleQuotePairs text <;> grind

/-- What closes a literal opens nothing in it. -/
theorem head_doubleQuotePairs {rest : List Char} {c : Char} (noQuote : c ≠ '\x27') :
    (doubleQuotePairs rest ++ closing).head? = some c ↔ rest.head? = some c := by
  fun_cases doubleQuotePairs rest <;> simp [closing, noQuote.symm]

/-- Nothing is read in front of what closes the literal. -/
theorem readIndented_closing : readIndented rules closing = some [] := by
  simp [closing, readIndented]

/-- Runs of quotes in front of something else are as long as each other. -/
theorem replicate_append_inj {τ : Type} {x : τ} {n m : Nat} {xs ys : List τ}
    (same : List.replicate n x ++ xs = List.replicate m x ++ ys) (apart : xs.head? ≠ some x)
    (apart' : ys.head? ≠ some x) : n = m ∧ xs = ys := by
  -- Behind the shorter run the other text would go on with the same character.
  induction n generalizing m with
  | zero =>
    cases m with
    | zero => exact ⟨rfl, same⟩
    | succ m =>
      rw [List.replicate_zero, List.nil_append] at same
      simp [same, List.replicate_succ] at apart
  | succ n ih =>
    cases m with
    | zero =>
      rw [List.replicate_zero, List.nil_append] at same
      simp [← same, List.replicate_succ] at apart'
    | succ m =>
      obtain ⟨rfl, rfl⟩ := ih (List.cons.inj same).2
      exact ⟨rfl, rfl⟩

/-- Behind two quotes nothing comes for a backslash. -/
theorem countP_of_backslash {tail : List Char} {pieces : List Piece}
    (found : readIndented rules ('\x27' :: '\x27' :: '\\' :: (doubleQuotePairs tail ++ closing))
      = some pieces) :
    (pieces.map Prod.fst).countP (· != '\x27') ≤ tail.countP (· != '\x27') := by
  -- The backslash is read with the character behind it.
  obtain ⟨d, text, behind⟩ : ∃ d text, doubleQuotePairs tail ++ closing = d :: text :=
    List.exists_cons_of_ne_nil (by simp [closing])
  simp only [behind, readIndented, Option.map_eq_some_iff] at found
  obtain ⟨pieces, found, rfl⟩ := found
  have fewer := (count_readIndented rules found).2
  have kept := congrArg (List.countP (· != '\x27')) behind
  rw [List.countP_append, countP_doubleQuotePairs (by decide)] at kept
  simp [closing, List.countP_cons] at kept fewer ⊢
  have escape : d = '\x27' → escapedChar d = '\x27' := by rintro rfl; rfl
  grind

/-- Behind pairs that are read, one quote that is left is a run of its own. -/
theorem run_read_one {count triples : Nat} {rest : List Char} {behind : List Piece}
    (whole : 4 * (count / 2) + count % 2 = 3 * triples + 1) (apart : rest.head? ≠ some '\x27')
    (found : readIndented rules ('\x27' :: (doubleQuotePairs rest ++ closing)) = some behind)
    (same : List.replicate (2 * triples) '\x27' ++ behind.map Prod.fst =
      List.replicate count '\x27' ++ rest) :
    count = 1 ∧ rest ≠ [] ∧ ∃ behind,
      readIndented rules (doubleQuotePairs rest ++ closing) = some behind ∧
        behind.map Prod.fst = rest := by
  cases rest with
  | nil =>
    -- The quote that is left would open an escape with those that close the literal.
    simp [doubleQuotePairs, closing, readIndented] at found
  | cons c tail =>
    have other : c ≠ '\x27' := mt (congrArg some) apart
    rw [readIndented_quote, Option.map_eq_some_iff] at found
    · obtain ⟨behind, found, rfl⟩ := found
      rw [List.map_cons, ← List.singleton_append, ← List.append_assoc, ← List.replicate_succ']
        at same
      rw [doubleQuotePairs_other other] at found ⊢
      have first := head_readIndented rules other found
      obtain ⟨lengths, tails⟩ := replicate_append_inj same (by simpa [first] using other) apart
      exact ⟨by omega, List.cons_ne_nil c tail, behind, found, tails⟩
    · rw [doubleQuotePairs_other other]
      simpa using other

/-- Two quotes that are left open an escape with what is behind the run. -/
theorem run_read_two {count triples : Nat} {rest : List Char} {behind : List Piece}
    (whole : 4 * (count / 2) + count % 2 = 3 * triples + 2) (apart : rest.head? ≠ some '\x27')
    (found : readIndented rules ('\x27' :: '\x27' :: (doubleQuotePairs rest ++ closing)) =
      some behind)
    (same : List.replicate (2 * triples) '\x27' ++ behind.map Prod.fst =
      List.replicate count '\x27' ++ rest) :
    count = 4 ∧ ∃ tail behind, rest = '$' :: tail ∧
      readIndented rules (doubleQuotePairs tail ++ closing) = some behind ∧
        behind.map Prod.fst = tail := by
  cases rest with
  | nil => simp [doubleQuotePairs, closing, readIndented] at found
  | cons c tail =>
    have other : c ≠ '\x27' := mt (congrArg some) apart
    rw [doubleQuotePairs_other other] at found
    by_cases dollar : c = '$'
    · subst dollar
      simp only [List.cons_append, readIndented, Option.map_eq_some_iff] at found
      obtain ⟨behind, found, rfl⟩ := found
      obtain ⟨lengths, tails⟩ := replicate_append_inj same (by simp) apart
      exact ⟨by omega, tail, behind, rfl, found, (List.cons.inj tails).2⟩
    by_cases backslash : c = '\\'
    · -- The backslash is lost, and the texts differ in what is not a quote.
      exfalso
      subst backslash
      have fewer := countP_of_backslash rules found
      have equal := congrArg (List.countP (· != '\x27')) same
      simp [List.countP_replicate, -List.countP_map] at equal
      omega
    · simp only [List.cons_append] at found
      rw [readIndented] at found <;> grind

/-- A run of quotes is read back where it is a single one, or one of four in front of a dollar
sign. -/
theorem run_read {count : Nat} (positive : 0 < count) {rest : List Char} {pieces : List Piece}
    (apart : rest.head? ≠ some '\x27')
    (found : readIndented rules (doubleQuotePairs (List.replicate count '\x27' ++ rest) ++ closing)
      = some pieces)
    (same : pieces.map Prod.fst = List.replicate count '\x27' ++ rest) :
    (count = 1 ∧ rest ≠ [] ∧ ∃ behind,
        readIndented rules (doubleQuotePairs rest ++ closing) = some behind ∧
          behind.map Prod.fst = rest) ∨
      (count = 4 ∧ ∃ tail behind, rest = '$' :: tail ∧
        readIndented rules (doubleQuotePairs tail ++ closing) = some behind ∧
          behind.map Prod.fst = tail) := by
  rw [doubleQuotePairs_replicate count apart] at found
  -- Three quotes each are read as two, and up to two are left.
  obtain ⟨triples, left, whole, few⟩ : ∃ triples left,
      4 * (count / 2) + count % 2 = 3 * triples + left ∧ left < 3 :=
    ⟨_, _, (Nat.div_add_mod _ 3).symm, Nat.mod_lt _ (by omega)⟩
  rw [whole, List.replicate_add, List.append_assoc, List.append_assoc,
    readIndented_triples, Option.map_eq_some_iff] at found
  obtain ⟨behind, found, rfl⟩ := found
  rw [List.map_append, List.map_replicate] at same
  match left, few with
  | 0, _ =>
    -- Two quotes for three are fewer than those of the run.
    exfalso
    have lengths : 2 * triples = count := by
      refine (replicate_append_inj same ?_ apart).1
      cases rest with
      | nil =>
        rw [List.replicate_zero, List.nil_append, doubleQuotePairs, List.nil_append,
          readIndented_closing, Option.some_inj] at found
        simp [← found]
      | cons c tail =>
        have other : c ≠ '\x27' := mt (congrArg some) apart
        rw [List.replicate_zero, List.nil_append, doubleQuotePairs_other other] at found
        rw [head_readIndented rules other found]
        simpa using other
    omega
  | 1, _ => exact .inl (run_read_one rules whole apart found same)
  | 2, _ => exact .inr (run_read_two rules whole apart found same)

/-- Other characters do not matter to the quotes. -/
theorem quotesApart_other {c : Char} (noQuote : c ≠ '\x27') (noDollar : c ≠ '$')
    (rest : List Char) : QuotesApart rules (c :: rest) ↔ QuotesApart rules rest := by
  rw [QuotesApart] <;> grind

/-- Neither does a dollar sign that is read as itself. -/
theorem quotesApart_dollar {rest : List Char} (noBrace : rest.head? ≠ some '\x7b')
    (noDollar : rest.head? ≠ some '$') :
    QuotesApart rules ('$' :: rest) ↔ QuotesApart rules rest := by
  rw [QuotesApart] <;> grind

/-- A quote stands apart in front of any character but another quote. -/
theorem quotesApart_quote {rest : List Char} (nonempty : rest ≠ [])
    (apart : rest.head? ≠ some '\x27') :
    QuotesApart rules ('\x27' :: rest) ↔ QuotesApart rules rest := by
  rw [QuotesApart] <;> grind

/-- A text begins with a run of quotes, or with none. -/
theorem exists_run (text : List Char) : ∃ count rest,
    text = List.replicate count '\x27' ++ rest ∧ rest.head? ≠ some '\x27' := by
  -- By induction on the text.
  induction text with
  | nil => exact ⟨0, [], rfl, by simp⟩
  | cons c text ih =>
    by_cases quote : c = '\x27'
    · obtain ⟨count, rest, rfl, apart⟩ := ih
      exact ⟨count + 1, rest, by rw [quote]; rfl, apart⟩
    · exact ⟨0, c :: text, rfl, by simpa using quote⟩

/-- Up to some length only texts with their quotes apart are read back. -/
def ApartUpTo (size : Nat) : Prop :=
  ∀ text pieces, text.length ≤ size →
    readIndented rules (doubleQuotePairs text ++ closing) = some pieces →
      pieces.map Prod.fst = text → QuotesApart rules text

variable {rules}

/-- Behind a dollar sign the quotes are apart as in what is read behind it. -/
theorem ApartUpTo.dollar {tail : List Char} {pieces : List Piece}
    (apart : ApartUpTo rules tail.length)
    (found : readIndented rules ('$' :: (doubleQuotePairs tail ++ closing)) = some pieces)
    (same : pieces.map Prod.fst = '$' :: tail) : QuotesApart rules ('$' :: tail) := by
  by_cases brace : tail.head? = some '\x7b'
  · -- An interpolation is not read.
    obtain ⟨text, rfl⟩ := List.head?_eq_some_iff.mp brace
    rw [doubleQuotePairs_other (by decide), List.cons_append, readIndented] at found
    cases found
  by_cases pair : tail.head? = some '$'
  · -- The dollar signs are read together, or one by one.
    obtain ⟨text, rfl⟩ := List.head?_eq_some_iff.mp pair
    rw [doubleQuotePairs_other (by decide), List.cons_append, readIndented] at found
    rw [QuotesApart]
    split at found
    · next pairs =>
      rw [Option.map_eq_some_iff] at found
      obtain ⟨behind, found, rfl⟩ := found
      rw [if_pos pairs]
      exact apart text behind (Nat.le_succ _) found (List.cons.inj (List.cons.inj same).2).2
    · next single =>
      rw [Option.map_eq_some_iff] at found
      obtain ⟨behind, found, rfl⟩ := found
      rw [if_neg single]
      rw [← List.cons_append, ← doubleQuotePairs_other (by decide)] at found
      exact apart _ behind (Nat.le_refl _) found (List.cons.inj same).2
  · rw [readIndented_dollar rules (by rwa [Ne, head_doubleQuotePairs (by decide)])
      (by rwa [Ne, head_doubleQuotePairs (by decide)]), Option.map_eq_some_iff] at found
    obtain ⟨behind, found, rfl⟩ := found
    rw [quotesApart_dollar rules brace pair]
    exact apart tail behind (Nat.le_refl _) found (List.cons.inj same).2

/-- So they are behind any character but a quote. -/
theorem ApartUpTo.other {c : Char} (other : c ≠ '\x27') {tail : List Char} {pieces : List Piece}
    (apart : ApartUpTo rules tail.length)
    (found : readIndented rules (doubleQuotePairs (c :: tail) ++ closing) = some pieces)
    (same : pieces.map Prod.fst = c :: tail) : QuotesApart rules (c :: tail) := by
  rw [doubleQuotePairs_other other, List.cons_append] at found
  -- A dollar sign may be read together with what follows it.
  by_cases dollar : c = '$'
  · subst dollar
    exact apart.dollar found same
  · rw [readIndented_other rules other dollar, Option.map_eq_some_iff] at found
    obtain ⟨behind, found, rfl⟩ := found
    rw [quotesApart_other rules other dollar]
    exact apart tail behind (Nat.le_refl _) found (List.cons.inj same).2

/-- Whatever the length, by induction on it. -/
theorem apartUpTo (size : Nat) : ApartUpTo rules size := by
  induction size with
  | zero =>
    intro text pieces short _ _
    rw [List.eq_nil_of_length_eq_zero (Nat.le_zero.mp short)]
    trivial
  | succ size ih =>
    intro text pieces short found same
    have within {tail : List Char} (shorter : tail.length ≤ size) :
        ApartUpTo rules tail.length :=
      fun text pieces short => ih text pieces (Nat.le_trans short shorter)
    obtain ⟨count, rest, rfl, apart⟩ := exists_run text
    rcases Nat.eq_zero_or_pos count with rfl | positive
    · -- The text does not begin with a quote.
      rw [List.replicate_zero, List.nil_append] at found same short ⊢
      cases rest with
      | nil => trivial
      | cons c tail =>
        have other : c ≠ '\x27' := mt (congrArg some) apart
        exact (within (Nat.le_of_succ_le_succ short)).other other found same
    · -- Or it begins with one quote, or with four and a dollar sign.
      rcases run_read rules positive apart found same with
        ⟨rfl, nonempty, behind, found, same⟩ | ⟨rfl, tail, behind, rfl, found, same⟩
      · rw [List.replicate_one, List.singleton_append, quotesApart_quote rules nonempty apart]
        exact ih rest behind (by simp at short; omega) found same
      · rw [show List.replicate 4 '\x27' ++ '$' :: tail =
          '\x27' :: '\x27' :: '\x27' :: '\x27' :: '$' :: tail from rfl, QuotesApart]
        exact ih tail behind (by simp at short; omega) found same

/-- Only texts with their quotes apart are read back. -/
theorem quotesApart_of_readIndented {text : List Char} {pieces : List Piece}
    (found : readIndented rules (doubleQuotePairs text ++ closing) = some pieces)
    (same : pieces.map Prod.fst = text) : QuotesApart rules text :=
  apartUpTo text.length text pieces (Nat.le_refl _) found same

variable (rules)

/-- Texts with their quotes apart are read back, with only quotes and dollar signs from escapes. -/
theorem readIndented_of_quotesApart {text : List Char} (apart : QuotesApart rules text) :
    ∃ pieces, readIndented rules (doubleQuotePairs text ++ closing) = some pieces ∧
      pieces.map Prod.fst = text ∧
      ∀ piece ∈ pieces, piece.2 = true → piece.1 = '\x27' ∨ piece.1 = '$' := by
  fun_induction QuotesApart rules text with
  | case1 rest ih =>
    -- Four quotes become eight: six of them are read as four, and two escape the dollar sign.
    obtain ⟨pieces, found, same, marked⟩ := ih apart
    refine ⟨('\x27', true) :: ('\x27', true) :: ('\x27', true) :: ('\x27', true) :: ('$', true) ::
      pieces, by simp [doubleQuotePairs, readIndented, found], by simp [same], ?_⟩
    simpa using marked
  | case2 | case3 | case4 => exact apart.elim
  | case5 rest pairs ih =>
    -- Two dollar signs are read together.
    obtain ⟨pieces, found, same, marked⟩ := ih apart
    refine ⟨('$', false) :: ('$', false) :: pieces,
      by simp [doubleQuotePairs, readIndented, pairs, found], by simp [same], ?_⟩
    simpa using marked
  | case6 rest single ih =>
    -- Or the first one alone.
    obtain ⟨pieces, found, same, marked⟩ := ih apart
    rw [doubleQuotePairs_other (by decide), List.cons_append] at found
    refine ⟨('$', false) :: pieces,
      by simp [doubleQuotePairs, readIndented, single, found], by simp [same], ?_⟩
    simpa using marked
  | case7 c rest noFour noPair noLast noBrace noDollar ih =>
    obtain ⟨pieces, found, same, marked⟩ := ih apart
    refine ⟨(c, false) :: pieces, ?_, by simp [same], by simpa using marked⟩
    by_cases quote : c = '\x27'
    · -- Some other character stands behind the quote.
      subst quote
      obtain ⟨d, tail, rfl⟩ := List.exists_cons_of_ne_nil (noLast rfl)
      have other : d ≠ '\x27' := by rintro rfl; exact noPair tail rfl rfl
      rw [doubleQuotePairs, doubleQuotePairs_other other, List.cons_append, List.cons_append,
        readIndented_quote]
      · rw [← List.cons_append, ← doubleQuotePairs_other other, found]
        rfl
      · simpa using other
      · grind
    · rw [doubleQuotePairs_other quote, List.cons_append]
      by_cases dollar : c = '$'
      · subst dollar
        rw [readIndented_dollar, found]
        · rfl
        · rw [Ne, head_doubleQuotePairs (by decide)]
          exact head?_ne_of_forall fun tail => noBrace tail rfl
        · rw [Ne, head_doubleQuotePairs (by decide)]
          exact head?_ne_of_forall fun tail => noDollar tail rfl
      · rw [readIndented_other rules quote dollar, found]
        rfl
  | case8 => exact ⟨[], readIndented_closing rules, rfl, by simp⟩

end indented

section stripping

variable (rules : LexicalRules)

/-- A text in which some spaces of another one are missing, and nothing else. -/
def Shortened (short text : List Piece) : Prop :=
  short.Sublist text ∧ short.countP (·.1 != ' ') = text.countP (·.1 != ' ')

/-- A text in which nothing is missing is shortened. -/
theorem Shortened.refl (text : List Piece) : Shortened text text := ⟨List.Sublist.refl text, rfl⟩

/-- Texts are shortened part by part. -/
theorem Shortened.append {short text short' text' : List Piece} (front : Shortened short text)
    (behind : Shortened short' text') : Shortened (short ++ short') (text ++ text') :=
  ⟨front.1.append behind.1, by rw [List.countP_append, List.countP_append, front.2, behind.2]⟩

/-- What has as many spaces is not shortened. -/
theorem Shortened.eq {short text : List Piece} (shortened : Shortened short text)
    (spaces : (short.map Prod.fst).count ' ' = (text.map Prod.fst).count ' ') : short = text := by
  -- The spaces and the other characters together are all characters.
  refine shortened.1.eq_of_length ?_
  rw [List.count_eq_countP, List.count_eq_countP, List.countP_map, List.countP_map] at spaces
  rw [List.length_eq_countP_add_countP (·.1 == ' '),
    List.length_eq_countP_add_countP (l := text) (·.1 == ' ')]
  have others := shortened.2
  simp only [Function.comp_def, bne] at spaces others
  grind

/-- A shortened text falls into what the parts of the text are shortened to. -/
theorem Shortened.exists_append {short text text' : List Piece}
    (shortened : Shortened short (text ++ text')) :
    ∃ front back, short = front ++ back ∧ Shortened front text ∧ Shortened back text' := by
  obtain ⟨within, others⟩ := shortened
  obtain ⟨front, back, rfl, front_le, back_le⟩ := List.sublist_append_iff.mp within
  -- As a whole no other characters are lost than spaces, and so it is in both parts.
  have fewer : front.countP (·.1 != ' ') ≤ text.countP (·.1 != ' ') := front_le.countP_le
  have fewer' : back.countP (·.1 != ' ') ≤ text'.countP (·.1 != ' ') := back_le.countP_le
  rw [List.countP_append, List.countP_append] at others
  exact ⟨front, back, rfl, ⟨front_le, by omega⟩, ⟨back_le, by omega⟩⟩

/-- A text without spaces is not shortened. -/
theorem Shortened.eq_of_notMem {short text : List Piece} (shortened : Shortened short text)
    (apart : ' ' ∉ text.map Prod.fst) : short = text := by
  have fewer := (shortened.1.map Prod.fst).count_le ' '
  rw [List.count_eq_zero.mpr apart] at fewer
  exact shortened.eq (by rw [List.count_eq_zero.mpr apart]; omega)

/-- Within the indentation of a line there are only spaces. -/
theorem eq_of_mem_take {line : List Piece} {size : Nat} (inside : size ≤ indentation line) :
    ∀ piece ∈ line.take size, piece = (' ', false) := by
  intro piece among
  -- The indentation is in front of the first other character.
  rw [← List.takeWhile_append_dropWhile (p := isSpace) (l := line),
    List.take_append_of_le_length inside] at among
  have space := List.all_eq_true.mp List.all_takeWhile piece (List.mem_of_mem_take among)
  simpa [isSpace] using space

/-- A line without some of the spaces in front is shortened. -/
theorem shortened_drop {line : List Piece} {size : Nat} (inside : size ≤ indentation line) :
    Shortened (line.drop size) line := by
  -- What is dropped lies within the indentation, where all are spaces.
  refine ⟨List.drop_sublist size line, ?_⟩
  have spaces : (line.take size).countP (·.1 != ' ') = 0 := by
    rw [List.countP_eq_zero]
    intro piece among
    simp [eq_of_mem_take inside piece among]
  conv_rhs => rw [← List.take_append_drop size line, List.countP_append, spaces, Nat.zero_add]

/-- A line is no shorter than its indentation. -/
theorem indentation_le (line : List Piece) : indentation line ≤ line.length :=
  (List.takeWhile_sublist isSpace).length_le

/-- A line loses nothing behind its indentation. -/
theorem lost_le (common : Option Nat) (line : List Piece) :
    lost common line ≤ indentation line := by
  -- Either all of the indentation is lost, or at most as much as is common.
  cases common with
  | none => exact Nat.le_refl _
  | some n => exact Nat.min_le_right n _

/-- So what is stripped from a line are spaces. -/
theorem shortened_stripLine (common : Option Nat) (line : List Piece) :
    Shortened (stripLine common line) line :=
  shortened_drop (lost_le common line)

/-- A line stays when it loses no spaces. -/
theorem stripLine_eq_iff {common : Option Nat} {line : List Piece} :
    stripLine common line = line ↔ lost common line = 0 := by
  -- What is lost is as much as the line is shorter.
  constructor
  · intro same
    have lengths := congrArg List.length same
    have inside := Nat.le_trans (lost_le common line) (indentation_le line)
    rw [stripLine, List.length_drop] at lengths
    omega
  · intro none
    rw [stripLine, none, List.drop_zero]

/-- A blank line has only spaces. -/
theorem shortened_blank {line : List Piece} (blank : line.all isSpace) : Shortened [] line := by
  refine ⟨List.nil_sublist line, ?_⟩
  -- What is lost of a blank line is all of it.
  rw [List.countP_nil, eq_comm, List.countP_eq_zero]
  intro piece inside
  have space := List.all_eq_true.mp blank piece inside
  simp [isSpace] at space
  simp [space]

/-- A text with lines keeps some. -/
theorem stripLines_ne_nil (common : Option Nat) {lines : List (List Piece)} (some : lines ≠ []) :
    stripLines rules common lines ≠ [] := by
  fun_cases stripLines rules common lines <;> simp at some ⊢

/-- The lines of a text lose only spaces. -/
theorem shortened_stripLines (common : Option Nat) (lines : List (List Piece)) :
    Shortened ([('\n', false)].intercalate (stripLines rules common lines))
      ([('\n', false)].intercalate lines) := by
  -- Line by line; a blank last line may be dropped as a whole.
  fun_induction stripLines rules common lines with
  | case1 => exact Shortened.refl _
  | case2 last =>
    rw [List.intercalate_singleton, List.intercalate_singleton]
    split
    · next dropped =>
      rw [Bool.and_eq_true] at dropped
      exact shortened_blank dropped.2
    · exact shortened_stripLine common last
  | case3 line rest notLast ih =>
    rw [List.intercalate_cons_of_ne_nil (stripLines_ne_nil rules common notLast),
      List.intercalate_cons_of_ne_nil notLast]
    exact ((shortened_stripLine common line).append (Shortened.refl _)).append ih

/-- So does a text. -/
theorem shortened_strip (pieces : List Piece) : Shortened (strip rules pieces) pieces := by
  have shortened := shortened_stripLines rules
    (commonIndentation (pieces.splitOn ('\n', false))) (pieces.splitOn ('\n', false))
  rwa [List.intercalate_splitOn] at shortened

/-- No line break comes in. -/
theorem notMem_stripLines {common : Option Nat} {lines : List (List Piece)}
    (absent : ∀ line ∈ lines, ('\n', false) ∉ line) :
    ∀ line ∈ stripLines rules common lines, ('\n', false) ∉ line := by
  -- The cases are those of the stripping; only the last line is treated in another way.
  fun_induction stripLines rules common lines with
  | case1 => exact absent
  | case2 last =>
    intro line inside
    rw [List.mem_singleton] at inside
    subst inside
    split
    · simp
    · exact fun among => absent last List.mem_cons_self (List.mem_of_mem_drop among)
  | case3 first rest notLast ih =>
    intro line inside
    rcases List.mem_cons.mp inside with rfl | inside
    · exact fun among => absent first List.mem_cons_self (List.mem_of_mem_drop among)
    · exact ih (fun line among => absent line (List.mem_cons_of_mem first among)) line inside

/-- The lines stay when each of them does, and the last one is not dropped. -/
theorem stripLines_eq_iff {common : Option Nat} {lines : List (List Piece)} :
    stripLines rules common lines = lines ↔
      (∀ line ∈ lines, lost common line = 0) ∧ (rules.dropsLastLine = true →
        ∀ last, lines.getLast? = some last → last.all isSpace = true → last = []) := by
  -- Line by line, the last one apart.
  fun_induction stripLines rules common lines with
  | case1 => simp
  | case2 last =>
    simp only [List.mem_singleton, forall_eq, List.getLast?_singleton, Option.some.injEq,
      forall_eq', List.cons.injEq, and_true]
    split
    · next dropped =>
      rw [Bool.and_eq_true] at dropped
      constructor
      · rintro rfl
        exact ⟨Nat.le_zero.mp (lost_le common []), fun _ _ => rfl⟩
      · rintro ⟨_, empty⟩
        exact (empty dropped.1 dropped.2).symm
    · next kept =>
      rw [Bool.and_eq_true] at kept
      rw [stripLine_eq_iff]
      exact ⟨fun same => ⟨same, fun drops blank => absurd ⟨drops, blank⟩ kept⟩, And.left⟩
  | case3 line rest notLast ih =>
    rw [List.cons.injEq, stripLine_eq_iff, ih, List.forall_mem_cons, and_assoc,
      List.getLast?_cons_of_ne_nil notLast]

/-- A text stays when its lines do. -/
theorem strip_eq_iff {pieces : List Piece} : strip rules pieces = pieces ↔
    stripLines rules (commonIndentation (pieces.splitOn ('\n', false)))
      (pieces.splitOn ('\n', false)) = pieces.splitOn ('\n', false) := by
  -- The lines can be told from the text, since no line has a break in it.
  constructor
  · intro same
    have lines := congrArg (List.splitOn ('\n', false)) same
    rwa [strip, List.splitOn_intercalate] at lines
    · exact notMem_stripLines rules fun line inside => (Delimited.mem_splitOn inside).1
    · exact stripLines_ne_nil rules _ (List.splitOn_ne_nil _ _)
  · intro same
    rw [strip, same, List.intercalate_splitOn]

/-- A line is not indented when it does not begin with a space. -/
theorem indentation_eq_zero {line : List Piece} :
    indentation line = 0 ↔ ∀ piece rest, line = piece :: rest → isSpace piece = false := by
  -- Only the first character matters.
  cases line with
  | nil => simp [indentation]
  | cons piece rest => cases space : isSpace piece <;> simp [indentation, space]

/-- No line loses a space when one of them begins with something else, or all are empty. -/
theorem lost_eq_zero_iff {lines : List (List Piece)} :
    (∀ line ∈ lines, lost (commonIndentation lines) line = 0) ↔
      (∃ line ∈ lines, ∃ piece rest, line = piece :: rest ∧ isSpace piece = false) ∨
        ∀ line ∈ lines, line = [] := by
  cases common : commonIndentation lines with
  | none =>
    -- All lines are blank.
    rw [commonIndentation, List.min?_eq_none_iff, List.map_eq_nil_iff, List.filter_eq_nil_iff]
      at common
    have blank (line) (inside : line ∈ lines) (piece rest) (first : line = piece :: rest) :
        isSpace piece = true := by
      have all := common line inside
      simp [first] at all
      exact all.1
    constructor
    · intro kept
      refine .inr fun line inside => ?_
      -- A blank line loses all its spaces, so it has none.
      cases line with
      | nil => rfl
      | cons piece rest =>
        have space := blank _ inside piece rest rfl
        rw [indentation_eq_zero.mp (kept _ inside) piece rest rfl] at space
        cases space
    · rintro (⟨line, inside, piece, rest, first, other⟩ | empty) line' inside'
      · rw [blank line inside piece rest first] at other
        cases other
      · rw [empty line' inside']
        rfl
  | some least =>
    -- Some line that is not blank has the common indentation.
    rw [commonIndentation, List.min?_eq_some_iff] at common
    obtain ⟨attained, least_le⟩ := common
    obtain ⟨line, among, rfl⟩ := List.mem_map.mp attained
    rw [List.mem_filter] at among
    constructor
    · intro kept
      -- The least indented line loses its whole indentation.
      have none := kept line among.1
      rw [lost, Nat.min_self, indentation_eq_zero] at none
      cases line with
      | nil => simp at among
      | cons piece rest => exact .inl ⟨_, among.1, piece, rest, rfl, none piece rest rfl⟩
    · rintro (⟨line', inside, piece, rest, rfl, other⟩ | empty)
      · have zero : indentation (piece :: rest) = 0 := by simp [indentation, other]
        have none := least_le _ (List.mem_map_of_mem
          (List.mem_filter.mpr ⟨inside, by simp [other]⟩))
        intro line' _
        rw [lost]
        omega
      · rw [empty line among.1] at among
        simp at among

/-- What a line loses are spaces in front. -/
theorem exists_replicate_stripLine (common : Option Nat) (line : List Piece) :
    ∃ n, line = List.replicate n (' ', false) ++ stripLine common line := by
  refine ⟨lost common line, ?_⟩
  -- What is lost is a part of the indentation.
  have inside := lost_le common line
  have spaces : line.take (lost common line) = List.replicate (lost common line) (' ', false) :=
    List.eq_replicate_iff.mpr
      ⟨List.length_take_of_le (Nat.le_trans inside (indentation_le line)), eq_of_mem_take inside⟩
  rw [← spaces, stripLine, List.take_append_drop]

/-- The lines in front are stripped one by one. -/
theorem stripLines_append (common : Option Nat) (front : List (List Piece))
    {back : List (List Piece)} (more : back ≠ []) :
    stripLines rules common (front ++ back) =
      front.map (stripLine common) ++ stripLines rules common back := by
  -- By induction on the lines in front, none of which is the last.
  induction front with
  | nil => rfl
  | cons line front ih =>
    rw [List.cons_append, stripLines, ih]
    · rfl
    · simp [more]

/-- Lines in front lose spaces in front, and the text behind them some of its spaces. -/
theorem strip_lines {front : List (List Piece)} (whole : ∀ line ∈ front, ('\n', false) ∉ line)
    (rest : List Piece) : ∃ lines behind, Shortened behind rest ∧
      strip rules (front.flatMap (· ++ [('\n', false)]) ++ rest) =
        lines.flatMap (· ++ [('\n', false)]) ++ behind ∧
      List.Forall₂ (fun short line => ∃ n, line = List.replicate n (' ', false) ++ short)
        lines front := by
  -- The text is cut behind each of the lines in front.
  have split : (front.flatMap (· ++ [('\n', false)]) ++ rest).splitOn ('\n', false) =
      front ++ rest.splitOn ('\n', false) := by
    induction front with
    | nil => rfl
    | cons line front ih =>
      rw [List.flatMap_cons, List.append_assoc, List.append_assoc, List.singleton_append,
        List.splitOn_append_cons_self_of_not_mem (whole line List.mem_cons_self),
        ih fun line inside => whole line (List.mem_cons_of_mem _ inside), List.cons_append]
  -- And it is put together again in the same places.
  have joined (lines : List (List Piece)) {back : List (List Piece)} (more : back ≠ []) :
      [('\n', false)].intercalate (lines ++ back) =
        lines.flatMap (· ++ [('\n', false)]) ++ [('\n', false)].intercalate back := by
    induction lines with
    | nil => rfl
    | cons line lines ih =>
      rw [List.cons_append, List.intercalate_cons_of_ne_nil (by simp [more]), ih]
      simp
  have more := List.splitOn_ne_nil ('\n', false) rest
  rw [strip, split]
  generalize commonIndentation (front ++ rest.splitOn ('\n', false)) = common
  -- The lines behind are shortened as a text of their own.
  have shortened := shortened_stripLines rules common (rest.splitOn ('\n', false))
  rw [List.intercalate_splitOn] at shortened
  refine ⟨front.map (stripLine common), _, shortened, ?_, ?_⟩
  · rw [stripLines_append rules common front more,
      joined _ (stripLines_ne_nil rules common more)]
  · rw [List.forall₂_map_left_iff]
    exact List.forall₂_same.mpr fun line _ => exists_replicate_stripLine common line

/-- A text stays when a line of it begins with something else than a space, and its last line
ends. -/
theorem strip_of_unindented {text front back : List Piece} {piece : Piece}
    (split : text = front ++ ('\n', false) :: piece :: back) (other : isSpace piece = false)
    (inLine : piece ≠ ('\n', false)) (ended : text.getLast? = some ('\n', false)) :
    strip rules text = text := by
  rw [strip_eq_iff, stripLines_eq_iff, lost_eq_zero_iff]
  constructor
  · -- The line of the piece is not indented.
    obtain ⟨line, others, pieces⟩ :=
      List.exists_cons_of_ne_nil (List.splitOn_ne_nil ('\n', false) back)
    refine .inl ⟨piece :: line, ?_, piece, line, rfl, other⟩
    rw [split, List.splitOn_append_cons_self, List.splitOn_cons_eq_if_modifyHead, pieces,
      if_neg (by simpa using inLine)]
    exact List.mem_append_right _ List.mem_cons_self
  · intro _ last final _
    obtain ⟨begun, whole⟩ := List.getLast?_eq_some_iff.mp ended
    rw [whole, List.splitOn_append_cons_self, List.splitOn_nil, List.getLast?_concat,
      Option.some_inj] at final
    exact final.symm

end stripping

/-! ### Interpolations -/

/-- A character of a path of attributes. -/
def isAttrChar (c : Char) : Bool := c.isAlphanum || c == '_' || c == '-' || c == '.'

/-- A character of a path of the store. -/
def isStoreChar (c : Char) : Bool :=
  c.isAlphanum || c ∈ ['+', '-', '.', '_', '?', '=', '/']

/-- What the paths of attributes are interpolated as: paths of the store. -/
structure Scope where
  value : List Char → List Char
  path : ∀ name, ∀ c ∈ value name, isStoreChar c = true

section templates

variable (rules : LexicalRules) (scope : Scope)

/-- Read an indented literal behind its opening, up to the two quotes that close it at the end of
the text. What is interpolated is taken as it is, like an escape; only paths of attributes are
interpolated, of which a part may have been read. -/
def readTemplate : Option (List Char) → List Char → Option (List Piece)
  | some name, '\x7d' :: rest =>
    (readTemplate none rest).map ((scope.value name).map (·, true) ++ ·)
  | some name, c :: rest => if isAttrChar c then readTemplate (some (name ++ [c])) rest else none
  | some _, [] => none
  | none, '\x27' :: '\x27' :: '\x27' :: rest =>
    (readTemplate none rest).map fun text => ('\x27', true) :: ('\x27', true) :: text
  | none, '\x27' :: '\x27' :: '$' :: rest => (readTemplate none rest).map (('$', true) :: ·)
  | none, '\x27' :: '\x27' :: '\\' :: c :: rest =>
    (readTemplate none rest).map ((escapedChar c, true) :: ·)
  | none, ['\x27', '\x27'] => some []
  | none, '\x27' :: '\x27' :: _ => none
  | none, '$' :: '\x7b' :: rest => readTemplate (some []) rest
  | none, '$' :: '$' :: rest =>
    if rules.dollarPairs then
      (readTemplate none rest).map fun text => ('$', false) :: ('$', false) :: text
    else (readTemplate none ('$' :: rest)).map (('$', false) :: ·)
  | none, c :: rest => (readTemplate none rest).map ((c, false) :: ·)
  | none, [] => none

attribute [grind =] readTemplate

/-- The text of an indented literal in which there are interpolations. -/
def templateText : List Char → Option (List Char)
  | '\x27' :: '\x27' :: rest =>
    (readTemplate rules scope none (dropBlankFirst rest)).map fun pieces =>
      (strip rules pieces).map Prod.fst
  | _ => none

/-- A text is read as some pieces, whatever is behind it. -/
def Reads (text : List Char) (pieces : List Piece) : Prop :=
  ∀ rest, readTemplate rules scope none (text ++ rest) =
    (readTemplate rules scope none rest).map (pieces ++ ·)

end templates

/-- Nothing in a text ends the literal that it is in, is an escape or opens an interpolation. -/
def Quiet (rules : LexicalRules) (text : List Char) : Prop :=
  NoInterpolation rules text ∧ ¬ ['\x27', '\x27'] <:+: text

/-- Where no dollar sign is in front of a brace or of another one, nothing is interpolated. -/
theorem noInterpolation_of_apart {rules : LexicalRules} {text : List Char}
    (noBrace : ¬ ['$', '\x7b'] <:+: text) (noDollars : ¬ ['$', '$'] <:+: text) :
    NoInterpolation rules text := by
  have behind {pair : List Char} {c : Char} {text : List Char} (apart : ¬ pair <:+: c :: text) :
      ¬ pair <:+: text := fun inside => apart (inside.trans (List.suffix_cons c text).isInfix)
  -- The cases are those of what could be interpolated, which the two conditions rule out.
  fun_induction NoInterpolation rules text with
  | case1 text => exact noBrace ⟨[], text, rfl⟩
  | case2 text _ _ | case3 text _ _ => exact absurd ⟨[], text, rfl⟩ noDollars
  | case4 _ _ _ _ ih => exact ih (behind noBrace) (behind noDollars)
  | case5 => trivial

section reads

variable {rules : LexicalRules} {scope : Scope}

/-- Without a text nothing is read. -/
theorem Reads.nil : Reads rules scope [] [] := by
  intro rest
  simp

/-- Nothing is read in front of what closes the literal. -/
theorem readTemplate_closing : readTemplate rules scope none closing = some [] := by
  simp [closing, readTemplate]

/-- Texts behind one another are read one after the other. -/
theorem Reads.append {text text' : List Char} {pieces pieces' : List Piece}
    (front : Reads rules scope text pieces) (back : Reads rules scope text' pieces') :
    Reads rules scope (text ++ text') (pieces ++ pieces') := by
  intro rest
  rw [List.append_assoc, front, back, Option.map_map]
  exact congrArg (Option.map · _) (funext fun others => (List.append_assoc ..).symm)

/-- A character that opens nothing is read as itself. -/
theorem Reads.char {c : Char} (noQuote : c ≠ '\x27') (noDollar : c ≠ '$') :
    Reads rules scope [c] [(c, false)] := by
  intro rest
  rw [List.singleton_append, readTemplate] <;> grind

/-- So are the characters of a text. -/
theorem Reads.plain {text : List Char} (others : ∀ c ∈ text, c ≠ '\x27' ∧ c ≠ '$') :
    Reads rules scope text (text.map (·, false)) := by
  -- By induction on the text.
  induction text with
  | nil => exact Reads.nil
  | cons c text ih =>
    obtain ⟨noQuote, noDollar⟩ := others c List.mem_cons_self
    exact (Reads.char noQuote noDollar).append (ih fun d inside => others d
      (List.mem_cons_of_mem _ inside))

/-- So is a character that opens nothing with the one behind it. -/
theorem readTemplate_pair {c d : Char} (noQuotes : ¬ (c = '\x27' ∧ d = '\x27'))
    (noBrace : ¬ (c = '$' ∧ d = '\x7b')) (noDollars : ¬ (c = '$' ∧ d = '$')) (rest : List Char) :
    readTemplate rules scope none (c :: d :: rest) =
      (readTemplate rules scope none (d :: rest)).map ((c, false) :: ·) := by
  rw [readTemplate] <;> grind

/-- A text in single quotes is read as itself with them. -/
theorem Reads.quoted {text : List Char} {c : Char} (more : text ≠ [])
    (others : ∀ d ∈ text, d ≠ '\x27' ∧ d ≠ '$') (noQuote : c ≠ '\x27') (noDollar : c ≠ '$') :
    Reads rules scope ('\x27' :: (text ++ ['\x27', c]))
      (('\x27' :: (text ++ ['\x27', c])).map (·, false)) := by
  intro rest
  obtain ⟨first, text, rfl⟩ := List.exists_cons_of_ne_nil more
  have split : '\x27' :: (first :: text ++ ['\x27', c]) ++ rest =
      '\x27' :: first :: (text ++ ('\x27' :: c :: rest)) := by simp
  -- Within the quotes everything is plain.
  have inner := @Reads.plain rules scope _ others ('\x27' :: c :: rest)
  have last := @Reads.char rules scope c noQuote noDollar rest
  rw [List.cons_append] at inner
  rw [List.singleton_append] at last
  -- The first quote is not followed by another one, and neither is the last.
  rw [split, readTemplate_pair (fun both => (others first List.mem_cons_self).1 both.2)
    (fun both => absurd both.1 (by decide)) (fun both => absurd both.1 (by decide)), inner,
    readTemplate_pair (fun both => noQuote both.2) (fun both => absurd both.1 (by decide))
      (fun both => absurd both.1 (by decide)), last]
  simp [Option.map_map, Function.comp_def]

/-- The end of a line opens nothing. -/
theorem noInterpolation_concat {text : List Char} :
    NoInterpolation rules (text ++ ['\n']) ↔ NoInterpolation rules text := by
  -- The cases are those of what could be interpolated; a newline is never part of it.
  fun_induction NoInterpolation rules text with
  | case1 => simp [NoInterpolation]
  | case2 text pairs ih =>
    rw [List.cons_append, List.cons_append, NoInterpolation, if_pos pairs]
    exact ih
  | case3 text single ih =>
    rw [List.cons_append, List.cons_append, NoInterpolation, if_neg single, ← List.cons_append]
    exact ih
  | case4 c text noBrace noDollar ih =>
    -- What opens something is in front of the newline.
    have apart {d : Char} (other : d ≠ '\n') {behind : List Char}
        (next : text ++ ['\n'] = d :: behind) : ∃ front, text = d :: front := by
      cases text with
      | nil => exact absurd (List.cons.inj next).1.symm other
      | cons first front => exact ⟨front, by rw [(List.cons.inj next).1]⟩
    rw [List.cons_append, NoInterpolation]
    · exact ih
    · rintro behind dollar next
      obtain ⟨front, same⟩ := apart (by decide) next
      exact noBrace front dollar same
    · rintro behind dollar next
      obtain ⟨front, same⟩ := apart (by decide) next
      exact noDollar front dollar same
  | case5 =>
    rw [List.nil_append, NoInterpolation] <;> simp [NoInterpolation]

/-- The end of a line neither opens nor closes anything. -/
theorem quiet_concat {text : List Char} : Quiet rules (text ++ ['\n']) ↔ Quiet rules text := by
  -- Two quotes are not a newline.
  have quotes : ['\x27', '\x27'] <:+: text ++ ['\n'] ↔ ['\x27', '\x27'] <:+: text := by
    refine ⟨fun inside => ?_, fun inside => inside.trans (List.prefix_append text _).isInfix⟩
    rcases List.infix_concat_iff.mp inside with last | early
    · have ends := last.getLast (by simp)
      simp at ends
    · exact early
  rw [Quiet, Quiet, noInterpolation_concat, quotes]

/-- A text in which there is nothing else is read as itself, when its last character means nothing
to what is behind it. -/
theorem Reads.quiet {text : List Char} (quiet : Quiet rules text)
    (last : ∀ c, text.getLast? = some c → c ≠ '\x27' ∧ c ≠ '$') :
    Reads rules scope text (text.map (·, false)) := by
  obtain ⟨closed, apart⟩ := quiet
  intro rest
  -- What is apart and does not end in a special character is so without its front.
  have tail {c : Char} {text : List Char} (apart : ¬ ['\x27', '\x27'] <:+: c :: text)
      (last : ∀ d, (c :: text).getLast? = some d → d ≠ '\x27' ∧ d ≠ '$') :
      ¬ ['\x27', '\x27'] <:+: text ∧ ∀ d, text.getLast? = some d → d ≠ '\x27' ∧ d ≠ '$' := by
    refine ⟨fun inside => apart (inside.trans (List.suffix_cons c text).isInfix), fun d found => ?_⟩
    refine last d ?_
    rw [List.getLast?_cons, found]
    rfl
  -- The cases are those of what could be interpolated, all of which are read as they stand.
  fun_induction NoInterpolation rules text with
  | case1 => exact closed.elim
  | case2 text pairs ih =>
    obtain ⟨apart, last⟩ := tail apart last
    obtain ⟨apart, last⟩ := tail apart last
    rw [List.cons_append, List.cons_append, readTemplate, if_pos pairs, ih last closed apart,
      Option.map_map]
    rfl
  | case3 text single ih =>
    obtain ⟨apart, last⟩ := tail apart last
    rw [List.cons_append, List.cons_append, readTemplate, if_neg single, ← List.cons_append,
      ih last closed apart, Option.map_map]
    rfl
  | case4 c text noBrace noDollar ih =>
    obtain ⟨apart', last'⟩ := tail apart last
    -- A character is read by itself if what follows it makes no pair with it.
    have step : readTemplate rules scope none (c :: (text ++ rest)) =
        (readTemplate rules scope none (text ++ rest)).map ((c, false) :: ·) := by
      cases text with
      | nil =>
        obtain ⟨noQuote, noDollar⟩ := last c rfl
        exact Reads.char noQuote noDollar rest
      | cons d text =>
        have noQuotes : ¬ (c = '\x27' ∧ d = '\x27') := by
          rintro ⟨rfl, rfl⟩
          exact apart ⟨[], text, rfl⟩
        exact readTemplate_pair noQuotes (fun both => noBrace text both.1 (by rw [both.2]))
          (fun both => noDollar text both.1 (by rw [both.2])) (text ++ rest)
    rw [List.cons_append, step, ih last' closed apart', Option.map_map]
    rfl
  | case5 => simp

/-- The name of an interpolation is read up to its end. -/
theorem readTemplate_name {name : List Char} (plain : ∀ c ∈ name, isAttrChar c = true)
    (read rest : List Char) :
    readTemplate rules scope (some read) (name ++ '\x7d' :: rest) =
      (readTemplate rules scope none rest).map
        ((scope.value (read ++ name)).map (·, true) ++ ·) := by
  -- By induction on the name, with the part that has been read.
  induction name generalizing read with
  | nil => rw [List.nil_append, readTemplate, List.append_nil]
  | cons c name ih =>
    have attr := plain c List.mem_cons_self
    have other : c ≠ '\x7d' := by
      rintro rfl
      exact absurd attr (by decide)
    rw [List.cons_append, readTemplate, if_pos attr,
      ih fun d inside => plain d (List.mem_cons_of_mem _ inside), List.append_assoc]
    · rfl
    · exact other

/-- An interpolation is read as what it stands for. -/
theorem Reads.value {name : List Char} (plain : ∀ c ∈ name, isAttrChar c = true) :
    Reads rules scope ("$\x7b".toList ++ (name ++ ['\x7d']))
      ((scope.value name).map (·, true)) := by
  intro rest
  have opened : "$\x7b".toList ++ (name ++ ['\x7d']) ++ rest =
      '$' :: '\x7b' :: (name ++ '\x7d' :: rest) := by simp
  rw [opened, readTemplate, readTemplate_name plain, List.nil_append]

/-- A text is read as some pieces behind a part of an interpolation. -/
def ReadsIn (rules : LexicalRules) (scope : Scope) (begun : Option (List Char)) (text : List Char)
    (pieces : List Piece) : Prop :=
  ∀ rest, readTemplate rules scope begun (text ++ rest) =
    (readTemplate rules scope none rest).map (pieces ++ ·)

/-- A text is read in front of another one, and its last line ends. -/
def Divides (rules : LexicalRules) (scope : Scope) (begun : Option (List Char))
    (text rest : List Char) (pieces : List Piece) : Prop :=
  ∃ front back, ReadsIn rules scope begun text front ∧
    readTemplate rules scope none rest = some back ∧ pieces = front ++ back ∧
      ∃ escaped, front.getLast? = some ('\n', escaped)

/-- What has been read goes in front. -/
theorem Divides.step {begun begun' : Option (List Char)} {token text rest : List Char}
    {first pieces : List Piece}
    (law : ∀ others, readTemplate rules scope begun (token ++ (text ++ others)) =
      (readTemplate rules scope begun' (text ++ others)).map (first ++ ·))
    (ih : ∀ {pieces}, readTemplate rules scope begun' (text ++ rest) = some pieces →
      Divides rules scope begun' text rest pieces)
    (found : readTemplate rules scope begun (token ++ (text ++ rest)) = some pieces) :
    Divides rules scope begun (token ++ text) rest pieces := by
  rw [law, Option.map_eq_some_iff] at found
  obtain ⟨others, found, rfl⟩ := found
  -- What is behind the token falls into its parts by itself.
  obtain ⟨front, back, reads, behind, rfl, escaped, last⟩ := ih found
  refine ⟨first ++ front, back, fun others => ?_, behind, (List.append_assoc ..).symm, escaped, ?_⟩
  · rw [List.append_assoc, law, reads, Option.map_map]
    exact congrArg (Option.map · _) (funext fun pieces => (List.append_assoc ..).symm)
  · rw [List.getLast?_append, last]
    rfl

/-- The last character of a text ends its last line. -/
theorem Divides.last {token rest : List Char} {first pieces : List Piece}
    (law : ∀ others, readTemplate rules scope none (token ++ others) =
      (readTemplate rules scope none others).map (first ++ ·))
    (ends : ∃ escaped, first.getLast? = some ('\n', escaped))
    (found : readTemplate rules scope none (token ++ rest) = some pieces) :
    Divides rules scope none token rest pieces := by
  rw [law, Option.map_eq_some_iff] at found
  obtain ⟨back, behind, rfl⟩ := found
  exact ⟨first, back, law, behind, rfl, ends⟩

/-- Behind another character the last line still ends. -/
theorem exists_of_last {c : Char} {text : List Char} (last : (c :: text).getLast? = some '\n')
    (other : c ≠ '\n') : ∃ d rest, text = d :: rest ∧ text.getLast? = some '\n' := by
  -- Since the last character is another one, there is something behind.
  cases text with
  | nil => exact absurd (Option.some.inj last) other
  | cons d rest => exact ⟨d, rest, rfl, by rwa [List.getLast?_cons_cons] at last⟩

/-- Two quotes in front of anything else close the literal. -/
theorem readTemplate_closed {c : Char} (noQuote : c ≠ '\x27') (noDollar : c ≠ '$')
    (noEscape : c ≠ '\\') (rest : List Char) :
    readTemplate rules scope none ('\x27' :: '\x27' :: c :: rest) = none := by
  rw [readTemplate] <;> grind

/-- Up to some length, texts whose last line ends are read in front of what is behind them. -/
structure DividesUpTo (rules : LexicalRules) (scope : Scope) (size : Nat) : Prop where
  divides : ∀ {begun : Option (List Char)} {text rest : List Char} {pieces : List Piece},
    text.length ≤ size → text.getLast? = some '\n' →
      readTemplate rules scope begun (text ++ rest) = some pieces →
        Divides rules scope begun text rest pieces

section divides

variable {tail rest : List Char} {pieces : List Piece}

/-- What holds up to a length holds up to a smaller one. -/
theorem DividesUpTo.mono {size size' : Nat} (upTo : DividesUpTo rules scope size)
    (le : size' ≤ size) : DividesUpTo rules scope size' :=
  ⟨fun short => upTo.divides (Nat.le_trans short le)⟩

/-- The name of an interpolation goes on, or ends. -/
theorem DividesUpTo.name {c : Char} {name : List Char} (upTo : DividesUpTo rules scope tail.length)
    (last : (c :: tail).getLast? = some '\n')
    (found : readTemplate rules scope (some name) (c :: tail ++ rest) = some pieces) :
    Divides rules scope (some name) (c :: tail) rest pieces := by
  by_cases close : c = '\x7d'
  · subst close
    obtain ⟨d, tail, rfl, last⟩ := exists_of_last last (by decide)
    exact Divides.step (fun others => by rw [List.singleton_append, readTemplate])
      (upTo.divides (Nat.le_refl _) last) found
  by_cases attr : isAttrChar c = true
  · have other : c ≠ '\n' := by
      rintro rfl
      exact absurd attr (by decide)
    obtain ⟨d, tail, rfl, last⟩ := exists_of_last last other
    have law (others : List Char) : readTemplate rules scope (some name) ([c] ++ others) =
        (readTemplate rules scope (some (name ++ [c])) others).map ([] ++ ·) := by
      rw [List.singleton_append, readTemplate, if_pos attr]
      · simp
      · exact close
    exact Divides.step (fun others => law _) (upTo.divides (Nat.le_refl _) last) found
  · -- No other character stands in a name.
    rw [List.cons_append, readTemplate, if_neg attr] at found
    · cases found
    · exact close

/-- A backslash behind two quotes takes the character behind it along, which may be the last. -/
theorem DividesUpTo.backslash (upTo : DividesUpTo rules scope tail.length)
    (last : ('\\' :: tail).getLast? = some '\n')
    (found : readTemplate rules scope none ('\x27' :: '\x27' :: '\\' :: tail ++ rest) =
      some pieces) :
    Divides rules scope none ('\x27' :: '\x27' :: '\\' :: tail) rest pieces := by
  -- Whatever stands behind the backslash belongs to the escape.
  obtain ⟨d, tail, rfl, last⟩ := exists_of_last last (by decide)
  have law (others : List Char) :
      readTemplate rules scope none (['\x27', '\x27', '\\', d] ++ others) =
        (readTemplate rules scope none others).map ([(escapedChar d, true)] ++ ·) := rfl
  -- The escape is at the end of the text, or there is more.
  by_cases final : tail = []
  · subst final
    obtain rfl : d = '\n' := Option.some.inj last
    exact Divides.last law ⟨true, rfl⟩ found
  · rw [List.getLast?_cons_of_ne_nil final] at last
    exact Divides.step (fun others => law _) (upTo.divides (Nat.le_succ _) last) found

/-- Two quotes are an escape with what is behind them, or close the literal. -/
theorem DividesUpTo.escape (upTo : DividesUpTo rules scope tail.length)
    (last : ('\x27' :: tail).getLast? = some '\n')
    (found : readTemplate rules scope none ('\x27' :: '\x27' :: tail ++ rest) = some pieces) :
    Divides rules scope none ('\x27' :: '\x27' :: tail) rest pieces := by
  -- There is a character behind the two quotes, as the last one is a newline.
  obtain ⟨c, tail, rfl, last'⟩ := exists_of_last last (by decide)
  have later : DividesUpTo rules scope tail.length := upTo.mono (Nat.le_succ _)
  by_cases backslash : c = '\\'
  · subst backslash
    exact later.backslash last' found
  by_cases third : c = '\x27'
  · subst third
    obtain ⟨d, tail, rfl, last⟩ := exists_of_last last' (by decide)
    have law (others : List Char) :
        readTemplate rules scope none (['\x27', '\x27', '\x27'] ++ others) =
          (readTemplate rules scope none others).map ([('\x27', true), ('\x27', true)] ++ ·) := rfl
    exact Divides.step (fun others => law _) (later.divides (Nat.le_refl _) last) found
  by_cases dollar : c = '$'
  · subst dollar
    obtain ⟨d, tail, rfl, last⟩ := exists_of_last last' (by decide)
    have law (others : List Char) :
        readTemplate rules scope none (['\x27', '\x27', '$'] ++ others) =
          (readTemplate rules scope none others).map ([('$', true)] ++ ·) := rfl
    exact Divides.step (fun others => law _) (later.divides (Nat.le_refl _) last) found
  · -- With anything else the literal is closed, and then nothing could have been read.
    rw [List.cons_append, List.cons_append, List.cons_append,
      readTemplate_closed third dollar backslash] at found
    cases found

/-- A quote that no other one follows stands for itself. -/
theorem DividesUpTo.quote (upTo : DividesUpTo rules scope tail.length)
    (last : ('\x27' :: tail).getLast? = some '\n')
    (found : readTemplate rules scope none ('\x27' :: tail ++ rest) = some pieces) :
    Divides rules scope none ('\x27' :: tail) rest pieces := by
  -- There is a character behind the quote, as the last one is a newline.
  obtain ⟨c, tail, rfl, last'⟩ := exists_of_last last (by decide)
  by_cases quotes : c = '\x27'
  · subst quotes
    exact (upTo.mono (Nat.le_succ _)).escape last' found
  have law (others : List Char) :
      readTemplate rules scope none (['\x27'] ++ (c :: tail ++ others)) =
        (readTemplate rules scope none (c :: tail ++ others)).map ([('\x27', false)] ++ ·) :=
    readTemplate_pair (fun both => quotes both.2) (fun both => absurd both.1 (by decide))
      (fun both => absurd both.1 (by decide)) (tail ++ others)
  exact Divides.step law (upTo.divides (Nat.le_refl _) last') found

/-- Two dollar signs are read together, or one by one. -/
theorem DividesUpTo.dollars (upTo : DividesUpTo rules scope (tail.length + 1))
    (last : ('$' :: tail).getLast? = some '\n')
    (found : readTemplate rules scope none ('$' :: '$' :: tail ++ rest) = some pieces) :
    Divides rules scope none ('$' :: '$' :: tail) rest pieces := by
  -- There is a character behind the two signs, as the last one is a newline.
  obtain ⟨c, tail, rfl, last'⟩ := exists_of_last last (by decide)
  -- Whether they are read together depends on the rules.
  by_cases pairs : rules.dollarPairs = true
  · have law (others : List Char) : readTemplate rules scope none (['$', '$'] ++ others) =
        (readTemplate rules scope none others).map ([('$', false), ('$', false)] ++ ·) := by
      rw [List.cons_append, List.singleton_append, readTemplate, if_pos pairs]
      rfl
    exact Divides.step (fun others => law _) (upTo.divides (Nat.le_succ _) last') found
  · have law (others : List Char) :
        readTemplate rules scope none (['$'] ++ ('$' :: c :: tail ++ others)) =
          (readTemplate rules scope none ('$' :: c :: tail ++ others)).map
            ([('$', false)] ++ ·) := by
      rw [List.singleton_append, List.cons_append, readTemplate, if_neg pairs]
      rfl
    exact Divides.step law (upTo.divides (Nat.le_refl _) last) found

/-- A dollar sign opens an interpolation, stands with another one, or for itself. -/
theorem DividesUpTo.dollar (upTo : DividesUpTo rules scope tail.length)
    (last : ('$' :: tail).getLast? = some '\n')
    (found : readTemplate rules scope none ('$' :: tail ++ rest) = some pieces) :
    Divides rules scope none ('$' :: tail) rest pieces := by
  -- There is a character behind the sign, as the last one is a newline.
  obtain ⟨c, tail, rfl, last'⟩ := exists_of_last last (by decide)
  by_cases brace : c = '\x7b'
  · subst brace
    obtain ⟨d, tail, rfl, last⟩ := exists_of_last last' (by decide)
    have law (others : List Char) : readTemplate rules scope none (['$', '\x7b'] ++ others) =
        (readTemplate rules scope (some []) others).map ([] ++ ·) := by
      rw [List.cons_append, List.singleton_append, readTemplate]
      simp
    exact Divides.step (fun others => law _) (upTo.divides (Nat.le_succ _) last) found
  by_cases dollars : c = '$'
  · subst dollars
    exact upTo.dollars last' found
  -- No rule for two characters applies.
  have law (others : List Char) :
      readTemplate rules scope none (['$'] ++ (c :: tail ++ others)) =
        (readTemplate rules scope none (c :: tail ++ others)).map ([('$', false)] ++ ·) :=
    readTemplate_pair (fun both => absurd both.1 (by decide)) (fun both => brace both.2)
      (fun both => dollars both.2) (tail ++ others)
  exact Divides.step law (upTo.divides (Nat.le_refl _) last') found

/-- Any other character stands for itself, also at the end. -/
theorem DividesUpTo.other {c : Char} (noQuote : c ≠ '\x27') (noDollar : c ≠ '$')
    (upTo : DividesUpTo rules scope tail.length) (last : (c :: tail).getLast? = some '\n')
    (found : readTemplate rules scope none (c :: tail ++ rest) = some pieces) :
    Divides rules scope none (c :: tail) rest pieces := by
  have law := @Reads.char rules scope c noQuote noDollar
  -- The character is the newline at the end, or there is more.
  by_cases final : tail = []
  · subst final
    obtain rfl : c = '\n' := Option.some.inj last
    exact Divides.last law ⟨false, rfl⟩ found
  · rw [List.getLast?_cons_of_ne_nil final] at last
    exact Divides.step (fun others => law _) (upTo.divides (Nat.le_refl _) last) found

/-- Whatever the length, by induction on it and by what the text begins with. -/
theorem dividesUpTo (size : Nat) : DividesUpTo rules scope size := by
  -- By induction on the length: each rule takes at least one character.
  induction size with
  | zero =>
    refine ⟨fun {begun text rest pieces} short last => ?_⟩
    rw [List.eq_nil_of_length_eq_zero (Nat.le_zero.mp short)] at last
    cases last
  | succ size ih =>
    refine ⟨fun {begun text rest pieces} short last found => ?_⟩
    -- Either a name is being read, or the first character decides which rule applies.
    match begun, text with
    | _, [] => cases last
    | some name, c :: tail =>
      exact (ih.mono (Nat.le_of_succ_le_succ short)).name last found
    | none, c :: tail =>
      have upTo : DividesUpTo rules scope tail.length := ih.mono (Nat.le_of_succ_le_succ short)
      by_cases quote : c = '\x27'
      · subst quote
        exact upTo.quote last found
      by_cases dollar : c = '$'
      · subst dollar
        exact upTo.dollar last found
      · exact upTo.other quote dollar last found

end divides

/-- A text whose last line ends is read in front of what is behind it. -/
theorem divides {begun : Option (List Char)} {text rest : List Char} {pieces : List Piece}
    (last : text.getLast? = some '\n')
    (found : readTemplate rules scope begun (text ++ rest) = some pieces) :
    Divides rules scope begun text rest pieces :=
  (dividesUpTo text.length).divides (Nat.le_refl _) last found

/-- How many characters of a text could be read otherwise than as themselves. -/
def openers (text : List Char) : Nat := text.countP fun c => c == '\x27' || c == '$'

/-- A path of the store has none of them. -/
theorem openers_value (name : List Char) : openers (scope.value name) = 0 := by
  rw [openers, List.countP_eq_zero]
  -- The characters of a path are not among the two.
  intro c inside
  have stored := scope.path name c inside
  have others : ∀ d ∈ ['\x27', '$'], isStoreChar d = false := by decide
  intro opens
  rw [others c (by simpa using opens)] at stored
  cases stored

/-- A character counts if it is one of the two. -/
theorem openers_cons (c : Char) (text : List Char) :
    openers (c :: text) = openers text + if c = '\x27' ∨ c = '$' then 1 else 0 := by
  simp [openers, List.countP_cons]

/-- No escape stands for such a character, but for itself. -/
theorem openers_escapedChar (c : Char) (text : List Char) :
    openers (escapedChar c :: text) = openers (c :: text) := by
  have same : (escapedChar c = '\x27' ↔ c = '\x27') ∧ (escapedChar c = '$' ↔ c = '$') := by
    -- Only three characters are escaped otherwise than by themselves.
    unfold escapedChar
    split <;> simp
  rw [openers_cons, openers_cons]
  simp only [same]

/-- A shortened text has as many of them. -/
theorem openers_shortened {short text : List Piece} (shortened : Shortened short text) :
    openers (short.map Prod.fst) = openers (text.map Prod.fst) := by
  -- Only spaces are lost, and a space does not count.
  have same : short.filter (·.1 != ' ') = text.filter (·.1 != ' ') := by
    refine (shortened.1.filter _).eq_of_length ?_
    rw [← List.countP_eq_length_filter, ← List.countP_eq_length_filter]
    exact shortened.2
  have among (pieces : List Piece) : openers (pieces.map Prod.fst) =
      openers ((pieces.filter (·.1 != ' ')).map Prod.fst) := by
    rw [openers, openers, List.countP_map, List.countP_map, List.countP_filter]
    refine List.countP_congr fun piece _ => ?_
    simp only [Function.comp_apply, Bool.and_eq_true, Bool.or_eq_true, beq_iff_eq, bne_iff_ne]
    refine ⟨fun opens => ⟨opens, ?_⟩, And.left⟩
    rcases opens with quote | dollar
    · rw [quote]; decide
    · rw [dollar]; decide
  rw [among, same, ← among]

/-- A character in front of quotes that are apart is no quote in front of another one. -/
theorem apart_cons {c : Char} {text : List Char} (apart : ¬ ['\x27', '\x27'] <:+: text)
    (single : ∀ tail, c = '\x27' → text ≠ '\x27' :: tail) :
    ¬ ['\x27', '\x27'] <:+: c :: text := by
  intro inside
  -- The two quotes are at the front, or behind it.
  rcases List.infix_cons_iff.mp inside with ⟨tail, front⟩ | inside
  · obtain ⟨first, others⟩ := List.cons.inj front
    exact single tail first.symm others.symm
  · exact apart inside

/-- Whatever is read otherwise than as itself takes such a character away, and so do the quotes that
close the literal. -/
theorem openers_readTemplate {begun : Option (List Char)} {text : List Char}
    {pieces : List Piece} (found : readTemplate rules scope begun text = some pieces) :
    openers (pieces.map Prod.fst) + 2 ≤ openers text ∧
      (begun = none → openers (pieces.map Prod.fst) + 2 = openers text →
        ∃ front, text = front ++ closing ∧ Quiet rules front) := by
  -- The induction follows the reading, and every branch either keeps what it reads or takes some
  -- away.
  fun_induction readTemplate rules scope begun text generalizing pieces with
  | case1 name rest ih =>
    obtain ⟨others, behind, rfl⟩ := Option.map_eq_some_iff.mp found
    have fewer := (ih behind).1
    have none := @openers_value scope name
    -- The path that is put in has none of them.
    refine ⟨?_, nofun⟩
    rw [openers_cons]
    simp only [openers, List.map_append, List.countP_append, List.map_map] at fewer none ⊢
    simp only [Function.comp_def, List.map_id'] at fewer none ⊢
    omega
  | case2 name c rest _ attr ih =>
    refine ⟨?_, nofun⟩
    rw [openers_cons]
    exact Nat.le_add_right_of_le (ih found).1
  | case3 | case4 | case9 | case14 => cases found
  | case5 rest ih | case6 rest ih =>
    obtain ⟨others, behind, rfl⟩ := Option.map_eq_some_iff.mp found
    have fewer := (ih behind).1
    simp [openers_cons] at fewer ⊢
    omega
  | case7 c rest ih =>
    obtain ⟨others, behind, rfl⟩ := Option.map_eq_some_iff.mp found
    have fewer := (ih behind).1
    have escape := openers_escapedChar c (others.map Prod.fst)
    simp [openers_cons] at fewer escape ⊢
    omega
  | case8 =>
    cases found
    -- Here the literal is closed, and nothing is behind it.
    exact ⟨Nat.le_refl 2, fun _ _ => ⟨[], rfl, trivial, by simp⟩⟩
  | case10 rest ih =>
    have fewer := (ih found).1
    simp [openers_cons] at fewer ⊢
    omega
  | case11 rest pairs ih =>
    obtain ⟨others, behind, rfl⟩ := Option.map_eq_some_iff.mp found
    obtain ⟨fewer, exactly⟩ := ih behind
    simp only [List.map_cons, openers_cons] at fewer exactly ⊢
    refine ⟨by omega, fun _ same => ?_⟩
    obtain ⟨front, rfl, closed, apart⟩ := exactly trivial (by omega)
    -- Two dollar signs are kept as they are.
    refine ⟨'$' :: '$' :: front, rfl, ?_, apart_cons (apart_cons apart (by simp)) (by simp)⟩
    rwa [NoInterpolation, if_pos pairs]
  | case12 rest single ih =>
    obtain ⟨others, behind, rfl⟩ := Option.map_eq_some_iff.mp found
    obtain ⟨fewer, exactly⟩ := ih behind
    simp only [List.map_cons, openers_cons] at fewer exactly ⊢
    refine ⟨by omega, fun _ same => ?_⟩
    obtain ⟨front, split, closed, apart⟩ := exactly trivial (by omega)
    -- The second sign is still to be read.
    cases front with
    | nil => exact absurd (List.cons.inj split).1 (by decide)
    | cons d front =>
      obtain ⟨rfl, rfl⟩ := List.cons.inj split
      refine ⟨'$' :: '$' :: front, rfl, ?_, apart_cons apart (by simp)⟩
      rwa [NoInterpolation, if_neg single]
  | case13 c rest noTriple noDollar noEscape noEnd noClose noBrace noDollars ih =>
    obtain ⟨others, behind, rfl⟩ := Option.map_eq_some_iff.mp found
    obtain ⟨fewer, exactly⟩ := ih behind
    simp only [List.map_cons, openers_cons] at fewer exactly ⊢
    refine ⟨by omega, fun _ same => ?_⟩
    obtain ⟨front, rfl, closed, apart⟩ := exactly trivial (by omega)
    -- A plain character is kept, and it makes no pair with what follows it.
    refine ⟨c :: front, rfl, ?_, apart_cons apart fun tail quote next => ?_⟩
    · rw [NoInterpolation]
      · exact closed
      · exact fun tail dollar next => noBrace (tail ++ closing) dollar (by rw [next]; rfl)
      · exact fun tail dollar next => noDollars (tail ++ closing) dollar (by rw [next]; rfl)
    · exact noClose (tail ++ closing) quote (by rw [next]; rfl)

/-- A text that is read has no fewer of these characters than what it is read as, and as many only
when it is read as itself. -/
theorem Reads.openers_le {text : List Char} {pieces : List Piece}
    (reads : Reads rules scope text pieces) :
    openers (pieces.map Prod.fst) ≤ openers text ∧
      (openers (pieces.map Prod.fst) = openers text → Quiet rules text) := by
  -- The text is read in front of the two quotes that close a literal.
  have found := reads closing
  rw [readTemplate_closing, Option.map_some, List.append_nil] at found
  have all : openers (text ++ closing) = openers text + 2 := by
    simp [openers, List.countP_append, closing]
  obtain ⟨fewer, exactly⟩ := openers_readTemplate found
  rw [all] at fewer exactly
  refine ⟨by omega, fun same => ?_⟩
  obtain ⟨front, split, quiet⟩ := exactly rfl (by omega)
  rwa [List.append_cancel_right split]

end reads

end Tatara.Nix
