import Mathlib
import Tatara.Matrix.Spec

/-! When the names of a matrix tell its environments apart and are DNS labels. -/

namespace Tatara.Matrix

open Rust (Json JsonText scalarText)

/-- The words of a text behind a word that has begun: its runs of letters and digits. -/
def tokens (word : List Char) : List Char → List (List Char)
  | [] => if word.isEmpty then [] else [word]
  | c :: rest =>
    match slugChar c with
    | some letter => tokens (word ++ [letter]) rest
    | none => if word.isEmpty then tokens [] rest else word :: tokens [] rest

/-- The words of a text, in lowercase; a text without any counts as the word `x`. -/
def words (s : String) : List (List Char) :=
  match tokens [] s.toList with
  | [] => [['x']]
  | first :: rest => first :: rest

/-- Words one after the other, each behind a dash. -/
def spell (ws : List (List Char)) : List Char := ws.flatMap fun word => '-' :: word

/-- A word of letters and digits in lowercase. -/
def IsWord (word : List Char) : Prop := word ≠ [] ∧ ∀ c ∈ word, ∃ source, slugChar source = some c

/-- A letter of a word is a digit or a lowercase letter. -/
theorem isLabelChar_of_slugChar {source c : Char} (letter : slugChar source = some c) :
    (c.isLower || c.isDigit) = true := by
  unfold slugChar at letter
  split at letter
  · rename_i alphanumeric
    cases letter
    -- Lowercasing leaves no uppercase letter.
    have notUpper : source.toLower.isUpper = false := by
      simp only [Char.isUpper, Char.toLower]
      grind
    simpa [Char.isAlphanum, Char.isAlpha, notUpper] using alphanumeric
  · cases letter

/-- No character of a slug is a dash. -/
theorem dash_not_slugChar {source : Char} : slugChar source ≠ some '-' := by
  intro letter
  have label := isLabelChar_of_slugChar letter
  simp [Char.isLower, Char.isDigit] at label

/-- No word has a dash. -/
theorem IsWord.no_dash {word : List Char} (isWord : IsWord word) : '-' ∉ word := by
  intro among
  obtain ⟨source, letter⟩ := isWord.2 '-' among
  exact dash_not_slugChar letter

/-- What is found in a text are words. -/
theorem isWord_of_mem_tokens {text word : List Char}
    (begun : ∀ c ∈ word, ∃ source, slugChar source = some c) :
    ∀ found ∈ tokens word text, IsWord found := by
  -- By induction on the text, with the word that has begun so far.
  induction text generalizing word with
  | nil =>
    rw [tokens]
    split
    · simp
    · rename_i nonempty
      intro found listed
      rw [List.mem_singleton.mp listed]
      exact ⟨by simpa [List.isEmpty_iff] using nonempty, begun⟩
  | cons c rest ih =>
    rw [tokens]
    cases letter : slugChar c with
    | some l =>
      refine ih fun d among => ?_
      rcases List.mem_append.mp among with among | last
      · exact begun d among
      · exact ⟨c, by rw [letter, List.mem_singleton.mp last]⟩
    | none =>
      simp only
      split
      · exact ih (by simp)
      · rename_i nonempty
        intro found listed
        rcases List.mem_cons.mp listed with rfl | later
        · exact ⟨by simpa [List.isEmpty_iff] using nonempty, begun⟩
        · exact ih (by simp) found later

/-- The words of a text are words. -/
theorem isWord_of_mem_words {s : String} : ∀ word ∈ words s, IsWord word := by
  have found := @isWord_of_mem_tokens s.toList [] (by simp)
  unfold words
  -- A text without words has one that stands for it.
  split
  · intro word listed
    rw [List.mem_singleton.mp listed]
    exact ⟨by simp, fun c among => ⟨'x', by rw [List.mem_singleton.mp among]; rfl⟩⟩
  · rename_i same
    rwa [same] at found

/-- A text never ends up with more than a dash behind its words. -/
def AtMostDash (tail : List Char) : Prop := tail = [] ∨ tail = ['-']

/-- The text that words make with dashes between them. -/
def hyphenate (ws : List (List Char)) : List Char := ['-'].intercalate ws

/-- Words with dashes between them are the first one and the others behind theirs. -/
theorem hyphenate_cons (word : List Char) (rest : List (List Char)) :
    hyphenate (word :: rest) = word ++ spell rest := by
  -- Each later word comes behind its dash.
  induction rest generalizing word with
  | nil => simp [hyphenate, spell]
  | cons next rest ih =>
    have later := ih next
    simp only [hyphenate] at later ⊢
    rw [List.intercalate_cons_cons, later]
    simp [spell]

/-- The characters of a slug are those of its words: in the middle of a word, and behind a dash. -/
theorem slugChars_eq (text : List Char) :
    (∀ word, word ≠ [] → ∃ tail, AtMostDash tail ∧ tokens word text ≠ [] ∧
      word ++ slugChars false text = hyphenate (tokens word text) ++ tail) ∧
    ∃ tail, AtMostDash tail ∧ (tokens [] text = [] → tail = []) ∧
      slugChars true text = hyphenate (tokens [] text) ++ tail := by
  -- Both by one induction, for a letter leads into a word and anything else out of it.
  induction text with
  | nil =>
    refine ⟨fun word nonempty => ⟨[], .inl rfl, ?_, ?_⟩, [], .inl rfl, fun _ => rfl, ?_⟩
    · simp [tokens, nonempty]
    · simp [tokens, nonempty, slugChars, hyphenate]
    · simp [tokens, slugChars, hyphenate]
  | cons c rest ih =>
    obtain ⟨inWord, behindDash⟩ := ih
    cases letter : slugChar c with
    | some l =>
      constructor
      · intro word nonempty
        obtain ⟨tail, short, some_, same⟩ := inWord (word ++ [l]) (by simp)
        refine ⟨tail, short, ?_, ?_⟩
        · simpa only [tokens, letter] using some_
        · simpa only [slugChars, tokens, letter, List.append_assoc, List.singleton_append] using same
      · obtain ⟨tail, short, some_, same⟩ := inWord [l] (by simp)
        refine ⟨tail, short, fun none => ?_, ?_⟩
        · simp only [tokens, letter, List.nil_append] at none
          exact absurd none some_
        · simpa only [slugChars, tokens, letter, List.nil_append, List.singleton_append] using same
    | none =>
      obtain ⟨tail, short, empty, same⟩ := behindDash
      constructor
      · intro word nonempty
        have more : word.isEmpty = false := by simpa using nonempty
        simp only [slugChars, tokens, letter, more, Bool.false_eq_true, if_false, same]
        cases found : tokens [] rest with
        | nil =>
          rw [empty found]
          exact ⟨['-'], .inr rfl, by simp, by simp [hyphenate]⟩
        | cons next others =>
          refine ⟨tail, short, by simp, ?_⟩
          rw [hyphenate_cons, hyphenate_cons]
          simp [spell]
      · exact ⟨tail, short, by simpa [tokens, letter] using empty,
          by simpa [slugChars, tokens, letter] using same⟩

/-- Words with a dash at most on each side are trimmed to the words. -/
theorem trimDashes_eq {lead tail text : List Char} (front : AtMostDash lead)
    (back : AtMostDash tail) (first : text.head? ≠ some '-') (last : text.getLast? ≠ some '-')
    (nonempty : text ≠ []) : trimDashes (lead ++ text ++ tail) = text := by
  -- Dashes are dropped in front and at the end, where there is at most one.
  have dropped : ∀ dash rest : List Char, AtMostDash dash → rest.head? ≠ some '-' → rest ≠ [] →
      (dash ++ rest).dropWhile (· == '-') = rest := by
    intro dash rest short head nonempty
    obtain ⟨c, rest, rfl⟩ := List.exists_cons_of_ne_nil nonempty
    have other : (c == '-') = false := by simpa using head
    rcases short with rfl | rfl <;> simp [other]
  have reversed : AtMostDash tail.reverse := by
    rcases back with rfl | rfl
    · exact .inl rfl
    · exact .inr rfl
  rw [trimDashes, List.append_assoc, dropped lead (text ++ tail) front, List.reverse_append,
    dropped tail.reverse text.reverse reversed, List.reverse_reverse]
  · rwa [List.head?_reverse]
  · simpa using nonempty
  · obtain ⟨c, rest, rfl⟩ := List.exists_cons_of_ne_nil nonempty
    simpa using first
  · simp [nonempty]

/-- What words make with dashes between them neither starts nor ends with a dash. -/
theorem hyphenate_ends {first : List Char} {rest : List (List Char)}
    (each : ∀ word ∈ first :: rest, IsWord word) :
    hyphenate (first :: rest) ≠ [] ∧ (hyphenate (first :: rest)).head? ≠ some '-' ∧
      (hyphenate (first :: rest)).getLast? ≠ some '-' := by
  have isWord := each first (.head _)
  rw [hyphenate_cons]
  refine ⟨by simp [isWord.1], ?_, ?_⟩
  · obtain ⟨c, more, rfl⟩ := List.exists_cons_of_ne_nil isWord.1
    have noDash := isWord.no_dash
    simp only [List.cons_append, List.head?_cons, ne_eq, Option.some.injEq]
    exact fun dash => noDash (by simp [dash])
  · -- The last character is that of the last word.
    have last : ∀ (front : List Char) (ws : List (List Char)), front.getLast? ≠ some '-' →
        (∀ word ∈ ws, IsWord word) → (front ++ spell ws).getLast? ≠ some '-' := by
      intro front ws
      induction ws generalizing front with
      | nil => intro noDash _; simpa [spell] using noDash
      | cons word ws ih =>
        intro _ each
        have isWord := each word (.head _)
        have split_ : front ++ spell (word :: ws) = (front ++ '-' :: word) ++ spell ws := by
          simp [spell]
        rw [split_]
        refine ih _ (fun dash => ?_) fun other listed => each other (.tail _ listed)
        obtain ⟨more, c, rfl⟩ := List.eq_nil_or_concat'  word |>.resolve_left isWord.1
        have lastC : (front ++ '-' :: (more ++ [c])).getLast? = some c := by
          rw [← List.cons_append, ← List.append_assoc, List.getLast?_concat]
        rw [lastC] at dash
        exact isWord.no_dash (by simp [Option.some.inj dash])
    refine last first rest (fun dash => ?_) fun word listed => each word (.tail _ listed)
    exact isWord.no_dash (List.mem_of_getLast? dash)

/-- A slug is its words with dashes between them. -/
theorem toList_slug (s : String) : (slug s).toList = hyphenate (words s) := by
  have each := @isWord_of_mem_tokens s.toList [] (by simp)
  -- In front of the first word there is at most a dash, and behind the last one too.
  obtain ⟨lead, tail, front, back, empty, same⟩ : ∃ lead tail, AtMostDash lead ∧ AtMostDash tail ∧
      (tokens [] s.toList = [] → tail = []) ∧
        slugChars false s.toList = lead ++ hyphenate (tokens [] s.toList) ++ tail := by
    cases text : s.toList with
    | nil =>
      exact ⟨[], [], .inl rfl, .inl rfl, fun _ => rfl, by simp [slugChars, tokens, hyphenate]⟩
    | cons c rest =>
      obtain ⟨inWord, tail, short, empty, behind⟩ := slugChars_eq rest
      cases letter : slugChar c with
      | some l =>
        obtain ⟨tail, short, some_, same⟩ := inWord [l] (by simp)
        refine ⟨[], tail, .inl rfl, short, fun none => ?_, ?_⟩
        · simp only [tokens, letter, List.nil_append] at none
          exact absurd none some_
        · simpa [slugChars, tokens, letter] using same
      | none =>
        exact ⟨['-'], tail, .inr rfl, short, by simpa [tokens, letter] using empty, by
          simpa [slugChars, tokens, letter] using behind⟩
  unfold slug words
  rw [same]
  cases found : tokens [] s.toList with
  | nil =>
    rw [empty found]
    rcases front with rfl | rfl <;> rfl
  | cons first rest =>
    rw [found] at each
    obtain ⟨nonempty, head, last⟩ := hyphenate_ends each
    rw [trimDashes_eq front back head last nonempty]
    simp [nonempty]

/-- Words are known from the text that they make behind their dashes. -/
theorem spell_injective {ws others : List (List Char)} (each : ∀ word ∈ ws, IsWord word)
    (each' : ∀ word ∈ others, IsWord word) (same : spell ws = spell others) : ws = others := by
  -- No word has a dash in it, so the dashes are where the text is to be split.
  have split_ (ws : List (List Char)) (each : ∀ word ∈ ws, IsWord word) :
      (spell ws).splitOn '-' = [] :: ws := by
    have joined : ['-'].intercalate ([] :: ws) = spell ws := by
      have made := hyphenate_cons [] ws
      simpa [hyphenate] using made
    rw [← joined]
    refine List.splitOn_intercalate '-' (fun word listed => ?_) (by simp)
    rcases List.mem_cons.mp listed with rfl | listed
    · simp
    · exact (each word listed).no_dash
  have lists := congrArg (List.splitOn '-') same
  rw [split_ ws each, split_ others each'] at lists
  exact (List.cons.inj lists).2

/-- A DNS label: lowercase letters, digits and inner dashes, and at most 63 of them. -/
def IsDnsLabel (text : List Char) : Prop :=
  text ≠ [] ∧ text.length ≤ 63 ∧ (∀ c ∈ text, (c.isLower || c.isDigit) = true ∨ c = '-') ∧
    text.head? ≠ some '-' ∧ text.getLast? ≠ some '-'

instance (text : List Char) : Decidable (IsDnsLabel text) :=
  -- The characters are those of the text, so that it is gone through and not all characters.
  have : Decidable (∀ c ∈ text, (c.isLower || c.isDigit) = true ∨ c = '-') :=
    decidable_of_iff ((text.all fun c => (c.isLower || c.isDigit) || c == '-') = true) (by simp)
  inferInstanceAs (Decidable (_ ∧ _ ∧ _ ∧ _ ∧ _))

/-- The length of words behind their dashes. -/
theorem length_spell (ws : List (List Char)) :
    (spell ws).length = (ws.map fun word => word.length + 1).sum := by
  rw [spell, List.length_flatMap]
  rfl

/-- Words behind a label make a label as long as there is room. -/
theorem isDnsLabel_append_spell_iff {label : List Char} (isLabel : IsDnsLabel label)
    {ws : List (List Char)} (each : ∀ word ∈ ws, IsWord word) :
    IsDnsLabel (label ++ spell ws) ↔
      label.length + (ws.map fun word => word.length + 1).sum ≤ 63 := by
  obtain ⟨nonempty, -, allowed, head, last⟩ := isLabel
  rw [← length_spell, ← List.length_append]
  refine ⟨fun isLabel => isLabel.2.1, fun room => ⟨by simp [nonempty], room, ?_, ?_, ?_⟩⟩
  · intro c among
    rcases List.mem_append.mp among with among | among
    · exact allowed c among
    · obtain ⟨word, listed, among⟩ := List.mem_flatMap.mp among
      rcases List.mem_cons.mp among with rfl | among
      · exact .inr rfl
      · obtain ⟨source, letter⟩ := (each word listed).2 c among
        exact .inl (isLabelChar_of_slugChar letter)
  · obtain ⟨c, more, rfl⟩ := List.exists_cons_of_ne_nil nonempty
    simpa using head
  · cases ws with
    | nil => simpa [spell] using last
    | cons first rest =>
      -- The words end the text, and they do not end in a dash.
      have ends := hyphenate_ends each
      have made :
          label ++ spell (first :: rest) = (label ++ ['-']) ++ hyphenate (first :: rest) := by
        rw [hyphenate_cons]
        simp [spell]
      rw [made, List.getLast?_append_of_ne_nil _ ends.1]
      exact ends.2.2

/-- What a list of words makes with dashes between them comes behind one more dash. -/
theorem dash_hyphenate {ws : List (List Char)} (nonempty : ws ≠ []) :
    '-' :: hyphenate ws = spell ws := by
  obtain ⟨first, rest, rfl⟩ := List.exists_cons_of_ne_nil nonempty
  rw [hyphenate_cons]
  simp [spell]

/-- Every text has a word. -/
theorem words_ne_nil (s : String) : words s ≠ [] := by
  unfold words
  split <;> simp

variable [JsonText]

/-- The text that a value contributes to a name. -/
def valueText : Json → String
  | .string s => s
  | .bool b => if b then "true" else "false"
  | .number n => JsonText.text (.number n)
  | other => JsonText.text other

/-- The slug of a value is that of its text. -/
theorem slugValue_eq (v : Json) : slugValue v = slug (valueText v) := by
  -- Only the texts of the two truth values are written out in the source.
  cases v with
  | bool b =>
    have truths : "true" = slug "true" ∧ "false" = slug "false" := by decide
    cases b with
    | true => exact truths.1
    | false => exact truths.2
  | null | number | string | array | object => rfl

namespace EnvMatrixSpec

/-- The words that a coordinate adds to the name: those of each axis and of its selected value. -/
def nameWords (m : EnvMatrixSpec) (coord : List Nat) : List (List Char) :=
  (m.axes.zip coord).flatMap fun entry =>
    words entry.1.name ++ words (valueText (selected entry.1 entry.2))

/-- The words of a name are words. -/
theorem isWord_of_mem_nameWords (m : EnvMatrixSpec) (coord : List Nat) :
    ∀ word ∈ m.nameWords coord, IsWord word := by
  intro word listed
  obtain ⟨entry, -, among⟩ := List.mem_flatMap.mp listed
  exact (List.mem_append.mp among).elim (isWord_of_mem_words word) (isWord_of_mem_words word)

/-- The part of a name that belongs to an axis is made of the words of its two slugs. -/
theorem toList_suffix (axisName : String) (v : Json) :
    (slug axisName ++ "-" ++ slugValue v).toList =
      hyphenate (words axisName ++ words (valueText v)) := by
  obtain ⟨first, rest, spelled⟩ := List.exists_cons_of_ne_nil (words_ne_nil axisName)
  rw [String.toList_append, String.toList_append, slugValue_eq, toList_slug, toList_slug, spelled,
    List.cons_append, hyphenate_cons, hyphenate_cons, List.append_assoc, List.append_assoc]
  -- The dash between the two slugs is that in front of the first word of the second.
  have dashed : "-".toList ++ hyphenate (words (valueText v)) = spell (words (valueText v)) :=
    dash_hyphenate (words_ne_nil _)
  rw [dashed]
  simp [spell]

/-- The name of a variant is that of the matrix with the words of its coordinate behind it. -/
theorem toList_name (m : EnvMatrixSpec) (matrixName : String) (coord : List Nat) :
    (m.materialize matrixName coord).name.toList =
      matrixName.toList ++ spell (m.nameWords coord) := by
  -- Each axis adds the words of its own name and then those of its value.
  have suffixes : ∀ picked : List (MatrixAxis × Nat),
      spell ((picked.map fun entry => (slug entry.1.name ++ "-" ++
        slugValue (selected entry.1 entry.2)).toList)) =
      spell (picked.flatMap fun entry =>
        words entry.1.name ++ words (valueText (selected entry.1 entry.2))) := by
    intro picked
    induction picked with
    | nil => rfl
    | cons entry rest ih =>
      have own : words entry.1.name ++ words (valueText (selected entry.1 entry.2)) ≠ [] := by
        simp [words_ne_nil]
      have front : ∀ (word : List Char) (ws : List (List Char)),
          spell (word :: ws) = '-' :: word ++ spell ws := fun _ _ => rfl
      have apart :
          ∀ ws others : List (List Char), spell (ws ++ others) = spell ws ++ spell others :=
        fun ws others => List.flatMap_append
      rw [List.map_cons, List.flatMap_cons, front, ih, toList_suffix, apart, dash_hyphenate own]
  unfold materialize nameWords
  cases picked : m.axes.zip coord with
  | nil => simp [spell]
  | cons entry rest =>
    rw [← suffixes]
    simp only [List.map_cons, List.isEmpty_cons, Bool.false_eq_true, if_false,
      String.toList_append, String.toList_intercalate, List.append_assoc]
    rw [← dash_hyphenate (by simp), hyphenate]
    simp [Function.comp_def]

/-- The names of the kept environments tell them apart and are DNS labels, and so no two of them
share a release name. -/
def NamesIdentify (m : EnvMatrixSpec) (matrixName : String) : Prop :=
  (∀ coord ∈ m.kept, ∀ other ∈ m.kept, coord ≠ other →
    (m.materialize matrixName coord).name ≠ (m.materialize matrixName other).name ∧
      (m.materialize matrixName coord).spec.aplicacao.releaseName ≠
        (m.materialize matrixName other).spec.aplicacao.releaseName) ∧
  ∀ env ∈ m.expand matrixName, IsDnsLabel env.name.toList

/-- Different coordinates have different words, and there is room for the words of each. -/
def WordsIdentify (m : EnvMatrixSpec) (matrixName : String) : Prop :=
  (∀ coord ∈ m.kept, ∀ other ∈ m.kept, coord ≠ other → m.nameWords coord ≠ m.nameWords other) ∧
  ∀ coord ∈ m.kept,
    matrixName.toList.length + ((m.nameWords coord).map fun word => word.length + 1).sum ≤ 63

/-- Two variants have one name exactly when their coordinates have the same words. -/
theorem name_eq_iff (m : EnvMatrixSpec) (matrixName : String) (coord other : List Nat) :
    (m.materialize matrixName coord).name = (m.materialize matrixName other).name ↔
      m.nameWords coord = m.nameWords other := by
  rw [← String.toList_inj, toList_name, toList_name, List.append_cancel_left_eq]
  exact ⟨spell_injective (m.isWord_of_mem_nameWords coord) (m.isWord_of_mem_nameWords other),
    congrArg spell⟩

/-- The names identify the environments of a matrix exactly when the words of the coordinates
do. -/
theorem namesIdentify_iff_wordsIdentify (m : EnvMatrixSpec) (matrixName : String)
    (label : IsDnsLabel matrixName.toList) :
    NamesIdentify m matrixName ↔ WordsIdentify m matrixName := by
  have released (coord : List Nat) :
      (m.materialize matrixName coord).spec.aplicacao.releaseName =
        some (m.materialize matrixName coord).name := rfl
  -- The two halves correspond one to one.
  refine and_congr ?_ ?_
  · refine forall₂_congr fun coord _ => forall₂_congr fun other _ => imp_congr_right fun _ => ?_
    simp only [released, ne_eq, Option.some.injEq, name_eq_iff, and_self]
  · rw [expand, List.forall_mem_map]
    refine forall₂_congr fun coord _ => ?_
    rw [toList_name]
    exact isDnsLabel_append_spell_iff label (m.isWord_of_mem_nameWords coord)

end EnvMatrixSpec

omit [JsonText] in
/-- A sweep over two versions is identified by its names exactly when it is by its words. -/
theorem namesIdentify_versions :
    let version : MatrixAxis := ⟨"version", "@version", .array [.string "1", .string "2"]⟩
    let chart : AplicacaoIntent := ⟨"chart", "0.1.0", "minimal", .object [], none⟩
    let m : EnvMatrixSpec := ⟨⟨chart, 1⟩, [version], .cartesian, ⟨0, none⟩⟩
    let _ := scalarText
    m.NamesIdentify "sweep" ↔ m.WordsIdentify "sweep" := by
  intro version chart m _
  exact m.namesIdentify_iff_wordsIdentify "sweep" (by decide)

omit [JsonText] in
/-- Two values of one axis that differ in their punctuation only give one name. -/
theorem expand_shares_name :
    let v : MatrixAxis := ⟨"v", "v", .array [.string "a.b", .string "a-b"]⟩
    let chart : AplicacaoIntent := ⟨"chart", "0.1.0", "minimal", .object [], none⟩
    let m : EnvMatrixSpec := ⟨⟨chart, 1⟩, [v], .cartesian, ⟨0, none⟩⟩
    let _ := scalarText
    IsDnsLabel "sweep".toList ∧ (Json.string "a.b" ≠ Json.string "a-b") ∧
    m.kept = [[0], [1]] ∧
    (m.materialize "sweep" [0]).name = (m.materialize "sweep" [1]).name ∧
    ¬ m.NamesIdentify "sweep" := by
  intro v chart m _
  -- Both values are kept, though they have one name.
  have keptBoth : m.kept = [[0], [1]] := by decide
  have shared : (m.materialize "sweep" [0]).name = (m.materialize "sweep" [1]).name := by decide
  refine ⟨by decide, by simp, keptBoth, shared, fun identify => ?_⟩
  exact (identify.1 [0] (by simp [keptBoth]) [1] (by simp [keptBoth]) (by simp)).1 shared

end Tatara.Matrix
