import Mathlib.Data.List.Basic
import Mathlib.Tactic.Common

/-! String literals and attribute names of Nix: how they are written, and what they denote. -/

namespace Tatara.Nix

/-- What a reader of Nix may do beyond the plain rules: take two dollar signs together, so that the
second one opens no interpolation, and drop the spaces of a blank last line. -/
structure LexicalRules where
  dollarPairs : Bool
  dropsLastLine : Bool

/-- The rules without any of that. -/
def plainRules : LexicalRules := ⟨false, false⟩

/-- The rules with all of it. -/
def extendedRules : LexicalRules := ⟨true, true⟩

/-- The character that an escaped character stands for. -/
def escapedChar : Char → Char
  | 'n' => '\n'
  | 'r' => '\r'
  | 't' => '\t'
  | c => c

/-- A character of an indented literal, and whether it comes from an escape. -/
abbrev Piece := Char × Bool

section reading

variable (rules : LexicalRules)

/-- Read a plain literal behind its opening quote, up to the quote that closes it at the end of the
text; an interpolation is no text. -/
def readPlain : List Char → Option (List Char)
  | ['"'] => some []
  | '"' :: _ => none
  | '\\' :: c :: rest => (readPlain rest).map (escapedChar c :: ·)
  | ['\\'] => none
  | '$' :: '\x7b' :: _ => none
  | '$' :: '$' :: rest =>
    if rules.dollarPairs then (readPlain rest).map fun text => '$' :: '$' :: text
    else (readPlain ('$' :: rest)).map ('$' :: ·)
  | c :: rest => (readPlain rest).map (c :: ·)
  | [] => none

/-- Read an indented literal behind its opening, up to the two quotes that close it at the end of
the text. -/
def readIndented : List Char → Option (List Piece)
  -- Three quotes are two, and two quotes in front of a dollar sign or a backslash escape.
  | '\x27' :: '\x27' :: '\x27' :: rest =>
    (readIndented rest).map fun text => ('\x27', true) :: ('\x27', true) :: text
  | '\x27' :: '\x27' :: '$' :: rest => (readIndented rest).map (('$', true) :: ·)
  | '\x27' :: '\x27' :: '\\' :: c :: rest => (readIndented rest).map ((escapedChar c, true) :: ·)
  | ['\x27', '\x27'] => some []
  | '\x27' :: '\x27' :: _ => none
  | '$' :: '\x7b' :: _ => none
  | '$' :: '$' :: rest =>
    if rules.dollarPairs then
      (readIndented rest).map fun text => ('$', false) :: ('$', false) :: text
    else (readIndented ('$' :: rest)).map (('$', false) :: ·)
  | c :: rest => (readIndented rest).map ((c, false) :: ·)
  | [] => none

attribute [grind =] readPlain readIndented

/-- A space that is written as itself. -/
def isSpace (piece : Piece) : Bool := piece == (' ', false)

/-- How many spaces a line begins with. -/
def indentation (line : List Piece) : Nat := (line.takeWhile isSpace).length

/-- The indentation that the lines have in common, blank lines apart. -/
def commonIndentation (lines : List (List Piece)) : Option Nat :=
  ((lines.filter fun line => !line.all isSpace).map indentation).min?

/-- How many spaces a line loses: the common indentation, and where all lines are blank all. -/
def lost (common : Option Nat) (line : List Piece) : Nat :=
  match common with
  | none => indentation line
  | some n => min n (indentation line)

/-- A line without the common indentation. -/
def stripLine (common : Option Nat) (line : List Piece) : List Piece :=
  line.drop (lost common line)

/-- The lines without the common indentation. -/
def stripLines (common : Option Nat) : List (List Piece) → List (List Piece)
  | [] => []
  | [last] =>
    [if rules.dropsLastLine && last.all isSpace then [] else stripLine common last]
  | line :: rest => stripLine common line :: stripLines common rest

/-- The text of an indented literal: its lines without the common indentation. -/
def strip (pieces : List Piece) : List Piece :=
  let lines := pieces.splitOn ('\n', false)
  [('\n', false)].intercalate (stripLines rules (commonIndentation lines) lines)

/-- What follows the opening of an indented literal, without a blank first line. -/
def dropBlankFirst (text : List Char) : List Char :=
  match text.dropWhile (· == ' ') with
  | '\n' :: rest => rest
  | _ => text

/-- The text that a literal denotes. -/
def literalText : List Char → Option (List Char)
  | '"' :: rest => readPlain rules rest
  | '\x27' :: '\x27' :: rest =>
    (readIndented rules (dropBlankFirst rest)).map fun pieces => (strip rules pieces).map Prod.fst
  | _ => none

/-- The words that are no names of attributes. -/
def keywords : List String :=
  ["if", "then", "else", "assert", "with", "let", "in", "rec", "inherit"]

/-- A bare name of an attribute. -/
def isIdentifier : List Char → Bool
  | [] => false
  | first :: rest =>
    (first.isAlpha || first == '_') &&
      rest.all (fun c => c.isAlphanum || c == '_' || c == '\x27' || c == '-') &&
      !(keywords.map String.toList).contains (first :: rest)

/-- The name that the text of an attribute denotes: a plain literal, or a bare name. -/
def attributeName : List Char → Option (List Char)
  | '"' :: rest => readPlain rules rest
  | name => if isIdentifier name then some name else none

end reading

section writing

/-- `str::replace` of two quotes by four. -/
def doubleQuotePairs : List Char → List Char
  | '\x27' :: '\x27' :: rest =>
    '\x27' :: '\x27' :: '\x27' :: '\x27' :: doubleQuotePairs rest
  | c :: rest => c :: doubleQuotePairs rest
  | [] => []

/-- `str::replace` of a character by a backslash and itself. -/
def backslashed (special : Char) (text : List Char) : List Char :=
  text.flatMap fun c => if c = special then ['\\', c] else [c]

/-- `nix_string`. -/
def nixString (s : String) : String :=
  let text := s.toList
  if '\n' ∈ text then
    .ofList ('\x27' :: '\x27' :: '\n' :: (doubleQuotePairs text ++ ['\x27', '\x27']))
  else .ofList ('"' :: (backslashed '"' (backslashed '\\' text) ++ ['"']))

/-- `char::is_alphanumeric`, a generated table of the toolchain: the letters and numbers of Unicode,
of which those of ASCII are the letters and the digits. -/
class Alphanumerics where
  isAlphanumeric : Char → Bool
  ascii : ∀ c : Char, c.toNat < 128 → isAlphanumeric c = c.isAlphanum

/-- `nix_identifier`. -/
def nixIdentifier [Alphanumerics] (s : String) : String :=
  let text := s.toList
  if text.all (fun c => Alphanumerics.isAlphanumeric c || c == '_') && !text.isEmpty then s
  else .ofList ('"' :: (backslashed '"' text ++ ['"']))

end writing

section conditions

variable (rules : LexicalRules)

/-- Nothing opens an interpolation. -/
def NoInterpolation : List Char → Prop
  | '$' :: '\x7b' :: _ => False
  | '$' :: '$' :: rest =>
    if rules.dollarPairs then NoInterpolation rest else NoInterpolation ('$' :: rest)
  | _ :: rest => NoInterpolation rest
  | [] => True

/-- A quote is followed by some other character, but for four of them in front of a dollar sign; and
nothing opens an interpolation, such a dollar sign apart. -/
def QuotesApart : List Char → Prop
  | '\x27' :: '\x27' :: '\x27' :: '\x27' :: '$' :: rest => QuotesApart rest
  | '\x27' :: '\x27' :: _ => False
  | ['\x27'] => False
  | '$' :: '\x7b' :: _ => False
  | '$' :: '$' :: rest =>
    if rules.dollarPairs then QuotesApart rest else QuotesApart ('$' :: rest)
  | _ :: rest => QuotesApart rest
  | [] => True

attribute [grind =] NoInterpolation QuotesApart

/-- Some line begins with another character than a space, or there are only empty lines; and the
last line is not made of spaces, where these are dropped. -/
def Unindented (text : List Char) : Prop :=
  ((∃ line ∈ text.splitOn '\n', ∃ c rest, line = c :: rest ∧ c ≠ ' ') ∨
      ∀ line ∈ text.splitOn '\n', line = []) ∧
    (rules.dropsLastLine = true → ∀ last, (text.splitOn '\n').getLast? = some last →
      (∀ c ∈ last, c = ' ') → last = [])

/-- The texts that are written so that they are read back. -/
def Literal (s : String) : Prop :=
  if '\n' ∈ s.toList then QuotesApart rules s.toList ∧ Unindented rules s.toList
  else NoInterpolation rules s.toList

/-- The names that are written so that they are read back: made of letters, digits and underscores
of ASCII, no digit in front and no keyword; or, where they are put in quotes, without backslashes
and interpolations. -/
def Nameable [Alphanumerics] (s : String) : Prop :=
  if s.toList.all (fun c => Alphanumerics.isAlphanumeric c || c == '_') && !s.toList.isEmpty then
    (∀ c ∈ s.toList, c.isAlphanum = true ∨ c = '_') ∧
      (∀ c, s.toList.head? = some c → c.isDigit = false) ∧ s ∉ keywords
  else '\\' ∉ s.toList ∧ NoInterpolation rules s.toList

end conditions

section plain

variable (rules : LexicalRules)

/-- A character without a meaning of its own is read as itself. -/
theorem readPlain_other {c : Char} (noQuote : c ≠ '"') (noEscape : c ≠ '\\')
    (noDollar : c ≠ '$') (rest : List Char) :
    readPlain rules (c :: rest) = (readPlain rules rest).map (c :: ·) := by
  rw [readPlain] <;> grind

/-- So is a dollar sign that opens nothing. -/
theorem readPlain_dollar {rest : List Char} (noBrace : rest.head? ≠ some '\x7b')
    (noDollar : rest.head? ≠ some '$') :
    readPlain rules ('$' :: rest) = (readPlain rules rest).map ('$' :: ·) := by
  rw [readPlain] <;> grind

/-- Nothing is put into an empty text. -/
@[simp] theorem backslashed_nil (special : Char) : backslashed special [] = [] := rfl

/-- Characters are escaped one by one. -/
theorem backslashed_cons (special c : Char) (rest : List Char) :
    backslashed special (c :: rest) =
      (if c = special then ['\\', c] else [c]) ++ backslashed special rest := by
  simp [backslashed]

/-- A text without the character stays as it is. -/
theorem backslashed_of_notMem {special : Char} {text : List Char} (absent : special ∉ text) :
    backslashed special text = text := by
  -- By induction on the text, none of whose characters is escaped.
  induction text with
  | nil => rfl
  | cons c rest ih =>
    have other : c ≠ special := fun same => absent (by simp [same])
    rw [backslashed_cons, if_neg other, ih fun inside => absent (List.mem_cons_of_mem _ inside)]
    rfl

/-- The characters of a plain literal: quotes and backslashes behind a backslash each. -/
def escaped (text : List Char) : List Char := backslashed '"' (backslashed '\\' text)

/-- The backslashes in front of quotes are not escaped again. -/
theorem escaped_cons (c : Char) (rest : List Char) :
    escaped (c :: rest) =
      (if c = '"' ∨ c = '\\' then ['\\', c] else [c]) ++ escaped rest := by
  -- The quotes are escaped behind the backslashes, so no backslash in front of a quote is doubled.
  by_cases backslash : c = '\\'
  · subst backslash
    simp [escaped, backslashed_cons]
  · by_cases quote : c = '"'
    · subst quote
      simp [escaped, backslashed_cons]
    · simp [escaped, backslashed_cons, backslash, quote]

/-- What closes a literal opens nothing in it. -/
theorem head_escaped {rest : List Char} {c : Char} (noEscape : c ≠ '\\') (noQuote : c ≠ '"') :
    (escaped rest ++ ['"']).head? = some c ↔ rest.head? = some c := by
  -- In front of an escaped character stands a backslash, and any other one is itself.
  cases rest with
  | nil => simp [escaped, Ne.symm noQuote]
  | cons d rest =>
    rw [escaped_cons]
    split
    · next special =>
      have other : d ≠ c := by rintro rfl; exact special.elim noQuote noEscape
      simp [Ne.symm noEscape, other]
    · simp

/-- A text that is not made of a character and others does not begin with it. -/
theorem head?_ne_of_forall {τ : Type} {x : τ} {text : List τ}
    (other : ∀ rest, text = x :: rest → False) : text.head? ≠ some x := by
  rw [Ne, List.head?_eq_some_iff]
  exact fun ⟨rest, same⟩ => other rest same

/-- A plain literal is read back where nothing in it opens an interpolation. -/
theorem readPlain_escaped (text : List Char) :
    readPlain rules (escaped text ++ ['"']) = some text ↔ NoInterpolation rules text := by
  fun_induction NoInterpolation rules text with
  | case1 rest =>
    -- The interpolation is one in the literal as well.
    simp [escaped_cons, readPlain]
  | case2 rest pairs ih => simpa [escaped_cons, readPlain, pairs] using ih
  | case3 rest pairs ih => simpa [escaped_cons, readPlain, pairs] using ih
  | case4 c rest noBrace noDollar ih =>
    rw [escaped_cons]
    split
    · next special => rcases special with rfl | rfl <;> simpa [readPlain, escapedChar] using ih
    · next plain =>
      rw [not_or] at plain
      by_cases dollar : c = '$'
      · -- The character behind it is the same in the literal and in the text.
        subst dollar
        rw [List.singleton_append, List.cons_append, readPlain_dollar]
        · simpa using ih
        · rw [Ne, head_escaped (by decide) (by decide)]
          exact head?_ne_of_forall fun tail => noBrace tail rfl
        · rw [Ne, head_escaped (by decide) (by decide)]
          exact head?_ne_of_forall fun tail => noDollar tail rfl
      · rw [List.singleton_append, List.cons_append,
          readPlain_other rules plain.1 plain.2 dollar]
        simpa using ih
  | case5 => simp [escaped, readPlain]

/-- Each quote that is read, and each pair of backslashes, costs a character. -/
theorem readPlain_length {text read : List Char} (found : readPlain rules text = some read) :
    2 * read.length + text.count '"' + text.count '\\' + 1 ≤ 2 * text.length := by
  -- Only a backslash that is no escape would count twice, and there is none.
  fun_induction readPlain rules text generalizing read
  case case8 c rest noEnd noQuote noEscape noStop noBrace noPair ih =>
    have other : c ≠ '\\' := by
      rintro rfl
      cases rest with
      | nil => exact noStop rfl rfl
      | cons d rest => exact noEscape d rest rfl rfl
    grind [Option.map_eq_some_iff]
  all_goals grind [Option.map_eq_some_iff]

/-- Each character that is escaped makes the text longer by one. -/
theorem length_backslashed (special : Char) (text : List Char) :
    (backslashed special text).length = text.length + text.count special := by
  induction text with
  | nil => rfl
  | cons c rest ih => grind [backslashed_cons]

/-- Only backslashes come in. -/
theorem count_backslashed {special c : Char} (other : c ≠ '\\') (text : List Char) :
    (backslashed special text).count c = text.count c := by
  induction text with
  | nil => rfl
  | cons d rest ih => grind [backslashed_cons]

/-- They do once for each character that is escaped. -/
theorem count_backslashed_self {special : Char} (other : special ≠ '\\') (text : List Char) :
    (backslashed special text).count '\\' = text.count special + text.count '\\' := by
  induction text with
  | nil => rfl
  | cons d rest ih => grind [backslashed_cons]

/-- A text of which only the quotes are escaped is read back where it has no backslash and nothing
in it opens an interpolation. -/
theorem readPlain_backslashed (text : List Char) :
    readPlain rules (backslashed '"' text ++ ['"']) = some text ↔
      '\\' ∉ text ∧ NoInterpolation rules text := by
  have whole (absent : '\\' ∉ text) : backslashed '"' text = escaped text := by
    rw [escaped, backslashed_of_notMem absent]
  constructor
  · intro found
    have absent : '\\' ∉ text := by
      -- A backslash would take the character behind it, and the name would be shorter.
      have lengths := readPlain_length rules found
      simp only [List.length_append, List.count_append, length_backslashed,
        count_backslashed (show '"' ≠ '\\' by decide),
        count_backslashed_self (show '"' ≠ '\\' by decide)] at lengths
      rw [← List.count_eq_zero]
      simp at lengths
      omega
    exact ⟨absent, (readPlain_escaped rules text).mp (by rwa [← whole absent])⟩
  · rintro ⟨absent, uninterrupted⟩
    rw [whole absent]
    exact (readPlain_escaped rules text).mpr uninterrupted

end plain

/-! ### Expressions -/

section expressions

/-- A lexeme of an expression: a sign as it is written, or a literal with the text that it
denotes. -/
inductive Lexeme where
  | sign (text : List Char)
  | literal (text : List Char)
  deriving DecidableEq

/-- What a reader of lexemes is within: nothing, or a word, a path of the search path or a literal, of
which it has read a part. -/
inductive Within where
  | between
  | word (read : List Char)
  | path (read : List Char)
  | literal (read : List Char) (escaped : Bool)
  deriving DecidableEq

/-- The marks of the expressions that are written here. -/
def marks : List Char := ['\x7b', '\x7d', '[', ']', '(', ')', '=', ';', '.']

/-- What a character between lexemes begins. -/
def begins (c : Char) : Option (List Lexeme × Within) :=
  if c = ' ' ∨ c = '\n' then some ([], .between)
  else if c.isAlpha || c == '_' then some ([], .word [c])
  else if c = '<' then some ([], .path [c])
  else if c = '"' then some ([], .literal [] false)
  else if c ∈ marks then some ([.sign [c]], .between)
  else none

variable (rules : LexicalRules)

/-- The lexemes that a character completes, and what the reader is within behind it. -/
def advance : Within → Char → Option (List Lexeme × Within)
  | .between, c => begins c
  | .word read, c =>
    if c.isAlphanum || c == '_' || c == '\x27' || c == '-' then some ([], .word (read ++ [c]))
    else (begins c).map fun (lexemes, next) => (.sign read :: lexemes, next)
  | .path read, c =>
    if c = '>' then some ([.sign (read ++ [c])], .between) else some ([], .path (read ++ [c]))
  | .literal read true, c => some ([], .literal (read ++ [c]) false)
  | .literal read false, c =>
    if c = '"' then
      (readPlain rules (read ++ [c])).map fun text => ([.literal text], .between)
    else some ([], .literal (read ++ [c]) (c == '\\'))

/-- Read the lexemes of an expression up to the first indented literal, and leave this one. -/
def readFront : Within → List Char → Option (List Lexeme × List Char)
  | .between, '\x27' :: '\x27' :: rest => some ([], '\x27' :: '\x27' :: rest)
  | within, c :: rest =>
    (advance rules within c).bind fun (lexemes, next) =>
      (readFront next rest).map fun (others, literal) => (lexemes ++ others, literal)
  | _, [] => none

/-- The lexemes of a text in which there is no indented literal. -/
def readLexemes : Within → List Char → Option (List Lexeme × Within)
  | within, [] => some ([], within)
  | within, c :: rest =>
    (advance rules within c).bind fun (lexemes, next) =>
      (readLexemes next rest).map fun (others, last) => (lexemes ++ others, last)

/-- A text is read as some lexemes, whatever is behind it. -/
def Lexes (within : Within) (text : List Char) (lexemes : List Lexeme) (next : Within) : Prop :=
  ∀ rest, readFront rules within (text ++ rest) =
    (readFront rules next rest).map fun (others, literal) => (lexemes ++ others, literal)

variable {rules}

/-- Nothing is read in an empty text. -/
theorem Lexes.nil (within : Within) : Lexes rules within [] [] within := by
  intro rest
  simp

/-- Texts behind one another are read one after the other. -/
theorem Lexes.append {within next last : Within} {text text' : List Char}
    {lexemes lexemes' : List Lexeme} (front : Lexes rules within text lexemes next)
    (back : Lexes rules next text' lexemes' last) :
    Lexes rules within (text ++ text') (lexemes ++ lexemes') last := by
  -- What the first one leaves to be read is read as the second one.
  intro rest
  rw [List.append_assoc, front, back, Option.map_map]
  refine congrArg (Option.map · _) (funext fun read => ?_)
  simp

/-- A character that opens no indented literal is read by itself. -/
theorem Lexes.char {within next : Within} {c : Char} {lexemes : List Lexeme}
    (read : advance rules within c = some (lexemes, next))
    (single : within = .between → c ≠ '\x27') : Lexes rules within [c] lexemes next := by
  -- Only a quote would have been looked at together with what follows it.
  intro rest
  rw [List.singleton_append, readFront, read]
  · rfl
  · intro tail between quote _
    exact single between quote

/-- So are some texts, one for each of some items. -/
theorem Lexes.flatMap {τ : Type} {items : List τ} {text : τ → List Char}
    {lexemes : τ → List Lexeme}
    (each : ∀ x ∈ items, Lexes rules .between (text x) (lexemes x) .between) :
    Lexes rules .between (items.flatMap text) (items.flatMap lexemes) .between := by
  -- By induction on the items.
  induction items with
  | nil => exact Lexes.nil .between
  | cons x items ih =>
    obtain ⟨first, others⟩ := List.forall_mem_cons.mp each
    exact first.append (ih others)

/-- A text without quotes is read as its lexemes. -/
theorem Lexes.of_readLexemes {within next : Within} {text : List Char} {lexemes : List Lexeme}
    (noQuote : '\x27' ∉ text) (read : readLexemes rules within text = some (lexemes, next)) :
    Lexes rules within text lexemes next := by
  -- Character by character: without a quote no indented literal is opened.
  induction text generalizing within lexemes with
  | nil =>
    cases read
    exact Lexes.nil _
  | cons c rest ih =>
    rw [List.mem_cons, not_or] at noQuote
    simp only [readLexemes, Option.bind_eq_some_iff, Option.map_eq_some_iff] at read
    obtain ⟨⟨first, behind⟩, step, ⟨others, last⟩, inner, same⟩ := read
    cases same
    exact (Lexes.char step fun _ => Ne.symm noQuote.1).append (ih noQuote.2 inner)

/-- Behind a part of a word its other characters are read. -/
theorem Lexes.word {name : List Char}
    (named : ∀ c ∈ name, (c.isAlphanum || c == '_' || c == '\x27' || c == '-') = true)
    (read : List Char) : Lexes rules (.word read) name [] (.word (read ++ name)) := by
  -- By induction on the name, with the part of the word that has been read.
  induction name generalizing read with
  | nil => simpa using Lexes.nil (.word read)
  | cons c name ih =>
    obtain ⟨first, others⟩ := List.forall_mem_cons.mp named
    have step : advance rules (.word read) c = some ([], .word (read ++ [c])) := if_pos first
    have whole := (Lexes.char step nofun).append (ih others (read ++ [c]))
    rwa [List.append_assoc, List.singleton_append] at whole

/-- A bare name begins a word. -/
theorem Lexes.identifier {name : List Char} (bare : isIdentifier name = true) :
    Lexes rules .between name [] (.word name) := by
  cases name with
  | nil => cases bare
  -- A name has a first character, which is a letter and so neither a blank nor a quote.
  | cons first rest =>
    simp only [isIdentifier, Bool.and_eq_true, List.all_eq_true] at bare
    obtain ⟨⟨letter, others⟩, -⟩ := bare
    have noBlank : ¬ (first = ' ' ∨ first = '\n') := by
      rintro (rfl | rfl) <;> exact absurd letter (by decide)
    have noQuote : first ≠ '\x27' := by
      rintro rfl
      exact absurd letter (by decide)
    have step : advance rules .between first = some ([], .word [first]) := by
      rw [advance, begins, if_neg noBlank, if_pos letter]
    exact (Lexes.char step fun _ => noQuote).append (Lexes.word others [first])

/-- The lexemes of a path of attributes. -/
def attrLexemes (parts : List (List Char)) : List Lexeme :=
  [.sign ['.']].intercalate (parts.map fun part => [.sign part])

/-- A path of attributes is read as its names with dots between them, up to the end of the line. -/
theorem Lexes.attrPath {parts : List (List Char)} (more : parts ≠ [])
    (bare : ∀ part ∈ parts, isIdentifier part = true) :
    Lexes rules .between (['.'].intercalate parts ++ ['\n']) (attrLexemes parts) .between := by
  -- By induction on the names: a dot ends a name, and so does the end of the line.
  induction parts with
  | nil => exact absurd rfl more
  | cons part parts ih =>
    obtain ⟨first, others⟩ := List.forall_mem_cons.mp bare
    have name := @Lexes.identifier rules part first
    cases parts with
    | nil =>
      have last : advance rules (.word part) '\n' = some ([.sign part], .between) := rfl
      simpa [attrLexemes, List.intercalate] using name.append (Lexes.char last nofun)
    | cons second parts =>
      have dot : advance rules (.word part) '.' = some ([.sign part, .sign ['.']], .between) := rfl
      have whole := (name.append (Lexes.char dot nofun)).append (ih (List.cons_ne_nil _ _) others)
      simpa [attrLexemes, List.intercalate] using whole

/-- The text of a literal is read up to its end, where it has neither quotes nor backslashes. -/
theorem Lexes.inLiteral {text : List Char} (noQuote : '"' ∉ text) (noEscape : '\\' ∉ text)
    (read : List Char) :
    Lexes rules (.literal read false) text [] (.literal (read ++ text) false) := by
  -- By induction on the text, with the part of the literal that has been read.
  induction text generalizing read with
  | nil => simpa using Lexes.nil (.literal read false)
  | cons c text ih =>
    rw [List.mem_cons, not_or] at noQuote noEscape
    have step : advance rules (.literal read false) c =
        some ([], .literal (read ++ [c]) false) := by
      rw [advance, if_neg (Ne.symm noQuote.1), beq_eq_false_iff_ne.mpr (Ne.symm noEscape.1)]
    have whole := (Lexes.char step nofun).append (ih noQuote.2 noEscape.2 (read ++ [c]))
    rwa [List.append_assoc, List.singleton_append] at whole

/-- A text that opens no interpolation either is read as itself. -/
theorem Lexes.literal {text : List Char} (noQuote : '"' ∉ text) (noEscape : '\\' ∉ text)
    (uninterrupted : NoInterpolation rules text) :
    Lexes rules (.literal [] false) (text ++ ['"']) [.literal text] .between := by
  -- Nothing in the text has to be unescaped.
  have back := (readPlain_backslashed rules text).mpr ⟨noEscape, uninterrupted⟩
  rw [backslashed_of_notMem noQuote] at back
  have last : advance rules (.literal text false) '"' = some ([.literal text], .between) := by
    rw [advance, if_pos rfl, back]
    rfl
  exact (Lexes.inLiteral noQuote noEscape []).append (Lexes.char last nofun)

/-- The lexemes end in front of the first indented literal. -/
theorem Lexes.front {text rest : List Char} {lexemes : List Lexeme}
    (lexes : Lexes rules .between text lexemes .between) :
    readFront rules .between (text ++ '\x27' :: '\x27' :: rest) =
      some (lexemes, '\x27' :: '\x27' :: rest) := by
  rw [lexes, readFront]
  simp

end expressions

end Tatara.Nix
