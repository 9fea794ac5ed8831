import Mathlib.Data.List.Infix
import Mathlib.Logic.Function.Basic
import Tatara.Lib.Delimited

/-! A small shell: how a script is read, with quotes and here-documents, and what its commands do to
a file system. -/

namespace Tatara.Shell

-- A statement about the characters of a text is decided on these, not on all characters.
attribute [local instance (high)] List.decidableBAll

/-! ### Words -/

/-- A character of a word, which stands in quotes or not. -/
inductive Symbol where
  | bare (c : Char)
  | quoted (c : Char)
  deriving DecidableEq, Repr

/-- What a line of a script is made of: words, and the operators between them. -/
inductive Token (word : Type) where
  | word (w : word)
  | write
  | append
  | hereDoc
  | and
  deriving DecidableEq, Repr

/-- Where the reader of a line is. -/
inductive Mode where
  | plain
  | quotes
  | parens
  deriving DecidableEq, Repr

/-- The characters with a meaning that this shell does not know. -/
def foreign : List Char :=
  ['\x22', '\x60', '#', ';', '|', '*', '?', '[', '~', '!', ')', '\t', '\r']

/-- The characters that end a word, or begin something else. -/
def special : List Char := ['\n', ' ', '\x27', '\\', '(', '>', '<', '&']

/-- A character that goes into a word as it stands. -/
def isWordChar (c : Char) : Bool := c ∉ foreign ∧ c ∉ special

/-- A symbol goes on with a word. -/
def push (word : Option (List Symbol)) (s : Symbol) : Option (List Symbol) :=
  some (word.getD [] ++ [s])

/-- What has been read goes in front of the rest of a line. -/
def emit (word : Option (List Symbol)) (operators : List (Token (List Symbol)))
    (line : Option (List (Token (List Symbol)) × List Char)) :
    Option (List (Token (List Symbol)) × List Char) :=
  line.map fun (tokens, rest) => (word.toList.map Token.word ++ operators ++ tokens, rest)

/-- Read a line up to its end outside of quotes: its words and operators, and the text behind it. -/
def readLine : Mode → Option (List Symbol) → List Char →
    Option (List (Token (List Symbol)) × List Char)
  | .quotes, _, [] | .parens, _, [] => none
  | .quotes, word, c :: rest =>
    if c = '\x27' then readLine .plain word rest
    else readLine .quotes (push word (.quoted c)) rest
  | .parens, word, c :: rest =>
    if c = ')' then readLine .plain (push word (.bare c)) rest
    else if isWordChar c ∨ c = ' ' then readLine .parens (push word (.bare c)) rest
    else none
  | .plain, word, [] => emit word [] (some ([], []))
  | .plain, word, '>' :: '>' :: rest => emit word [.append] (readLine .plain none rest)
  -- Only here-documents with a sentinel in quotes are known, which are taken as they are.
  | .plain, word, '<' :: '<' :: '\x27' :: rest =>
    emit word [.hereDoc] (readLine .quotes (some []) rest)
  | .plain, word, '&' :: '&' :: rest => emit word [.and] (readLine .plain none rest)
  | .plain, word, '\\' :: c :: rest =>
    if c = '\n' then readLine .plain word rest else readLine .plain (push word (.quoted c)) rest
  | .plain, word, c :: rest =>
    if isWordChar c then readLine .plain (push word (.bare c)) rest
    else if c = '\n' then emit word [] (some ([], rest))
    else if c = ' ' then emit word [] (readLine .plain none rest)
    else if c = '\x27' then readLine .quotes (some (word.getD [])) rest
    else if c = '(' then readLine .parens (push word (.bare c)) rest
    else if c = '>' then emit word [.write] (readLine .plain none rest)
    else none

attribute [grind =] readLine

/-- What a word is made into: its quotes are gone, and its parameters have their values. -/
inductive Expansion where
  | text
  | dollar
  | name (read : List Char)
  | braces (read : List Char)
  deriving DecidableEq, Repr

/-- A character of the name of a parameter. -/
def isNameChar (c : Char) : Bool := c.isAlphanum || c == '_'

section expansion

variable (value : List Char → List Char)

/-- Replace the parameters of a word by their values. -/
def expand : Expansion → List Symbol → Option (List Char)
  | .text, [] => some []
  | .text, .bare c :: rest =>
    if c = '$' then expand .dollar rest else (expand .text rest).map (c :: ·)
  | .text, .quoted c :: rest => (expand .text rest).map (c :: ·)
  | .dollar, .bare c :: rest =>
    if c = '\x7b' then expand (.braces []) rest
    else if isNameChar c then expand (.name [c]) rest
    else none
  | .dollar, [] | .dollar, .quoted _ :: _ => none
  | .name read, [] => some (value read)
  | .name read, .bare c :: rest =>
    if isNameChar c then expand (.name (read ++ [c])) rest
    else if c = '$' then (expand .dollar rest).map (value read ++ ·)
    else (expand .text rest).map (value read ++ c :: ·)
  | .name read, .quoted c :: rest => (expand .text rest).map (value read ++ c :: ·)
  | .braces read, .bare c :: rest =>
    if c = '\x7d' then (expand .text rest).map (value read ++ ·)
    else expand (.braces (read ++ [c])) rest
  | .braces _, [] | .braces _, .quoted _ :: _ => none

/-- The text in front of the last slash. -/
def dirname (text : List Char) : List Char :=
  ((text.reverse.dropWhile (· ≠ '/')).drop 1).reverse

/-- The text that a word stands for, which may be the directory of another one. -/
def wordText (word : List Symbol) : Option (List Char) :=
  match word with
  | .bare '$' :: .bare '(' :: inner =>
    if inner.getLast? = some (.bare ')') then
      match (inner.dropLast.splitOn (.bare ' ')).mapM (expand value .text) with
      | some [command, path] => if command = "dirname".toList then some (dirname path) else none
      | _ => none
    else none
  | _ => expand value .text word

/-- The words of a line have their values. -/
def tokenText : Token (List Symbol) → Option (Token (List Char))
  | .word w => (wordText value w).map .word
  | .write => some .write
  | .append => some .append
  | .hereDoc => some .hereDoc
  | .and => some .and

end expansion

/-! ### Commands -/

/-- A command: its words, and whether its output goes to a file, and behind what is there. -/
structure Simple where
  words : List (List Char) := []
  output : Option (Bool × List Char) := none
  deriving DecidableEq, Repr

/-- The commands of a line, of which each one follows if those before it have succeeded. -/
def commands (command : Simple) : List (Token (List Char)) → Option (List Simple)
  | [] => some [command]
  | .word w :: rest => commands { command with words := command.words ++ [w] } rest
  | .and :: rest => (commands {} rest).map (command :: ·)
  | .write :: .word w :: rest => commands { command with output := some (false, w) } rest
  | .append :: .word w :: rest => commands { command with output := some (true, w) } rest
  | .hereDoc :: .word _ :: rest => commands command rest
  | .write :: _ | .append :: _ | .hereDoc :: _ => none

/-- The sentinel of the here-document of a line. -/
def sentinel? : List (Token (List Char)) → Option (List Char)
  | .hereDoc :: .word w :: _ => some w
  | _ :: rest => sentinel? rest
  | [] => none

/-- The text in front of the first line that is the sentinel, and the text behind that line. -/
def hereBody (sentinel : List Char) : List Char → List Char → List Char × List Char
  | line, [] => if line = sentinel then ([], []) else (line, [])
  | line, c :: rest =>
    if c = '\n' then
      if line = sentinel then ([], rest)
      else
        let (body, behind) := hereBody sentinel [] rest
        (line ++ '\n' :: body, behind)
    else hereBody sentinel (line ++ [c]) rest

/-- A line with its commands and its here-document. -/
structure Line where
  commands : List Simple
  body : List Char
  deriving DecidableEq, Repr

/-- Read one line with its here-document, and leave the text behind it. -/
def readOne (value : List Char → List Char) (text : List Char) : Option (Line × List Char) :=
  (readLine .plain none text).bind fun (words, rest) =>
    (words.mapM (tokenText value)).bind fun tokens =>
      (commands {} tokens).map fun simples =>
        match sentinel? tokens with
        | none => (⟨simples, []⟩, rest)
        | some sentinel => (⟨simples, (hereBody sentinel [] rest).1⟩, (hereBody sentinel [] rest).2)

/-! ### Files -/

/-- The names on the way to a file. -/
abbrev Path := List (List Char)

/-- What there is at a path. -/
inductive Node where
  | directory
  | file (text : List Char)
  | link (target : List Char)
  deriving DecidableEq, Repr

/-- What there is. -/
abbrev FileSystem := Path → Option Node

/-- The path that a text names, without a slash at its end and dots in place of names. -/
def pathOf (text : List Char) : Option Path :=
  let names := (text.splitOn '/').filter (· ≠ [])
  if names = [] ∨ text.getLast? = some '/' ∨ ['.'] ∈ names ∨ ['.', '.'] ∈ names then none
  else some names

/-- There is a directory in which the path can be. -/
def HasParent (fs : FileSystem) (path : Path) : Prop :=
  path ≠ [] ∧ fs path.dropLast = some .directory

instance (fs : FileSystem) (path : Path) : Decidable (HasParent fs path) :=
  inferInstanceAs (Decidable (_ ∧ _))

/-- `mkdir -p`, in whose way only directories may be. -/
def makeDirectories (fs : FileSystem) (path : Path) : Option FileSystem :=
  if ∀ front ∈ path.inits, fs front = none ∨ fs front = some .directory then
    some fun other => if other <+: path then some .directory else fs other
  else none

/-- A file is written, or written on. -/
def writeFile (fs : FileSystem) (path : Path) (append : Bool) (text : List Char) :
    Option FileSystem :=
  if HasParent fs path then
    match fs path with
    | none => some (Function.update fs path (some (.file text)))
    | some (.file before) =>
      some (Function.update fs path (some (.file (if append then before ++ text else text))))
    | some .directory | some (.link _) => none
  else none

/-- `ln -s`, where nothing is yet. -/
def makeLink (fs : FileSystem) (target : List Char) (path : Path) : Option FileSystem :=
  if HasParent fs path ∧ fs path = none then some (Function.update fs path (some (.link target)))
  else none

/-! ### Runs -/

/-- What the surroundings of a script determine: the values of parameters, each of which is one word
of its own, and what `echo` prints, which is its words unless the first one is an option or there
are backslashes. -/
structure Surroundings where
  value : List Char → List Char
  value_plain : ∀ name, value name ≠ [] ∧ ∀ c ∈ value name, isWordChar c = true
  echo : List (List Char) → List Char
  echo_plain : ∀ words, words.head? ≠ some ['-', 'n'] → (∀ word ∈ words, '\\' ∉ word) →
    echo words = [' '].intercalate words ++ ['\n']

/-- The files, and whether the script ends where a command fails, and the last one has succeeded. -/
structure State where
  fs : FileSystem
  errexit : Bool := false
  succeeded : Bool := true

section runs

variable (env : Surroundings)

/-- The output of a command and the state behind it, where it succeeds. -/
def builtin (st : State) (body : List Char) : List (List Char) → Option (List Char × State)
  | [] => some ([], st)
  | command :: arguments =>
    if command = "set".toList then
      some ([], { st with
        errexit := st.errexit || arguments.any fun flags => flags.head? = some '-' && 'e' ∈ flags })
    else if command = "echo".toList then some (env.echo arguments, st)
    else if command = ":".toList then some ([], st)
    else if command = "cat".toList ∧ arguments = [] then some (body, st)
    else if command = "mkdir".toList then
      match arguments with
      | [flag, path] =>
        if flag = "-p".toList then
          ((pathOf path).bind (makeDirectories st.fs)).map fun fs => ([], { st with fs })
        else none
      | _ => none
    else if command = "ln".toList then
      match arguments with
      | [flag, target, path] =>
        if flag = "-s".toList then
          ((pathOf path).bind (makeLink st.fs target)).map fun fs => ([], { st with fs })
        else none
      | _ => none
    else none

/-- Run one command, whose output may go to a file. -/
def Simple.run (command : Simple) (body : List Char) (st : State) : Option State :=
  (builtin env st body command.words).bind fun (text, st) =>
    match command.output with
    | none => some st
    | some (append, target) =>
      ((pathOf target).bind fun path => writeFile st.fs path append text).map fun fs =>
        { st with fs }

/-- Run the commands of a line. A failure ends the script only at the last of them. -/
def runAll (body : List Char) : List Simple → State → Option State
  | [], st => some st
  | [last], st =>
    match last.run env body st with
    | some behind => some { behind with succeeded := true }
    | none => if st.errexit then none else some { st with succeeded := false }
  | command :: rest, st =>
    match command.run env body st with
    | some behind => runAll body rest behind
    | none => some { st with succeeded := false }

end runs

/-- A command that succeeds lets the next one run. -/
theorem runAll_cons {env : Surroundings} {st behind : State} {body : List Char} {command : Simple}
    {others : List Simple} (ran : command.run env body st = some behind) (more : others ≠ []) :
    runAll env body (command :: others) st = runAll env body others behind := by
  obtain ⟨next, others, rfl⟩ := List.exists_cons_of_ne_nil more
  rw [runAll, ran]
  simp

/-! ### Reading a line -/

/-- What is behind a line is behind what has been read of it. -/
theorem emit_eq_some {word : Option (List Symbol)} {operators tokens : List (Token (List Symbol))}
    {line : Option (List (Token (List Symbol)) × List Char)} {rest : List Char}
    (read : emit word operators line = some (tokens, rest)) : ∃ behind, line = some (behind, rest) := by
  obtain ⟨⟨behind, left⟩, found, same⟩ := Option.map_eq_some_iff.mp read
  cases same
  exact ⟨behind, found⟩

/-- What is left behind a line is shorter than the text by its newline. -/
theorem length_readLine {mode : Mode} {word : Option (List Symbol)} {text rest : List Char}
    {tokens : List (Token (List Symbol))} (read : readLine mode word text = some (tokens, rest)) :
    rest.length ≤ text.length - 1 := by
  fun_induction readLine mode word text generalizing tokens
  all_goals grind [emit_eq_some]

/-- A here-document never leaves more than there was. -/
theorem length_hereBody (sentinel line text : List Char) :
    (hereBody sentinel line text).2.length ≤ text.length := by
  -- By induction on the text: the sentinel ends it, and every other line is taken.
  induction text generalizing line with
  | nil =>
    unfold hereBody
    split <;> simp
  | cons c rest ih =>
    unfold hereBody
    split
    · split
      · simp
      · exact Nat.le_succ_of_le (ih [])
    · exact Nat.le_succ_of_le (ih _)

/-- Something of the text is read. -/
theorem length_readOne {value : List Char → List Char} {text rest : List Char} {line : Line}
    (more : text ≠ []) (read : readOne value text = some (line, rest)) :
    rest.length < text.length := by
  -- The line takes something of the text, and the here-document never gives anything back.
  have positive := List.length_pos_iff.mpr more
  obtain ⟨⟨words, behind⟩, first, read⟩ := Option.bind_eq_some_iff.mp read
  obtain ⟨tokens, -, read⟩ := Option.bind_eq_some_iff.mp read
  obtain ⟨simples, -, read⟩ := Option.map_eq_some_iff.mp read
  have shorter := length_readLine first
  split at read
  · cases read
    omega
  · rename_i sentinel _
    have body := length_hereBody sentinel [] behind
    cases read
    omega

/-- Run a script line by line, as far as it goes. -/
def run (env : Surroundings) (st : State) (text : List Char) : Option State :=
  if _ended : text = [] then some st
  else
    match _read : readOne env.value text with
    | none => none
    | some (line, rest) =>
      match runAll env line.body line.commands st with
      | none => none
      | some behind => run env behind rest
termination_by text.length
decreasing_by exact length_readOne _ended _read

/-! ### Laws of running -/

variable {env : Surroundings} {st : State}

/-- Nothing is left to run. -/
@[simp] theorem run_nil : run env st [] = some st := by
  rw [run]
  simp

/-- The first line is run, and then the others. -/
theorem run_line {text rest : List Char} {line : Line} (more : text ≠ [])
    (read : readOne env.value text = some (line, rest)) :
    run env st text = (runAll env line.body line.commands st).bind (run env · rest) := by
  -- The text is not empty, and its first line is the one that is known.
  rw [run, dif_neg more]
  split
  · rename_i unread
    rw [read] at unread
    cases unread
  · rename_i line' rest' read'
    rw [read] at read'
    cases read'
    cases runAll env line.body line.commands st <;> rfl

/-! ### Lines that are written -/

/-- A part of a word: some characters as they are, in quotes, or in parentheses. -/
inductive Part where
  | plain (text : List Char)
  | quotes (text : List Char)
  | parens (text : List Char)

/-- A text as it is written in quotes, which are closed for a quote of its own. -/
def escapeQuotes (text : List Char) : List Char :=
  text.flatMap fun c => if c = '\x27' then ['\x27', '\\', '\x27', '\x27'] else [c]

namespace Part

/-- How a part is written. -/
def spell : Part → List Char
  | plain text => text
  | quotes text => '\x27' :: (escapeQuotes text ++ ['\x27'])
  | parens text => '(' :: (text ++ [')'])

/-- The symbols that are read of a part. -/
def symbols : Part → List Symbol
  | plain text => text.map .bare
  | quotes text => text.map .quoted
  | parens text => .bare '(' :: (text.map .bare ++ [.bare ')'])

/-- Nothing in a part ends it. -/
def Sound : Part → Prop
  | plain text => text ≠ [] ∧ ∀ c ∈ text, isWordChar c = true
  | quotes _ => True
  | parens text => ∀ c ∈ text, isWordChar c = true ∨ c = ' '

instance : DecidablePred Sound
  | plain _ => inferInstanceAs (Decidable (_ ∧ _))
  | quotes _ => .isTrue trivial
  | parens text => inferInstanceAs (Decidable (∀ c ∈ text, _))

end Part

/-- A character of a word goes on with the word. -/
theorem readLine_wordChar {word : Option (List Symbol)} {c : Char} (plain : isWordChar c = true)
    (rest : List Char) :
    readLine .plain word (c :: rest) = readLine .plain (push word (.bare c)) rest := by
  -- None of the characters with a meaning of their own is part of a word.
  have special : c ≠ '>' ∧ c ≠ '<' ∧ c ≠ '&' ∧ c ≠ '\\' := by
    refine ⟨?_, ?_, ?_, ?_⟩ <;> rintro rfl <;> exact absurd plain (by decide)
  rw [readLine, if_pos plain]
  · rintro _ rfl
    exact absurd rfl special.1
  · rintro _ rfl
    exact absurd rfl special.2.1
  · rintro _ rfl
    exact absurd rfl special.2.2.1
  · rintro _ _ rfl
    exact absurd rfl special.2.2.2

/-- Characters of a word are read one after the other. -/
theorem readLine_wordChars {read : List Symbol} {text : List Char}
    (plain : ∀ c ∈ text, isWordChar c = true) (rest : List Char) :
    readLine .plain (some read) (text ++ rest) =
      readLine .plain (some (read ++ text.map .bare)) rest := by
  -- By induction on the text: each character goes behind what has been read.
  induction text generalizing read with
  | nil => simp
  | cons c text ih =>
    rw [List.cons_append, readLine_wordChar (plain c List.mem_cons_self), push,
      Option.getD_some, ih fun d inside => plain d (List.mem_cons_of_mem _ inside)]
    simp

/-- Everything up to the closing quote is quoted. -/
theorem readLine_quotes (read : List Symbol) (text rest : List Char) :
    readLine .quotes (some read) (escapeQuotes text ++ '\x27' :: rest) =
      readLine .plain (some (read ++ text.map .quoted)) rest := by
  induction text generalizing read with
  | nil => simp [readLine, escapeQuotes]
  | cons c text ih =>
    have goes : readLine .quotes (some read) (escapeQuotes (c :: text) ++ '\x27' :: rest) =
        readLine .quotes (some (read ++ [.quoted c])) (escapeQuotes text ++ '\x27' :: rest) := by
      by_cases quote : c = '\x27'
      · -- The quotes are closed, the quote stands behind a backslash, and they are opened again.
        subst quote
        rfl
      · simp [escapeQuotes, quote, readLine, push]
    rw [goes, ih, List.append_assoc]
    rfl

/-- What stands in parentheses goes on with the word, up to the closing one. -/
theorem readLine_parens {read : List Symbol} {text : List Char}
    (inner : ∀ c ∈ text, isWordChar c = true ∨ c = ' ') (rest : List Char) :
    readLine .parens (some read) (text ++ ')' :: rest) =
      readLine .plain (some (read ++ text.map .bare ++ [.bare ')'])) rest := by
  -- By induction on the text, which has no closing parenthesis itself.
  induction text generalizing read with
  | nil => simp [readLine, push]
  | cons c text ih =>
    have here := inner c List.mem_cons_self
    have other : c ≠ ')' := by
      rintro rfl
      exact absurd here (by decide)
    rw [List.cons_append, readLine, if_neg other, if_pos here, push, Option.getD_some,
      ih fun d inside => inner d (List.mem_cons_of_mem _ inside)]
    simp

/-- A part is read as a whole. -/
theorem readLine_part {word : Option (List Symbol)} {part : Part} (sound : part.Sound)
    (rest : List Char) :
    readLine .plain word (part.spell ++ rest) =
      readLine .plain (some (word.getD [] ++ part.symbols)) rest := by
  -- Plain characters are read one by one; the two others are opened, read and closed.
  cases part with
  | plain text =>
    obtain ⟨more, plain⟩ := sound
    obtain ⟨c, text, rfl⟩ := List.exists_cons_of_ne_nil more
    rw [Part.spell, List.cons_append, readLine_wordChar (plain c List.mem_cons_self), push,
      readLine_wordChars fun d inside => plain d (List.mem_cons_of_mem _ inside)]
    simp [Part.symbols]
  | quotes text =>
    have opened : readLine .plain word ('\x27' :: (escapeQuotes text ++ '\x27' :: rest)) =
        readLine .quotes (some (word.getD [])) (escapeQuotes text ++ '\x27' :: rest) := rfl
    rw [Part.spell, List.cons_append, List.append_assoc, List.singleton_append, opened,
      readLine_quotes]
    rfl
  | parens text =>
    have opened : readLine .plain word ('(' :: (text ++ ')' :: rest)) =
        readLine .parens (push word (.bare '(')) (text ++ ')' :: rest) := rfl
    rw [Part.spell, List.cons_append, List.append_assoc, List.singleton_append, opened, push,
      readLine_parens sound]
    simp [Part.symbols]

/-- A word is read part by part. -/
theorem readLine_parts {word : Option (List Symbol)} {parts : List Part} (more : parts ≠ [])
    (sound : ∀ part ∈ parts, part.Sound) (rest : List Char) :
    readLine .plain word (parts.flatMap Part.spell ++ rest) =
      readLine .plain (some (word.getD [] ++ parts.flatMap Part.symbols)) rest := by
  -- By induction on the parts: behind the first of them there is a word already.
  induction parts generalizing word with
  | nil => exact absurd rfl more
  | cons part parts ih =>
    rw [List.flatMap_cons, List.append_assoc, readLine_part (sound part List.mem_cons_self)]
    by_cases last : parts = []
    · subst last
      simp
    · rw [ih last fun other inside => sound other (List.mem_cons_of_mem _ inside)]
      simp

/-- How an item of a line is written, with what separates it from the next one. -/
def spellToken (last : Bool) : Token (List Part) → List Char
  | .word parts => parts.flatMap Part.spell ++ if last then [] else [' ']
  | .write => ['>', ' ']
  | .append => ['>', '>', ' ']
  | .hereDoc => ['<', '<']
  | .and => ['&', '&', ' ']

/-- How a line is written. -/
def spell : List (Token (List Part)) → List Char
  | [] => []
  | token :: rest => spellToken rest.isEmpty token ++ spell rest

/-- Every word has parts that can be told apart, and the word behind `<<` is in quotes. -/
def Sound : List (Token (List Part)) → Prop
  | [] => True
  | .word parts :: rest => parts ≠ [] ∧ (∀ part ∈ parts, part.Sound) ∧ Sound rest
  | .hereDoc :: .word [.quotes _] :: rest => Sound rest
  | .hereDoc :: _ => False
  | .write :: rest | .append :: rest | .and :: rest => Sound rest

/-- A word of one part. -/
theorem Sound.word {part : Part} {rest : List (Token (List Part))} (sound : part.Sound)
    (behind : Sound rest) : Sound (.word [part] :: rest) :=
  ⟨List.cons_ne_nil _ _, by simpa using sound, behind⟩

/-- The tokens that are read of an item. -/
def symbolsOf : Token (List Part) → Token (List Symbol)
  | .word parts => .word (parts.flatMap Part.symbols)
  | .write => .write
  | .append => .append
  | .hereDoc => .hereDoc
  | .and => .and

/-- A word ends where the line ends, or at the blank in front of the next item. -/
theorem readLine_end {read : List Symbol} {tokens : List (Token (List Part))} {rest : List Char}
    (others : readLine .plain none (spell tokens ++ '\n' :: rest) =
      some (tokens.map symbolsOf, rest)) :
    readLine .plain (some read)
        ((if tokens.isEmpty then [] else [' ']) ++ (spell tokens ++ '\n' :: rest)) =
      some (.word read :: tokens.map symbolsOf, rest) := by
  -- Without another item the newline comes next, and else the blank.
  cases tokens with
  | nil => rfl
  | cons token tokens =>
    have blank (text : List Char) : readLine .plain (some read) (' ' :: text) =
        emit (some read) [] (readLine .plain none text) := rfl
    rw [List.isEmpty_cons, if_neg Bool.false_ne_true, List.singleton_append, blank, others]
    rfl

/-- A line that is written is read. -/
theorem readLine_spell {tokens : List (Token (List Part))} (sound : Sound tokens)
    (rest : List Char) :
    readLine .plain none (spell tokens ++ '\n' :: rest) = some (tokens.map symbolsOf, rest) := by
  -- The cases are those of what a sound line is.
  fun_induction Sound tokens with
  | case1 => rfl
  | case2 parts tokens ih =>
    obtain ⟨more, inner, sound⟩ := sound
    rw [spell, spellToken, List.append_assoc, List.append_assoc, readLine_parts more inner,
      readLine_end (ih sound)]
    rfl
  | case3 sentinel tokens ih =>
    have opened (text : List Char) : readLine .plain none ('<' :: '<' :: '\x27' :: text) =
        emit none [.hereDoc] (readLine .quotes (some []) text) := rfl
    have written : spell (.hereDoc :: .word [.quotes sentinel] :: tokens) ++ '\n' :: rest =
        '<' :: '<' :: '\x27' :: (escapeQuotes sentinel ++ '\x27' ::
          ((if tokens.isEmpty then [] else [' ']) ++ (spell tokens ++ '\n' :: rest))) := by
      simp [spell, spellToken, Part.spell]
    rw [written, opened, readLine_quotes, readLine_end (ih sound)]
    simp [emit, symbolsOf, Part.symbols]
  | case4 => exact sound.elim
  | case5 tokens ih =>
    have opened (text : List Char) : readLine .plain none ('>' :: ' ' :: text) =
        emit none [.write] (emit none [] (readLine .plain none text)) := rfl
    rw [spell, spellToken, List.append_assoc, List.cons_append, List.singleton_append, opened,
      ih sound]
    rfl
  | case6 tokens ih =>
    have opened (text : List Char) : readLine .plain none ('>' :: '>' :: ' ' :: text) =
        emit none [.append] (emit none [] (readLine .plain none text)) := rfl
    rw [spell, spellToken, List.append_assoc, List.cons_append, List.cons_append,
      List.singleton_append, opened, ih sound]
    rfl
  | case7 tokens ih =>
    have opened (text : List Char) : readLine .plain none ('&' :: '&' :: ' ' :: text) =
        emit none [.and] (emit none [] (readLine .plain none text)) := rfl
    rw [spell, spellToken, List.append_assoc, List.cons_append, List.cons_append,
      List.singleton_append, opened, ih sound]
    rfl

/-! ### Values of words -/

section values

variable {value : List Char → List Char}

/-- Characters that open nothing stand for themselves. -/
theorem expand_bare {text : List Char} (plain : '$' ∉ text) (rest : List Symbol) :
    expand value .text (text.map .bare ++ rest) = (expand value .text rest).map (text ++ ·) := by
  -- By induction on the text, in which nothing is a dollar sign.
  induction text with
  | nil => simp
  | cons c text ih =>
    have other : c ≠ '$' := fun same => plain (same ▸ List.mem_cons_self)
    rw [List.map_cons, List.cons_append, expand, if_neg other,
      ih fun inside => plain (List.mem_cons_of_mem _ inside), Option.map_map]
    rfl

/-- Quoted characters stand for themselves, whatever they are. -/
theorem expand_quoted (text : List Char) (rest : List Symbol) :
    expand value .text (text.map .quoted ++ rest) = (expand value .text rest).map (text ++ ·) := by
  -- By induction on the text: not even a dollar sign opens anything.
  induction text with
  | nil => simp
  | cons c text ih =>
    rw [List.map_cons, List.cons_append, expand, ih, Option.map_map]
    rfl

/-- A name is read up to the first other character. -/
theorem expand_name {read name : List Char} (named : ∀ c ∈ name, isNameChar c = true) {c : Char}
    (other : isNameChar c = false) (plain : c ≠ '$') (rest : List Symbol) :
    expand value (.name read) (name.map .bare ++ .bare c :: rest) =
      (expand value .text rest).map (value (read ++ name) ++ c :: ·) := by
  -- By induction on the name, which grows by each of its characters.
  induction name generalizing read with
  | nil => simp [expand, other, plain]
  | cons d name ih =>
    rw [List.map_cons, List.cons_append, expand, if_pos (named d List.mem_cons_self),
      ih fun e inside => named e (List.mem_cons_of_mem _ inside)]
    simp

/-- A parameter in front of another text has its value. -/
theorem expand_dollar {name text : List Char} (more : name ≠ [])
    (named : ∀ c ∈ name, isNameChar c = true) {c : Char} (other : isNameChar c = false)
    (plain : '$' ∉ c :: text) :
    expand value .text (('$' :: (name ++ c :: text)).map .bare) =
      some (value name ++ c :: text) := by
  obtain ⟨d, name, rfl⟩ := List.exists_cons_of_ne_nil more
  have here := named d List.mem_cons_self
  -- The first character goes on with a name, so that it is no brace.
  have brace : d ≠ '\x7b' := by
    rintro rfl
    exact absurd here (by decide)
  -- Behind the name there is nothing to expand.
  have behind := @expand_bare value text (fun inside => plain (List.mem_cons_of_mem c inside)) []
  have first : c ≠ '$' := fun same => plain (same ▸ List.mem_cons_self)
  rw [List.append_nil] at behind
  rw [List.map_cons, expand, if_pos rfl, List.cons_append, List.map_cons, expand, if_neg brace,
    if_pos here, List.map_append, List.map_cons,
    expand_name (fun e inside => named e (List.mem_cons_of_mem _ inside)) other first, behind]
  simp [expand]

/-- A parameter in braces has its value. -/
theorem expand_braces {read name : List Char} (inner : '\x7d' ∉ name) (rest : List Symbol) :
    expand value (.braces read) (name.map .bare ++ .bare '\x7d' :: rest) =
      (expand value .text rest).map (value (read ++ name) ++ ·) := by
  -- By induction on the name, which has no closing brace.
  induction name generalizing read with
  | nil => simp [expand]
  | cons c name ih =>
    have other : c ≠ '\x7d' := fun same => inner (same ▸ List.mem_cons_self)
    rw [List.map_cons, List.cons_append, expand, if_neg other,
      ih fun inside => inner (List.mem_cons_of_mem _ inside)]
    simp

/-- The directory of a path is the text in front of its last name. -/
theorem dirname_append {front last : List Char} (name : '/' ∉ last) :
    dirname (front ++ '/' :: last) = front := by
  have whole : (front ++ '/' :: last).reverse = last.reverse ++ '/' :: front.reverse := by simp
  -- Seen from the end, the last name is all that stands before the slash.
  have dropped : (last.reverse ++ '/' :: front.reverse).dropWhile (· ≠ '/') =
      '/' :: front.reverse := by
    rw [List.dropWhile_append_of_pos]
    · simp
    · intro c inside
      have other : c ≠ '/' := fun same => name (same ▸ List.mem_reverse.mp inside)
      simpa using other
  rw [dirname, whole, dropped]
  simp

/-- The command in parentheses has the directory for its output. -/
theorem wordText_dirname {word : List Symbol} {path : List Char} (whole : Symbol.bare ' ' ∉ word)
    (expanded : expand value .text word = some path) :
    wordText value (.bare '$' :: .bare '(' ::
        ("dirname ".toList.map .bare ++ word ++ [.bare ')'])) = some (dirname path) := by
  -- Of the two blanks that could cut the word only the one behind the command is there.
  have split : ("dirname ".toList.map Symbol.bare ++ word).splitOn (.bare ' ') =
      ["dirname".toList.map .bare, word] := by
    have joined : "dirname ".toList.map Symbol.bare ++ word =
        "dirname".toList.map .bare ++ .bare ' ' :: word := by simp
    rw [joined, List.splitOn_append_cons_self, List.splitOn_eq_singleton whole,
      List.splitOn_eq_singleton (by decide)]
    rfl
  have command : expand value .text ("dirname".toList.map .bare) = some "dirname".toList := by
    simp [expand]
  unfold wordText
  simp only [List.getLast?_concat, ↓reduceIte, List.dropLast_concat, split, List.mapM_cons,
    List.mapM_nil, command, expanded]
  rfl

end values

/-! ### Paths -/

/-- One path behind another. -/
theorem pathOf_append {front back : List Char} {path rest : Path} (found : pathOf front = some path)
    (found' : pathOf back = some rest) : pathOf (front ++ '/' :: back) = some (path ++ rest) := by
  -- The empty text is no path, so that there is something behind the slash.
  have more : back ≠ [] := by
    rintro rfl
    have none : pathOf [] = none := by decide
    rw [none] at found'
    cases found'
  have last : (front ++ '/' :: back).getLast? = back.getLast? := by
    obtain ⟨c, back, rfl⟩ := List.exists_cons_of_ne_nil more
    simp [List.getLast?_append, List.getLast?_cons]
  -- A path may neither be empty nor end in a slash; the names are those of both.
  unfold pathOf at found found' ⊢
  dsimp only at found found' ⊢
  rw [List.splitOn_append_cons_self, List.filter_append, last]
  split at found
  · cases found
  · split at found'
    · cases found'
    · rename_i plain plain'
      cases found
      cases found'
      rw [if_neg]
      simp only [List.mem_append, List.append_eq_nil_iff]
      tauto

/-- Names that are joined with slashes make up a path. -/
theorem pathOf_joined {names : Path} (more : names ≠ []) (each : ∀ name ∈ names, name ≠ [] ∧
    '/' ∉ name ∧ name ≠ ['.'] ∧ name ≠ ['.', '.']) :
    pathOf (['/'].intercalate names) = some names := by
  have split : (['/'].intercalate names).splitOn '/' = names :=
    List.splitOn_intercalate _ (fun name inside => (each name inside).2.1) more
  have open_ : (['/'].intercalate names).getLast? ≠ some '/' := by
    intro slash
    -- Behind a slash at the end there would be an empty name.
    obtain ⟨front, ended⟩ := List.getLast?_eq_some_iff.mp slash
    rw [ended, List.splitOn_append_cons_self] at split
    exact (each [] (by rw [← split]; simp)).1 rfl
  unfold pathOf
  rw [split, List.filter_eq_self.mpr fun name inside => by simpa using (each name inside).1]
  refine if_neg fun wrong => ?_
  rcases wrong with none | slash | dot | dots
  · exact more none
  · exact open_ slash
  · exact (each _ dot).2.2.1 rfl
  · exact (each _ dots).2.2.2 rfl

/-! ### Here-documents -/

/-- A file has a content, and at most one more end of a line. -/
def Contains (content text : List Char) : Prop := text = content ∨ text = content ++ ['\n']

instance (content text : List Char) : Decidable (Contains content text) :=
  inferInstanceAs (Decidable (_ ∨ _))

/-- A text that a here-document takes whole: no line of it is the sentinel, and the last one ends. -/
def Enclosed (sentinel text : List Char) : Prop :=
  (text = [] ∨ text.getLast? = some '\n') ∧ sentinel ∉ text.splitOn '\n'

instance (sentinel text : List Char) : Decidable (Enclosed sentinel text) :=
  inferInstanceAs (Decidable (_ ∧ _))

/-- A text that is spliced into a line goes into a here-document, when none of the lines that it has
for itself is the sentinel, and what is in the line with it is not of the sentinel. -/
theorem enclosed_splice {sentinel front before text behind : List Char} (more : sentinel ≠ [])
    (absent : sentinel ∉ front.splitOn '\n')
    (inner : sentinel ∉ ((text.splitOn '\n').drop 1).dropLast) (opened : ¬ before <+: sentinel)
    (closed : ¬ behind <:+ sentinel) (whole : '\n' ∉ before) (whole' : '\n' ∉ behind) :
    Enclosed sentinel (front ++ '\n' :: ((before ++ text ++ behind) ++ '\n' :: [])) := by
  have ends : (front ++ '\n' :: ((before ++ text ++ behind) ++ '\n' :: [])).getLast? =
      some '\n' := by
    rw [← List.cons_append, ← List.append_assoc, List.getLast?_concat]
  refine ⟨.inr ends, ?_⟩
  obtain ⟨last, lines⟩ := @Delimited.splitOn_append_last _ _ _ '\n' (before ++ text) behind whole'
  have ended : sentinel ≠ last ++ behind := fun same => closed ⟨last, same.symm⟩
  have middle : sentinel ∉ ((before ++ text).splitOn '\n').dropLast := by
    by_cases broken : '\n' ∈ text
    · -- The first line has what is in front of the text, the others are the lines of it.
      obtain ⟨first, others, rfl, single⟩ := List.eq_append_cons_of_mem broken
      have begun : '\n' ∉ before ++ first := by simp [whole, single]
      rw [List.splitOn_append_cons_self_of_not_mem single, List.drop_one, List.tail_cons] at inner
      rw [← List.append_assoc, List.splitOn_append_cons_self_of_not_mem begun,
        List.dropLast_cons_of_ne_nil (List.splitOn_ne_nil _ _), List.mem_cons, not_or]
      exact ⟨fun same => opened ⟨first, same.symm⟩, inner⟩
    · rw [List.splitOn_eq_singleton (by simp [whole, broken])]
      exact List.not_mem_nil
  rw [List.splitOn_append_cons_self, List.splitOn_append_cons_self, lines]
  simp only [List.mem_append, List.mem_singleton, not_or]
  exact ⟨absent, ⟨middle, ended⟩, by simpa using more⟩

/-- A line without its end goes on with the line that is being read. -/
theorem hereBody_line {sentinel line text : List Char} (whole : '\n' ∉ text) (rest : List Char) :
    hereBody sentinel line (text ++ rest) = hereBody sentinel (line ++ text) rest := by
  -- By induction on the text, none of whose characters ends the line.
  induction text generalizing line with
  | nil => simp
  | cons c text ih =>
    have other : c ≠ '\n' := fun same => whole (same ▸ List.mem_cons_self)
    rw [List.cons_append, hereBody, if_neg other,
      ih fun inside => whole (List.mem_cons_of_mem _ inside), List.append_assoc]
    rfl

/-- The sentinel ends the here-document behind a text that is enclosed. -/
theorem hereBody_append {sentinel text : List Char} (enclosed : Enclosed sentinel text)
    (oneLine : '\n' ∉ sentinel) (rest : List Char) :
    hereBody sentinel [] (text ++ (sentinel ++ '\n' :: rest)) = (text, rest) := by
  -- The line that has been begun counts as part of the text.
  suffices general : ∀ line : List Char, '\n' ∉ line → (text = [] → line = []) →
      sentinel ∉ (line ++ text).splitOn '\n' →
      hereBody sentinel line (text ++ (sentinel ++ '\n' :: rest)) = (line ++ text, rest) by
    exact general [] List.not_mem_nil (fun _ => rfl) enclosed.2
  have ended := enclosed.1
  clear enclosed
  induction text with
  | nil =>
    intro line _ begun _
    obtain rfl := begun rfl
    rw [List.nil_append, hereBody_line oneLine, List.nil_append, hereBody, if_pos rfl, if_pos rfl]
    rfl
  | cons c text ih =>
    intro line whole _ absent
    have ended' : text = [] ∨ text.getLast? = some '\n' := by
      rcases text with _ | ⟨d, text⟩
      · exact .inl rfl
      · exact .inr (by simpa [List.getLast?_cons_cons] using ended)
    by_cases newline : c = '\n'
    · subst newline
      rw [List.splitOn_append_cons_self, List.splitOn_eq_singleton whole] at absent
      have other : line ≠ sentinel := fun same => absent (by simp [same])
      rw [List.cons_append, hereBody, if_pos rfl, if_neg other,
        ih ended' [] List.not_mem_nil (fun _ => rfl)
          fun inside => absent (List.mem_append_right _ inside)]
      rfl
    · have further : text ≠ [] := by
        rintro rfl
        simp [newline] at ended
      rw [List.cons_append, hereBody, if_neg newline,
        ih ended' (line ++ [c]) (by simp [whole, Ne.symm newline])
          (fun last => absurd last further) (by simpa using absent)]
      simp

/-- What a here-document takes stands in front. -/
theorem isPrefix_hereBody (sentinel line text : List Char) :
    (hereBody sentinel line text).1 <+: line ++ text := by
  -- By induction on the text; where the sentinel is found, nothing more is taken.
  induction text generalizing line with
  | nil =>
    unfold hereBody
    split <;> simp
  | cons c text ih =>
    unfold hereBody
    split
    · next newline =>
      split
      · exact List.nil_prefix
      · rw [newline]
        have behind := ih []
        rw [List.nil_append] at behind
        exact (List.prefix_append_right_inj line).mpr (List.cons_prefix_cons.mpr ⟨rfl, behind⟩)
    · have behind := ih (line ++ [c])
      rwa [List.append_assoc, List.singleton_append] at behind

/-- A here-document goes no further than to a line that is its sentinel. -/
theorem length_hereBody_le {sentinel front : List Char} (oneLine : '\n' ∉ sentinel)
    (begins : front = [] ∨ front.getLast? = some '\n') (rest : List Char) :
    (hereBody sentinel [] (front ++ (sentinel ++ '\n' :: rest))).1.length ≤ front.length := by
  -- The line that has been begun counts as well.
  suffices general : ∀ line : List Char, (front = [] → line = []) →
      (hereBody sentinel line (front ++ (sentinel ++ '\n' :: rest))).1.length ≤
        line.length + front.length by
    simpa using general [] fun _ => rfl
  induction front with
  | nil =>
    intro line begun
    rw [begun rfl, List.nil_append, hereBody_line oneLine, List.nil_append, hereBody, if_pos rfl,
      if_pos rfl]
    simp
  | cons c front ih =>
    intro line _
    have begins' : front = [] ∨ front.getLast? = some '\n' := by
      rcases front with _ | ⟨d, front⟩
      · exact .inl rfl
      · exact .inr (by simpa [List.getLast?_cons_cons] using begins)
    by_cases newline : c = '\n'
    · subst newline
      rw [List.cons_append, hereBody, if_pos rfl]
      split
      · simp
      · have behind := ih begins' [] fun _ => rfl
        simp only [List.length_append, List.length_cons, List.length_nil] at behind ⊢
        omega
    · have further : front ≠ [] := by
        rintro rfl
        simp [newline] at begins
      have behind := ih begins' (line ++ [c]) fun last => absurd last further
      rw [List.cons_append, hereBody, if_neg newline]
      simp only [List.length_append, List.length_cons, List.length_nil] at behind ⊢
      omega

/-! ### Lines with their here-documents -/

section lines

variable {value : List Char → List Char} {items : List (Token (List Part))}
  {tokens : List (Token (List Char))} {simples : List Simple}

/-- A line without a here-document. -/
theorem readOne_spell (sound : Sound items)
    (texts : (items.map symbolsOf).mapM (tokenText value) = some tokens)
    (parsed : commands {} tokens = some simples) (without : sentinel? tokens = none)
    (rest : List Char) :
    readOne value (spell items ++ '\n' :: rest) = some (⟨simples, []⟩, rest) := by
  simp only [readOne, readLine_spell sound, Option.bind_some, texts, parsed, Option.map_some,
    without]

/-- A line with a here-document that is enclosed. -/
theorem readOne_spell_hereDoc (sound : Sound items)
    (texts : (items.map symbolsOf).mapM (tokenText value) = some tokens)
    (parsed : commands {} tokens = some simples) {sentinel text : List Char}
    (opened : sentinel? tokens = some sentinel) (enclosed : Enclosed sentinel text)
    (oneLine : '\n' ∉ sentinel) (rest : List Char) :
    readOne value (spell items ++ '\n' :: (text ++ (sentinel ++ '\n' :: rest))) =
      some (⟨simples, text⟩, rest) := by
  simp only [readOne, readLine_spell sound, Option.bind_some, texts, parsed, Option.map_some,
    opened, hereBody_append enclosed oneLine]

/-- A line that is written is run. -/
theorem run_spell (sound : Sound items)
    (texts : (items.map symbolsOf).mapM (tokenText env.value) = some tokens)
    (parsed : commands {} tokens = some simples) (without : sentinel? tokens = none)
    (rest : List Char) :
    run env st (spell items ++ '\n' :: rest) =
      (runAll env [] simples st).bind (run env · rest) :=
  run_line (by simp) (readOne_spell sound texts parsed without rest)

/-- It has its here-document for its input. -/
theorem run_spell_hereDoc (sound : Sound items)
    (texts : (items.map symbolsOf).mapM (tokenText env.value) = some tokens)
    (parsed : commands {} tokens = some simples) {sentinel text : List Char}
    (opened : sentinel? tokens = some sentinel) (enclosed : Enclosed sentinel text)
    (oneLine : '\n' ∉ sentinel) (rest : List Char) :
    run env st (spell items ++ '\n' :: (text ++ (sentinel ++ '\n' :: rest))) =
      (runAll env text simples st).bind (run env · rest) :=
  run_line (by simp) (readOne_spell_hereDoc sound texts parsed opened enclosed oneLine rest)

end lines

/-- A line of plain words is written with blanks between them. -/
theorem spell_words (words : List (List Char)) :
    spell (words.map fun word => .word [.plain word]) = [' '].intercalate words := by
  -- By induction on the words: a blank stands in front of every one but the first.
  induction words with
  | nil => rfl
  | cons word words ih =>
    rw [List.map_cons, spell, ih]
    cases words <;> simp [spellToken, Part.spell]

/-- Words alone make one command. -/
theorem commands_words (command : Simple) (texts : List (List Char)) :
    commands command (texts.map .word) =
      some [{ command with words := command.words ++ texts }] := by
  induction texts generalizing command with
  | nil => simp [commands]
  | cons text texts ih => simp [commands, ih]

/-- Words alone have no here-document. -/
theorem sentinel?_words (texts : List (List Char)) : sentinel? (texts.map .word) = none := by
  induction texts with
  | nil => rfl
  | cons text texts ih => simp [sentinel?, ih]

/-- The texts of the words are those of the items. -/
theorem mapM_words {value : List Char → List Char} {words texts : List (List Char)}
    (values : words.mapM (fun word => wordText value (word.map .bare)) = some texts) :
    ((words.map fun word => .word [.plain word]).map symbolsOf).mapM (tokenText value) =
      some (texts.map .word) := by
  -- By induction on the words: each has a text if all of them have.
  induction words generalizing texts with
  | nil =>
    cases values
    rfl
  | cons word words ih =>
    simp only [List.mapM_cons, Option.bind_eq_bind, Option.bind_eq_some_iff, Option.pure_def,
      Option.some_inj] at values
    obtain ⟨text, here, others, rest, rfl⟩ := values
    have first : tokenText value (symbolsOf (.word [.plain word])) = some (.word text) := by
      simp [tokenText, symbolsOf, Part.symbols, here]
    rw [List.map_cons, List.map_cons, List.mapM_cons, first, ih rest]
    rfl

/-- A line of words is one command. -/
theorem run_words {words texts : List (List Char)}
    (plain : ∀ word ∈ words, word ≠ [] ∧ ∀ c ∈ word, isWordChar c = true)
    (values : words.mapM (fun word => wordText env.value (word.map .bare)) = some texts)
    (rest : List Char) :
    run env st ([' '].intercalate words ++ '\n' :: rest) =
      (runAll env [] [{ words := texts }] st).bind (run env · rest) := by
  -- Each of the words is a single plain part.
  have sound : Sound (words.map fun word => .word [.plain word]) := by
    clear values
    induction words with
    | nil => trivial
    | cons word words ih =>
      refine ⟨by simp, ?_, ih fun other inside => plain other (List.mem_cons_of_mem _ inside)⟩
      simpa [Part.Sound] using plain word List.mem_cons_self
  rw [← spell_words]
  exact run_spell sound (mapM_words values) (commands_words {} texts) (sentinel?_words texts) rest

/-! ### Below a directory -/

/-- There is nothing but the way to a directory and what is below it. -/
def below (out : Path) (tree : FileSystem) : FileSystem := fun path =>
  if out <+: path then tree (path.drop out.length)
  else if path <+: out then some .directory
  else none

section below

variable {out path : Path} {tree : FileSystem}

@[simp] theorem below_append : below out tree (out ++ path) = tree path := by
  simp [below]

/-- On the way to the directory there are directories. -/
theorem below_of_isPrefix (root : tree [] = some .directory) (front : path <+: out) :
    below out tree path = some .directory := by
  unfold below
  -- The directory itself is the root of what is put below it.
  split
  · rename_i whole
    obtain rfl := front.eq_of_length_le whole.length_le
    simpa using root
  · rfl

/-- What is set below the directory is set in it. -/
theorem update_below (node : Option Node) :
    Function.update (below out tree) (out ++ path) node =
      below out (Function.update tree path node) := by
  -- Only what is inside the directory could have changed.
  funext other
  by_cases inside : out <+: other
  · obtain ⟨rest, rfl⟩ := inside
    rw [below_append, Function.update_apply, Function.update_apply, below_append]
    simp
  · have apart : other ≠ out ++ path := by
      rintro rfl
      exact inside (List.prefix_append _ _)
    rw [Function.update_of_ne apart]
    simp only [below, if_neg inside]

/-- A node in the directory has a parent just where it has one in the whole. -/
theorem hasParent_below (more : path ≠ []) :
    HasParent (below out tree) (out ++ path) ↔ HasParent tree path := by
  unfold HasParent
  rw [List.dropLast_append_of_ne_nil more, below_append]
  simp [more]

/-- Making a link in the directory is making it in the whole. -/
theorem makeLink_below (more : path ≠ []) (target : List Char) :
    makeLink (below out tree) target (out ++ path) =
      (makeLink tree target path).map (below out) := by
  unfold makeLink
  simp only [hasParent_below more, below_append, update_below]
  split <;> rfl

/-- Writing a file in the directory is writing it in the whole. -/
theorem writeFile_below (more : path ≠ []) (append : Bool) (text : List Char) :
    writeFile (below out tree) (out ++ path) append text =
      (writeFile tree path append text).map (below out) := by
  unfold writeFile
  simp only [hasParent_below more, below_append, update_below]
  split
  · split <;> rfl
  · rfl

/-- Making directories in the directory is making them in the whole. -/
theorem makeDirectories_below (root : tree [] = some .directory) :
    makeDirectories (below out tree) (out ++ path) =
      (makeDirectories tree path).map (below out) := by
  -- The way to the directory is there, and what is in the way is in the way below it.
  have free : (∀ front ∈ (out ++ path).inits, below out tree front = none ∨
      below out tree front = some .directory) ↔
        ∀ front ∈ path.inits, tree front = none ∨ tree front = some .directory := by
    simp only [List.mem_inits]
    constructor
    · intro free front inside
      have := free (out ++ front) ((List.prefix_append_right_inj out).mpr inside)
      rwa [below_append] at this
    · intro free front inside
      rcases List.prefix_or_prefix_of_prefix inside (List.prefix_append out path) with above | lower
      · exact .inr (below_of_isPrefix root above)
      · obtain ⟨rest, rfl⟩ := lower
        rw [below_append]
        exact free rest ((List.prefix_append_right_inj out).mp inside)
  have made : (fun other => if other <+: out ++ path then some Node.directory
      else below out tree other) =
        below out fun other => if other <+: path then some .directory else tree other := by
    funext other
    by_cases lower : out <+: other
    · obtain ⟨rest, rfl⟩ := lower
      rw [below_append, below_append]
      simp only [List.prefix_append_right_inj]
    · have outside : other <+: out ++ path ↔ other <+: out := by
        refine ⟨fun inside => ?_, fun above => above.trans (List.prefix_append _ _)⟩
        rcases List.prefix_or_prefix_of_prefix inside (List.prefix_append out path) with above | deep
        · exact above
        · exact absurd deep lower
      simp only [below, if_neg lower, outside]
      split <;> rfl
  unfold makeDirectories
  rw [made]
  simp only [free]
  split <;> rfl

end below

/-! ### Trees of files -/

/-- The tree of some files, of which the later ones win, with the directories on their ways. -/
def treeOf (files : List (Path × List Char)) : FileSystem := fun path =>
  match files.reverse.lookup path with
  | some text => some (.file text)
  | none => if path = [] ∨ ∃ file ∈ files, path <+: file.1 then some .directory else none

/-- No file is on the way to another one. -/
def Apart (files : List (Path × List Char)) : Prop :=
  ∀ file ∈ files, file.1 ≠ [] ∧ ∀ other ∈ files, file.1 <+: other.1 → file.1 = other.1

instance : DecidablePred Apart := fun files =>
  inferInstanceAs (Decidable (∀ file ∈ files, _ ∧ ∀ other ∈ files, _))

section trees

variable {files : List (Path × List Char)} {path : Path} {text : List Char}

/-- The last file wins. -/
theorem lookup_reverse_append (other : Path) :
    (files ++ [(path, text)]).reverse.lookup other =
      if other = path then some text else files.reverse.lookup other := by
  -- Seen from the end, the added file comes first.
  rw [List.reverse_append, List.reverse_singleton, List.singleton_append, List.lookup_cons]
  by_cases same : other = path
  · simp [same]
  · simp [same, beq_false_of_ne same]

/-- What is looked up is a file of the list. -/
theorem mem_of_lookup {other : Path} {found : List Char}
    (there : files.reverse.lookup other = some found) : (other, found) ∈ files := by
  obtain ⟨front, behind, split, -⟩ := List.lookup_eq_some_iff.mp there
  exact List.mem_reverse.mp (split ▸ List.mem_append_right _ List.mem_cons_self)

/-- A path that is not looked up is none of a file. -/
theorem lookup_of_forall_ne {other : Path} (others : ∀ file ∈ files, file.1 ≠ other) :
    files.reverse.lookup other = none := by
  refine List.lookup_eq_none_iff.mpr fun file inside => ?_
  simpa using Ne.symm (others file (List.mem_reverse.mp inside))

/-- Fewer files are apart as well. -/
theorem Apart.front {more : List (Path × List Char)} (apart : Apart (files ++ more)) :
    Apart files := by
  intro file inside
  obtain ⟨named, alone⟩ := apart file (List.mem_append_left _ inside)
  exact ⟨named, fun other among => alone other (List.mem_append_left _ among)⟩

/-- What is in the files does not matter. -/
theorem Apart.congr {others : List (Path × List Char)} (apart : Apart files)
    (same : files.map Prod.fst = others.map Prod.fst) : Apart others := by
  -- The condition speaks of paths only.
  have paths (files : List (Path × List Char)) : Apart files ↔ ∀ p ∈ files.map Prod.fst,
      p ≠ [] ∧ ∀ q ∈ files.map Prod.fst, p <+: q → p = q := by
    simp only [Apart, List.forall_mem_map]
  rw [paths] at apart ⊢
  rwa [← same]

/-- A file has a name. -/
theorem Apart.path_ne_nil (apart : Apart (files ++ [(path, text)])) : path ≠ [] :=
  (apart (path, text) (List.mem_append_right _ List.mem_cons_self)).1

/-- The way to a file ends in front of it. -/
theorem not_prefix_dropLast {path : Path} (more : path ≠ []) : ¬ path <+: path.dropLast := by
  intro way
  -- The way is shorter than the path.
  have shorter := way.length_le
  have positive := List.length_pos_iff.mpr more
  rw [List.length_dropLast] at shorter
  omega

/-- There is nothing to do where the directory is the root. -/
theorem makeDirectories_root {tree : FileSystem} (root : tree [] = some .directory) :
    makeDirectories tree [] = some tree := by
  -- The only directory to make is the root, which is one.
  have same : (fun other : Path => if other <+: [] then some Node.directory else tree other) =
      tree := by
    funext other
    by_cases top : other = []
    · subst top
      simp [root]
    · simp [top]
  rw [makeDirectories, if_pos (by simp [root]), same]

/-- The root is a directory. -/
theorem treeOf_root (apart : Apart files) : treeOf files [] = some .directory := by
  unfold treeOf
  split
  · rename_i found there
    exact absurd rfl (apart _ (mem_of_lookup there)).1
  · rw [if_pos (.inl rfl)]

/-- On the way to a file there are only directories. -/
theorem treeOf_of_front (apart : Apart (files ++ [(path, text)])) {front : Path}
    (way : front <+: path.dropLast) :
    files.reverse.lookup front = none := by
  -- A file on the way would be in front of another one, and the files are apart.
  refine lookup_of_forall_ne fun file inside same => ?_
  obtain ⟨-, alone⟩ := apart file (List.mem_append_left _ inside)
  have whole := alone (path, text) (List.mem_append_right _ List.mem_cons_self)
    (same ▸ way.trans (List.dropLast_prefix path))
  refine not_prefix_dropLast apart.path_ne_nil ?_
  have here : front = path := same.symm.trans whole
  rwa [here] at way

/-- A file that is written takes the place of the one before. -/
theorem treeOf_eq_none_or (apart : Apart (files ++ [(path, text)])) :
    treeOf files path = none ∨ ∃ before, treeOf files path = some (.file before) := by
  -- Nothing else is found: a directory would be on the way to another file.
  unfold treeOf
  split
  · rename_i before _
    exact .inr ⟨before, rfl⟩
  · rename_i absent
    refine .inl (if_neg ?_)
    rintro (top | ⟨file, inside, way⟩)
    · exact apart.path_ne_nil top
    · have same := (apart (path, text) (List.mem_append_right _ List.mem_cons_self)).2 file
        (List.mem_append_left _ inside) way
      have missing := List.lookup_eq_none_iff.mp absent file (List.mem_reverse.mpr inside)
      simp [← same] at missing

/-- A file is written with the directories on its way. -/
theorem write_treeOf (apart : Apart (files ++ [(path, text)])) :
    ((makeDirectories (treeOf files) path.dropLast).bind fun tree =>
      writeFile tree path false text) = some (treeOf (files ++ [(path, text)])) := by
  -- First the directories, where nothing is in the way, and then the file.
  have more := apart.path_ne_nil
  have beyond := not_prefix_dropLast more
  -- No file is on the way, so that there is a directory or nothing.
  have free : ∀ front ∈ path.dropLast.inits, treeOf files front = none ∨
      treeOf files front = some .directory := by
    intro front inside
    have absent := treeOf_of_front apart ((List.mem_inits _ _).mp inside)
    simp only [treeOf, absent]
    split
    · exact .inr rfl
    · exact .inl rfl
  -- Node by node: the file, what is on its way, and what is elsewhere.
  have written : Function.update
      (fun other => if other <+: path.dropLast then some .directory else treeOf files other) path
      (some (.file text)) = treeOf (files ++ [(path, text)]) := by
    funext other
    rw [Function.update_apply]
    unfold treeOf
    rw [lookup_reverse_append]
    by_cases same : other = path
    · simp [same]
    · rw [if_neg same, if_neg same]
      split
      · rename_i way
        have onWay : other = [] ∨ ∃ file ∈ files ++ [(path, text)], other <+: file.1 :=
          .inr ⟨_, List.mem_append_right _ List.mem_cons_self, way.trans (List.dropLast_prefix _)⟩
        rw [treeOf_of_front apart way, if_pos onWay]
      · rename_i off
        have apart_ : ¬ other <+: path := by
          intro way
          have split := List.dropLast_concat_getLast more
          rw [← split] at way same
          rcases List.prefix_concat_iff.mp way with whole | way
          · exact same whole
          · exact off way
        have ways : (other = [] ∨ ∃ file ∈ files, other <+: file.1) ↔
            (other = [] ∨ ∃ file ∈ files ++ [(path, text)], other <+: file.1) := by
          simp [or_and_right, exists_or, apart_]
        simp only [ways]
  rw [makeDirectories, if_pos free, Option.bind_some, writeFile, if_pos, ← written]
  · rw [if_neg beyond]
    rcases treeOf_eq_none_or apart with absent | ⟨before, there⟩
    · rw [absent]
    · rw [there]
      rfl
  · exact ⟨more, if_pos (List.prefix_refl _)⟩

/-- A file in the root is written on. -/
theorem append_treeOf {more : List Char} (apart : Apart (files ++ [(path, text)]))
    (top : path.dropLast = []) :
    writeFile (treeOf (files ++ [(path, text)])) path true more =
      some (treeOf (files ++ [(path, text ++ more)])) := by
  -- The last file is the one that is found, and its parent is the root.
  have there : treeOf (files ++ [(path, text)]) path = some (.file text) := by
    rw [treeOf, lookup_reverse_append, if_pos rfl]
  have parent : HasParent (treeOf (files ++ [(path, text)])) path := by
    refine ⟨apart.path_ne_nil, ?_⟩
    rw [top]
    exact treeOf_root apart
  rw [writeFile, if_pos parent, there]
  refine congrArg some (funext fun other => ?_)
  rw [Function.update_apply]
  unfold treeOf
  rw [lookup_reverse_append, lookup_reverse_append]
  -- Only the content has changed.
  by_cases same : other = path
  · simp [same]
  · have ways : (∃ file ∈ files ++ [(path, text)], other <+: file.1) ↔
        ∃ file ∈ files ++ [(path, text ++ more)], other <+: file.1 := by
      simp [or_and_right, exists_or]
    simp only [if_neg same, ways]

end trees

end Tatara.Shell
