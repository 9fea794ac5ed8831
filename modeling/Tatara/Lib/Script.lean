import Tatara.Lib.Shell

/-! The lines of a script: which of them are commands, and which are the here-documents of these. -/

namespace Tatara.Script

open Shell (hereBody isWordChar Enclosed Contains)

-- A statement about the characters of a text is decided on these, not on all characters.
attribute [local instance (high)] List.decidableBAll

/-- Where the reader of a line is: outside of quotes, in quotes of a kind, in a comment, behind a
backslash, or in the operator of a here-document. -/
inductive Mode where
  | bare
  | single
  | double
  | comment
  | escape
  | doubleEscape
  | hereDoc
  deriving DecidableEq, Repr

/-- The characters of a word, with the quotes that they are in. -/
abbrev Word := List (Mode × Char)

/-- What a line is made of. -/
inductive Token where
  | word (w : Word)
  | operator (c : Char)
  | hereDoc
  deriving DecidableEq, Repr

/-- The characters that end a word and stand for themselves. -/
def operators : List Char := ['>', '<', '|', '&', ';', '(', ')']

/-- A character goes on with a word. -/
def push (word : Option Word) (mode : Mode) (c : Char) : Option Word :=
  some (word.getD [] ++ [(mode, c)])

/-- What has been read goes in front of the rest of a line. -/
def emit (word : Option Word) (token : List Token) (line : Option (List Token × List Char)) :
    Option (List Token × List Char) :=
  line.map fun (tokens, rest) => (word.toList.map Token.word ++ token ++ tokens, rest)

/-- Read a line up to its end outside of quotes, and leave the text behind it. What is expanded is
kept as it is written. -/
def readLine : Mode → Option Word → List Char → Option (List Token × List Char)
  | _, _, [] => none
  | .comment, word, c :: rest =>
    if c = '\n' then emit word [] (some ([], rest)) else readLine .comment word rest
  | .single, word, c :: rest =>
    if c = '\x27' then readLine .bare word rest else readLine .single (push word .single c) rest
  | .double, word, c :: rest =>
    if c = '\x22' then readLine .bare word rest
    else if c = '\\' then readLine .doubleEscape word rest
    else readLine .double (push word .double c) rest
  | .doubleEscape, word, c :: rest =>
    if c = '\n' then readLine .double word rest
    else readLine .double (push (push word .double '\\') .double c) rest
  | .escape, word, c :: rest =>
    if c = '\n' then readLine .bare word rest else readLine .bare (push word .single c) rest
  | .hereDoc, word, _ :: rest => emit word [.hereDoc] (readLine .bare none rest)
  | .bare, word, c :: rest =>
    if c = '\n' then emit word [] (some ([], rest))
    else if c = ' ' ∨ c = '\t' then emit word [] (readLine .bare none rest)
    else if c = '\x27' then readLine .single (some (word.getD [])) rest
    else if c = '\x22' then readLine .double (some (word.getD [])) rest
    else if c = '\\' then readLine .escape word rest
    else if c = '#' ∧ word = none then readLine .comment none rest
    else if c = '<' ∧ rest.head? = some '<' then readLine .hereDoc word rest
    else if c ∈ operators then emit word [.operator c] (readLine .bare none rest)
    else readLine .bare (push word .bare c) rest

attribute [grind =] readLine

/-- The sentinels of the here-documents of a line. -/
def sentinels : List Token → List (Option Word)
  | .hereDoc :: .word w :: rest => some w :: sentinels rest
  | .hereDoc :: rest => none :: sentinels rest
  | _ :: rest => sentinels rest
  | [] => []

/-- A text is a line, and there is no here-document behind it. -/
def isLine (text : List Char) : Bool :=
  match readLine .bare none text with
  | some (tokens, []) => sentinels tokens = []
  | _ => false

/-- A command with its here-document. -/
structure Command where
  tokens : List Token
  body : List Char
  deriving DecidableEq, Repr

/-- Read a command with its here-document, and leave the text behind it. Only one here-document is
read, which has its sentinel in quotes and is taken as it is. -/
def readCommand (text : List Char) : Option (Command × List Char) :=
  (readLine .bare none text).bind fun (tokens, rest) =>
    match sentinels tokens with
    | [] => some (⟨tokens, []⟩, rest)
    | [some w] =>
      if ∀ symbol ∈ w, symbol.1 = .single then
        some (⟨tokens, (hereBody (w.map Prod.snd) [] rest).1⟩,
          (hereBody (w.map Prod.snd) [] rest).2)
      else none
    | _ => none

/-- A word and a token in front of a line that is read. -/
@[simp] theorem emit_some {word : Option Word} {token tokens : List Token} {rest : List Char} :
    emit word token (some (tokens, rest)) =
      some (word.toList.map Token.word ++ token ++ tokens, rest) := rfl

/-- What is read of a line with a word and a token in front is read behind them. -/
theorem emit_eq_some {word : Option Word} {token tokens : List Token} {rest : List Char}
    {line : Option (List Token × List Char)} (read : emit word token line = some (tokens, rest)) :
    ∃ behind, line = some (behind, rest) ∧
      tokens = word.toList.map Token.word ++ token ++ behind := by
  obtain ⟨⟨behind, rest'⟩, rfl, same⟩ := Option.map_eq_some_iff.mp read
  cases same
  exact ⟨behind, rfl, rfl⟩

/-- What is behind a line is behind what has been read of it. -/
theorem length_readLine {mode : Mode} {word : Option Word} {text rest : List Char}
    {tokens : List Token} (read : readLine mode word text = some (tokens, rest)) :
    rest.length < text.length := by
  fun_induction readLine mode word text generalizing tokens <;>
    grind [emit_eq_some]

/-- A command takes something of the text. -/
theorem length_readCommand {text rest : List Char} {command : Command}
    (read : readCommand text = some (command, rest)) : rest.length < text.length := by
  -- The line takes something, and the here-document never gives anything back.
  obtain ⟨⟨tokens, behind⟩, line, read⟩ := Option.bind_eq_some_iff.mp read
  have shorter := length_readLine line
  dsimp only at read
  split at read
  · cases read
    exact shorter
  · rename_i w _
    have body := Shell.length_hereBody (w.map Prod.snd) [] behind
    split at read
    · cases read
      omega
    · cases read
  · cases read

/-- Read the commands of a script one after the other. -/
def readScript (text : List Char) : Option (List Command) :=
  if text = [] then some []
  else
    match _read : readCommand text with
    | none => none
    | some (command, rest) => (readScript rest).map (command :: ·)
termination_by text.length
decreasing_by exact length_readCommand _read

/-! ### Laws of reading -/

/-- What is read begins with a character of its own. -/
theorem head?_of_readLine {mode : Mode} {word : Option Word} {text rest : List Char}
    {tokens : List Token} (read : readLine mode word text = some (tokens, rest))
    (more : List Char) : (text ++ more).head? = text.head? := by
  -- An empty text has no line.
  cases text with
  | nil => simp [readLine] at read
  | cons c text => rfl

/-- A line is read alike whatever is behind it. -/
theorem readLine_append {mode : Mode} {word : Option Word} {text rest : List Char}
    {tokens : List Token} (read : readLine mode word text = some (tokens, rest))
    (more : List Char) :
    readLine mode word (text ++ more) = some (tokens, rest ++ more) := by
  fun_induction readLine mode word text generalizing tokens <;>
    grind [emit_some, emit_eq_some, head?_of_readLine]

/-- A text is the command that is read first, whatever is behind it. -/
def Takes (text : List Char) (command : Command) : Prop :=
  ∀ rest, readCommand (text ++ rest) = some (command, rest)

section takes

variable {line : List Char} {tokens : List Token}

/-- A line without a here-document is a command. -/
theorem Takes.plain (read : readLine .bare none line = some (tokens, []))
    (without : sentinels tokens = []) : Takes line ⟨tokens, []⟩ := by
  intro rest
  -- Without a sentinel there is no here-document to be read.
  have found := readLine_append read rest
  rw [readCommand, found, Option.bind_some, List.nil_append]
  dsimp only
  rw [without]

/-- A line with a here-document is read with what this takes of the text behind it. -/
theorem readCommand_hereDoc {sentinel : List Char}
    (read : readLine .bare none line = some (tokens, []))
    (only : sentinels tokens = [some (sentinel.map (.single, ·))]) (text : List Char) :
    readCommand (line ++ text) =
      some (⟨tokens, (hereBody sentinel [] text).1⟩, (hereBody sentinel [] text).2) := by
  -- The one sentinel is quoted as a whole, so that the here-document is taken as it stands.
  have found := readLine_append read text
  have quoted : ∀ symbol ∈ sentinel.map (Mode.single, ·), symbol.1 = .single := by simp
  have letters : (sentinel.map (Mode.single, ·)).map Prod.snd = sentinel := by
    simp [Function.comp_def]
  rw [readCommand, found, Option.bind_some, List.nil_append]
  dsimp only
  rw [only]
  dsimp only
  rw [if_pos quoted, letters]

/-- A line is a command with the here-document behind it. -/
theorem Takes.hereDoc {sentinel body : List Char}
    (read : readLine .bare none line = some (tokens, []))
    (only : sentinels tokens = [some (sentinel.map (.single, ·))])
    (enclosed : Enclosed sentinel body) (oneLine : '\n' ∉ sentinel) :
    Takes (line ++ (body ++ (sentinel ++ ['\n']))) ⟨tokens, body⟩ := by
  intro rest
  have text : line ++ (body ++ (sentinel ++ ['\n'])) ++ rest =
      line ++ (body ++ (sentinel ++ '\n' :: rest)) := by simp
  rw [text, readCommand_hereDoc read only, Shell.hereBody_append enclosed oneLine]

/-- Nothing is left to read. -/
@[simp] theorem readScript_nil : readScript [] = some [] := by
  rw [readScript]
  simp

/-- The first command is read, and then the others. -/
theorem readScript_cons {text rest : List Char} {command : Command}
    (read : readCommand text = some (command, rest)) :
    readScript text = (readScript rest).map (command :: ·) := by
  -- A command takes something, so that the text is not empty.
  have more : text ≠ [] := by
    rintro rfl
    cases length_readCommand read
  rw [readScript, if_neg more]
  split
  · rename_i unread
    rw [read] at unread
    cases unread
  · rename_i command' rest' read'
    rw [read] at read'
    cases read'
    rfl

/-- Blanks in front of a line are nothing. -/
theorem readLine_replicate (n : Nat) (text : List Char) :
    readLine .bare none (List.replicate n ' ' ++ text) = readLine .bare none text := by
  -- By induction on the number of blanks.
  induction n with
  | zero => rfl
  | succ n ih =>
    have blank (rest : List Char) :
        readLine .bare none (' ' :: rest) = readLine .bare none rest := by
      have skipped : readLine .bare none (' ' :: rest) =
          emit none [] (readLine .bare none rest) := rfl
      rw [skipped, emit]
      cases readLine .bare none rest <;> rfl
    rw [List.replicate_succ, List.cons_append, blank, ih]

end takes

/-! ### Lines that are read -/

/-- The sentinels of a line are those behind what has none. -/
theorem sentinels_append {word : Option Word} {token : List Token}
    (plain : token = [] ∨ ∃ c, token = [.operator c]) (tokens : List Token) :
    sentinels (word.toList.map Token.word ++ token ++ tokens) = sentinels tokens := by
  rcases plain with rfl | ⟨c, rfl⟩ <;> cases word <;> simp [sentinels]

/-- A text that is one line has the tokens of one. -/
theorem exists_of_isLine {text : List Char} (line : isLine text = true) :
    ∃ tokens, readLine .bare none text = some (tokens, []) ∧ sentinels tokens = [] := by
  -- The test reads the line, and finds nothing behind it.
  unfold isLine at line
  split at line
  · rename_i tokens read
    exact ⟨tokens, read, of_decide_eq_true line⟩
  · cases line

/-- A comment goes to the end of its line. -/
theorem readLine_comment {text : List Char} (oneLine : '\n' ∉ text) (word : Option Word) :
    readLine .comment word (text ++ ['\n']) = some (word.toList.map Token.word, []) := by
  -- By induction on the text: up to its newline nothing of it matters.
  induction text with
  | nil => simp [readLine]
  | cons c text ih =>
    have other : c ≠ '\n' := fun same => oneLine (same ▸ List.mem_cons_self)
    rw [List.cons_append, readLine, if_neg other,
      ih fun inside => oneLine (List.mem_cons_of_mem _ inside)]

/-- A text on one line without quotes and without here-documents. -/
def Calm (text : List Char) : Prop :=
  (∀ c ∈ text, c ∉ ['\n', '\x27', '\x22', '\\']) ∧ ¬ ['<', '<'] <:+: text

instance (text : List Char) : Decidable (Calm text) := instDecidableAnd

/-- A calm text is a line. -/
theorem readLine_calm {text : List Char} (calm : Calm text) (word : Option Word) :
    ∃ tokens, readLine .bare word (text ++ ['\n']) = some (tokens, []) ∧ sentinels tokens = [] := by
  induction text generalizing word with
  | nil =>
    refine ⟨word.toList.map Token.word ++ [] ++ [], rfl, ?_⟩
    rw [sentinels_append (.inl rfl)]
    rfl
  | cons c text ih =>
    obtain ⟨whole, apart⟩ := calm
    have behind : Calm text := ⟨fun d inside => whole d (List.mem_cons_of_mem _ inside),
      fun inside => apart (inside.trans (List.suffix_cons c text).isInfix)⟩
    have first := whole c List.mem_cons_self
    simp only [List.mem_cons, List.not_mem_nil, or_false, not_or] at first
    obtain ⟨noEnd, noQuote, noQuotes, noEscape⟩ := first
    -- What ends a word is emitted in front of what is read behind it.
    have emitted (token : List Token) (plain : token = [] ∨ ∃ d, token = [.operator d]) :
        ∃ tokens, emit word token (readLine .bare none (text ++ ['\n'])) = some (tokens, []) ∧
          sentinels tokens = [] := by
      obtain ⟨tokens, read, without⟩ := ih behind none
      refine ⟨_, by rw [read]; rfl, ?_⟩
      rw [sentinels_append plain, without]
    have single : ¬ (c = '<' ∧ (text ++ ['\n']).head? = some '<') := by
      rintro ⟨rfl, next⟩
      cases text with
      | nil => exact absurd next (by decide)
      | cons d text =>
        cases next
        exact apart ⟨[], text, rfl⟩
    rw [List.cons_append, readLine, if_neg noEnd]
    by_cases blank : c = ' ' ∨ c = '\t'
    · rw [if_pos blank]
      exact emitted [] (.inl rfl)
    rw [if_neg blank, if_neg noQuote, if_neg noQuotes, if_neg noEscape]
    by_cases comment : c = '#' ∧ word = none
    · rw [if_pos comment]
      refine ⟨_, readLine_comment (fun inside => ?_) none, rfl⟩
      exact whole '\n' (List.mem_cons_of_mem _ inside) List.mem_cons_self
    rw [if_neg comment, if_neg single]
    by_cases operator : c ∈ operators
    · rw [if_pos operator]
      exact emitted [.operator c] (.inr ⟨c, rfl⟩)
    · rw [if_neg operator]
      exact ih behind _

/-- A character of a word goes on with it. -/
theorem readLine_char {c : Char} (plain : isWordChar c = true) (word : Option Word)
    (rest : List Char) :
    readLine .bare word (c :: rest) = readLine .bare (push word .bare c) rest := by
  -- Each of the others is looked at once, and none is a character of a word.
  have others : ∀ d ∈ ['\n', ' ', '\t', '\x27', '\x22', '\\', '#', '<'] ++ operators,
      isWordChar d = false := by decide
  have apart : c ∉ ['\n', ' ', '\t', '\x27', '\x22', '\\', '#', '<'] ++ operators := by
    intro inside
    rw [others c inside] at plain
    cases plain
  simp only [List.mem_append, List.mem_cons, List.not_mem_nil, or_false, not_or] at apart
  obtain ⟨⟨noEnd, noBlank, noTab, noQuote, noQuotes, noEscape, noComment, noLess⟩, noOperator⟩ :=
    apart
  rw [readLine, if_neg noEnd, if_neg (by simp [noBlank, noTab]), if_neg noQuote, if_neg noQuotes,
    if_neg noEscape, if_neg (by simp [noComment]), if_neg (by simp [noLess]), if_neg noOperator]

/-- The characters of a word are put behind those that have been read. -/
theorem readLine_word {text : List Char} (plain : ∀ c ∈ text, isWordChar c = true) (read : Word)
    (rest : List Char) :
    readLine .bare (some read) (text ++ rest) =
      readLine .bare (some (read ++ text.map (.bare, ·))) rest := by
  -- By induction on the text, with the word that has been read so far.
  induction text generalizing read with
  | nil => simp
  | cons c text ih =>
    rw [List.cons_append, readLine_char (plain c List.mem_cons_self), push,
      ih fun d inside => plain d (List.mem_cons_of_mem _ inside)]
    simp

/-- So are those in quotes. -/
theorem readLine_quotes {text : List Char} (inner : '\x27' ∉ text) (read : Word)
    (rest : List Char) :
    readLine .single (some read) (text ++ '\x27' :: rest) =
      readLine .bare (some (read ++ text.map (.single, ·))) rest := by
  -- By induction on the text, none of whose characters closes the quotes.
  induction text generalizing read with
  | nil => simp [readLine]
  | cons c text ih =>
    have other : c ≠ '\x27' := fun same => inner (same ▸ List.mem_cons_self)
    rw [List.cons_append, readLine, if_neg other, push,
      ih fun inside => inner (List.mem_cons_of_mem _ inside)]
    simp

/-- The text of a word in which nothing is expanded. -/
def literal? (w : Word) : Option (List Char) :=
  if ∀ symbol ∈ w, symbol.1 = .single ∨
      symbol.1 = .bare ∧ isWordChar symbol.2 = true ∧ symbol.2 ≠ '$' then
    some (w.map Prod.snd)
  else none

/-- Characters that stand for themselves are a literal. -/
theorem literal?_bare {text : List Char}
    (plain : ∀ c ∈ text, isWordChar c = true ∧ c ≠ '$') :
    literal? (text.map (.bare, ·)) = some text := by
  -- No character of it is special, and none opens a parameter.
  rw [literal?, if_pos fun symbol inside => ?_]
  · simp [Function.comp_def]
  · obtain ⟨c, among, rfl⟩ := List.mem_map.mp inside
    exact .inr ⟨rfl, plain c among⟩

/-- A command writes its here-document, which is a content, to a file. -/
def Command.Writes (command : Command) (target content : List Char) : Prop :=
  ∃ cat name sentinel, command.tokens =
      [.word cat, .operator '>', .word name, .hereDoc, .word sentinel] ∧
    literal? cat = some "cat".toList ∧ literal? name = some target ∧
      Contains content command.body

/-- The file that a command writes its here-document to. -/
def Command.target? (command : Command) : Option (List Char) :=
  match command.tokens with
  | [.word cat, .operator '>', .word name, .hereDoc, .word _] =>
    if literal? cat = some "cat".toList then literal? name else none
  | _ => none

/-- It writes to that file. -/
theorem Command.Writes.target? {command : Command} {target content : List Char}
    (writes : command.Writes target content) : command.target? = some target := by
  obtain ⟨cat, name, sentinel, tokens, called, named, -⟩ := writes
  unfold Command.target?
  rw [tokens]
  simp only [called, named, if_true]

/-- A command without here-documents writes none to a file. -/
theorem Command.target?_of_sentinels {command : Command}
    (without : sentinels command.tokens = []) : command.target? = none := by
  unfold Command.target?
  -- Where it did, one of its tokens would be a here-document.
  split
  · next tokens =>
    rw [tokens] at without
    cases without
  · rfl

/-- The here-document that is the last one to be written to a file. -/
def lastWritten (target : List Char) (commands : List Command) : Option (List Char) :=
  (commands.filter (·.target? = some target)).getLast?.map Command.body

/-- Behind a command the file has what is written to it later, or else what the command writes. -/
theorem lastWritten_cons (target : List Char) (command : Command) (commands : List Command) :
    lastWritten target (command :: commands) =
      (lastWritten target commands).or
        (if command.target? = some target then some command.body else none) := by
  unfold lastWritten
  -- The last of the commands that write the file is the last one behind, if there is any.
  by_cases same : command.target? = some target
  · rw [if_pos same, List.filter_cons_of_pos (by simpa using same), List.getLast?_cons]
    cases (commands.filter (·.target? = some target)).getLast? <;> rfl
  · rw [if_neg same, List.filter_cons_of_neg (by simpa using same), Option.or_none]

/-- A file that no command writes to is not written. -/
theorem lastWritten_eq_none {target : List Char} {commands : List Command}
    (others : ∀ command ∈ commands, command.target? ≠ some target) :
    lastWritten target commands = none := by
  -- None of them is left by the filter.
  have without : commands.filter (·.target? = some target) = [] :=
    List.filter_eq_nil_iff.mpr fun command inside => by simpa using others command inside
  rw [lastWritten, without]
  rfl

/-- The line of a command that writes a here-document. -/
def writeLine (target sentinel : List Char) : List Char :=
  "cat > ".toList ++ (target ++ (" <<\x27".toList ++ (sentinel ++ "\x27\n".toList)))

/-- It is read as such a command. -/
theorem readLine_writeLine {target sentinel : List Char} (more : target ≠ [])
    (plain : ∀ c ∈ target, isWordChar c = true) (inner : '\x27' ∉ sentinel) :
    readLine .bare none (writeLine target sentinel) =
      some ([.word ("cat".toList.map (.bare, ·)), .operator '>', .word (target.map (.bare, ·)),
        .hereDoc, .word (sentinel.map (.single, ·))], []) := by
  -- The line is read part by part: the command, the file, and the sentinel in quotes.
  obtain ⟨c, target, rfl⟩ := List.exists_cons_of_ne_nil more
  have opened (rest : List Char) : readLine .bare none ("cat > ".toList ++ rest) =
      emit (some ("cat".toList.map (.bare, ·))) []
        (emit none [.operator '>'] (emit none [] (readLine .bare none rest))) := rfl
  have named (rest : List Char) : readLine .bare none (c :: target ++ rest) =
      readLine .bare (some ((c :: target).map (.bare, ·))) rest := by
    rw [List.cons_append, readLine_char (plain c List.mem_cons_self), push,
      readLine_word fun d inside => plain d (List.mem_cons_of_mem _ inside)]
    rfl
  have quoted (word : Word) (rest : List Char) :
      readLine .bare (some word) (" <<\x27".toList ++ rest) =
        emit (some word) [] (emit none [.hereDoc] (readLine .single (some []) rest)) := rfl
  have closed : readLine .single (some []) (sentinel ++ "\x27\n".toList) =
      some ([.word (sentinel.map (.single, ·))], []) := readLine_quotes inner [] ['\n']
  -- The fixed parts are set aside, so that they are not read character by character.
  unfold writeLine
  generalize "cat > ".toList = opening at opened ⊢
  generalize " <<\x27".toList = redirection at quoted ⊢
  generalize "\x27\n".toList = ending at closed ⊢
  rw [opened, named, quoted, closed]
  rfl

end Tatara.Script
