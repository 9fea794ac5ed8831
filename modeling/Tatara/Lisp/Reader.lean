import Tatara.Lisp.Error

/-! The reader: characters with byte offsets become spanned tokens, and tokens become forms. -/

namespace Tatara.Lisp

open Tatara.Rust

/-- The characters that end a bare atom. -/
def isBareAtomBoundary (c : Char) : Bool :=
  -- Six delimiters of the surface language count besides whitespace, and the comma is one of them.
  isWhitespace c || ['(', ')', '\x27', '\x60', ',', '\x22', ';'].contains c

namespace Atom

/-- The character an escape stands for, where an unknown escape stands for itself. -/
def decodeStrEscape (esc : Char) : Char :=
  if esc = 'n' then '\n' else if esc = 't' then '\t' else if esc = 'r' then '\r' else esc

/-- Classify a bare lexeme, with integers tried before floats. -/
def fromLexeme (text : List Char) : Atom :=
  if text = boolLiteral true then .bool true
  else if text = boolLiteral false then .bool false
  else match text with
    | ':' :: name => .keyword (String.ofList name)
    | _ =>
      match parseI64 text with
      | some n => .int n
      | none =>
        match F64.parse text with
        | some x => .float x
        | none => .symbol (String.ofList text)

end Atom

/-- The tokens of the surface language. -/
inductive Token where
  | lParen
  | rParen
  | quoted (qf : QuoteForm)
  | atom (lexeme : List Char)
  | str (text : List Char)
  deriving DecidableEq, Repr

/-- A token with the byte offset of its first character. -/
abbrev Spanned := Token × Nat

/-- A character with its byte offset. -/
abbrev Indexed := Nat × Char

/-- `str::char_indices`, starting from a given offset. -/
def charIndices (pos : Nat) : List Char → List Indexed
  | [] => []
  | c :: cs => (pos, c) :: charIndices (pos + c.utf8Size) cs

/-- Discard the rest of a comment, its newline included. -/
def skipComment : List Indexed → List Indexed
  | [] => []
  | (_, ch) :: rest => if ch = '\n' then rest else skipComment rest

/-- The payload of a string literal after its opening quote, or nothing when it never closes. -/
def readStr : List Indexed → Option (List Char × List Indexed)
  | [] => none
  | [(_, ch)] => if ch = '\x22' then some ([], []) else none
  | (_, ch) :: (pos, esc) :: rest =>
    if ch = '\\' then
      (readStr rest).map fun (text, after) => (Atom.decodeStrEscape esc :: text, after)
    else if ch = '\x22' then some ([], (pos, esc) :: rest)
    else (readStr ((pos, esc) :: rest)).map fun (text, after) => (ch :: text, after)

/-- The characters of a bare atom up to its boundary. -/
def readAtom : List Indexed → List Char × List Indexed
  | [] => ([], [])
  | (pos, ch) :: rest =>
    if isBareAtomBoundary ch then ([], (pos, ch) :: rest)
    else (ch :: (readAtom rest).1, (readAtom rest).2)

/-- A comment is never longer than what follows its lead. -/
theorem skipComment_length (chars : List Indexed) : (skipComment chars).length ≤ chars.length := by
  -- Every step either stops or drops one character.
  induction chars with
  | nil => simp [skipComment]
  | cons head rest ih =>
    simp only [skipComment]
    split
    · simp
    · simp only [List.length_cons]; omega

/-- Reading a string literal consumes at least its closing quote. -/
theorem readStr_length {chars after : List Indexed} {text : List Char}
    (found : readStr chars = some (text, after)) : after.length < chars.length := by
  -- The recursion drops one character, or two at an escape, before it meets the closing quote.
  fun_induction readStr chars generalizing text after with
  | case1 => simp at found
  | case2 => simp at found; simp [found.2.symm]
  | case3 => simp at found
  | case4 _ _ _ _ ih =>
    simp only [Option.map_eq_some_iff, Prod.exists, Prod.mk.injEq] at found
    obtain ⟨inner, remaining, located, _, rfl⟩ := found
    have := ih located
    simp only [List.length_cons]; omega
  | case5 => simp at found; simp [found.2.symm]
  | case6 _ _ _ _ _ _ _ ih =>
    simp only [Option.map_eq_some_iff, Prod.exists, Prod.mk.injEq] at found
    obtain ⟨inner, remaining, located, _, rfl⟩ := found
    have := ih located
    simp only [List.length_cons] at this ⊢; omega

/-- Reading an atom never grows the input. -/
theorem readAtom_length (chars : List Indexed) : (readAtom chars).2.length ≤ chars.length := by
  -- Every step either stops at a boundary or drops one character.
  induction chars with
  | nil => simp [readAtom]
  | cons head rest ih =>
    simp only [readAtom]
    split
    · simp
    · simp only [List.length_cons]; omega

/-- The tokenizer's outer loop over the characters that remain. -/
def tokenizeFrom (chars : List Indexed) : Except LispError (List Spanned) :=
  match chars with
  | [] => .ok []
  | (pos, c) :: rest =>
    match QuoteForm.fromLeadChar c with
    | some head =>
      match rest with
      | [] => .ok [(.quoted head, pos)]
      | (nextPos, next) :: beyond =>
        match head.promoteViaNextChar next with
        | some promoted => (tokenizeFrom beyond).map ((.quoted promoted, pos) :: ·)
        | none => (tokenizeFrom ((nextPos, next) :: beyond)).map ((.quoted head, pos) :: ·)
    | none =>
      if isWhitespace c then tokenizeFrom rest
      else if c = ';' then tokenizeFrom (skipComment rest)
      else if c = '(' then (tokenizeFrom rest).map ((.lParen, pos) :: ·)
      else if c = ')' then (tokenizeFrom rest).map ((.rParen, pos) :: ·)
      else if c = '\x22' then
        match _found : readStr rest with
        | none => .error (.unterminatedString pos)
        | some (text, after) => (tokenizeFrom after).map ((.str text, pos) :: ·)
      else
        -- The dispatch above has handled every boundary, so this character opens the atom.
        (tokenizeFrom (readAtom rest).2).map ((.atom (c :: (readAtom rest).1), pos) :: ·)
termination_by chars.length
decreasing_by
  all_goals simp only [List.length_cons]
  · omega
  · omega
  · omega
  · have := skipComment_length rest; omega
  · omega
  · omega
  · have := readStr_length _found; omega
  · have := readAtom_length rest; omega

/-- `tokenize`. -/
def tokenize (src : List Char) : Except LispError (List Spanned) :=
  tokenizeFrom (charIndices 0 src)

mutual

/-- One datum from the front of the tokens, with the tokens it leaves. -/
def parse (eofPos : Nat) (toks : List Spanned) :
    Except LispError { r : Sexp × List Spanned // r.2.length < toks.length } :=
  match toks with
  | [] => .error (.eof eofPos)
  | (.lParen, openPos) :: rest =>
    match parseItems eofPos openPos rest with
    | .error err => .error err
    | .ok ⟨(items, after), shorter⟩ =>
      .ok ⟨(.list items, after), by simp only [List.length_cons] at shorter ⊢; omega⟩
  | (.rParen, pos) :: _ => .error (.unmatchedParen pos)
  | (.quoted qf, _) :: rest =>
    match parse eofPos rest with
    | .error err => .error err
    | .ok ⟨(inner, after), shorter⟩ =>
      .ok ⟨(qf.wrap inner, after), by simp only [List.length_cons] at shorter ⊢; omega⟩
  | (.str text, _) :: rest => .ok ⟨(.atom (.str (String.ofList text)), rest), by simp⟩
  | (.atom lexeme, _) :: rest => .ok ⟨(.atom (Atom.fromLexeme lexeme), rest), by simp⟩
termination_by 2 * toks.length
decreasing_by
  all_goals simp only [List.length_cons]
  all_goals omega

/-- The data of a list up to its closing parenthesis, with the tokens after it. -/
def parseItems (eofPos openPos : Nat) (toks : List Spanned) :
    Except LispError { r : List Sexp × List Spanned // r.2.length < toks.length } :=
  match toks with
  | [] => .error (.unmatchedOpenParen openPos)
  | (.rParen, _) :: rest => .ok ⟨([], rest), by simp⟩
  | tok :: rest =>
    match parse eofPos (tok :: rest) with
    | .error err => .error err
    | .ok ⟨(item, after), shorter⟩ =>
      match parseItems eofPos openPos after with
      | .error err => .error err
      | .ok ⟨(items, beyond), shorter'⟩ =>
        .ok ⟨(item :: items, beyond), by simp only at shorter shorter' ⊢; omega⟩
termination_by 2 * toks.length + 1
decreasing_by
  · omega
  · simp only at shorter
    omega

end

/-- The top-level loop: data are read until no token remains. -/
def readForms (eofPos : Nat) (toks : List Spanned) : Except LispError (List Sexp) :=
  match toks with
  | [] => .ok []
  | tok :: rest =>
    match parse eofPos (tok :: rest) with
    | .error err => .error err
    | .ok ⟨(form, after), _shorter⟩ => (readForms eofPos after).map (form :: ·)
termination_by toks.length
decreasing_by exact _shorter

/-- `read`. -/
def read (src : String) : Except LispError (List Sexp) :=
  match tokenize src.toList with
  | .error err => .error err
  | .ok toks => readForms src.utf8ByteSize toks

end Tatara.Lisp
