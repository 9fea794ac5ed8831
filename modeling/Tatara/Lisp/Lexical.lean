import Mathlib.Data.String.Basic
import Tatara.Lisp.Reader

/-! The lexical grammar over plain characters, and its agreement with the tokenizer. -/

namespace Tatara.Lisp

open Tatara.Rust

/-- The raw characters of a string literal between its quotes, with the text they stand for. -/
inductive StrBody : List Char → List Char → Prop
  | nil : StrBody [] []
  | escape {esc : Char} {raw text : List Char} : StrBody raw text →
      StrBody ('\\' :: esc :: raw) (Atom.decodeStrEscape esc :: text)
  | plain {c : Char} {raw text : List Char} : c ≠ '\\' → c ≠ '\x22' → StrBody raw text →
      StrBody (c :: raw) (c :: text)

/-- A lexeme ends where the input ends or a boundary stands. -/
def AtBoundary : List Char → Prop
  | [] => True
  | c :: _ => isBareAtomBoundary c = true

/-- The tokens of a text that starts at a byte offset, and the opening quote of a string that the
text ends inside, if there is one. -/
inductive Lexes : Nat → List Char → List Spanned → Option Nat → Prop
  | done {p : Nat} : Lexes p [] [] none
  | space {p : Nat} {c : Char} {rest : List Char} {toks : List Spanned} {stop : Option Nat} :
      isWhitespace c = true → Lexes (p + c.utf8Size) rest toks stop →
      Lexes p (c :: rest) toks stop
  | comment {p : Nat} {body rest : List Char} {toks : List Spanned} {stop : Option Nat} :
      '\n' ∉ body → Lexes (p + String.utf8Len (';' :: body ++ ['\n'])) rest toks stop →
      Lexes p (';' :: body ++ '\n' :: rest) toks stop
  | lastComment {p : Nat} {body : List Char} : '\n' ∉ body → Lexes p (';' :: body) [] none
  | lParen {p : Nat} {rest : List Char} {toks : List Spanned} {stop : Option Nat} :
      Lexes (p + 1) rest toks stop → Lexes p ('(' :: rest) ((.lParen, p) :: toks) stop
  | rParen {p : Nat} {rest : List Char} {toks : List Spanned} {stop : Option Nat} :
      Lexes (p + 1) rest toks stop → Lexes p (')' :: rest) ((.rParen, p) :: toks) stop
  | quoted {p : Nat} {qf : QuoteForm} {rest : List Char} {toks : List Spanned}
      {stop : Option Nat} :
      (qf = .unquote → rest.head? ≠ some '@') →
      Lexes (p + String.utf8Len qf.prefixText) rest toks stop →
      Lexes p (qf.prefixText ++ rest) ((.quoted qf, p) :: toks) stop
  | str {p : Nat} {raw text rest : List Char} {toks : List Spanned} {stop : Option Nat} :
      StrBody raw text → Lexes (p + String.utf8Len ('\x22' :: raw ++ ['\x22'])) rest toks stop →
      Lexes p ('\x22' :: raw ++ '\x22' :: rest) ((.str text, p) :: toks) stop
  | openStr {p : Nat} {raw text tail : List Char} :
      StrBody raw text → tail = [] ∨ tail = ['\\'] → Lexes p ('\x22' :: raw ++ tail) [] (some p)
  | atom {p : Nat} {c : Char} {more rest : List Char} {toks : List Spanned}
      {stop : Option Nat} :
      (∀ ch ∈ c :: more, isBareAtomBoundary ch = false) → AtBoundary rest →
      Lexes (p + String.utf8Len (c :: more)) rest toks stop →
      Lexes p (c :: more ++ rest) ((.atom (c :: more), p) :: toks) stop

/-- What the tokenizer returns for a lexed text. -/
def lexed (toks : List Spanned) : Option Nat → Except LispError (List Spanned)
  | none => .ok toks
  | some p => .error (.unterminatedString p)

/-- A token in front of a lexed text is kept unless the text ends inside a string. -/
@[simp] theorem map_lexed (tok : Spanned) (toks : List Spanned) (stop : Option Nat) :
    (lexed toks stop).map (tok :: ·) = lexed (tok :: toks) stop := by
  -- The error carries no tokens.
  cases stop <;> rfl

/-- Offsets continue across a split of the text. -/
theorem charIndices_append (a b : List Char) (p : Nat) :
    charIndices p (a ++ b) = charIndices p a ++ charIndices (p + String.utf8Len a) b := by
  -- Each character advances the offset by its own size.
  induction a generalizing p with
  | nil => simp [charIndices]
  | cons c a ih => simp [charIndices, ih, Nat.add_assoc, Nat.add_comm c.utf8Size]

/-- A comment without a newline swallows the whole rest of the input. -/
theorem skipComment_end {body : List Char} (inside : '\n' ∉ body) (p : Nat) :
    skipComment (charIndices p body) = [] := by
  -- No character of the body stops the loop.
  induction body generalizing p with
  | nil => rfl
  | cons c body ih =>
    simp only [List.mem_cons, not_or] at inside
    have other : c ≠ '\n' := fun same => inside.1 same.symm
    simp [charIndices, skipComment, other, ih inside.2]

/-- A comment ends right after its first newline. -/
theorem skipComment_newline {body : List Char} (inside : '\n' ∉ body) (p : Nat)
    (rest : List Indexed) (q : Nat) :
    skipComment (charIndices p body ++ (q, '\n') :: rest) = rest := by
  -- The characters before the newline are dropped one at a time.
  induction body generalizing p with
  | nil => simp [charIndices, skipComment]
  | cons c body ih =>
    simp only [List.mem_cons, not_or] at inside
    have other : c ≠ '\n' := fun same => inside.1 same.symm
    simp [charIndices, skipComment, other, ih inside.2]

/-- The reader of a literal without escapes keeps a character that neither escapes nor closes. -/
theorem readStr_plain {c : Char} (notEscape : c ≠ '\\') (notClose : c ≠ '\x22') (p : Nat)
    (rest : List Indexed) :
    readStr ((p, c) :: rest) =
      (readStr rest).map fun (text, after) => (c :: text, after) := by
  -- The last character of the input has an arm of its own, and both arms agree here.
  cases rest with
  | nil => simp [readStr, notClose]
  | cons next rest => simp [readStr, notEscape, notClose]

/-- A literal is read up to its closing quote. -/
theorem readStr_closed {raw text : List Char} (body : StrBody raw text) (p q : Nat)
    (rest : List Indexed) :
    readStr (charIndices p raw ++ (q, '\x22') :: rest) = some (text, rest) := by
  -- The reader follows the literal's body, an escape at a time or a character at a time.
  induction body generalizing p with
  | nil => cases rest <;> simp [charIndices, readStr]
  | escape _ ih => simp [charIndices, readStr, ih]
  | plain notEscape notClose _ ih =>
    simp [charIndices, readStr_plain notEscape notClose, ih]

/-- A literal that the input ends inside is not read. -/
theorem readStr_open {raw text tail : List Char} (body : StrBody raw text) (p : Nat)
    (ends : tail = [] ∨ tail = ['\\']) : readStr (charIndices p (raw ++ tail)) = none := by
  -- No character of the body closes the literal, and neither does a backslash at the end.
  induction body generalizing p with
  | nil => rcases ends with rfl | rfl <;> simp [charIndices, readStr]
  | escape _ ih => simp [charIndices, readStr, ih]
  | plain notEscape notClose _ ih =>
    simp [charIndices, readStr_plain notEscape notClose, ih]

/-- Every text after an opening quote closes the literal or ends inside it. -/
theorem strBody_or_open (chars : List Char) :
    (∃ raw text rest, chars = raw ++ '\x22' :: rest ∧ StrBody raw text) ∨
      ∃ raw text tail, chars = raw ++ tail ∧ StrBody raw text ∧ (tail = [] ∨ tail = ['\\']) := by
  -- The recursion takes two characters at an escape, so it is on the length of the text.
  match chars with
  | [] => exact .inr ⟨[], [], [], rfl, .nil, .inl rfl⟩
  | c :: rest =>
    by_cases close : c = '\x22'
    · exact .inl ⟨[], [], rest, by simp [close], .nil⟩
    by_cases escape : c = '\\'
    · match rest with
      | [] => exact .inr ⟨[], [], ['\\'], by simp [escape], .nil, .inr rfl⟩
      | esc :: rest =>
        rcases strBody_or_open rest with
          ⟨raw, text, after, rfl, body⟩ | ⟨raw, text, tail, rfl, body, ends⟩
        · exact .inl ⟨'\\' :: esc :: raw, _, after, by simp [escape], .escape body⟩
        · exact .inr ⟨'\\' :: esc :: raw, _, tail, by simp [escape], .escape body, ends⟩
    · rcases strBody_or_open rest with
        ⟨raw, text, after, rfl, body⟩ | ⟨raw, text, tail, rfl, body, ends⟩
      · exact .inl ⟨c :: raw, _, after, by simp, .plain escape close body⟩
      · exact .inr ⟨c :: raw, _, tail, by simp, .plain escape close body, ends⟩
termination_by chars.length

/-- An atom is read up to its boundary. -/
theorem readAtom_run {more rest : List Char}
    (bare : ∀ ch ∈ more, isBareAtomBoundary ch = false) (ends : AtBoundary rest) (p : Nat) :
    readAtom (charIndices p (more ++ rest)) =
      (more, charIndices (p + String.utf8Len more) rest) := by
  -- The characters of the run are kept one at a time until the boundary stops the loop.
  induction more generalizing p with
  | nil =>
    cases rest with
    | nil => simp [charIndices, readAtom]
    | cons c rest =>
      have boundary : isBareAtomBoundary c = true := ends
      simp [charIndices, readAtom, boundary]
  | cons c more ih =>
    have inner := ih (fun ch member => bare ch (by simp [member]))
    simp [charIndices, readAtom, bare c (by simp), inner, Nat.add_assoc, Nat.add_comm c.utf8Size]

/-- A character inside a bare atom takes the last branch of the tokenizer's dispatch. -/
theorem dispatch_bare {c : Char} (bare : isBareAtomBoundary c = false) :
    QuoteForm.fromLeadChar c = none ∧ isWhitespace c = false ∧ c ≠ ';' ∧ c ≠ '(' ∧ c ≠ ')' ∧
      c ≠ '\x22' := by
  -- Every earlier branch tests one of the boundary characters.
  simp only [isBareAtomBoundary, Bool.or_eq_false_iff, List.contains_eq_mem,
    decide_eq_false_iff_not, List.mem_cons, List.not_mem_nil, not_or] at bare
  obtain ⟨notSpace, notOpen, notClose, notQuote, notQuasi, notComma, notStr, notComment, -⟩ := bare
  exact ⟨by simp [QuoteForm.fromLeadChar, notQuote, notQuasi, notComma], notSpace, notComment,
    notOpen, notClose, notStr⟩

/-- Whitespace opens no wrapper. -/
theorem fromLeadChar_space {c : Char} (space : isWhitespace c = true) :
    QuoteForm.fromLeadChar c = none := by
  -- The three lead characters are not whitespace.
  unfold QuoteForm.fromLeadChar
  split
  · rename_i same; subst same; exact absurd space (by decide)
  split
  · rename_i same; subst same; exact absurd space (by decide)
  split
  · rename_i same; subst same; exact absurd space (by decide)
  · rfl

/-- A prefix that no at sign completes is one token. -/
theorem tokenizeFrom_quoted {qf : QuoteForm} {rest : List Char} (p : Nat)
    (alone : qf = .unquote → rest.head? ≠ some '@') :
    tokenizeFrom (charIndices p (qf.prefixText ++ rest)) =
      (tokenizeFrom (charIndices (p + String.utf8Len qf.prefixText) rest)).map
        ((.quoted qf, p) :: ·) := by
  -- The splice prefix takes two characters, and a comma looks at the one behind it.
  cases qf with
  | unquoteSplice =>
    have step : p + ','.utf8Size + '@'.utf8Size = p + String.utf8Len [',', '@'] := rfl
    simp only [QuoteForm.prefixText, List.cons_append, List.nil_append, charIndices]
    rw [tokenizeFrom]
    simp [QuoteForm.fromLeadChar, QuoteForm.promoteViaNextChar, step]
  | unquote =>
    have step : p + ','.utf8Size = p + String.utf8Len [','] := rfl
    simp only [QuoteForm.prefixText, List.cons_append, List.nil_append, charIndices]
    rw [tokenizeFrom, step]
    cases rest with
    | nil => simp [QuoteForm.fromLeadChar, charIndices, tokenizeFrom, Except.map]
    | cons next rest =>
      have other : next ≠ '@' := by simpa using alone rfl
      simp [QuoteForm.fromLeadChar, QuoteForm.promoteViaNextChar, charIndices, other]
  | quote =>
    simp only [QuoteForm.prefixText, List.cons_append, List.nil_append, charIndices]
    rw [tokenizeFrom]
    cases rest with
    | nil => simp [QuoteForm.fromLeadChar, charIndices, tokenizeFrom, Except.map]
    | cons next rest =>
      simp [QuoteForm.fromLeadChar, QuoteForm.promoteViaNextChar, charIndices]
  | quasiquote =>
    simp only [QuoteForm.prefixText, List.cons_append, List.nil_append, charIndices]
    rw [tokenizeFrom]
    cases rest with
    | nil => simp [QuoteForm.fromLeadChar, charIndices, tokenizeFrom, Except.map]
    | cons next rest =>
      simp [QuoteForm.fromLeadChar, QuoteForm.promoteViaNextChar, charIndices]

/-- A literal that closes is one token. -/
theorem tokenizeFrom_str {rest after : List Indexed} {text : List Char} (p : Nat)
    (closed : readStr rest = some (text, after)) :
    tokenizeFrom ((p, '\x22') :: rest) = (tokenizeFrom after).map ((.str text, p) :: ·) := by
  -- The dispatch reaches the literal's branch, which asks the reader of literals once.
  have lead : QuoteForm.fromLeadChar '\x22' = none := rfl
  have white : isWhitespace '\x22' = false := by decide
  rw [tokenizeFrom]
  simp only [lead, white, Char.reduceEq, Bool.false_eq_true, if_false, if_true]
  split
  · rename_i missing; rw [closed] at missing; cases missing
  · rename_i found; rw [closed] at found; cases found; rfl

/-- A literal that never closes is rejected at its opening quote. -/
theorem tokenizeFrom_openStr {rest : List Indexed} (p : Nat) (missing : readStr rest = none) :
    tokenizeFrom ((p, '\x22') :: rest) = .error (.unterminatedString p) := by
  -- The dispatch reaches the literal's branch, which finds no closing quote.
  have lead : QuoteForm.fromLeadChar '\x22' = none := rfl
  have white : isWhitespace '\x22' = false := by decide
  rw [tokenizeFrom]
  simp only [lead, white, Char.reduceEq, Bool.false_eq_true, if_false, if_true]
  split
  · rfl
  · rename_i found; rw [missing] at found; cases found

/-- The tokenizer returns what the lexical grammar assigns to the text. -/
theorem Lexes.tokenizeFrom_eq {p : Nat} {chars : List Char} {toks : List Spanned}
    {stop : Option Nat} (lexes : Lexes p chars toks stop) :
    tokenizeFrom (charIndices p chars) = lexed toks stop := by
  -- Each rule of the grammar is one turn of the tokenizer's loop.
  induction lexes with
  | done => simp [charIndices, tokenizeFrom, lexed]
  | space white _ ih =>
    rw [charIndices, tokenizeFrom]
    simp [fromLeadChar_space white, white, ih]
  | @comment p body rest toks stop inside _ ih =>
    have offset : p + ';'.utf8Size + String.utf8Len body + '\n'.utf8Size =
        p + String.utf8Len (';' :: body ++ ['\n']) := by simp; omega
    have lead : QuoteForm.fromLeadChar ';' = none := rfl
    have white : isWhitespace ';' = false := by decide
    rw [List.cons_append, charIndices, charIndices_append, charIndices, offset, tokenizeFrom]
    simp only [lead, white, Bool.false_eq_true, if_false, if_true]
    rw [skipComment_newline inside, ih]
  | lastComment inside =>
    rw [charIndices, tokenizeFrom]
    simp [QuoteForm.fromLeadChar, isWhitespace, skipComment_end inside, tokenizeFrom, lexed]
  | @lParen p _ _ _ _ ih =>
    have step : p + '('.utf8Size = p + 1 := rfl
    rw [charIndices, tokenizeFrom, step, ih]
    simp [QuoteForm.fromLeadChar, isWhitespace]
  | @rParen p _ _ _ _ ih =>
    have step : p + ')'.utf8Size = p + 1 := rfl
    rw [charIndices, tokenizeFrom, step, ih]
    simp [QuoteForm.fromLeadChar, isWhitespace]
  | quoted alone _ ih => rw [tokenizeFrom_quoted _ alone, ih, map_lexed]
  | @str p raw text rest toks stop body _ ih =>
    have offset : p + '\x22'.utf8Size + String.utf8Len raw + '\x22'.utf8Size =
        p + String.utf8Len ('\x22' :: raw ++ ['\x22']) := by simp; omega
    rw [List.cons_append, charIndices, charIndices_append, charIndices, offset,
      tokenizeFrom_str p (readStr_closed body _ _ _), ih, map_lexed]
  | openStr body ends =>
    rw [List.cons_append, charIndices, tokenizeFrom_openStr _ (readStr_open body _ ends), lexed]
  | @atom p c more rest toks stop bare ends _ ih =>
    obtain ⟨noLead, notSpace, notComment, notOpen, notClose, notStr⟩ :=
      dispatch_bare (bare c (by simp))
    have inside : ∀ ch ∈ more, isBareAtomBoundary ch = false :=
      fun ch member => bare ch (by simp [member])
    have offset : p + c.utf8Size + String.utf8Len more = p + String.utf8Len (c :: more) := by
      simp; omega
    rw [List.cons_append, charIndices, tokenizeFrom, readAtom_run inside ends, offset, ih]
    simp [noLead, notSpace, notComment, notOpen, notClose, notStr]

/-- The characters up to the first boundary form the longest bare run. -/
theorem exists_run (chars : List Char) : ∃ more rest, chars = more ++ rest ∧
    (∀ ch ∈ more, isBareAtomBoundary ch = false) ∧ AtBoundary rest := by
  -- The run is extended one character at a time until a boundary or the end.
  induction chars with
  | nil => exact ⟨[], [], rfl, by simp, trivial⟩
  | cons c chars ih =>
    by_cases boundary : isBareAtomBoundary c = true
    · exact ⟨[], c :: chars, rfl, by simp, boundary⟩
    · obtain ⟨more, rest, rfl, bare, ends⟩ := ih
      exact ⟨c :: more, rest, rfl, by simpa [boundary] using bare, ends⟩

/-- A boundary that is not whitespace is one of the seven delimiters. -/
theorem delimiter_of_boundary {c : Char} (boundary : isBareAtomBoundary c = true)
    (notSpace : isWhitespace c ≠ true) :
    c = '(' ∨ c = ')' ∨ c = '\x27' ∨ c = '\x60' ∨ c = ',' ∨ c = '\x22' ∨ c = ';' := by
  -- The boundary test is whitespace or membership among the delimiters.
  simpa [isBareAtomBoundary, notSpace] using boundary

/-- The lexical grammar covers every text. -/
theorem lexes_total (chars : List Char) (p : Nat) : ∃ toks stop, Lexes p chars toks stop := by
  -- The first character selects the rule, and what the rule leaves is shorter.
  match chars with
  | [] => exact ⟨[], none, .done⟩
  | c :: rest =>
    by_cases white : isWhitespace c = true
    · obtain ⟨toks, stop, tail⟩ := lexes_total rest (p + c.utf8Size)
      exact ⟨toks, stop, .space white tail⟩
    by_cases boundary : isBareAtomBoundary c = true
    · rcases delimiter_of_boundary boundary white with rfl | rfl | rfl | rfl | rfl | rfl | rfl
      · obtain ⟨toks, stop, tail⟩ := lexes_total rest (p + 1)
        exact ⟨_, stop, .lParen tail⟩
      · obtain ⟨toks, stop, tail⟩ := lexes_total rest (p + 1)
        exact ⟨_, stop, .rParen tail⟩
      · obtain ⟨toks, stop, tail⟩ := lexes_total rest (p + 1)
        exact ⟨_, stop, @Lexes.quoted p .quote _ _ _ (by simp) tail⟩
      · obtain ⟨toks, stop, tail⟩ := lexes_total rest (p + 1)
        exact ⟨_, stop, @Lexes.quoted p .quasiquote _ _ _ (by simp) tail⟩
      · -- A comma takes an at sign with it.
        by_cases splice : rest.head? = some '@'
        · obtain ⟨after, rfl⟩ := List.head?_eq_some_iff.mp splice
          obtain ⟨toks, stop, tail⟩ := lexes_total after (p + 2)
          exact ⟨_, stop, @Lexes.quoted p .unquoteSplice _ _ _ (by simp) tail⟩
        · obtain ⟨toks, stop, tail⟩ := lexes_total rest (p + 1)
          exact ⟨_, stop, @Lexes.quoted p .unquote _ _ _ (fun _ => splice) tail⟩
      · rcases strBody_or_open rest with
          ⟨raw, text, after, rfl, body⟩ | ⟨raw, text, ending, rfl, body, ends⟩
        · obtain ⟨toks, stop, tail⟩ := lexes_total after _
          exact ⟨_, stop, .str body tail⟩
        · exact ⟨[], some p, .openStr body ends⟩
      · by_cases newline : '\n' ∈ rest
        · obtain ⟨body, after, rfl, inside⟩ := List.eq_append_cons_of_mem newline
          obtain ⟨toks, stop, tail⟩ := lexes_total after _
          exact ⟨toks, stop, .comment inside tail⟩
        · exact ⟨[], none, .lastComment newline⟩
    · obtain ⟨more, after, rfl, bare, ends⟩ := exists_run rest
      obtain ⟨toks, stop, tail⟩ := lexes_total after _
      exact ⟨_, stop, .atom (by simpa [boundary] using bare) ends tail⟩
termination_by chars.length

/-- The tokenizer returns a token list exactly when the text lexes to it completely. -/
theorem tokenize_ok_iff {chars : List Char} {toks : List Spanned} :
    tokenize chars = .ok toks ↔ Lexes 0 chars toks none := by
  -- The grammar assigns some outcome, and the tokenizer returns that one.
  constructor
  · intro accepted
    obtain ⟨found, stop, lexes⟩ := lexes_total chars 0
    have same := lexes.tokenizeFrom_eq.symm.trans accepted
    cases stop with
    | none => cases same; exact lexes
    | some p => cases same
  · exact Lexes.tokenizeFrom_eq

/-- The tokenizer rejects exactly the texts that end inside a string, at its opening quote. -/
theorem tokenize_error_iff {chars : List Char} {err : LispError} :
    tokenize chars = .error err ↔
      ∃ toks p, Lexes 0 chars toks (some p) ∧ err = .unterminatedString p := by
  -- The only rejecting outcome of the grammar is the open string.
  constructor
  · intro rejected
    obtain ⟨found, stop, lexes⟩ := lexes_total chars 0
    have same := lexes.tokenizeFrom_eq.symm.trans rejected
    cases stop with
    | none => cases same
    | some p => cases same; exact ⟨found, p, lexes, rfl⟩
  · rintro ⟨toks, p, lexes, rfl⟩
    exact lexes.tokenizeFrom_eq

end Tatara.Lisp
