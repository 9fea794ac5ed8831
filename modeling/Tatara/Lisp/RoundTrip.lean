import Tatara.Lisp.Grammar

/-! Which forms of the reader survive printing and reading again. -/

namespace Tatara.Lisp

open Tatara.Rust

namespace Sexp

mutual

/-- All forms inside a form, the form itself included. -/
def subforms : Sexp → List Sexp
  | .nil => [.nil]
  | .atom value => [.atom value]
  | .list items => .list items :: subformsItems items
  | .quote inner => .quote inner :: subforms inner
  | .quasiquote inner => .quasiquote inner :: subforms inner
  | .unquote inner => .unquote inner :: subforms inner
  | .unquoteSplice inner => .unquoteSplice inner :: subforms inner

/-- All forms inside the items of a list. -/
def subformsItems : List Sexp → List Sexp
  | [] => []
  | x :: xs => subforms x ++ subformsItems xs

end

/-- The forms inside the items are those inside one of them. -/
theorem mem_subformsItems {form : Sexp} {items : List Sexp} :
    form ∈ subformsItems items ↔ ∃ item ∈ items, form ∈ item.subforms := by
  -- The items contribute one after another.
  induction items with
  | nil => simp [subformsItems]
  | cons item items ih => simp [subformsItems, ih]

/-- What is inside an item is inside the list. -/
theorem subforms_item {items : List Sexp} {item sub : Sexp} (member : item ∈ items)
    (inside : sub ∈ item.subforms) : sub ∈ (Sexp.list items).subforms := by
  -- The list adds only itself to what its items hold.
  simp only [subforms, List.mem_cons, mem_subformsItems]
  exact .inr ⟨item, member, inside⟩

/-- A wrapper adds itself to the forms it wraps. -/
@[simp] theorem subforms_wrap (qf : QuoteForm) (inner : Sexp) :
    (qf.wrap inner).subforms = qf.wrap inner :: inner.subforms := by
  -- Each of the four wrappers has its own arm.
  cases qf <;> simp [QuoteForm.wrap, subforms]

end Sexp

/-- What a token contributes to the form it is part of. -/
inductive TokenKind where
  | lParen
  | rParen
  | quoted (qf : QuoteForm)
  | atom (value : Atom)
  deriving DecidableEq, Repr

/-- The contribution of a token. -/
def Token.kind : Token → TokenKind
  | .lParen => .lParen
  | .rParen => .rParen
  | .quoted qf => .quoted qf
  | .atom lexeme => .atom (Atom.fromLexeme lexeme)
  | .str text => .atom (.str (String.ofList text))

/-- The contributions of a token sequence, without its positions. -/
def kindsOf (toks : List Spanned) : List TokenKind := toks.map fun tok => tok.1.kind

namespace Sexp

mutual

/-- The contributions that spell a form, where no token spells the empty one. -/
def kinds : Sexp → List TokenKind
  | .nil => []
  | .atom value => [.atom value]
  | .list items => .lParen :: (kindsItems items ++ [.rParen])
  | .quote inner => .quoted .quote :: kinds inner
  | .quasiquote inner => .quoted .quasiquote :: kinds inner
  | .unquote inner => .quoted .unquote :: kinds inner
  | .unquoteSplice inner => .quoted .unquoteSplice :: kinds inner

/-- The contributions that spell the items of a list. -/
def kindsItems : List Sexp → List TokenKind
  | [] => []
  | x :: xs => kinds x ++ kindsItems xs

end

/-- The contributions of the items are those of one of them. -/
theorem mem_kindsItems {kind : TokenKind} {items : List Sexp} :
    kind ∈ kindsItems items ↔ ∃ item ∈ items, kind ∈ item.kinds := by
  -- The items contribute one after another.
  induction items with
  | nil => simp [kindsItems]
  | cons item items ih => simp [kindsItems, ih]

/-- A wrapper contributes its prefix. -/
@[simp] theorem kinds_wrap (qf : QuoteForm) (inner : Sexp) :
    (qf.wrap inner).kinds = .quoted qf :: inner.kinds := by
  -- Each of the four wrappers has its own arm.
  cases qf <;> simp [QuoteForm.wrap, kinds]

end Sexp

mutual

/-- The tokens of a datum contribute what spells its form. -/
theorem Datum.kindsOf_eq {toks : List Spanned} {form : Sexp} (datum : Datum toks form) :
    kindsOf toks = form.kinds := by
  -- Each rule of the grammar adds the contributions of its own tokens.
  match datum with
  | .atom => simp [kindsOf, Token.kind, Sexp.kinds]
  | .str => simp [kindsOf, Token.kind, Sexp.kinds]
  | .list data => simpa [kindsOf, Token.kind, Sexp.kinds] using data.kindsOf_eq
  | .quoted datum => simpa [kindsOf, Token.kind] using datum.kindsOf_eq
termination_by 2 * toks.length

/-- The tokens of a sequence of data contribute what spells its forms. -/
theorem Data.kindsOf_eq {toks : List Spanned} {forms : List Sexp} (data : Data toks forms) :
    kindsOf toks = Sexp.kindsItems forms := by
  -- The data contribute one after another.
  match data with
  | .nil => rfl
  | .cons datum data =>
    obtain ⟨tok, p, more, rfl, -⟩ := datum.starts
    have first := datum.kindsOf_eq
    have others := data.kindsOf_eq
    rw [Sexp.kindsItems, ← first, ← others, kindsOf, List.map_append]
    rfl
termination_by 2 * toks.length + 1

end

/-- Items that are spelled by their contributions make a sequence that is. -/
theorem data_of_kindsOf {items : List Sexp}
    (each : ∀ item ∈ items, ∀ toks, kindsOf toks = item.kinds → Datum toks item) :
    ∀ toks, kindsOf toks = Sexp.kindsItems items → Data toks items := by
  -- The contributions of the first item end where those of the others begin.
  induction items with
  | nil =>
    intro toks same
    have empty : toks = [] := by simpa [kindsOf, Sexp.kindsItems] using same
    exact empty ▸ .nil
  | cons item items ih =>
    intro toks same
    obtain ⟨front, rest, rfl, first, others⟩ := List.map_eq_append_iff.mp same
    exact .cons (each item (by simp) front first)
      (ih (fun other member => each other (by simp [member])) rest others)

/-- Tokens that contribute what spells a form are a datum with that form. -/
theorem datum_of_kindsOf {form : Sexp} (nonempty : Sexp.nil ∉ form.subforms) :
    ∀ toks, kindsOf toks = form.kinds → Datum toks form := by
  -- The contributions show which rule of the grammar applies.
  induction form using Sexp.wrapInduction with
  | nil => simp [Sexp.subforms] at nonempty
  | atom value =>
    intro toks same
    obtain ⟨⟨tok, p⟩, rfl, kind⟩ := List.map_eq_singleton_iff.mp same
    cases tok with
    | atom lexeme => simp only [Token.kind, TokenKind.atom.injEq] at kind; exact kind ▸ .atom
    | str text => simp only [Token.kind, TokenKind.atom.injEq] at kind; exact kind ▸ .str
    | _ => simp [Token.kind] at kind
  | list items ih =>
    intro toks same
    have inner : ∀ item ∈ items, Sexp.nil ∉ item.subforms :=
      fun item member inside => nonempty (Sexp.subforms_item member inside)
    obtain ⟨⟨opening, p⟩, others, rfl, opens, middle⟩ := List.map_eq_cons_iff.mp same
    obtain ⟨body, closing, rfl, spelled, closes⟩ := List.map_eq_append_iff.mp middle
    obtain ⟨⟨last, q⟩, rfl, close⟩ := List.map_eq_singleton_iff.mp closes
    have each := fun item member => ih item member (inner item member)
    have data := data_of_kindsOf each body spelled
    cases opening <;> cases last <;> simp [Token.kind] at opens close
    exact .list data
  | wrap qf inner ih =>
    intro toks same
    rw [Sexp.kinds_wrap] at same
    obtain ⟨⟨opening, p⟩, body, rfl, opens, spelled⟩ := List.map_eq_cons_iff.mp same
    have datum := ih (by simpa using fun inside => nonempty (by simp [inside])) body spelled
    cases opening <;> simp [Token.kind] at opens
    exact opens ▸ .quoted datum

/-- Whether the debug form of a character reads back as that character. -/
def readsBack [CharTable] (c : Char) : Bool :=
  ['\t', '\r', '\n', '\\', '\x22'].contains c || (c != '\x00' && CharTable.printable c)

/-- What the debug form of a character reads back as. -/
def rereadChar [CharTable] (c : Char) : List Char :=
  if readsBack c then [c]
  else if c = '\x00' then ['0']
  else 'u' :: '\x7b' :: (Nat.toDigits 16 c.toNat ++ ['\x7d'])

/-- Two literal bodies in a row are a literal body. -/
theorem StrBody.append {a b x y : List Char} (first : StrBody a x) (second : StrBody b y) :
    StrBody (a ++ b) (x ++ y) := by
  -- Each escape and each plain character is kept.
  induction first with
  | nil => exact second
  | escape _ ih => exact .escape ih
  | plain notEscape notClose _ ih => exact .plain notEscape notClose ih

/-- Characters that neither escape nor close are a literal body for themselves. -/
theorem strBody_self {chars : List Char} (plain : ∀ c ∈ chars, c ≠ '\\' ∧ c ≠ '\x22') :
    StrBody chars chars := by
  -- No character is special.
  induction chars with
  | nil => exact .nil
  | cons c chars ih =>
    have first := plain c (by simp)
    exact .plain first.1 first.2 (ih fun other member => plain other (by simp [member]))

/-- A hexadecimal digit neither escapes nor closes a literal. -/
theorem digitChar_plain : ∀ n < 16, n.digitChar ≠ '\\' ∧ n.digitChar ≠ '\x22' := by
  -- Sixteen digits are checked.
  decide

/-- No hexadecimal digit of a number escapes or closes a literal. -/
theorem hexDigit_plain {n : Nat} {c : Char} (member : c ∈ Nat.toDigits 16 n) :
    c ≠ '\\' ∧ c ≠ '\x22' := by
  -- The digits are produced from the quotient and the remainder.
  induction n using Nat.strongRecOn with
  | ind n ih =>
    rw [Nat.toDigits_eq_if (by decide)] at member
    split at member
    · simp only [List.mem_singleton] at member
      exact member ▸ digitChar_plain n (by assumption)
    · simp only [List.mem_append, List.mem_singleton] at member
      rcases member with member | rfl
      · exact ih (n / 16) (by omega) member
      · exact digitChar_plain _ (Nat.mod_lt _ (by decide))

/-- The debug form of a character is a literal body. -/
theorem strBody_debugChar [CharTable] (c : Char) : StrBody (debugChar c) (rereadChar c) := by
  -- A short escape is read through the escape table.
  by_cases short : c ∈ ['\x00', '\t', '\r', '\n', '\\', '\x22']
  · simp only [List.mem_cons, List.not_mem_nil, or_false] at short
    rcases short with rfl | rfl | rfl | rfl | rfl | rfl
    all_goals exact .escape .nil
  simp only [List.mem_cons, List.not_mem_nil, or_false, not_or] at short
  obtain ⟨notNul, notTab, notReturn, notNewline, notEscape, notClose⟩ := short
  by_cases printable : CharTable.printable c = true
  · simpa [debugChar, rereadChar, readsBack, notNul, notTab, notReturn, notNewline, notEscape,
      notClose, printable] using StrBody.plain notEscape notClose .nil
  · -- The escape of a code point loses its backslash and keeps the rest as text.
    have digits : StrBody (Nat.toDigits 16 c.toNat ++ ['\x7d'])
        (Nat.toDigits 16 c.toNat ++ ['\x7d']) :=
      strBody_self fun d member => by
        rcases List.mem_append.mp member with member | member
        · exact hexDigit_plain member
        · rw [List.mem_singleton.mp member]; decide
    simp only [debugChar, rereadChar, readsBack, notNul, notTab, notReturn, notNewline, notEscape,
      notClose, printable, unicodeEscape, List.contains_cons, List.contains_nil]
    have braced := StrBody.plain (c := '\x7b') (by decide) (by decide) digits
    have escaped := @StrBody.escape 'u' _ _ braced
    rw [show Atom.decodeStrEscape 'u' = 'u' from rfl] at escaped
    simpa [notNul, notTab, notReturn, notNewline, notEscape, notClose, printable] using escaped

/-- The debug form of a text is a literal body. -/
theorem strBody_debug [CharTable] (text : List Char) :
    StrBody (text.flatMap debugChar) (text.flatMap rereadChar) := by
  -- The characters are escaped one by one.
  induction text with
  | nil => exact .nil
  | cons c text ih => simpa using (strBody_debugChar c).append ih

/-- Reading back never loses a character. -/
theorem length_le_reread [CharTable] (text : List Char) :
    text.length ≤ (text.flatMap rereadChar).length := by
  -- Every character leaves at least one.
  induction text with
  | nil => simp
  | cons c text ih =>
    have positive : 1 ≤ (rereadChar c).length := by
      unfold rereadChar
      split
      · simp
      · split <;> simp
    simp only [List.flatMap_cons, List.length_append, List.length_cons]
    omega

/-- A text is read back unchanged exactly when each of its characters is. -/
theorem reread_eq_iff [CharTable] (text : List Char) :
    text.flatMap rereadChar = text ↔ ∀ c ∈ text, readsBack c = true := by
  -- A character that is not read back is replaced by another one or by several.
  induction text with
  | nil => simp
  | cons c text ih =>
    rw [List.flatMap_cons, List.forall_mem_cons, ← ih]
    by_cases back : readsBack c = true
    · simp [rereadChar, back]
    · simp only [back, Bool.false_eq_true, false_and, iff_false]
      intro same
      by_cases nul : c = '\x00'
      · subst nul
        simp [rereadChar, back] at same
      · have spelled : rereadChar c = 'u' :: '\x7b' :: (Nat.toDigits 16 c.toNat ++ ['\x7d']) := by
          simp [rereadChar, back, nul]
        have longer := congrArg List.length same
        have atLeast := length_le_reread text
        simp only [spelled, List.length_append, List.length_cons] at longer
        omega

/-- A nonempty run of characters without a boundary among them. -/
def Bare (lexeme : List Char) : Prop :=
  lexeme ≠ [] ∧ ∀ c ∈ lexeme, isBareAtomBoundary c = false

/-- The atoms that the reader builds. -/
def Atom.FromReader (value : Atom) : Prop :=
  (∃ text, value = .str text) ∨ ∃ lexeme, Bare lexeme ∧ Atom.fromLexeme lexeme = value

/-- The characters of a printed integer are digits and a minus sign. -/
theorem renderI64_chars {n : Int64} {c : Char} (member : c ∈ renderI64 n) :
    c.isDigit = true ∨ c = '-' := by
  -- Only a negative number shows its sign.
  unfold renderI64 renderInt at member
  split at member
  · rcases List.mem_cons.mp member with rfl | member
    · exact .inr rfl
    · exact .inl (renderNat_isDigit member)
  · exact .inl (renderNat_isDigit member)

/-- A printed integer has at least one character. -/
theorem renderI64_ne_nil (n : Int64) : renderI64 n ≠ [] := by
  -- The digits alone are never empty.
  unfold renderI64 renderInt
  split
  · simp
  · exact renderNat_ne_nil _

/-- No digit ends a bare atom. -/
theorem digit_bare {c : Char} (digit : c.isDigit = true) : isBareAtomBoundary c = false := by
  -- The digits form one run of code points, and no boundary lies in it.
  have range : 48 ≤ c.toNat ∧ c.toNat ≤ 57 := by
    simpa [Char.isDigit, UInt32.le_iff_toNat_le] using digit
  simp only [isBareAtomBoundary, Bool.or_eq_false_iff, List.contains_eq_mem,
    decide_eq_false_iff_not, List.mem_cons, List.not_mem_nil, not_or]
  refine ⟨?_, ?_, ?_, ?_, ?_, ?_, ?_, ?_, not_false⟩
  · simp only [isWhitespace, Bool.or_eq_false_iff, Bool.and_eq_false_iff, decide_eq_false_iff_not,
      beq_eq_false_iff_ne]
    omega
  all_goals
    intro same
    obtain rfl := same
    exact absurd digit (by decide)

/-- A printed integer is read back as that integer. -/
theorem fromLexeme_renderI64 (n : Int64) : Atom.fromLexeme (renderI64 n) = .int n := by
  -- Neither a boolean nor a keyword starts with a digit or a sign.
  have other : ∀ c rest, ¬ (c.isDigit = true ∨ c = '-') → renderI64 n ≠ c :: rest := by
    intro c rest bad same
    have member : c ∈ renderI64 n := by simp [same]
    exact bad (renderI64_chars member)
  have notTrue : renderI64 n ≠ Atom.boolLiteral true := other '#' _ (by decide)
  have notFalse : renderI64 n ≠ Atom.boolLiteral false := other '#' _ (by decide)
  unfold Atom.fromLexeme
  rw [if_neg notTrue, if_neg notFalse]
  split
  · rename_i name same
    exact absurd same (other ':' name (by decide))
  · rw [parseI64_renderI64]

/-- An atom is printed as the lexeme it was read from, unless it is a number. -/
theorem render_or_number [CharTable] (lexeme : List Char) :
    (Atom.fromLexeme lexeme).render = lexeme ∨ (∃ n, Atom.fromLexeme lexeme = .int n) ∨
      ∃ x, Atom.fromLexeme lexeme = .float x := by
  -- Booleans have one spelling, and keywords and symbols keep theirs.
  unfold Atom.fromLexeme
  split
  · rename_i same; exact .inl same.symm
  split
  · rename_i same; exact .inl same.symm
  split
  · exact .inl (by simp [Atom.render])
  split
  · exact .inr (.inl ⟨_, rfl⟩)
  split
  · exact .inr (.inr ⟨_, rfl⟩)
  · exact .inl (by simp [Atom.render])

/-- An atom read from a bare lexeme is printed as a bare lexeme that reads as the same atom. -/
theorem render_fromLexeme [CharTable] {lexeme : List Char} (bare : Bare lexeme)
    (notFloat : ∀ x, Atom.fromLexeme lexeme ≠ .float x) :
    Bare (Atom.fromLexeme lexeme).render ∧
      Atom.fromLexeme (Atom.fromLexeme lexeme).render = Atom.fromLexeme lexeme := by
  -- Only an integer may be printed with other characters than it was read from.
  rcases render_or_number lexeme with same | ⟨n, integer⟩ | ⟨x, float⟩
  · rw [same]
    exact ⟨bare, rfl⟩
  · rw [integer]
    refine ⟨⟨renderI64_ne_nil n, fun c member => ?_⟩, fromLexeme_renderI64 n⟩
    rcases renderI64_chars member with digit | rfl
    · exact digit_bare digit
    · decide
  · exact absurd float (notFloat x)

/-- An atom of the reader that is neither a float nor a string is printed as its own lexeme. -/
theorem Atom.FromReader.bare [CharTable] {value : Atom} (fromReader : value.FromReader)
    (notFloat : ∀ x, value ≠ .float x) (notStr : ∀ text, value ≠ .str text) :
    Bare value.render ∧ Atom.fromLexeme value.render = value := by
  -- Such an atom was read from a bare lexeme.
  rcases fromReader with ⟨text, rfl⟩ | ⟨lexeme, bare, rfl⟩
  · exact absurd rfl (notStr text)
  · exact render_fromLexeme bare notFloat

/-- What remains of a symbol's name behind a leading at sign. -/
def Sexp.gluedName : Sexp → Option (List Char)
  | .atom (.symbol name) =>
    match name.toList with
    | '@' :: more => some more
    | _ => none
  | _ => none

/-- A form that is glued to a comma is a symbol that starts with an at sign. -/
theorem Sexp.gluedName_eq_some {form : Sexp} {more : List Char}
    (glued : form.gluedName = some more) :
    ∃ name, form = .atom (.symbol name) ∧ name.toList = '@' :: more := by
  -- Only the name of a symbol is looked at.
  unfold gluedName at glued
  split at glued
  · rename_i name
    split at glued
    · rename_i rest spelled; cases glued; exact ⟨name, rfl, spelled⟩
    · cases glued
  · cases glued

namespace Sexp

mutual

/-- The contributions of the tokens that a printed form is read as. -/
def printedKinds [CharTable] : Sexp → List TokenKind
  | .nil => [.lParen, .rParen]
  | .atom (.str text) => [.atom (.str (String.ofList (text.toList.flatMap rereadChar)))]
  | .atom value => [.atom value]
  | .list items => .lParen :: (printedItems items ++ [.rParen])
  | .quote inner => .quoted .quote :: printedKinds inner
  | .quasiquote inner => .quoted .quasiquote :: printedKinds inner
  | .unquote inner =>
    -- A comma takes the at sign of a symbol with it, and what is left of the name stands alone.
    match inner.gluedName with
    | none => .quoted .unquote :: printedKinds inner
    | some [] => [.quoted .unquoteSplice]
    | some (c :: more) => [.quoted .unquoteSplice, .atom (Atom.fromLexeme (c :: more))]
  | .unquoteSplice inner => .quoted .unquoteSplice :: printedKinds inner

/-- The contributions of the tokens that printed items are read as. -/
def printedItems [CharTable] : List Sexp → List TokenKind
  | [] => []
  | x :: xs => printedKinds x ++ printedItems xs

end

end Sexp

/-- A form whose atoms all come from the reader and are no floats. -/
def Sexp.Plain (form : Sexp) : Prop :=
  ∀ value, .atom value ∈ form.subforms → value.FromReader ∧ ∀ x, value ≠ .float x

/-- The items of a plain list are plain. -/
theorem Sexp.Plain.item {items : List Sexp} (plain : Plain (.list items)) {item : Sexp}
    (member : item ∈ items) : item.Plain := by
  -- What is inside an item is inside the list.
  intro value inside
  exact plain value (subforms_item member inside)

/-- What a plain wrapper wraps is plain. -/
theorem Sexp.Plain.inner {qf : QuoteForm} {inner : Sexp} (plain : Plain (qf.wrap inner)) :
    inner.Plain := by
  -- What is inside the form is inside the wrapper.
  intro value inside
  exact plain value (by simp [inside])

/-- A plain form that is not glued to a comma does not start with an at sign. -/
theorem render_head [CharTable] {form : Sexp} (plain : form.Plain) (apart : form.gluedName = none)
    (rest : List Char) : (form.render ++ rest).head? ≠ some '@' := by
  -- The first character shows the form, and only a symbol may start with an at sign.
  induction form using Sexp.wrapInduction with
  | nil => simp [Sexp.render]
  | list items => simp [Sexp.render]
  | wrap qf inner => cases qf <;> simp [QuoteForm.prefixText]
  | atom value =>
    obtain ⟨fromReader, notFloat⟩ := plain value (by simp [Sexp.subforms])
    cases value with
    | float x => exact absurd rfl (notFloat x)
    | str text => simp [Sexp.render, Atom.render, debugStr]
    | keyword name => simp [Sexp.render, Atom.render]
    | bool b => cases b <;> simp [Sexp.render, Atom.render, Atom.boolLiteral]
    | int n =>
      obtain ⟨c, more, spelled⟩ := List.exists_cons_of_ne_nil (renderI64_ne_nil n)
      have first : c ∈ renderI64 n := by simp [spelled]
      have digit := renderI64_chars first
      simp only [Sexp.render, Atom.render, spelled, List.cons_append, List.head?_cons, ne_eq,
        Option.some.injEq]
      intro same
      obtain rfl := same
      exact absurd digit (by decide)
    | symbol name =>
      obtain ⟨bare, -⟩ := fromReader.bare notFloat (by simp)
      obtain ⟨c, more, spelled⟩ := List.exists_cons_of_ne_nil bare.1
      simp only [Atom.render] at spelled
      simp only [Sexp.render, Atom.render, spelled, List.cons_append, List.head?_cons, ne_eq,
        Option.some.injEq]
      intro same
      obtain rfl := same
      simp [Sexp.gluedName, spelled] at apart

/-- A bare lexeme in front of a boundary is one token. -/
theorem lexes_bare {lexeme rest : List Char} {toks : List Spanned} {p : Nat} (bare : Bare lexeme)
    (ends : AtBoundary rest) (tail : Lexes (p + String.utf8Len lexeme) rest toks none) :
    Lexes p (lexeme ++ rest) ((.atom lexeme, p) :: toks) none := by
  -- The lexeme has a first character.
  obtain ⟨c, more, rfl⟩ := List.exists_cons_of_ne_nil bare.1
  exact .atom bare.2 ends tail

/-- What it means for a piece of text to be read as tokens with given contributions. -/
def ReadsAs (text : List Char) (kinds : List TokenKind) : Prop :=
  ∀ rest toks p, AtBoundary rest → Lexes (p + String.utf8Len text) rest toks none →
    ∃ front, Lexes p (text ++ rest) (front ++ toks) none ∧ kindsOf front = kinds

/-- A printed atom is read as one token. -/
theorem readsAs_atom [CharTable] {value : Atom} (fromReader : value.FromReader)
    (notFloat : ∀ x, value ≠ .float x) :
    ReadsAs (Sexp.atom value).render (Sexp.atom value).printedKinds := by
  -- A string shows its quotes, and every other atom is a bare lexeme.
  intro rest toks p ends tail
  by_cases isStr : ∃ text, value = .str text
  · obtain ⟨text, rfl⟩ := isStr
    have body := strBody_debug text.toList
    simp only [Sexp.render, Atom.render, debugStr] at tail ⊢
    refine ⟨[(.str (text.toList.flatMap rereadChar), p)], ?_, ?_⟩
    · simpa using Lexes.str body tail
    · simp [kindsOf, Token.kind, Sexp.printedKinds]
  · have notStr : ∀ text, value ≠ .str text := fun text same => isStr ⟨text, same⟩
    obtain ⟨bare, same⟩ := fromReader.bare notFloat notStr
    refine ⟨[(.atom value.render, p)], lexes_bare bare ends tail, ?_⟩
    have kind : (Sexp.atom value).printedKinds = [.atom value] := by
      cases value with
      | str text => exact absurd rfl (notStr text)
      | _ => rfl
    simp [kindsOf, Token.kind, same, kind]

/-- Printed items are read as their tokens in order. -/
theorem readsAs_items [CharTable] {items : List Sexp}
    (each : ∀ item ∈ items, ReadsAs item.render item.printedKinds) (first : Bool) :
    ReadsAs (Sexp.renderItems first items) (Sexp.printedItems items) := by
  -- Each item ends at the space before the next one or where the items end.
  induction items generalizing first with
  | nil =>
    intro rest toks p _ tail
    exact ⟨[], by simpa [Sexp.renderItems] using tail, rfl⟩
  | cons item items ih =>
    intro rest toks p ends tail
    have others := ih (fun other member => each other (by simp [member])) false
    have boundary : AtBoundary (Sexp.renderItems false items ++ rest) := by
      cases items with
      | nil => simpa [Sexp.renderItems] using ends
      | cons next items => simp [Sexp.renderItems, AtBoundary, isBareAtomBoundary, isWhitespace]
    have gap : ∃ q, p + String.utf8Len (if first then [] else [' ']) = q ∧
        ∀ chars toks, Lexes q chars toks none →
          Lexes p ((if first then [] else [' ']) ++ chars) toks none := by
      refine ⟨_, rfl, fun chars toks lexes => ?_⟩
      cases first with
      | true => simpa using lexes
      | false => exact .space (by decide) lexes
    obtain ⟨q, start, spaced⟩ := gap
    obtain ⟨back, lexesBack, kindsBack⟩ :=
      others rest toks (q + String.utf8Len item.render) ends (by
        simpa [Sexp.renderItems, ← start, Nat.add_assoc] using tail)
    obtain ⟨front, lexesFront, kindsFront⟩ := each item (by simp) _ _ q boundary lexesBack
    refine ⟨front ++ back, ?_, ?_⟩
    · simpa [Sexp.renderItems] using spaced _ _ lexesFront
    · rw [Sexp.printedItems, ← kindsFront, ← kindsBack, kindsOf, List.map_append]
      rfl

/-- Items between parentheses are read between the tokens of these. -/
theorem readsAs_list {body : List Char} {kinds : List TokenKind} (inner : ReadsAs body kinds) :
    ReadsAs ('(' :: (body ++ [')'])) (.lParen :: (kinds ++ [.rParen])) := by
  -- The closing parenthesis is the boundary of the last item.
  intro rest toks p _ tail
  have boundary : AtBoundary (')' :: rest) := by
    rw [AtBoundary]; decide
  have offset : p + String.utf8Len ('(' :: (body ++ [')'])) =
      p + 1 + String.utf8Len body + 1 := by
    simp only [String.utf8Len_cons, String.utf8Len_append, String.utf8Len_nil]
    rw [show '('.utf8Size = 1 from rfl, show ')'.utf8Size = 1 from rfl]
    omega
  rw [offset] at tail
  obtain ⟨front, lexes, spelled⟩ := inner (')' :: rest) _ (p + 1) boundary (.rParen tail)
  refine ⟨(.lParen, p) :: (front ++ [(.rParen, p + 1 + String.utf8Len body)]), ?_, ?_⟩
  · simpa using Lexes.lParen lexes
  · simp [← spelled, kindsOf, Token.kind]

/-- A prefix that no at sign completes is read as its own token. -/
theorem readsAs_quoted {qf : QuoteForm} {body : List Char} {kinds : List TokenKind}
    (inner : ReadsAs body kinds)
    (apart : qf = .unquote → ∀ rest, (body ++ rest).head? ≠ some '@') :
    ReadsAs (qf.prefixText ++ body) (.quoted qf :: kinds) := by
  -- The prefix does not look beyond the first character behind it.
  intro rest toks p ends tail
  rw [String.utf8Len_append, ← Nat.add_assoc] at tail
  obtain ⟨front, lexes, spelled⟩ := inner rest toks _ ends tail
  refine ⟨(.quoted qf, p) :: front, ?_, ?_⟩
  · simpa using Lexes.quoted (fun same => apart same rest) lexes
  · simp [← spelled, kindsOf, Token.kind]

/-- Nothing is read as no tokens. -/
theorem readsAs_nil : ReadsAs [] [] := by
  -- The text behind it is all there is.
  intro rest toks p _ tail
  exact ⟨[], by simpa using tail, rfl⟩

/-- A bare lexeme is read as the atom it spells. -/
theorem readsAs_bare {lexeme : List Char} (bare : Bare lexeme) :
    ReadsAs lexeme [.atom (Atom.fromLexeme lexeme)] := by
  -- The lexeme ends at the boundary behind it.
  intro rest toks p ends tail
  exact ⟨[(.atom lexeme, p)], lexes_bare bare ends tail, by simp [kindsOf, Token.kind]⟩

/-- A printed symbol that starts with an at sign loses it to the comma before it. -/
theorem readsAs_glued [CharTable] {inner : Sexp} (plain : inner.Plain) {more : List Char}
    (glued : inner.gluedName = some more) :
    ReadsAs (Sexp.unquote inner).render (Sexp.unquote inner).printedKinds := by
  -- The text is a splice prefix in front of what is left of the name.
  obtain ⟨name, rfl, spelled⟩ := Sexp.gluedName_eq_some glued
  obtain ⟨fromReader, notFloat⟩ := plain (.symbol name) (by simp [Sexp.subforms])
  obtain ⟨⟨-, bare⟩, -⟩ := fromReader.bare notFloat (by simp)
  simp only [Atom.render, spelled] at bare
  have text : (Sexp.unquote (.atom (.symbol name))).render =
      QuoteForm.unquoteSplice.prefixText ++ more := by
    simp [Sexp.render, Atom.render, spelled, QuoteForm.prefixText]
  rw [text]
  cases more with
  | nil =>
    simpa [Sexp.printedKinds, glued] using
      @readsAs_quoted .unquoteSplice _ _ readsAs_nil (by simp)
  | cons c more =>
    have rest : Bare (c :: more) := ⟨by simp, fun d member => bare d (by simp [member])⟩
    simpa [Sexp.printedKinds, glued] using
      @readsAs_quoted .unquoteSplice _ _ (readsAs_bare rest) (by simp)

/-- A printed form is read as the tokens it contributes. -/
theorem readsAs_render [CharTable] {form : Sexp} (plain : form.Plain) :
    ReadsAs form.render form.printedKinds := by
  -- Only the comma looks at what is printed behind it.
  induction form using Sexp.wrapInduction with
  | nil => simpa [Sexp.render, Sexp.printedKinds] using readsAs_list readsAs_nil
  | atom value =>
    obtain ⟨fromReader, notFloat⟩ := plain value (by simp [Sexp.subforms])
    exact readsAs_atom fromReader notFloat
  | list items ih =>
    have inner := readsAs_items (fun item member => ih item member (plain.item member)) true
    simpa [Sexp.render, Sexp.printedKinds] using readsAs_list inner
  | wrap qf inner ih =>
    have inside := ih plain.inner
    cases qf with
    | quote => exact readsAs_quoted inside (by simp)
    | quasiquote => exact readsAs_quoted inside (by simp)
    | unquoteSplice => exact readsAs_quoted inside (by simp)
    | unquote =>
      cases glued : inner.gluedName with
      | some more => exact readsAs_glued plain.inner glued
      | none =>
        have whole := @readsAs_quoted .unquote _ _ inside
          (fun _ rest => render_head plain.inner glued rest)
        simpa [QuoteForm.wrap, Sexp.render, Sexp.printedKinds, glued] using whole

/-- A printed form is read back exactly when its tokens contribute what spells it. -/
theorem read_toString_iff [CharTable] {form : Sexp} (plain : form.Plain)
    (nonempty : Sexp.nil ∉ form.subforms) :
    read form.toString = .ok [form] ↔ form.printedKinds = form.kinds := by
  -- The tokens of the printed text are known, and one form is read from them at most.
  obtain ⟨toks, lexes, spelled⟩ := readsAs_render plain [] [] 0 trivial .done
  simp only [List.append_nil] at lexes
  have text : form.toString.toList = form.render := by simp [Sexp.toString]
  rw [← text] at lexes
  rw [← spelled]
  constructor
  · intro back
    have reads := reads_read form.toString
    rw [back] at reads
    obtain _ | ⟨lexes', data⟩ := reads
    have same := (tokenize_ok_iff.mpr lexes').symm.trans (tokenize_ok_iff.mpr lexes)
    cases same
    simpa [Sexp.kindsItems] using data.kindsOf_eq
  · intro same
    exact (Reads.forms lexes (datum_of_kindsOf nonempty toks same).data).read_eq

/-- The forms that survive printing: every character of a string is read back as itself, and no
comma stands directly before a symbol that starts with an at sign. -/
structure Sexp.Reprintable [CharTable] (form : Sexp) : Prop where
  strings : ∀ text, .atom (.str text) ∈ form.subforms → ∀ c ∈ text.toList, readsBack c = true
  splices : ∀ name, .unquote (.atom (.symbol name)) ∈ form.subforms →
    name.toList.head? ≠ some '@'

/-- An atom survives printing exactly when it is no string that is changed by it. -/
theorem Sexp.reprintable_atom [CharTable] {value : Atom} :
    Reprintable (.atom value) ↔ ∀ text, value = .str text → ∀ c ∈ text.toList,
      readsBack c = true := by
  -- An atom holds no other form.
  constructor
  · intro parts text same
    obtain ⟨strings, -⟩ := parts
    obtain rfl := same
    exact strings text (by simp [subforms])
  · intro strings
    exact ⟨fun text inside => strings text (by simpa [subforms, eq_comm] using inside),
      fun name inside => by simp [subforms] at inside⟩

/-- A list survives printing exactly when its items do. -/
theorem Sexp.reprintable_list [CharTable] {items : List Sexp} :
    Reprintable (.list items) ↔ ∀ item ∈ items, item.Reprintable := by
  -- The list itself is neither a string nor a comma.
  constructor
  · intro parts item member
    obtain ⟨strings, splices⟩ := parts
    exact ⟨fun text inside => strings text (subforms_item member inside),
      fun name inside => splices name (subforms_item member inside)⟩
  · intro each
    constructor
    · intro text sub
      simp only [subforms, List.mem_cons, mem_subformsItems, reduceCtorEq, false_or] at sub
      obtain ⟨item, member, inside⟩ := sub
      exact (each item member).strings text inside
    · intro name sub
      simp only [subforms, List.mem_cons, mem_subformsItems, reduceCtorEq, false_or] at sub
      obtain ⟨item, member, inside⟩ := sub
      exact (each item member).splices name inside

/-- A form is glued to a comma exactly when it is a symbol that starts with an at sign. -/
theorem Sexp.gluedName_eq_none_iff (form : Sexp) :
    form.gluedName = none ↔ ∀ name, form = .atom (.symbol name) →
      name.toList.head? ≠ some '@' := by
  -- A symbol with an at sign is the only form that is glued.
  constructor
  · intro apart name same starts
    obtain rfl := same
    obtain ⟨more, spelled⟩ := List.head?_eq_some_iff.mp starts
    simp [gluedName, spelled] at apart
  · intro apart
    cases glued : form.gluedName with
    | none => rfl
    | some more =>
      obtain ⟨name, rfl, spelled⟩ := gluedName_eq_some glued
      exact absurd (by simp [spelled]) (apart name rfl)

/-- A wrapper survives printing exactly when what it wraps does and no comma is glued to it. -/
theorem Sexp.reprintable_wrap [CharTable] {qf : QuoteForm} {inner : Sexp} :
    Reprintable (qf.wrap inner) ↔
      (qf = .unquote → inner.gluedName = none) ∧ inner.Reprintable := by
  -- The wrapper adds itself to the forms that are looked at.
  constructor
  · intro parts
    obtain ⟨strings, splices⟩ := parts
    refine ⟨?_, fun text inside => strings text (by simp [inside]),
      fun name inside => splices name (by simp [inside])⟩
    intro same
    obtain rfl := same
    refine (gluedName_eq_none_iff inner).mpr fun name same => splices name ?_
    simp [same, QuoteForm.wrap, subforms]
  · intro parts
    obtain ⟨apart, strings, splices⟩ := parts
    constructor
    · intro text sub
      rw [subforms_wrap, List.mem_cons] at sub
      rcases sub with same | inside
      · cases qf <;> cases same
      · exact strings text inside
    · intro name sub
      rw [subforms_wrap, List.mem_cons] at sub
      rcases sub with same | inside
      · cases qf <;> cases same
        exact (gluedName_eq_none_iff _).mp (apart rfl) name rfl
      · exact splices name inside

/-- Printed items have no more tokens than their spelling if each of them has no more. -/
theorem Sexp.length_printedItems [CharTable] {items : List Sexp}
    (each : ∀ item ∈ items, item.printedKinds.length ≤ item.kinds.length) :
    (printedItems items).length ≤ (kindsItems items).length := by
  -- The lengths add up item by item.
  induction items with
  | nil => simp [printedItems, kindsItems]
  | cons item items ih =>
    have first := each item (by simp)
    have others := ih fun other member => each other (by simp [member])
    simp only [printedItems, kindsItems, List.length_append]
    omega

/-- Printing never adds tokens. -/
theorem Sexp.length_printedKinds [CharTable] {form : Sexp} (nonempty : Sexp.nil ∉ form.subforms) :
    form.printedKinds.length ≤ form.kinds.length := by
  -- A glued comma may swallow a whole symbol, and everything else keeps its tokens.
  induction form using wrapInduction with
  | nil => simp [subforms] at nonempty
  | atom value => cases value <;> simp [printedKinds, kinds]
  | list items ih =>
    have each := length_printedItems fun item member =>
      ih item member fun inside => nonempty (subforms_item member inside)
    simpa [printedKinds, kinds] using each
  | wrap qf inner ih =>
    have inside := ih (by simpa using fun inside => nonempty (by simp [inside]))
    cases qf with
    | unquote =>
      cases glued : inner.gluedName with
      | none => simpa [QuoteForm.wrap, printedKinds, kinds, glued] using inside
      | some more =>
        obtain ⟨name, rfl, -⟩ := gluedName_eq_some glued
        cases more <;> simp [QuoteForm.wrap, printedKinds, kinds, glued]
    | _ => simpa [QuoteForm.wrap, printedKinds, kinds] using inside

/-- Printed items contribute what spells them exactly when each of them does. -/
theorem Sexp.printedItems_eq_iff [CharTable] {items : List Sexp}
    (each : ∀ item ∈ items, item.printedKinds.length ≤ item.kinds.length) :
    printedItems items = kindsItems items ↔ ∀ item ∈ items, item.printedKinds = item.kinds := by
  -- No item has tokens to spare, so each one takes exactly its own.
  induction items with
  | nil => simp [printedItems, kindsItems]
  | cons item items ih =>
    have first := each item (by simp)
    have rest : ∀ other ∈ items, other.printedKinds.length ≤ other.kinds.length :=
      fun other member => each other (by simp [member])
    have others := length_printedItems rest
    rw [List.forall_mem_cons, ← ih rest]
    simp only [printedItems, kindsItems]
    constructor
    · intro same
      have total := congrArg List.length same
      simp only [List.length_append] at total
      exact List.append_inj same (by omega)
    · intro parts
      obtain ⟨same, same'⟩ := parts
      rw [same, same']

/-- The tokens of a printed form contribute what spells it exactly when it survives printing. -/
theorem Sexp.printedKinds_eq_iff [CharTable] {form : Sexp} (nonempty : Sexp.nil ∉ form.subforms) :
    form.printedKinds = form.kinds ↔ form.Reprintable := by
  -- A string is compared by its text, and a glued comma shows the wrong prefix.
  induction form using wrapInduction with
  | nil => simp [subforms] at nonempty
  | atom value =>
    rw [reprintable_atom]
    cases value with
    | str text =>
      have text_eq : String.ofList (text.toList.flatMap rereadChar) = text ↔
          text.toList.flatMap rereadChar = text.toList := by
        rw [← String.toList_inj, String.toList_ofList]
      simp [printedKinds, kinds, text_eq, reread_eq_iff]
    | _ => simp [printedKinds, kinds]
  | list items ih =>
    have inner : ∀ item ∈ items, Sexp.nil ∉ item.subforms :=
      fun item member inside => nonempty (subforms_item member inside)
    have each := printedItems_eq_iff fun item member => length_printedKinds (inner item member)
    rw [reprintable_list]
    simp only [printedKinds, kinds, List.cons.injEq, true_and, List.append_cancel_right_eq, each]
    exact forall₂_congr fun item member => ih item member (inner item member)
  | wrap qf inner ih =>
    have inside := ih (by simpa using fun inside => nonempty (by simp [inside]))
    rw [reprintable_wrap, ← inside]
    cases qf with
    | unquote =>
      cases glued : inner.gluedName with
      | none => simp [QuoteForm.wrap, printedKinds, kinds, glued]
      | some more => cases more <;> simp [QuoteForm.wrap, printedKinds, kinds, glued]
    | _ => simp [QuoteForm.wrap, printedKinds, kinds]

/-- Every atom token that is lexed is a bare lexeme. -/
theorem Lexes.bare {p : Nat} {chars : List Char} {toks : List Spanned} {stop : Option Nat}
    (lexes : Lexes p chars toks stop) :
    ∀ lexeme q, (.atom lexeme, q) ∈ toks → Bare lexeme := by
  -- Only one rule of the lexical grammar emits such a token.
  induction lexes with
  | atom bare _ _ ih =>
    intro lexeme q member
    rcases List.mem_cons.mp member with same | member
    · cases same
      exact ⟨by simp, bare⟩
    · exact ih lexeme q member
  | space _ _ ih => exact ih
  | comment _ _ ih => exact ih
  | done | lastComment | openStr => simp
  | lParen _ ih => simpa using ih
  | rParen _ ih => simpa using ih
  | quoted _ _ ih => simpa using ih
  | str _ _ ih => simpa using ih

/-- Every atom of a form is contributed by one of the tokens that spell it. -/
theorem Sexp.atom_mem_kinds {form : Sexp} {value : Atom} (inside : .atom value ∈ form.subforms) :
    .atom value ∈ form.kinds := by
  -- The contributions follow the structure of the form.
  induction form using wrapInduction with
  | nil => simp [subforms] at inside
  | atom other => simpa [subforms, kinds] using inside
  | list items ih =>
    simp only [subforms, List.mem_cons, reduceCtorEq, mem_subformsItems, false_or] at inside
    obtain ⟨item, member, inside⟩ := inside
    simp only [kinds, List.mem_cons, List.mem_append, mem_kindsItems]
    exact .inr (.inl ⟨item, member, ih item member inside⟩)
  | wrap qf inner ih =>
    rw [subforms_wrap, List.mem_cons] at inside
    rw [kinds_wrap, List.mem_cons]
    rcases inside with same | inside
    · cases qf <;> cases same
    · exact .inr (ih inside)

mutual

/-- No token spells the empty form. -/
theorem Datum.nonempty {toks : List Spanned} {form : Sexp} (datum : Datum toks form) :
    Sexp.nil ∉ form.subforms := by
  -- Each rule of the grammar builds another form around those inside.
  match datum with
  | .atom => simp [Sexp.subforms]
  | .str => simp [Sexp.subforms]
  | .list data => simpa [Sexp.subforms] using data.nonempty
  | @Datum.quoted qf _ _ _ datum =>
    have inside := datum.nonempty
    cases qf <;> simpa [QuoteForm.wrap, Sexp.subforms] using inside
termination_by 2 * toks.length

/-- No token among a sequence of data spells the empty form. -/
theorem Data.nonempty {toks : List Spanned} {forms : List Sexp} (data : Data toks forms) :
    Sexp.nil ∉ Sexp.subformsItems forms := by
  -- Each datum is checked on its own.
  match data with
  | .nil => simp [Sexp.subformsItems]
  | .cons datum data =>
    obtain ⟨tok, p, more, rfl, -⟩ := datum.starts
    simp [Sexp.subformsItems, datum.nonempty, data.nonempty]
termination_by 2 * toks.length + 1

end

/-- The forms the reader returns are nowhere empty, and their atoms come from its tokens. -/
theorem read_forms {src : String} {forms : List Sexp} (accepted : read src = .ok forms)
    {form : Sexp} (member : form ∈ forms) :
    Sexp.nil ∉ form.subforms ∧ ∀ value, .atom value ∈ form.subforms → value.FromReader := by
  -- The tokens of the text spell the forms.
  have reads := reads_read src
  rw [accepted] at reads
  obtain _ | @⟨toks, _, lexes, data⟩ := reads
  constructor
  · intro inside
    exact data.nonempty (Sexp.mem_subformsItems.mpr ⟨form, member, inside⟩)
  · intro value inside
    have contributed : .atom value ∈ kindsOf toks := by
      rw [data.kindsOf_eq]
      exact Sexp.mem_kindsItems.mpr ⟨form, member, Sexp.atom_mem_kinds inside⟩
    obtain ⟨⟨tok, p⟩, present, kind⟩ := List.mem_map.mp contributed
    cases tok with
    | atom lexeme =>
      simp only [Token.kind, TokenKind.atom.injEq] at kind
      exact .inr ⟨lexeme, lexes.bare lexeme p present, kind⟩
    | str text =>
      simp only [Token.kind, TokenKind.atom.injEq] at kind
      exact .inl ⟨_, kind.symm⟩
    | _ => simp [Token.kind] at kind

/-- A form the reader returned, without floats, is read back from its text exactly when every
character of its strings is read back and no comma is glued to an at sign. -/
theorem read_toString_eq_iff_reprintable [CharTable] (src : String) (forms : List Sexp)
    (accepted : read src = .ok forms) (form : Sexp) (member : form ∈ forms)
    (noFloat : ∀ x, .atom (.float x) ∉ form.subforms) :
    read form.toString = .ok [form] ↔ form.Reprintable := by
  -- The form is plain, so its text is read as the tokens it contributes.
  obtain ⟨nonempty, atoms⟩ := read_forms accepted member
  have plain : form.Plain := fun value inside =>
    ⟨atoms value inside, fun x same => noFloat x (same ▸ inside)⟩
  rw [read_toString_iff plain nonempty, Sexp.printedKinds_eq_iff nonempty]

/-- A quoted list of a symbol and a string survives printing. -/
theorem read_toString_quoted_list :
    read "\x27(f \"a b\")" =
      .ok [.quote (.list [.atom (.symbol "f"), .atom (.str "a b")])] ∧
    (read (@Sexp.toString asciiTable
        (.quote (.list [.atom (.symbol "f"), .atom (.str "a b")]))) =
      .ok [.quote (.list [.atom (.symbol "f"), .atom (.str "a b")])] ↔
    @Sexp.Reprintable asciiTable (.quote (.list [.atom (.symbol "f"), .atom (.str "a b")]))) :=
  -- The text is read by evaluation, and none of its forms is a float.
  have accepted : read "\x27(f \"a b\")" =
      .ok [.quote (.list [.atom (.symbol "f"), .atom (.str "a b")])] := by decide +kernel
  ⟨accepted, @read_toString_eq_iff_reprintable asciiTable _ _ accepted _ (by simp)
    (by simp [Sexp.subforms, Sexp.subformsItems])⟩

/-- The unquote of a symbol that starts with an at sign is printed as a splice, so printing and
reading is not the identity on what the reader returns. -/
theorem read_toString_glued_splice :
    ¬ ∀ (src : String) (forms : List Sexp), read src = .ok forms → ∀ form ∈ forms,
      (∀ x, .atom (.float x) ∉ form.subforms) →
        read (@Sexp.toString asciiTable form) = .ok [form] := by
  -- The space between the comma and the symbol is lost in print.
  intro identity
  have accepted : read ", @x" = .ok [.unquote (.atom (.symbol "@x"))] := by decide +kernel
  have back := identity _ _ accepted (.unquote (.atom (.symbol "@x"))) (by simp)
    (by simp [Sexp.subforms])
  exact absurd back (by decide +kernel)

end Tatara.Lisp
