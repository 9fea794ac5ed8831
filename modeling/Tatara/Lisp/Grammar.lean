import Mathlib.Data.List.Induction
import Tatara.Lisp.Lexical

/-! The grammar of data over tokens, and its agreement with the recursive-descent parser. -/

namespace Tatara.Lisp

mutual

/-- The tokens of one datum, with the form they spell. -/
inductive Datum : List Spanned → Sexp → Prop
  | atom {lexeme : List Char} {p : Nat} :
      Datum [(.atom lexeme, p)] (.atom (Atom.fromLexeme lexeme))
  | str {text : List Char} {p : Nat} : Datum [(.str text, p)] (.atom (.str (String.ofList text)))
  | list {body : List Spanned} {items : List Sexp} {p q : Nat} : Data body items →
      Datum ((.lParen, p) :: body ++ [(.rParen, q)]) (.list items)
  | quoted {qf : QuoteForm} {p : Nat} {body : List Spanned} {inner : Sexp} : Datum body inner →
      Datum ((.quoted qf, p) :: body) (qf.wrap inner)

/-- The tokens of a sequence of data, one after another. -/
inductive Data : List Spanned → List Sexp → Prop
  | nil : Data [] []
  | cons {front rest : List Spanned} {form : Sexp} {forms : List Sexp} : Datum front form →
      Data rest forms → Data (front ++ rest) (form :: forms)

end

/-- A datum on its own is a sequence of one. -/
theorem Datum.data {toks : List Spanned} {form : Sexp} (datum : Datum toks form) :
    Data toks [form] := by
  -- Nothing follows the datum.
  simpa using Data.cons datum .nil

/-- Two sequences of data in a row are a sequence of data. -/
theorem Data.append {a b : List Spanned} {xs ys : List Sexp} (first : Data a xs)
    (second : Data b ys) : Data (a ++ b) (xs ++ ys) := by
  -- The first sequence is taken apart one form at a time.
  induction xs generalizing a with
  | nil => cases first; simpa using second
  | cons x xs ih =>
    obtain _ | ⟨datum, rest⟩ := first
    simpa using Data.cons datum (ih rest)

/-- A datum starts with a token that does not close a list. -/
theorem Datum.starts {toks : List Spanned} {form : Sexp} (datum : Datum toks form) :
    ∃ tok p rest, toks = (tok, p) :: rest ∧ tok ≠ .rParen := by
  -- Each rule shows its first token.
  cases datum with
  | atom => exact ⟨_, _, _, rfl, by simp⟩
  | str => exact ⟨_, _, _, rfl, by simp⟩
  | list => exact ⟨_, _, _, rfl, by simp⟩
  | quoted => exact ⟨_, _, _, rfl, by simp⟩

/-- The parser's result without the bound on what it leaves. -/
def parseDatum (eofPos : Nat) (toks : List Spanned) : Except LispError (Sexp × List Spanned) :=
  (parse eofPos toks).map (·.1)

/-- The list parser's result without the bound on what it leaves. -/
def parseBody (eofPos openPos : Nat) (toks : List Spanned) :
    Except LispError (List Sexp × List Spanned) :=
  (parseItems eofPos openPos toks).map (·.1)

section equations

variable (eofPos openPos p : Nat) (rest : List Spanned)

/-- Where nothing is left, there is no datum. -/
@[simp] theorem parseDatum_nil : parseDatum eofPos [] = .error (.eof eofPos) := by
  -- No token remains.
  rw [parseDatum, parse]; rfl

/-- A closing parenthesis is no datum. -/
@[simp] theorem parseDatum_rParen :
    parseDatum eofPos ((.rParen, p) :: rest) = .error (.unmatchedParen p) := by
  -- A closing parenthesis starts no datum.
  rw [parseDatum, parse]; rfl

/-- A text is a datum. -/
@[simp] theorem parseDatum_str (text : List Char) :
    parseDatum eofPos ((.str text, p) :: rest) = .ok (.atom (.str (String.ofList text)), rest) := by
  -- A string token is a datum.
  rw [parseDatum, parse]; rfl

/-- An atom is a datum. -/
@[simp] theorem parseDatum_atom (lexeme : List Char) :
    parseDatum eofPos ((.atom lexeme, p) :: rest) =
      .ok (.atom (Atom.fromLexeme lexeme), rest) := by
  -- An atom token is a datum.
  rw [parseDatum, parse]; rfl

/-- What is quoted is a datum if what is behind it is. -/
@[simp] theorem parseDatum_quoted (qf : QuoteForm) :
    parseDatum eofPos ((.quoted qf, p) :: rest) =
      (parseDatum eofPos rest).map fun (inner, after) => (qf.wrap inner, after) := by
  -- A prefix passes on what the datum behind it leaves.
  rw [parseDatum, parse, parseDatum]
  cases parse eofPos rest <;> rfl

/-- A list is a datum if its items are read. -/
@[simp] theorem parseDatum_lParen :
    parseDatum eofPos ((.lParen, p) :: rest) =
      (parseBody eofPos p rest).map fun (items, after) => (.list items, after) := by
  -- An opening parenthesis hands over to the list parser.
  rw [parseDatum, parse, parseBody]
  cases parseItems eofPos p rest <;> rfl

/-- A list that is not closed is an error. -/
@[simp] theorem parseBody_nil :
    parseBody eofPos openPos [] = .error (.unmatchedOpenParen openPos) := by
  -- The list is still open.
  rw [parseBody, parseItems]; rfl

/-- A list may be closed. -/
@[simp] theorem parseBody_rParen :
    parseBody eofPos openPos ((.rParen, p) :: rest) = .ok ([], rest) := by
  -- The closing parenthesis ends the items.
  rw [parseBody, parseItems]; rfl

/-- The items of a list start with a datum when their first token does not close the list. -/
theorem parseBody_cons {tok : Token} (notClose : tok ≠ .rParen) :
    parseBody eofPos openPos ((tok, p) :: rest) =
      (parseDatum eofPos ((tok, p) :: rest)).bind fun (item, after) =>
        (parseBody eofPos openPos after).map fun (items, beyond) => (item :: items, beyond) := by
  -- Only the closing parenthesis is taken before the general arm.
  rw [parseBody, parseItems, parseDatum]
  · cases parse eofPos ((tok, p) :: rest) with
    | error err => rfl
    | ok r =>
      obtain ⟨⟨item, after⟩, shorter⟩ := r
      simp only [Except.map, Except.bind, parseBody]
      cases parseItems eofPos openPos after <;> rfl
  · intro q same
    exact notClose (by cases same; rfl)

/-- Where nothing is left, there are no forms. -/
@[simp] theorem readForms_nil : readForms eofPos [] = .ok [] := by
  -- Nothing is left to read.
  rw [readForms]

/-- The top-level loop reads one datum and goes on behind it. -/
theorem readForms_cons (tok : Spanned) :
    readForms eofPos (tok :: rest) =
      (parseDatum eofPos (tok :: rest)).bind fun (form, after) =>
        (readForms eofPos after).map (form :: ·) := by
  -- The bound on what the datum leaves is only used for termination.
  rw [readForms, parseDatum]
  cases parse eofPos (tok :: rest) <;> rfl

end equations

mutual

/-- The parser takes a datum off the front of any tokens. -/
theorem Datum.parseDatum_eq {front : List Spanned} {form : Sexp} (datum : Datum front form)
    (eofPos : Nat) (after : List Spanned) :
    parseDatum eofPos (front ++ after) = .ok (form, after) := by
  -- Each rule of the grammar is the arm of the parser for its first token.
  match datum with
  | .atom => simp
  | .str => simp
  | .list data => simp [data.parseBody_append, Except.map]
  | .quoted datum => simp [datum.parseDatum_eq, Except.map]
termination_by 2 * front.length

/-- The list parser takes a sequence of data off the front and goes on behind it. -/
theorem Data.parseBody_append {body : List Spanned} {items : List Sexp} (data : Data body items)
    (eofPos openPos : Nat) (rest : List Spanned) :
    parseBody eofPos openPos (body ++ rest) =
      (parseBody eofPos openPos rest).map fun (others, after) => (items ++ others, after) := by
  -- Each datum is one turn of the loop.
  match data with
  | .nil => cases found : parseBody eofPos openPos rest <;> simp [found, Except.map]
  | @Data.cons front tail form forms datum data =>
    obtain ⟨tok, p, more, rfl, notClose⟩ := datum.starts
    have first := datum.parseDatum_eq eofPos (tail ++ rest)
    have others := data.parseBody_append eofPos openPos rest
    rw [List.append_assoc, List.cons_append, parseBody_cons _ _ _ _ notClose,
      ← List.cons_append, first]
    simp only [Except.bind, others]
    cases parseBody eofPos openPos rest <;> simp [Except.map]
termination_by 2 * body.length + 1

end

/-- The top-level loop reads a sequence of data and goes on behind it. -/
theorem Data.readForms_append {front : List Spanned} {forms : List Sexp} (data : Data front forms)
    (eofPos : Nat) (rest : List Spanned) :
    readForms eofPos (front ++ rest) = (readForms eofPos rest).map (forms ++ ·) := by
  -- Each datum is one turn of the loop.
  induction forms generalizing front with
  | nil => cases data; cases found : readForms eofPos rest <;> simp [found, Except.map]
  | cons form forms ih =>
    obtain _ | @⟨head, tail, _, _, datum, data⟩ := data
    have first := datum.parseDatum_eq eofPos (tail ++ rest)
    obtain ⟨tok, p, more, rfl, -⟩ := datum.starts
    rw [List.append_assoc, List.cons_append, readForms_cons, ← List.cons_append, first]
    simp only [Except.bind, ih data]
    cases readForms eofPos rest <;> simp [Except.map]

/-- A token sequence that some continuation completes to a sequence of data. -/
def Viable (toks : List Spanned) : Prop := ∃ more forms, Data (toks ++ more) forms

/-- A token's effect on the stack of open parentheses. -/
def parenStep (stack : List Nat) : Spanned → List Nat
  | (.lParen, p) => p :: stack
  | (.rParen, _) => stack.tail
  | _ => stack

/-- The positions of the parentheses that are still open, the innermost first. -/
def openParens (toks : List Spanned) : List Nat := toks.foldl parenStep []

/-- The last token is a prefix that still waits for its datum. -/
def EndsInQuote (toks : List Spanned) : Prop := ∃ qf p, toks.getLast? = some (.quoted qf, p)

/-- How far the parser has come: its open lists, and whether a prefix waits for its datum. -/
inductive Frame : List Spanned → List Nat → Bool → Prop
  | top {toks : List Spanned} {forms : List Sexp} : Data toks forms → Frame toks [] false
  | quoted {toks : List Spanned} {opens : List Nat} {pending : Bool} {qf : QuoteForm} {p : Nat} :
      Frame toks opens pending → Frame (toks ++ [(.quoted qf, p)]) opens true
  | inside {toks body : List Spanned} {opens : List Nat} {pending : Bool} {items : List Sexp}
      {p : Nat} :
      Frame toks opens pending → Data body items →
      Frame (toks ++ (.lParen, p) :: body) (p :: opens) false

namespace Frame

variable {toks : List Spanned} {opens : List Nat} {pending : Bool}

/-- A datum fits anywhere, and it satisfies every prefix that waits for it. -/
theorem datum {more : List Spanned} {form : Sexp} (frame : Frame toks opens pending)
    (next : Datum more form) : Frame (toks ++ more) opens false := by
  -- A waiting prefix makes a larger datum of it, and a sequence of data is extended by it.
  induction frame generalizing more form with
  | top data => exact .top (data.append next.data)
  | quoted _ ih => simpa using ih (.quoted next)
  | inside outer data => simpa using Frame.inside outer (data.append next.data)

/-- A closing parenthesis ends the innermost list when no prefix waits. -/
theorem close {p : Nat} (frame : Frame toks (p :: opens) false) (q : Nat) :
    Frame (toks ++ [(.rParen, q)]) opens false := by
  -- The list and its parentheses are a datum of the frame around them.
  obtain _ | _ | ⟨outer, data⟩ := frame
  simpa using outer.datum (.list data)

/-- Everything up to a frame can be completed. -/
theorem viable (frame : Frame toks opens pending) : Viable toks := by
  -- A waiting prefix is given an atom, and then the open lists are closed one by one.
  have settle : ∀ {opens : List Nat} {toks : List Spanned}, Frame toks opens false →
      Viable toks := by
    intro opens
    induction opens with
    | nil => rintro toks ⟨data⟩; exact ⟨[], _, by simpa using data⟩
    | cons p opens ih =>
      intro toks frame
      obtain ⟨more, forms, data⟩ := ih (frame.close 0)
      exact ⟨(.rParen, 0) :: more, forms, by simpa using data⟩
  have filler : Datum [(.atom [], 0)] (.atom (Atom.fromLexeme [])) := .atom
  obtain ⟨more, forms, data⟩ := settle (frame.datum filler)
  exact ⟨(.atom [], 0) :: more, forms, by simpa using data⟩

/-- The parser fails behind a frame as it fails on the datum that should stand there. -/
theorem readForms_error {eofPos : Nat} {rest : List Spanned} {err : LispError}
    (frame : Frame toks opens pending) (failed : parseDatum eofPos rest = .error err)
    (ends : rest = [] → pending = true)
    (closes : ∀ p after, rest = (.rParen, p) :: after → pending = true ∨ opens = []) :
    readForms eofPos (toks ++ rest) = .error err := by
  -- The failure passes through the waiting prefixes and the open lists out to the loop.
  induction frame generalizing rest with
  | top data =>
    cases rest with
    | nil => simp at ends
    | cons tok rest => rw [data.readForms_append, readForms_cons, failed]; rfl
  | quoted _ ih =>
    rw [List.append_assoc]
    exact ih (by simp [failed, Except.map]) (by simp) (by simp)
  | @inside toks body opens pending items p outer data ih =>
    have stuck : parseBody eofPos p rest = .error err := by
      match rest with
      | [] => simp at ends
      | (tok, q) :: after =>
        have notClose : tok ≠ .rParen := by
          intro same
          obtain rfl := same
          simpa using closes q after rfl
        rw [parseBody_cons _ _ _ _ notClose, failed]
        rfl
    rw [List.append_assoc]
    exact ih (by simp [data.parseBody_append, stuck, Except.map]) (by simp) (by simp)

/-- The end of the input inside a list is reported at the innermost open parenthesis. -/
theorem readForms_open {p : Nat} (frame : Frame toks (p :: opens) false) (eofPos : Nat) :
    readForms eofPos toks = .error (.unmatchedOpenParen p) := by
  -- The innermost list is a datum that the frame around it waits for.
  obtain _ | _ | ⟨outer, data⟩ := frame
  have missing := data.parseBody_append eofPos p []
  rw [List.append_nil] at missing
  exact outer.readForms_error (by simp [missing, Except.map]) (by simp) (by simp)

end Frame

/-- Every token sequence is parsed to its end, or up to a closing parenthesis that cannot stand
where it does. -/
theorem frame_or_stuck (toks : List Spanned) :
    (∃ opens pending, Frame toks opens pending) ∨
      ∃ front p rest opens pending, toks = front ++ (.rParen, p) :: rest ∧
        Frame front opens pending ∧ (pending = true ∨ opens = []) := by
  -- The tokens are taken from the left, so the induction adds one at the end.
  induction toks using List.reverseRecOn with
  | nil => exact .inl ⟨[], false, .top .nil⟩
  | append_singleton toks tok ih =>
    rcases ih with ⟨opens, pending, frame⟩ | ⟨front, p, rest, opens, pending, rfl, frame, stuck⟩
    · obtain ⟨tok, p⟩ := tok
      cases tok with
      | lParen => exact .inl ⟨_, _, .inside frame .nil⟩
      | quoted qf => exact .inl ⟨_, _, .quoted frame⟩
      | atom lexeme => exact .inl ⟨_, _, frame.datum .atom⟩
      | str text => exact .inl ⟨_, _, frame.datum .str⟩
      | rParen =>
        cases pending with
        | true => exact .inr ⟨toks, p, [], opens, true, rfl, frame, .inl rfl⟩
        | false =>
          cases opens with
          | nil => exact .inr ⟨toks, p, [], [], false, rfl, frame, .inr rfl⟩
          | cons q opens => exact .inl ⟨opens, false, frame.close p⟩
    · exact .inr ⟨front, p, rest ++ [tok], opens, pending, by simp, frame, stuck⟩

/-- A closing parenthesis behind a prefix, or with no list open, is where reading stops. -/
theorem Frame.readForms_stuck {front rest : List Spanned} {opens : List Nat} {pending : Bool}
    (frame : Frame front opens pending) (stuck : pending = true ∨ opens = []) (eofPos p : Nat) :
    readForms eofPos (front ++ (.rParen, p) :: rest) = .error (.unmatchedParen p) := by
  -- The parser looks for a datum there and finds the parenthesis.
  exact frame.readForms_error (by simp) (by simp) (fun _ _ _ => stuck)

/-- A sequence of data is read as the forms it spells. -/
theorem Data.readForms_eq {toks : List Spanned} {forms : List Sexp} (data : Data toks forms)
    (eofPos : Nat) : readForms eofPos toks = .ok forms := by
  -- Nothing is left behind the data.
  have whole := data.readForms_append eofPos []
  simpa [Except.map] using whole

/-- Nothing completes the tokens up to a closing parenthesis where reading stops. -/
theorem Frame.not_viable {front : List Spanned} {opens : List Nat} {pending : Bool}
    (frame : Frame front opens pending) (stuck : pending = true ∨ opens = []) (p : Nat) :
    ¬ Viable (front ++ [(.rParen, p)]) := by
  -- A completion would be read, but reading stops at the parenthesis.
  intro parts
  obtain ⟨more, forms, data⟩ := parts
  have accepted := data.readForms_eq 0
  rw [List.append_assoc, List.cons_append, frame.readForms_stuck stuck] at accepted
  cases accepted

/-- The tokens that can be completed are those the parser has a frame for. -/
theorem viable_iff {toks : List Spanned} :
    Viable toks ↔ ∃ opens pending, Frame toks opens pending := by
  -- A stuck parenthesis inside the tokens would rule out every completion.
  constructor
  · intro parts
    obtain ⟨more, forms, data⟩ := parts
    rcases frame_or_stuck toks with found | ⟨front, p, rest, opens, pending, rfl, frame, stuck⟩
    · exact found
    · exact absurd ⟨rest ++ more, forms, by simpa using data⟩ (frame.not_viable stuck p)
  · intro parts
    obtain ⟨opens, pending, frame⟩ := parts
    exact frame.viable

mutual

/-- A datum leaves the stack of open parentheses as it was. -/
theorem Datum.foldl_parenStep {toks : List Spanned} {form : Sexp} (datum : Datum toks form)
    (stack : List Nat) : toks.foldl parenStep stack = stack := by
  -- The parentheses of a list cancel around its items.
  match datum with
  | .atom => rfl
  | .str => rfl
  | .list data => simp [parenStep, data.foldl_parenStep]
  | .quoted datum => simpa [parenStep] using datum.foldl_parenStep stack
termination_by 2 * toks.length

/-- A sequence of data leaves the stack of open parentheses as it was. -/
theorem Data.foldl_parenStep {toks : List Spanned} {forms : List Sexp} (data : Data toks forms)
    (stack : List Nat) : toks.foldl parenStep stack = stack := by
  -- Each datum is neutral on its own.
  match data with
  | .nil => rfl
  | @Data.cons front rest _ _ datum data =>
    obtain ⟨tok, p, more, rfl, -⟩ := datum.starts
    rw [List.foldl_append, datum.foldl_parenStep, data.foldl_parenStep]
termination_by 2 * toks.length + 1

end

/-- The open parentheses of a frame are those its tokens leave open. -/
theorem Frame.openParens_eq {toks : List Spanned} {opens : List Nat} {pending : Bool}
    (frame : Frame toks opens pending) : openParens toks = opens := by
  -- Only an open list adds to the stack.
  unfold openParens
  induction frame with
  | top data => exact data.foldl_parenStep []
  | quoted _ ih => simp [List.foldl_append, ih, parenStep]
  | inside _ data ih => simp [List.foldl_append, ih, parenStep, data.foldl_parenStep]

/-- A datum does not end in a prefix. -/
theorem Datum.not_endsInQuote {toks : List Spanned} {form : Sexp} (datum : Datum toks form) :
    ¬ EndsInQuote toks := by
  -- A prefix is followed by a datum, whose end is the end of both.
  match datum with
  | .atom => simp [EndsInQuote]
  | .str => simp [EndsInQuote]
  | .list _ => simp [EndsInQuote, List.getLast?_cons]
  | .quoted inner =>
    have ends := inner.not_endsInQuote
    obtain ⟨tok, p, rest, rfl, -⟩ := inner.starts
    simpa [EndsInQuote, List.getLast?_cons] using ends
termination_by toks.length

/-- Data behind any token leave no prefix waiting. -/
theorem Data.not_endsInQuote {toks : List Spanned} {forms : List Sexp} (data : Data toks forms)
    (before : List Spanned) (settled : ¬ EndsInQuote before) :
    ¬ EndsInQuote (before ++ toks) := by
  -- The last datum decides, and without one the tokens before do.
  induction forms generalizing toks before with
  | nil => cases data; simpa using settled
  | cons form forms ih =>
    obtain _ | @⟨front, rest, _, _, datum, data⟩ := data
    rw [← List.append_assoc]
    refine ih data _ ?_
    have ends := datum.not_endsInQuote
    obtain ⟨tok, p, more, rfl, -⟩ := datum.starts
    simpa [EndsInQuote, List.getLast?_append, List.getLast?_cons] using ends

/-- A prefix waits in a frame exactly when it is the last token. -/
theorem Frame.endsInQuote_iff {toks : List Spanned} {opens : List Nat} {pending : Bool}
    (frame : Frame toks opens pending) : EndsInQuote toks ↔ pending = true := by
  -- A frame ends in its waiting prefix, in data, or in an opening parenthesis.
  cases frame with
  | top data =>
    have ends := data.not_endsInQuote [] (by simp [EndsInQuote])
    simpa using ends
  | quoted => simp [EndsInQuote]
  | @inside toks body opens pending items p outer data =>
    have ends := data.not_endsInQuote (toks ++ [(.lParen, p)]) (by simp [EndsInQuote])
    simpa using ends

/-- What reading a text returns, in terms of the grammar alone. -/
inductive Reads (src : String) : Except LispError (List Sexp) → Prop
  | unterminatedString {toks : List Spanned} {p : Nat} : Lexes 0 src.toList toks (some p) →
      Reads src (.error (.unterminatedString p))
  | forms {toks : List Spanned} {forms : List Sexp} : Lexes 0 src.toList toks none →
      Data toks forms → Reads src (.ok forms)
  | unmatchedParen {front rest : List Spanned} {p : Nat} :
      Lexes 0 src.toList (front ++ (.rParen, p) :: rest) none →
      Viable front → ¬ Viable (front ++ [(.rParen, p)]) →
      openParens front = [] ∨ EndsInQuote front → Reads src (.error (.unmatchedParen p))
  | eof {toks : List Spanned} : Lexes 0 src.toList toks none → Viable toks → EndsInQuote toks →
      Reads src (.error (.eof src.utf8ByteSize))
  | unmatchedOpenParen {toks : List Spanned} {p : Nat} : Lexes 0 src.toList toks none →
      Viable toks → ¬ EndsInQuote toks → (openParens toks).head? = some p →
      Reads src (.error (.unmatchedOpenParen p))

/-- The grammar assigns the reader's result to every text. -/
theorem reads_read (src : String) : Reads src (read src) := by
  -- The tokens are parsed to their end, or up to a parenthesis that cannot stand where it does.
  unfold read
  cases lexed : tokenize src.toList with
  | error err =>
    obtain ⟨toks, p, lexes, rfl⟩ := tokenize_error_iff.mp lexed
    exact .unterminatedString lexes
  | ok toks =>
    have lexes := tokenize_ok_iff.mp lexed
    simp only
    rcases frame_or_stuck toks with
      ⟨opens, pending, frame⟩ | ⟨front, p, rest, opens, pending, rfl, frame, stuck⟩
    · cases pending with
      | true =>
        have failed := frame.readForms_error (parseDatum_nil src.utf8ByteSize) (by simp) (by simp)
        rw [List.append_nil] at failed
        rw [failed]
        exact .eof lexes frame.viable (frame.endsInQuote_iff.mpr rfl)
      | false =>
        cases opens with
        | nil =>
          obtain ⟨data⟩ := frame
          rw [data.readForms_eq]
          exact .forms lexes data
        | cons p opens =>
          rw [frame.readForms_open]
          exact .unmatchedOpenParen lexes frame.viable
            (by simp [frame.endsInQuote_iff]) (by simp [frame.openParens_eq])
    · rw [frame.readForms_stuck stuck]
      exact .unmatchedParen lexes frame.viable (frame.not_viable stuck p)
        (by rw [frame.openParens_eq, frame.endsInQuote_iff]; exact stuck.symm)

/-- The grammar assigns one result to a text. -/
theorem Reads.read_eq {src : String} {result : Except LispError (List Sexp)}
    (reads : Reads src result) : read src = result := by
  -- The reader's result is determined from the frame of the tokens in each case.
  unfold read
  cases reads with
  | unterminatedString lexes => rw [tokenize_error_iff.mpr ⟨_, _, lexes, rfl⟩]
  | forms lexes data => rw [tokenize_ok_iff.mpr lexes]; exact data.readForms_eq _
  | unmatchedParen lexes viable _ stuck =>
    obtain ⟨opens, pending, frame⟩ := viable_iff.mp viable
    rw [frame.openParens_eq, frame.endsInQuote_iff] at stuck
    rw [tokenize_ok_iff.mpr lexes]
    exact frame.readForms_stuck stuck.symm _ _
  | eof lexes viable waits =>
    obtain ⟨opens, pending, frame⟩ := viable_iff.mp viable
    have pending := frame.endsInQuote_iff.mp waits
    have failed := frame.readForms_error (parseDatum_nil src.utf8ByteSize) (by simp [pending])
      (by simp)
    rw [List.append_nil] at failed
    rw [tokenize_ok_iff.mpr lexes]
    exact failed
  | unmatchedOpenParen lexes viable settled innermost =>
    obtain ⟨opens, pending, frame⟩ := viable_iff.mp viable
    rw [frame.endsInQuote_iff, Bool.not_eq_true] at settled
    subst settled
    rw [frame.openParens_eq, List.head?_eq_some_iff] at innermost
    obtain ⟨outer, rfl⟩ := innermost
    rw [tokenize_ok_iff.mpr lexes]
    exact frame.readForms_open _

/-- The reader returns exactly the result that the grammar assigns to the text. -/
theorem read_eq_iff_reads (src : String) (result : Except LispError (List Sexp)) :
    read src = result ↔ Reads src result := by
  -- Some result is assigned, and no second one is.
  constructor
  · intro same
    obtain rfl := same
    exact reads_read src
  · exact Reads.read_eq

end Tatara.Lisp
