import Tatara.Lisp.Grammar

/-! Texts that are put behind one another, and read as the forms of the one and then the other. -/

namespace Tatara.Lisp

open Tatara.Rust

/-- A token further back in the text. -/
def shiftToken (d : Nat) (tok : Spanned) : Spanned := (tok.1, tok.2 + d)

/-- An error of the reader further back in the text; the others have no position. -/
def LispError.shift (d : Nat) : LispError → LispError
  | .unterminatedString pos => .unterminatedString (pos + d)
  | .unmatchedParen pos => .unmatchedParen (pos + d)
  | .unmatchedOpenParen pos => .unmatchedOpenParen (pos + d)
  | .eof pos => .eof (pos + d)
  | err => err

section

variable {p d : Nat} {a b : List Char} {toks more : List Spanned} {stop : Option Nat}

/-- Further back in a text the same tokens are found. -/
theorem Lexes.shift (lexes : Lexes p a toks stop) (d : Nat) :
    Lexes (p + d) a (toks.map (shiftToken d)) (stop.map (· + d)) := by
  -- By induction on the tokens; only their places change.
  induction lexes with
  | done => exact .done
  | space white _ ih => exact .space white (by rwa [Nat.add_right_comm])
  | comment inside _ ih => exact .comment inside (by rwa [Nat.add_right_comm])
  | lastComment inside => exact .lastComment inside
  | lParen _ ih => exact .lParen (by rwa [Nat.add_right_comm])
  | rParen _ ih => exact .rParen (by rwa [Nat.add_right_comm])
  | quoted notSplice _ ih => exact .quoted notSplice (by rwa [Nat.add_right_comm])
  | str body _ ih => exact .str body (by rwa [Nat.add_right_comm])
  | openStr body tail => exact .openStr body tail
  | atom bare boundary _ ih => exact .atom bare boundary (by rwa [Nat.add_right_comm])

theorem Lexes.at_offset {q : Nat} (lexes : Lexes p a toks stop) (same : p = q) :
    Lexes q a toks stop := same ▸ lexes

/-- Behind a new line the tokens of a text go on with those of another text. -/
theorem Lexes.append (first : Lexes p a toks none)
    (second : Lexes (p + String.utf8Len a + 1) b more stop) :
    Lexes p (a ++ '\n' :: b) (toks ++ more) stop := by
  -- By induction on the first text; its last token or comment ends at the new line.
  generalize ended : (none : Option Nat) = before at first
  induction first with
  | done => exact .space rfl second
  | space white _ ih =>
    exact .space white (ih (second.at_offset (by simp; omega)) ended)
  | comment inside _ ih =>
    have rest := ih (second.at_offset (by simp; omega)) ended
    simpa using Lexes.comment inside rest
  | @lastComment p body inside =>
    have rest : Lexes (p + String.utf8Len (';' :: body ++ ['\n'])) b more stop :=
      second.at_offset (by simp; rfl)
    simpa using Lexes.comment inside rest
  | lParen _ ih =>
    have one : '('.utf8Size = 1 := rfl
    exact .lParen (ih (second.at_offset (by simp [one]; omega)) ended)
  | rParen _ ih =>
    have one : ')'.utf8Size = 1 := rfl
    exact .rParen (ih (second.at_offset (by simp [one]; omega)) ended)
  | @quoted p qf rest toks stop' notSplice _ ih =>
    rw [List.append_assoc]
    -- The new line does not turn a comma into a splice.
    refine .quoted (fun same => ?_) (ih (second.at_offset (by simp; omega)) ended)
    cases rest with
    | nil => simp
    | cons c rest => simpa using notSplice same
  | str body _ ih =>
    have rest := ih (second.at_offset (by simp; omega)) ended
    simpa using Lexes.str body rest
  | openStr body tail =>
    -- A string that is left open would go on in the other text.
    cases ended
  | @atom p c lexeme rest toks stop' bare boundary _ ih =>
    rw [List.append_assoc]
    refine .atom bare ?_ (ih (second.at_offset (by simp; omega)) ended)
    cases rest with
    | nil => rfl
    | cons c rest => exact boundary

end

mutual

/-- A datum does not depend on where its tokens are. -/
theorem Datum.shift {toks : List Spanned} {form : Sexp} (datum : Datum toks form) (d : Nat) :
    Datum (toks.map (shiftToken d)) form := by
  -- One case for each form of a datum.
  match datum with
  | .atom => exact .atom
  | .str => exact .str
  | .list data => simpa [shiftToken] using Datum.list (data.shift d)
  | .quoted datum => exact .quoted (datum.shift d)
termination_by 2 * toks.length

/-- The data do not depend on where in the text their tokens are. -/
theorem Data.shift {toks : List Spanned} {forms : List Sexp} (data : Data toks forms) (d : Nat) :
    Data (toks.map (shiftToken d)) forms := by
  -- By induction on the data.
  match data with
  | .nil => exact .nil
  | @Data.cons front rest _ _ datum data =>
    obtain ⟨tok, p, more, rfl, -⟩ := datum.starts
    rw [List.map_append]
    exact .cons (datum.shift d) (data.shift d)
termination_by 2 * toks.length + 1

end

/-- An open list does not depend on where its tokens are. -/
theorem Frame.shift {toks : List Spanned} {opens : List Nat} {pending : Bool}
    (frame : Frame toks opens pending) (d : Nat) :
    Frame (toks.map (shiftToken d)) (opens.map (· + d)) pending := by
  induction frame with
  | top data => exact .top (data.shift d)
  | quoted _ ih => simpa [shiftToken] using Frame.quoted ih
  | inside _ data ih => simpa [shiftToken] using Frame.inside ih (data.shift d)

/-- Further back in a text tokens are read as the same forms, or the same error further back. -/
theorem readForms_shift (eofPos d : Nat) (toks : List Spanned) :
    readForms (eofPos + d) (toks.map (shiftToken d)) =
      (readForms eofPos toks).mapError (LispError.shift d) := by
  rcases frame_or_stuck toks with
    ⟨opens, pending, frame⟩ | ⟨front, p, rest, opens, pending, rfl, frame, stuck⟩
  · have shifted := frame.shift d
    cases pending with
    | true =>
      have failed := frame.readForms_error (parseDatum_nil eofPos) (by simp) (by simp)
      have failed' := shifted.readForms_error (parseDatum_nil (eofPos + d)) (by simp) (by simp)
      rw [List.append_nil] at failed failed'
      rw [failed, failed']
      rfl
    | false =>
      cases opens with
      | nil =>
        obtain ⟨data⟩ := frame
        rw [data.readForms_eq, (data.shift d).readForms_eq]
        rfl
      | cons p opens =>
        rw [frame.readForms_open, shifted.readForms_open]
        rfl
  · -- What stops the reader stops it wherever it stands.
    have stuck' : pending = true ∨ opens.map (· + d) = [] :=
      stuck.imp_right fun none => by rw [none, List.map_nil]
    rw [frame.readForms_stuck stuck, List.map_append, List.map_cons]
    exact (frame.shift d).readForms_stuck stuck' _ _

/-- Where a text is read as forms, a text behind it in a line of its own adds the forms that it is
read as itself, or else what is wrong with it is reported at its place. -/
theorem read_append {a b : String} {forms : List Sexp} (first : read a = .ok forms) :
    read (a ++ "\n" ++ b) =
      ((read b).mapError (LispError.shift (a.utf8ByteSize + 1))).map (forms ++ ·) := by
  have reads : Reads a (.ok forms) := first ▸ reads_read a
  cases reads with
  | @forms toks _ lexes data =>
    obtain ⟨more, stop, behind⟩ := lexes_total b.toList 0
    have length : String.utf8Len a.toList = a.utf8ByteSize := by simp
    have shifted := behind.shift (a.utf8ByteSize + 1)
    have whole : Lexes 0 (a ++ "\n" ++ b).toList
        (toks ++ more.map (shiftToken (a.utf8ByteSize + 1))) (stop.map (· + (a.utf8ByteSize + 1))) := by
      have joined := lexes.append (shifted.at_offset (by rw [length]; omega))
      simpa using joined
    cases stop with
    | some p =>
      -- A string that is left open in the second text is found before anything is parsed.
      rw [read, tokenize_error_iff.mpr ⟨_, _, whole, rfl⟩, read,
        tokenize_error_iff.mpr ⟨_, _, behind, rfl⟩]
      rfl
    | none =>
      have size : (a ++ "\n" ++ b).utf8ByteSize = b.utf8ByteSize + (a.utf8ByteSize + 1) := by
        have one : "\n".utf8ByteSize = 1 := rfl
        simp only [String.utf8ByteSize_append, one]
        omega
      rw [read, tokenize_ok_iff.mpr whole, read, tokenize_ok_iff.mpr behind]
      simp only
      rw [data.readForms_append, size, readForms_shift]

/-- An error in a second text is found further back in both. -/
theorem read_append_paren :
    read ("x" ++ "\n" ++ ")") =
      ((read ")").mapError (LispError.shift 2)).map ([.atom (Atom.fromLexeme ['x'])] ++ ·) := by
  have bare : ∀ ch ∈ 'x' :: [], isBareAtomBoundary ch = false := by
    simp [isBareAtomBoundary, isWhitespace]
  have ends : AtBoundary [] := trivial
  have lexes : Lexes 0 "x".toList [(.atom ['x'], 0)] none := .atom bare ends .done
  have first : read "x" = .ok [.atom (Atom.fromLexeme ['x'])] :=
    Reads.read_eq (.forms lexes (Datum.data .atom))
  exact read_append first

end Tatara.Lisp
