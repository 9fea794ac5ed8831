import Tatara.Rust.Text

/-! JSON texts as `serde_json` writes them without blanks, and that no two documents have one
text. -/

namespace Tatara.Rust

/-- What is written as JSON, the fields of an object in the order in which they are written. -/
inductive Document where
  | null
  | bool (b : Bool)
  | number (n : Nat)
  | string (text : String)
  | array (items : List Document)
  | object (fields : List (String × Document))

/-- The letter that stands behind a backslash for a character, where there is one. -/
def escapeLetter : Char → Option Char
  | '"' => some '"'
  | '\\' => some '\\'
  | '\x08' => some 'b'
  | '\t' => some 't'
  | '\n' => some 'n'
  | '\x0c' => some 'f'
  | '\r' => some 'r'
  | _ => none

/-- What is written for a character of a string: quotes, backslashes and control characters are
escaped. -/
def escapeChar (c : Char) : List Char :=
  match escapeLetter c with
  | some letter => ['\\', letter]
  | none =>
    if c.toNat < 0x20 then
      ['\\', 'u', '0', '0', Nat.digitChar (c.toNat / 16), Nat.digitChar (c.toNat % 16)]
    else [c]

/-- What is written for a string behind its opening quote. -/
def writeBody (text : List Char) : List Char := text.flatMap escapeChar ++ ['"']

/-- What is written for a string. -/
def writeString (text : String) : List Char := '"' :: writeBody text.toList

/-- A comma goes before each element but the first one. -/
def separator (first : Bool) : List Char := if first then [] else [',']

namespace Document

mutual

/-- What is written for a document. -/
def write : Document → List Char
  | null => "null".toList
  | bool true => "true".toList
  | bool false => "false".toList
  | number n => renderNat n
  | string text => writeString text
  | array items => '[' :: writeItems true items
  | object fields => '{' :: writeFields true fields

/-- What is written for the items of an array, up to its end. -/
def writeItems (first : Bool) : List Document → List Char
  | [] => [']']
  | item :: rest => separator first ++ (write item ++ writeItems false rest)

/-- What is written for the fields of an object, up to its end. -/
def writeFields (first : Bool) : List (String × Document) → List Char
  | [] => ['}']
  | (key, value) :: rest =>
    separator first ++ (writeString key ++ ':' :: (write value ++ writeFields false rest))

end

/-- `serde_json::to_string`. -/
def text (d : Document) : String := String.ofList d.write

end Document

/-- The value of a hexadecimal digit. -/
def hexValue (c : Char) : Nat := if c.isDigit then c.toNat - 48 else c.toNat - 87

/-- The character that a letter behind a backslash stands for. -/
def unescapeLetter : Char → Char
  | 'b' => '\x08'
  | 't' => '\t'
  | 'n' => '\n'
  | 'f' => '\x0c'
  | 'r' => '\r'
  | c => c

/-- The first character of the body of a string, and what follows it. -/
def readChar : List Char → Option (Char × List Char)
  | [] => none
  | c :: rest =>
    if c ≠ '\\' then some (c, rest)
    else
      match rest with
      | 'u' :: _ :: _ :: high :: low :: rest =>
        some (Char.ofNat (16 * hexValue high + hexValue low), rest)
      | letter :: rest => some (unescapeLetter letter, rest)
      | [] => none

theorem hexValue_digitChar : ∀ n < 16, hexValue (Nat.digitChar n) = n := by decide

/-- A letter that is written stands for the character again, and is not the one for a code. -/
theorem unescapeLetter_of_escapeLetter {c letter : Char} (escaped : escapeLetter c = some letter) :
    unescapeLetter letter = c ∧ letter ≠ 'u' := by
  unfold escapeLetter at escaped
  split at escaped <;> cases escaped <;> exact ⟨rfl, by decide⟩

/-- What has been written for a character is read back, and what follows it is left. -/
theorem readChar_escapeChar (c : Char) (rest : List Char) :
    readChar (escapeChar c ++ rest) = some (c, rest) := by
  unfold escapeChar
  -- The character is written by a letter, by its code, or as it is.
  split
  · rename_i letter escaped
    obtain ⟨back, notCode⟩ := unescapeLetter_of_escapeLetter escaped
    show readChar ('\\' :: letter :: rest) = _
    simp only [readChar, ne_eq, not_true_eq_false, if_false]
    split
    · rename_i same
      exact absurd (List.cons.inj same).1 notCode
    · rename_i same
      obtain ⟨rfl, rfl⟩ := List.cons.inj same
      rw [back]
    · rename_i same
      cases same
  · rename_i plain
    have notBackslash : c ≠ '\\' := by
      intro same
      subst same
      cases plain
    split
    · rename_i control
      have high := hexValue_digitChar (c.toNat / 16) (by omega)
      have low := hexValue_digitChar (c.toNat % 16) (by omega)
      show some (Char.ofNat (16 * hexValue _ + hexValue _), rest) = _
      rw [high, low, Nat.div_add_mod, Char.ofNat_toNat]
    · exact if_pos notBackslash

/-- No character is written with a quote in front, so that a quote ends the string. -/
theorem exists_escapeChar_eq (c : Char) : ∃ front rest, escapeChar c = front :: rest ∧
    front ≠ '"' := by
  -- A quote is among the characters that are escaped.
  unfold escapeChar
  split
  · exact ⟨_, _, rfl, by decide⟩
  · rename_i plain
    split
    · exact ⟨_, _, rfl, by decide⟩
    · refine ⟨_, _, rfl, fun same => ?_⟩
      subst same
      cases plain

/-- Whatever follows the body of a string, its end is found. -/
theorem writeBody_append_inj {xs ys rest rest' : List Char}
    (same : writeBody xs ++ rest = writeBody ys ++ rest') : xs = ys ∧ rest = rest' := by
  unfold writeBody at same
  induction xs generalizing ys with
  | nil =>
    cases ys with
    | nil => exact ⟨rfl, (List.cons.inj same).2⟩
    | cons y ys =>
      obtain ⟨front, more, written, notQuote⟩ := exists_escapeChar_eq y
      rw [List.flatMap_cons, written] at same
      exact absurd (List.cons.inj same).1.symm notQuote
  | cons x xs ih =>
    cases ys with
    | nil =>
      obtain ⟨front, more, written, notQuote⟩ := exists_escapeChar_eq x
      rw [List.flatMap_cons, written] at same
      exact absurd (List.cons.inj same).1 notQuote
    | cons y ys =>
      -- The first characters are read back, and what follows them is the same.
      rw [List.flatMap_cons, List.flatMap_cons, List.append_assoc, List.append_assoc,
        List.append_assoc, List.append_assoc, ← List.append_assoc (xs.flatMap escapeChar),
        ← List.append_assoc (ys.flatMap escapeChar)] at same
      have read := congrArg readChar same
      rw [readChar_escapeChar, readChar_escapeChar] at read
      obtain ⟨first, others⟩ := Prod.mk.inj (Option.some.inj read)
      obtain ⟨equal, rests⟩ := ih others
      exact ⟨congrArg₂ List.cons first equal, rests⟩

/-- A string that is written ends in one way only. -/
theorem writeString_append_inj {s t : String} {rest rest' : List Char}
    (same : writeString s ++ rest = writeString t ++ rest') : s = t ∧ rest = rest' := by
  obtain ⟨equal, rests⟩ := writeBody_append_inj (List.cons.inj same).2
  exact ⟨String.toList_inj.mp equal, rests⟩

/-- What follows a number does not go on with a digit. -/
def Stops (rest : List Char) : Prop := ∀ c ∈ rest.head?, c.isDigit = false

/-- A number that is written ends where no digit follows. -/
theorem renderNat_append_inj {m n : Nat} {rest rest' : List Char} (stops : Stops rest)
    (stops' : Stops rest') (same : renderNat m ++ rest = renderNat n ++ rest') :
    m = n ∧ rest = rest' := by
  -- The digits are what comes before the first character that is none.
  have digits {n : Nat} {rest : List Char} (stops : Stops rest) :
      (renderNat n ++ rest).takeWhile Char.isDigit = renderNat n := by
    rw [List.takeWhile_append_of_pos fun c among => renderNat_isDigit among]
    cases rest with
    | nil => simp
    | cons c rest =>
      have notDigit := stops c rfl
      rw [List.takeWhile_cons_of_neg (by simp [notDigit]), List.append_nil]
  have front := congrArg (List.takeWhile Char.isDigit) same
  rw [digits stops, digits stops'] at front
  have read := congrArg parseNat front
  rw [parseNat_renderNat, parseNat_renderNat] at read
  rw [front] at same
  exact ⟨Option.some.inj read, List.append_cancel_left same⟩

namespace Document

/-- The form of a document. -/
def form : Document → Nat
  | null => 0
  | bool true => 1
  | bool false => 2
  | number _ => 3
  | string _ => 4
  | array _ => 5
  | object _ => 6

/-- The form of a document that begins with this character. -/
def formOf (c : Char) : Nat :=
  if c = 'n' then 0 else if c = 't' then 1 else if c = 'f' then 2 else if c.isDigit then 3
  else if c = '"' then 4 else if c = '[' then 5 else 6

/-- The first character tells the form, and is neither a comma nor a closing bracket. -/
theorem exists_write_eq (d : Document) : ∃ c rest, d.write = c :: rest ∧ formOf c = d.form ∧
    c ≠ ']' := by
  cases d with
  | null => exact ⟨_, _, rfl, rfl, by decide⟩
  | bool b => cases b <;> exact ⟨_, _, rfl, rfl, by decide⟩
  | number n =>
    -- A digit is none of the letters and marks that the other forms begin with.
    cases digits : renderNat n with
    | nil => exact absurd digits (renderNat_ne_nil n)
    | cons c rest =>
      have digit : c.isDigit = true := renderNat_isDigit (digits ▸ List.mem_cons_self)
      have other (d : Char) (none : d.isDigit = false) : c ≠ d := fun same => by
        rw [same, none] at digit
        cases digit
      refine ⟨c, rest, digits, ?_, other ']' rfl⟩
      simp [formOf, form, digit, other 'n' rfl, other 't' rfl, other 'f' rfl]
  | string text => exact ⟨_, _, rfl, rfl, by decide⟩
  | array items => exact ⟨_, _, rfl, rfl, by decide⟩
  | object fields => exact ⟨_, _, rfl, rfl, by decide⟩

/-- Behind an item there is no digit. -/
theorem stops_writeItems (items : List Document) (rest : List Char) :
    Stops (writeItems false items ++ rest) := by
  -- There is a bracket or a comma.
  cases items with
  | nil =>
    intro c front
    obtain rfl := Option.some.inj front
    rfl
  | cons item items =>
    intro c front
    obtain rfl := Option.some.inj front
    rfl

/-- Behind a field there is no digit. -/
theorem stops_writeFields (fields : List (String × Document)) (rest : List Char) :
    Stops (writeFields false fields ++ rest) := by
  -- There is a brace or a comma.
  cases fields with
  | nil =>
    intro c front
    obtain rfl := Option.some.inj front
    rfl
  | cons field fields =>
    intro c front
    obtain rfl := Option.some.inj front
    rfl

/-- An array that ends here is told from one that goes on. -/
theorem writeItems_nil_ne (first : Bool) (item : Document) (items : List Document)
    (rest rest' : List Char) :
    writeItems first [] ++ rest ≠ writeItems first (item :: items) ++ rest' := by
  -- Behind no item there is the closing bracket, which starts no item and is no comma.
  intro same
  cases first with
  | true =>
    obtain ⟨c, more, written, -, notEnd⟩ := exists_write_eq item
    rw [writeItems, writeItems, written] at same
    exact notEnd (List.cons.inj same).1.symm
  | false => exact absurd (List.cons.inj same).1 (by decide)

/-- An object that ends here is told from one that goes on. -/
theorem writeFields_nil_ne (first : Bool) (field : String × Document)
    (fields : List (String × Document)) (rest rest' : List Char) :
    writeFields first [] ++ rest ≠ writeFields first (field :: fields) ++ rest' := by
  intro same
  cases first with
  | true => exact absurd (List.cons.inj same).1 (by decide)
  | false => exact absurd (List.cons.inj same).1 (by decide)

/-- Documents that are written alike have one form. -/
theorem form_eq_of_append_eq {a b : Document} {rest rest' : List Char}
    (same : a.write ++ rest = b.write ++ rest') : a.form = b.form := by
  obtain ⟨c, more, written, form, -⟩ := exists_write_eq a
  obtain ⟨d, further, written', form', -⟩ := exists_write_eq b
  rw [written, written'] at same
  rw [← form, ← form', (List.cons.inj same).1]

mutual

/-- Whatever follows the text of a document, its end is found, and it is told from the texts of all
others. -/
theorem write_append_inj (a b : Document) {rest rest' : List Char} (stops : Stops rest)
    (stops' : Stops rest') (same : a.write ++ rest = b.write ++ rest') : a = b ∧ rest = rest' := by
  -- The first characters tell that the two have one form.
  have forms := form_eq_of_append_eq same
  match a, b with
  | null, null => exact ⟨rfl, List.append_cancel_left same⟩
  | bool true, bool true => exact ⟨rfl, List.append_cancel_left same⟩
  | bool false, bool false => exact ⟨rfl, List.append_cancel_left same⟩
  | number m, number n =>
    obtain ⟨rfl, rests⟩ := renderNat_append_inj stops stops' same
    exact ⟨rfl, rests⟩
  | string s, string t =>
    obtain ⟨rfl, rests⟩ := writeString_append_inj same
    exact ⟨rfl, rests⟩
  | array xs, array ys =>
    obtain ⟨rfl, rests⟩ := writeItems_append_inj true xs ys (List.cons.inj same).2
    exact ⟨rfl, rests⟩
  | object xs, object ys =>
    obtain ⟨rfl, rests⟩ := writeFields_append_inj true xs ys (List.cons.inj same).2
    exact ⟨rfl, rests⟩

/-- Items that are written are told with what follows them. -/
theorem writeItems_append_inj (first : Bool) (xs ys : List Document) {rest rest' : List Char}
    (same : writeItems first xs ++ rest = writeItems first ys ++ rest') :
    xs = ys ∧ rest = rest' := by
  match xs, ys with
  | [], [] => exact ⟨rfl, List.append_cancel_left same⟩
  | [], y :: ys => exact absurd same (writeItems_nil_ne first y ys rest rest')
  | x :: xs, [] => exact absurd same.symm (writeItems_nil_ne first x xs rest' rest)
  | x :: xs, y :: ys =>
    simp only [writeItems, List.append_assoc] at same
    -- Behind an item there is a comma or the closing bracket.
    have behind := List.append_cancel_left same
    obtain ⟨equal, others⟩ := write_append_inj x y (stops_writeItems xs rest)
      (stops_writeItems ys rest') behind
    obtain ⟨equals, rests⟩ := writeItems_append_inj false xs ys others
    exact ⟨congrArg₂ List.cons equal equals, rests⟩

/-- Fields that are written are told with what follows them. -/
theorem writeFields_append_inj (first : Bool) (xs ys : List (String × Document))
    {rest rest' : List Char}
    (same : writeFields first xs ++ rest = writeFields first ys ++ rest') :
    xs = ys ∧ rest = rest' := by
  match xs, ys with
  | [], [] => exact ⟨rfl, List.append_cancel_left same⟩
  | [], y :: ys => exact absurd same (writeFields_nil_ne first y ys rest rest')
  | x :: xs, [] => exact absurd same.symm (writeFields_nil_ne first x xs rest' rest)
  | (key, x) :: xs, (key', y) :: ys =>
    simp only [writeFields, List.append_assoc, List.cons_append] at same
    -- The quote ends the key, and a comma or the closing brace ends the value.
    have behind := List.append_cancel_left same
    obtain ⟨rfl, values⟩ := writeString_append_inj behind
    have value := (List.cons.inj values).2
    obtain ⟨equal, others⟩ := write_append_inj x y (stops_writeFields xs rest)
      (stops_writeFields ys rest') value
    obtain ⟨equals, rests⟩ := writeFields_append_inj false xs ys others
    exact ⟨by rw [equal, equals], rests⟩

end

/-- No two documents have one text. -/
theorem text_injective : Function.Injective text := by
  -- Nothing follows the text.
  intro a b same
  have texts : a.write ++ [] = b.write ++ [] := by
    rw [List.append_nil, List.append_nil]
    exact String.ofList_injective same
  exact (write_append_inj a b (by simp [Stops]) (by simp [Stops]) texts).1

end Document

end Tatara.Rust
