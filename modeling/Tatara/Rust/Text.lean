import Mathlib.Algebra.Group.Int.Defs
import Mathlib.Algebra.Group.Nat.Defs
import Mathlib.Tactic.Common

/-! Characters, decimal integers, and debug quoting as the Rust standard library writes them. -/

namespace Tatara.Rust

/-- The characters with Unicode property White_Space, which `char::is_whitespace` tests. -/
def isWhitespace (c : Char) : Bool :=
  -- The property covers nine short runs of code points and nothing else.
  let n := c.toNat
  (9 ≤ n && n ≤ 13) || n == 0x20 || n == 0x85 || n == 0xA0 || n == 0x1680 ||
    (0x2000 ≤ n && n ≤ 0x200A) || n == 0x2028 || n == 0x2029 || n == 0x202F ||
    n == 0x205F || n == 0x3000

/-- `str::trim`. -/
def trimText (text : List Char) : List Char :=
  ((text.dropWhile isWhitespace).reverse.dropWhile isWhitespace).reverse

/-- `str::strip_prefix`. -/
def stripPrefix (front text : List Char) : Option (List Char) :=
  if front <+: text then some (text.drop front.length) else none

/-- `str::strip_suffix`. -/
def stripSuffix (back text : List Char) : Option (List Char) :=
  if back <:+ text then some (text.take (text.length - back.length)) else none

/-- The digits a natural number is written with in base ten. -/
def renderNat (n : Nat) : List Char := Nat.toDigits 10 n

/-- Reading a nonempty run of decimal digits, with nothing else admitted. -/
def parseNat (text : List Char) : Option Nat :=
  if text ≠ [] ∧ text.all Char.isDigit then some (Nat.ofDigitChars 10 text 0) else none

/-- Printing an integer puts a minus sign before the digits of a negative one. -/
def renderInt (n : Int) : List Char :=
  if n < 0 then '-' :: renderNat n.natAbs else renderNat n.natAbs

/-- The signed number a lexeme spells, where either sign may lead and digits must follow. -/
def parseInt (text : List Char) : Option Int :=
  match text with
  | '-' :: digits => (parseNat digits).map fun n => -(n : Int)
  | '+' :: digits => (parseNat digits).map fun n => (n : Int)
  | digits => (parseNat digits).map fun n => (n : Int)

/-- `str::parse::<i64>` refuses a number outside the signed 64-bit range. -/
def parseI64 (text : List Char) : Option Int64 :=
  (parseInt text).bind fun n =>
    if -2 ^ 63 ≤ n ∧ n < 2 ^ 63 then some (Int64.ofInt n) else none

/-- `Display` for `i64`. -/
def renderI64 (n : Int64) : List Char := renderInt n.toInt

/-- Every digit a number is written with is a decimal digit. -/
theorem renderNat_isDigit {n : Nat} {c : Char} (member : c ∈ renderNat n) : c.isDigit = true :=
  -- The base is ten, so no letter digit is ever used.
  Nat.isDigit_of_mem_toDigits (by decide) (by decide) member

/-- Even zero is written with a digit. -/
theorem renderNat_ne_nil (n : Nat) : renderNat n ≠ [] := Nat.toDigits_ne_nil

/-- A natural number reads back from its own digits. -/
theorem parseNat_renderNat (n : Nat) : parseNat (renderNat n) = some n := by
  -- The digits are nonempty and decimal, so the reader takes its accepting branch.
  have digits : (renderNat n).all Char.isDigit = true :=
    List.all_eq_true.mpr fun c member => renderNat_isDigit member
  have spelled : Nat.ofDigitChars 10 (renderNat n) 0 = n := Nat.ofDigitChars_ten_toDigits
  simp [parseNat, renderNat_ne_nil, digits, spelled]

/-- A digit is neither of the two signs a number may lead with. -/
theorem isDigit_ne_sign {c : Char} (digit : c.isDigit = true) : c ≠ '-' ∧ c ≠ '+' := by
  -- Both signs are concrete characters outside the digit range.
  constructor <;> rintro rfl <;> simp [Char.isDigit] at digit

/-- An unsigned run of digits is read without consulting either sign. -/
theorem parseInt_digits {digits : List Char} (decimal : ∀ c ∈ digits, c.isDigit = true) :
    parseInt digits = (parseNat digits).map fun n => (n : Int) := by
  -- The first character is a digit, so neither signed branch can match it.
  cases digits with
  | nil => rfl
  | cons c rest =>
    obtain ⟨notMinus, notPlus⟩ := isDigit_ne_sign (decimal c (by simp))
    unfold parseInt
    split
    · rename_i same; cases same; exact absurd rfl notMinus
    · rename_i same; cases same; exact absurd rfl notPlus
    · rfl

/-- An integer reads back from its printed form. -/
theorem parseInt_renderInt (n : Int) : parseInt (renderInt n) = some n := by
  -- A negative number shows its sign, and the digits are those of its absolute value.
  unfold renderInt
  split
  · have restored : -(n.natAbs : Int) = n := by omega
    simp only [parseInt, parseNat_renderNat]
    exact congrArg some restored
  · have restored : (n.natAbs : Int) = n := by omega
    rw [parseInt_digits fun c member => renderNat_isDigit member, parseNat_renderNat]
    exact congrArg some restored

/-- A 64-bit integer reads back from its printed form. -/
theorem parseI64_renderI64 (n : Int64) : parseI64 (renderI64 n) = some n := by
  -- The printed value lies in the signed range because it came from that type.
  have low := n.le_toInt
  have high := n.toInt_lt
  simp only [parseI64, renderI64, parseInt_renderInt, Option.bind_some, low, high, and_self,
    if_true, Int64.ofInt_toInt]

/-- Core's table of printable characters, a generated table of the toolchain. -/
class CharTable where
  /-- Whether the debug form of a string writes this character as itself. -/
  printable : Char → Bool

/-- The table of printable characters, as far as the ASCII range goes. -/
@[reducible] def asciiTable : CharTable := ⟨fun c => 0x20 ≤ c.toNat && c.toNat < 0x7F⟩

/-- Core's tables of letter cases, generated tables of the toolchain. -/
class CaseTable where
  /-- `char::is_uppercase`. -/
  isUppercase : Char → Bool
  /-- `char::to_uppercase`, which may give several characters. -/
  toUppercase : Char → List Char
  /-- `char::to_lowercase`, which may give several characters. -/
  toLowercase : Char → List Char

/-- The tables of letter cases, as far as the ASCII range goes. -/
@[reducible] def asciiCase : CaseTable where
  isUppercase := Char.isUpper
  toUppercase c := [c.toUpper]
  toLowercase c := [c.toLower]

/-- The braces of a Unicode escape enclose the code point in lowercase hexadecimal. -/
def unicodeEscape (c : Char) : List Char :=
  '\\' :: 'u' :: '\x7b' :: (Nat.toDigits 16 c.toNat ++ ['\x7d'])

/-- How one character of a string appears between the quotes of its debug form. -/
def debugChar [CharTable] (c : Char) : List Char :=
  -- Six characters have a short escape, and the table decides between the remaining two forms.
  if c = '\x00' then ['\\', '0']
  else if c = '\t' then ['\\', 't']
  else if c = '\r' then ['\\', 'r']
  else if c = '\n' then ['\\', 'n']
  else if c = '\\' then ['\\', '\\']
  else if c = '\x22' then ['\\', '\x22']
  else if CharTable.printable c then [c]
  else unicodeEscape c

/-- `Debug` for `str` surrounds the escaped characters with double quotes. -/
def debugStr [CharTable] (text : List Char) : List Char :=
  '\x22' :: (text.flatMap debugChar ++ ['\x22'])

end Tatara.Rust
