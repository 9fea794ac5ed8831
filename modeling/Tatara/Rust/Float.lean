import Tatara.Rust.Text

/-! Doubles carried by their bit pattern, with the text forms of `f64` in the standard library. -/

namespace Tatara.Rust

/-- An IEEE 754 double, carried by the bit pattern `f64::to_bits` returns. -/
structure F64 where
  bits : UInt64
  deriving DecidableEq, Repr

namespace F64

/-- The exponent field of every infinity and every NaN, already in place. -/
def specialBits : Nat := 0x7FF0000000000000

/-- Put a sign in front of a magnitude. -/
def signed (negative : Bool) (magnitude : Nat) : F64 :=
  ⟨UInt64.ofNat (if negative then 2 ^ 63 + magnitude else magnitude)⟩

/-- The double nearest to a nonnegative ratio, with ties going to the even significand. -/
def ofRatio (negative : Bool) (num den : Nat) : F64 :=
  if num = 0 then signed negative 0
  else
    -- The guessed exponent leaves a quotient of fifty-two or fifty-three bits.
    let guess : Int := (Nat.log2 num : Int) - Nat.log2 den - 52
    let scale (e : Int) : Nat × Nat :=
      if 0 ≤ e then (num, den * 2 ^ e.toNat) else (num * 2 ^ (-e).toNat, den)
    let (n, d) := scale guess
    -- Subnormal numbers share the smallest exponent, so it is a floor for every other one.
    let e := max (if n / d < 2 ^ 52 then guess - 1 else guess) (-1074)
    let (n, d) := scale e
    let q := n / d
    let r := n % d
    let rounded := if d < 2 * r ∨ (2 * r = d ∧ q % 2 = 1) then q + 1 else q
    -- A carry out of the significand moves into the exponent field by itself.
    signed negative (min ((e + 1074).toNat * 2 ^ 52 + rounded) specialBits)

/-- The double a decimal significand and a decimal exponent denote. -/
def ofDecimal (negative : Bool) (significand : Nat) (exponent : Int) : F64 :=
  if 0 ≤ exponent then ofRatio negative (significand * 10 ^ exponent.toNat) 1
  else ofRatio negative significand (10 ^ (-exponent).toNat)

/-- The optional sign a number leads with, and what is left of the text. -/
def splitSign : List Char → Bool × List Char
  | '-' :: rest => (true, rest)
  | '+' :: rest => (false, rest)
  | rest => (false, rest)

/-- The exponent after its marker, where a sign may lead and digits must follow. -/
def parseExponent (text : List Char) : Option Int :=
  match splitSign text with
  | (true, digits) => (parseNat digits).map fun n => -(n : Int)
  | (false, digits) => (parseNat digits).map fun n => (n : Int)

/-- The unsigned number, with a digit on at least one side of an optional point. -/
def parseNumber (negative : Bool) (text : List Char) : Option F64 :=
  let whole := text.takeWhile Char.isDigit
  let afterWhole := text.dropWhile Char.isDigit
  let (fraction, afterFraction) :=
    match afterWhole with
    | '.' :: rest => (rest.takeWhile Char.isDigit, rest.dropWhile Char.isDigit)
    | rest => ([], rest)
  if whole = [] ∧ fraction = [] then none
  else
    let significand := Nat.ofDigitChars 10 (whole ++ fraction) 0
    match afterFraction with
    | [] => some (ofDecimal negative significand (-(fraction.length : Int)))
    | mark :: rest =>
      if mark = 'e' ∨ mark = 'E' then
        (parseExponent rest).map fun e => ofDecimal negative significand (e - fraction.length)
      else none

/-- `str::parse::<f64>`, which also admits the three special spellings in any letter case. -/
def parse (text : List Char) : Option F64 :=
  let (negative, rest) := splitSign text
  let lowered := rest.map Char.toLower
  if lowered = "inf".toList ∨ lowered = "infinity".toList then some (signed negative specialBits)
  else if lowered = "nan".toList then some (signed negative 0x7FF8000000000000)
  else parseNumber negative rest

/-- Whether the sign bit is set. -/
def isNegative (x : F64) : Bool := decide (2 ^ 63 ≤ x.bits.toNat)

/-- The bit pattern without its sign. -/
def magnitude (x : F64) : Nat := x.bits.toNat % 2 ^ 63

/-- `f64::is_finite`. -/
def isFinite (x : F64) : Bool := decide (x.magnitude < specialBits)

/-- The exact ratio a finite magnitude denotes. -/
def ratio (x : F64) : Nat × Nat :=
  let field := x.magnitude / 2 ^ 52
  let fraction := x.magnitude % 2 ^ 52
  let significand := if field = 0 then fraction else fraction + 2 ^ 52
  let e : Int := (max field 1 : Nat) - 1075
  if 0 ≤ e then (significand * 2 ^ e.toNat, 1) else (significand, 2 ^ (-e).toNat)

/-- Whether a finite double equals its own truncation. -/
def isIntegral (x : F64) : Bool :=
  let (num, den) := x.ratio
  num % den == 0

/-- The power of ten just above a positive ratio, as the position of its decimal point. -/
def pointOf (num den : Nat) : Int :=
  if den ≤ num then ((renderNat (num / den)).length : Int)
  else -((((List.range 400).find? fun j => den ≤ num * 10 ^ (j + 1)).getD 0 : Nat) : Int)

/-- The shortest digits that read back as the same double, nearest first, with their exponent. -/
def shortest (x : F64) : Nat × Int :=
  let (num, den) := x.ratio
  let point := pointOf num den
  let candidate (count : Nat) : Option (Nat × Int) :=
    let e : Int := point - count
    let (n, d) := if 0 ≤ e then (num, den * 10 ^ e.toNat) else (num * 10 ^ (-e).toNat, den)
    let below := n / d
    let reads (digits : Nat) : Bool := ofDecimal false digits e == signed false x.magnitude
    let nearUp := decide (d < 2 * (n % d) ∨ (2 * (n % d) = d ∧ below % 2 = 1))
    -- Both neighbours may read back, in which case the nearer one is printed.
    if reads below && !(nearUp && reads (below + 1)) then some (below, e)
    else if reads (below + 1) then some (below + 1, e)
    else none
  ((List.range 17).findSome? fun count => candidate (count + 1)).getD (0, 0)

/-- `Display` for `f64`, which never uses an exponent. -/
def render (x : F64) : List Char :=
  let sign := if x.isNegative then ['-'] else []
  if specialBits < x.magnitude then "NaN".toList
  else if x.magnitude = specialBits then sign ++ "inf".toList
  else if x.magnitude = 0 then sign ++ ['0']
  else
    let (digits, e) := x.shortest
    let text := renderNat digits
    if 0 ≤ e then sign ++ text ++ List.replicate e.toNat '0'
    else
      let places := (-e).toNat
      -- Leading zeros are supplied when the point lies before the first digit.
      let padded := List.replicate (places + 1 - text.length) '0' ++ text
      sign ++ padded.take (padded.length - places) ++ '.' :: padded.drop (padded.length - places)

/-- `f64::is_nan`. -/
def isNan (x : F64) : Bool := decide (specialBits < x.magnitude)

/-- The place of a double in the order of all of them, in which both zeros are at the same place. -/
def place (x : F64) : Int := if x.isNegative then -(x.magnitude : Int) else x.magnitude

/-- `<`, which holds of no NaN. -/
def lt (x y : F64) : Bool := !x.isNan && !y.isNan && decide (x.place < y.place)

/-- `<=`, which holds of no NaN. -/
def le (x y : F64) : Bool := !x.isNan && !y.isNan && decide (x.place ≤ y.place)

/-- The double nearest to a ratio. -/
def ofFraction (num : Int) (den : Nat) : F64 := ofRatio (decide (num < 0)) num.natAbs den

/-- The exact ratio that a finite double denotes, with its sign. -/
def fraction (x : F64) : Int × Nat :=
  let (num, den) := x.ratio
  (if x.isNegative then -(num : Int) else num, den)

/-- `as f64` of a `u64`. -/
def ofU64 (n : UInt64) : F64 := ofRatio false n.toNat 1

/-- The sum of finite doubles. -/
def add (x y : F64) : F64 :=
  let (a, b) := x.fraction
  let (c, d) := y.fraction
  ofFraction (a * d + c * b) (b * d)

/-- The difference of finite doubles. -/
def sub (x y : F64) : F64 :=
  let (a, b) := x.fraction
  let (c, d) := y.fraction
  ofFraction (a * d - c * b) (b * d)

/-- The quotient of finite doubles of which the second one is positive. -/
def div (x y : F64) : F64 :=
  let (a, b) := x.fraction
  let (c, d) := y.fraction
  ofFraction (a * d) (b * c.natAbs)

end F64
end Tatara.Rust
