import Flowchart.Number.Binary

/-!
# Numerals

An integer can be written in base sixteen, eight or two. A row of digits is read from the left,
and only a value below `2 ^ 64` counts. One plus sign may stand in front; no other sign, no blank
and no separator is admitted, and a row without digits denotes nothing.

A decimal numeral is an optional sign, digits with an optional point among them, and an optional
exponent: `5`, `5.`, `.5`, `-1.25e+3`. At least one digit has to stand before the exponent. It is
taken apart first (`Decimal.pieces?`), and there are two ways to go on.

* **Exactly**: the pieces make a sign, a natural number and a power of ten, without loss
  (`Decimal.ofChars?`), and these are taken to the nearest double (`Decimal.toFloat`).
* **Quickly**: of the digits no more are kept than fit into 64 bits (`Decimal.abridged?`), and the
  number that they denote is converted to a double and then multiplied with a power of ten or
  divided by one, in the arithmetic of doubles (`Decimal.approximate?`). This rounds more than once,
  so the result may lie beside the nearest double: `90.33333333333333` is read as the double below.

`Decimal.ofExtended?` also knows the words for infinity and for the value that is no number.
-/

namespace Flowchart.Number

/-! ### Digits in another base -/

/-- The value of a digit: `0` to `9`, then the letters in either case, as far as the base goes. -/
def digitValue? (base : Nat) (c : Char) : Option Nat :=
  let value? :=
    if c.isDigit then some (c.toNat - '0'.toNat)
    else if c.isLower then some (c.toNat - 'a'.toNat + 10)
    else if c.isUpper then some (c.toNat - 'A'.toNat + 10)
    else none
  value?.filter (· < base)

/-- The natural number that a row of digits denotes, the digits before it having the value
`before`. -/
def valueIn? (base : Nat) : List Char → Nat → Option Nat
  | [], before => some before
  | c :: rest, before => do
    let digit ← digitValue? base c
    valueIn? base rest (base * before + digit)

/-- **A word of 64 bits in the given base**: one or more digits, with at most one plus sign in front
of them, whose value is below `2 ^ 64`. -/
def word64? (base : Nat) (cs : List Char) : Option Nat :=
  let digits := match cs with
    | '+' :: rest => rest
    | rest => rest
  if digits = [] then none else (valueIn? base digits 0).filter (· < UInt64.size)

/-! ### Decimal numerals -/

/-- The number `± coefficient · 10 ^ exponent`. -/
structure Decimal where
  negative : Bool
  coefficient : Nat
  exponent : Int
  deriving DecidableEq, Repr

namespace Decimal

/-- A decimal numeral taken apart: its sign, the digits before and behind the point, and the number
that its exponent denotes. -/
structure Pieces where
  negative : Bool
  whole : List Char
  fraction : List Char
  exponent : Int
  deriving DecidableEq, Repr

/-- Takes a sign off the front of a text, and tells whether it was a minus. -/
def splitSign : List Char → Bool × List Char
  | '-' :: rest => (true, rest)
  | '+' :: rest => (false, rest)
  | rest => (false, rest)

/-- The digits a text starts with. -/
def leadingDigits (cs : List Char) : List Char :=
  cs.takeWhile Char.isDigit

/-- What follows the digits a text starts with. -/
def afterDigits (cs : List Char) : List Char :=
  cs.dropWhile Char.isDigit

/-- The natural number that decimal digits denote. -/
def valueOf (digits : List Char) : Nat :=
  Nat.ofDigitChars 10 digits 0

/-- An exponent is empty, or the letter `e` in either case with a signed row of digits after it. -/
def exponentOf? : List Char → Option Int
  | [] => some 0
  | c :: rest =>
    let (negative, digits) := splitSign rest
    if (c = 'e' ∨ c = 'E') ∧ digits ≠ [] ∧ digits.all Char.isDigit then
      some (if negative then -(valueOf digits : Int) else valueOf digits)
    else none

/-- **The pieces of a decimal numeral**, or `none` for a text that is no numeral. -/
def pieces? (cs : List Char) : Option Pieces :=
  let (negative, body) := splitSign cs
  let whole := leadingDigits body
  let (fraction, rest) := match afterDigits body with
    | '.' :: rest => (leadingDigits rest, afterDigits rest)
    | rest => ([], rest)
  if whole = [] ∧ fraction = [] then none
  else (exponentOf? rest).map fun e => ⟨negative, whole, fraction, e⟩

/-! ### The nearest double -/

/-- The number that a numeral in pieces denotes. -/
def Pieces.toDecimal (p : Pieces) : Decimal :=
  ⟨p.negative, valueOf (p.whole ++ p.fraction), p.exponent - p.fraction.length⟩

/-- **The number a decimal numeral denotes**, or `none` for a text that is no numeral. -/
def ofChars? (cs : List Char) : Option Decimal :=
  (pieces? cs).map Pieces.toDecimal

/-- **The nearest double**; a number beyond the largest one becomes infinite, and a zero keeps its
sign. -/
def toFloat (d : Decimal) : Float :=
  let magnitude := Float.ofScientific d.coefficient (d.exponent < 0) d.exponent.natAbs
  if d.negative then -magnitude else magnitude

/-- The double a text denotes when, besides decimal numerals, the words `inf`, `infinity` and `nan`
are admitted, in any case and with an optional sign. -/
def ofExtended? (cs : List Char) : Option Float :=
  match ofChars? cs with
  | some d => some d.toFloat
  | none =>
    let (negative, word) := splitSign cs
    let word := word.map Char.toLower
    if word = "inf".toList ∨ word = "infinity".toList then
      some (if negative then -infinity else infinity)
    else if word = "nan".toList then some Number.nan
    else none

/-! ### The quick way to a double -/

/-- Appends digits to a number as long as the result fits into 64 bits, and returns with it the
digits that are left over. -/
def absorb (n : Nat) : List Char → Nat × List Char
  | [] => (n, [])
  | c :: rest =>
    let n' := 10 * n + (c.toNat - '0'.toNat)
    if n' < UInt64.size then absorb n' rest else (n, c :: rest)

/-- **What is kept of a numeral.** A digit before the point that is left over moves the point by one
place; one behind the point is dropped. -/
def Pieces.abridged (p : Pieces) : Decimal :=
  let (whole, wholeLeft) := absorb 0 p.whole
  let (coefficient, fractionLeft) := absorb whole p.fraction
  ⟨p.negative, coefficient,
    p.exponent + wholeLeft.length - (p.fraction.length - fractionLeft.length : Nat)⟩

/-- The number that is kept of a decimal numeral, or `none` for a text that is no numeral. -/
def abridged? (cs : List Char) : Option Decimal :=
  (pieces? cs).map Pieces.abridged

/-- The power of ten that a double can be multiplied with or divided by. -/
def powerOfTen (k : Nat) : Float :=
  Float.ofScientific 1 false k

/-- The exponent of the largest power of ten that is a finite double. -/
def largestPower : Nat := 308

/-- **A double times a power of ten**, computed in doubles. By a power that is too large for a
double it is divided in several steps. To be multiplied with one is an error, unless the double is
zero, and so is a product that is not finite. -/
def scale? (x : Float) (e : Int) : Option Float :=
  if 0 ≤ e then
    if e ≤ largestPower then
      let product := x * powerOfTen e.toNat
      if product.isFinite then some product else none
    else if x == 0 then some x
    else none
  else if -largestPower ≤ e then some (x / powerOfTen (-e).toNat)
  else if x == 0 then some x
  else scale? (x / powerOfTen largestPower) (e + largestPower)
termination_by (-e).toNat
decreasing_by simp only [largestPower] at *; omega

/-- **The double that the quick way leads to**, or `none` where it leads beyond the largest one. -/
def approximate? (d : Decimal) : Option Float :=
  (scale? (Float.ofNat d.coefficient) d.exponent).map fun x => if d.negative then -x else x

end Decimal

end Flowchart.Number
