import Flowchart.Number.Binary

/-!
# The fewest digits that read back

A double stands for all the reals that round to it: an interval around it, which contains its two
ends exactly if the mantissa is even. Writing a double means choosing a decimal number out of this
interval. The choice made here is

* a number with **as few digits as possible**: a multiple of the largest power of ten that has a
  multiple in the interval at all; and
* among those the one **nearest to the double**; if two are equally near, a parameter decides.

If the interval contains a multiple of `10 ^ p`, it contains one of the two multiples next to the
double itself, so two candidates are tried for each power, from a power too large for any hit
downwards. Everything is done on integers: with `v = m · 2 ^ q`, all of `4 v`, the two ends and the
multiples of `10 ^ p` are brought to one denominator.

Once the digits of a number are chosen, a format still has decisions to make: which numbers are
written with a plain point and which with an exponent, whether a whole number carries `.0`, and what
is written for zero and for the values that have no digits. A `Layout` is the record of these
decisions, and `Layout.write` obeys it. The formats themselves stand where they are used.
-/

namespace Flowchart.Number

/-- Which of two equally near candidates is taken. -/
inductive Tie where
  /-- The larger one. -/
  | up
  /-- The one whose last digit is even. -/
  | even
  deriving DecidableEq, Repr

/-- The positive number `coefficient · 10 ^ exponent`, ready to be written digit by digit. -/
structure Digits where
  coefficient : Nat
  exponent : Int
  deriving DecidableEq, Repr

/-- The interval of reals that round to a double, with the double inside it, measured in quarters of
`2 ^ exponent`. -/
structure Interval where
  low : Nat
  value : Nat
  high : Nat
  closed : Bool
  exponent : Int
  deriving DecidableEq, Repr

namespace Interval

/-- **The interval of a positive double** `m · 2 ^ q`. Its ends lie halfway to the two neighbours;
the lower neighbour of a power of two is nearer than the upper one, unless the power is the least
normal double. -/
def ofParts (m : Nat) (q : Int) : Interval where
  low := if m = Nat.pow 2 52 ∧ Binary.leastExponent < q then 4 * m - 1 else 4 * m - 2
  value := 4 * m
  high := 4 * m + 2
  closed := m % 2 = 0
  exponent := q - 2

/-- `a · 2 ^ exponent` as a natural number, in units of `10 ^ p · 2 ^ exponent` broken down far
enough to be whole. -/
def scaled (i : Interval) (p : Int) (a : Nat) : Nat :=
  a * Nat.pow 2 i.exponent.toNat * Nat.pow 10 (-p).toNat

/-- `10 ^ p` in the units of `scaled`. -/
def unit (i : Interval) (p : Int) : Nat :=
  Nat.pow 10 p.toNat * Nat.pow 2 (-i.exponent).toNat

/-- Whether `d · 10 ^ p` lies in the interval. -/
def contains (i : Interval) (p : Int) (d : Nat) : Bool :=
  let x := d * i.unit p
  if i.closed then i.scaled p i.low ≤ x && x ≤ i.scaled p i.high
  else i.scaled p i.low < x && x < i.scaled p i.high

/-- **The multiple of `10 ^ p` in the interval that is nearest to the double**, if the interval has
one: the multiple below or the multiple above. -/
def nearest? (tie : Tie) (i : Interval) (p : Int) : Option Nat :=
  let below := i.scaled p i.value / i.unit p
  match i.contains p below, i.contains p (below + 1) with
  | true, true =>
    -- both multiples read back, so the side of their middle decides on which the double lies
    let middle := (2 * below + 1) * i.unit p
    match compare (2 * i.scaled p i.value) middle with
    | .lt => some below
    | .gt => some (below + 1)
    | .eq => match tie with
      | .up => some (below + 1)
      | .even => some (if below % 2 = 0 then below else below + 1)
  | true, false => some below
  | false, true => some (below + 1)
  | false, false => none

/-- Tries the powers `10 ^ (n + floor)`, `10 ^ (n - 1 + floor)`, …, `10 ^ floor` in turn. -/
def coarsest (tie : Tie) (i : Interval) (floor : Int) : Nat → Digits
  | 0 => ⟨(i.nearest? tie floor).getD (i.scaled floor i.value / i.unit floor), floor⟩
  | n + 1 =>
    match i.nearest? tie (n + 1 + floor) with
    | some d => ⟨d, n + 1 + floor⟩
    | none => coarsest tie i floor n

/-- A power of ten that is finer than every interval of a double. -/
def finest : Int := -324

/-- A power of ten above the whole interval: `2 ^ k ≤ 10 ^ (k / 3)` for `k ≥ 0`, and
`2 ^ (-k) ≤ 10 ^ (-(3 * k / 10))`. -/
def ceiling (i : Interval) : Int :=
  -- the whole interval lies below `2 ^ k`
  let k := i.high.log2 + 1 + i.exponent
  if 0 ≤ k then k / 3 + 1 else 1 - -k * 3 / 10

/-- **The fewest digits** for the double of an interval. -/
def digits (tie : Tie) (i : Interval) : Digits :=
  i.coarsest tie finest (i.ceiling - finest).toNat

end Interval

/-- The fewest digits that read back as the positive double `m · 2 ^ q`. -/
def shortest (tie : Tie) (m : Nat) (q : Int) : Digits :=
  (Interval.ofParts m q).digits tie

/-! ### Layouts -/

/-- The decisions of a number format. -/
structure Layout where
  /-- Which of two equally near digit rows is written. -/
  tie : Tie
  /-- Whether a number whose first digit counts `10 ^ e` is written without an exponent. -/
  positional : Int → Bool
  /-- What follows the digits of a whole number. -/
  afterWhole : String
  /-- The text of zero, and of zero with a minus sign. -/
  zero : Bool → String
  /-- The text of infinity, and of minus infinity. -/
  infinite : Bool → String
  /-- The text of the value that is no number. -/
  nan : String

namespace Digits

/-- The digits themselves. -/
def chars (d : Digits) : List Char :=
  Nat.toDigits 10 d.coefficient

/-- The power of ten that the first digit counts. -/
def leading (d : Digits) : Int :=
  d.exponent + d.chars.length - 1

/-- **Positional notation**: a point among the digits, with zeros in between where the digits do not
reach it. -/
def positional (d : Digits) (afterWhole : List Char) : List Char :=
  if 0 ≤ d.exponent then
    d.chars ++ List.replicate d.exponent.toNat '0' ++ afterWhole
  else if 0 ≤ d.leading then
    let whole := d.leading.toNat + 1
    d.chars.take whole ++ '.' :: d.chars.drop whole
  else '0' :: '.' :: (List.replicate (-d.leading - 1).toNat '0' ++ d.chars)

/-- **Scientific notation**: one digit before the point, the others after it, and an exponent with
its sign. -/
def scientific (d : Digits) : List Char :=
  let mantissa := match d.chars with
    | first :: second :: rest => first :: '.' :: second :: rest
    | short => short
  let sign := if d.leading < 0 then '-' else '+'
  mantissa ++ 'e' :: sign :: Nat.toDigits 10 d.leading.natAbs

end Digits

/-- **The text of a double in a layout.** -/
def Layout.write (f : Layout) (x : Float) : String :=
  match Binary.ofFloat x with
  | .nan => f.nan
  | .infinite negative => f.infinite negative
  | .finite negative mantissa exponent =>
    if mantissa = 0 then f.zero negative
    else
      let d := shortest f.tie mantissa exponent
      let text :=
        if f.positional d.leading then d.positional f.afterWhole.toList else d.scientific
      String.ofList (if negative then '-' :: text else text)

end Flowchart.Number
