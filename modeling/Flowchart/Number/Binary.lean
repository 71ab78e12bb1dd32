/-!
# The parts of a double

A finite double is a sign, a natural number `m` and a power of two: its value is `± m · 2 ^ q`.
Everything in this library that has to be exact about doubles is computed on these parts, in the
arithmetic of `Nat` and `Int`: the digits that are written for a number, and the remainder of a
division.

* `Binary.ofFloat` takes a double apart.
* `Binary.toFloat` puts parts together again; it is exact whenever a double has the value.
* `remainder` is the exact remainder of two doubles, with the sign of the dividend.
* `orderKey` lists all doubles in one line, from `-∞` to `+∞` and with `-0` before `0`.
-/

namespace Flowchart.Number

/-- A double taken apart. A finite one has the value `± mantissa · 2 ^ exponent`. -/
inductive Binary where
  | nan
  | infinite (negative : Bool)
  | finite (negative : Bool) (mantissa : Nat) (exponent : Int)
  deriving DecidableEq, Repr

namespace Binary

/-- The exponent of the smallest positive double, and of every subnormal one. -/
def leastExponent : Int := -1074

/-- **The parts of a double**, read off its 64 bits: one for the sign, eleven for the exponent, and
the remaining 52 for the mantissa without its leading one. -/
def ofFloat (x : Float) : Binary :=
  let bits := x.toBits.toNat
  let negative := decide (Nat.pow 2 63 ≤ bits)
  let biased : Nat := bits / Nat.pow 2 52 % Nat.pow 2 11
  let fraction : Nat := bits % Nat.pow 2 52
  if biased = 2047 then
    if fraction = 0 then infinite negative else nan
  else if biased = 0 then finite negative fraction leastExponent
  else finite negative (Nat.pow 2 52 + fraction) (biased + leastExponent - 1)

/-- The double with a given sign and the value `mantissa · 2 ^ exponent`, for a value that a double
has. The mantissa is shifted until its leading one is the 53rd bit, or, for a subnormal value, until
the exponent is the least one. -/
def toFloat (negative : Bool) (mantissa : Nat) (exponent : Int) : Float :=
  let top := mantissa.log2 + exponent
  let unit := max (top - 52) leastExponent
  let shifted :=
    if unit ≤ exponent then mantissa * Nat.pow 2 (exponent - unit).toNat
    else mantissa / Nat.pow 2 (unit - exponent).toNat
  let biased := if shifted < Nat.pow 2 52 then 0 else (unit - leastExponent + 1).toNat
  let sign := if negative then Nat.pow 2 63 else 0
  Float.ofBits (UInt64.ofNat (sign + biased * Nat.pow 2 52 + shifted % Nat.pow 2 52))

end Binary

/-- The double that is no number. -/
def nan : Float := 0.0 / 0.0

/-- Positive infinity. -/
def infinity : Float := 1.0 / 0.0

/-- **The remainder of a division that truncates**, which is exact and has the sign of the
dividend. There is none of an infinite dividend or by zero; a finite dividend is its own remainder
by infinity. -/
def remainder (x y : Float) : Float :=
  match Binary.ofFloat x, Binary.ofFloat y with
  | .nan, _ => nan
  | .infinite _, _ => nan
  | .finite .., .nan => nan
  | .finite .., .infinite _ => x
  | .finite negative m q, .finite _ n r =>
    if n = 0 then nan
    else
      let unit := min q r
      Binary.toFloat negative
        (m * Nat.pow 2 (q - unit).toNat % (n * Nat.pow 2 (r - unit).toNat)) unit

/-- The place of a double in the line of all doubles: the 63 bits below the sign grow with the
magnitude, and a negative double counts downwards from `-1`. -/
def orderKey (x : Float) : Int :=
  let bits := x.toBits.toNat
  if bits < Nat.pow 2 63 then bits else Nat.pow 2 63 - 1 - (bits : Int)

/-- Comparison along the line of all doubles. -/
def before (x y : Float) : Bool :=
  decide (orderKey x < orderKey y)

end Flowchart.Number
