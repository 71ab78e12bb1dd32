import Flowchart.Json.Literal
import Flowchart.Text.Basic

/-!
# Values of predicates

A predicate computes with five sorts of values: two that stand for something missing, truth values,
doubles and texts. No operation on them fails. Where a number is needed a value is taken for one,
with `0` in place of whatever denotes none; where a truth value is needed, zero, the empty text and
the missing values count as false.

There are two equalities. The strict one compares values of the same sort; the loose one compares
what is displayed, so the text `5` is loosely equal to the number `5`.
-/

namespace Flowchart.Predicate

/-- A value of a predicate. -/
inductive Value where
  /-- The value of a name that is bound to nothing. -/
  | undefined
  | null
  | bool (value : Bool)
  | number (value : Float)
  | text (value : String)
  deriving DecidableEq, Inhabited

namespace Value

/-! ### Text -/

/-- Numbers that are shown: plain between `1e-6` and `1e21`, without a fraction if whole, and zero
without its sign. -/
def numberLayout : Number.Layout where
  tie := .up
  positional e := -6 ≤ e && e < 21
  afterWhole := ""
  zero _ := "0"
  infinite negative := if negative then "-Infinity" else "Infinity"
  nan := "NaN"

/-- The text of a number. -/
def numberText (x : Float) : String :=
  numberLayout.write x

/-- The text of a truth value. -/
def truthText (b : Bool) : String :=
  if b then "true" else "false"

/-- **What is displayed for a value**; a text is displayed as it is. -/
def display : Value → String
  | undefined => "undefined"
  | null => "null"
  | bool b => truthText b
  | number x => numberText x
  | text s => s

/-- The name of the sort of a value. -/
def typeName : Value → String
  | undefined => "undefined"
  | null => "null"
  | bool _ => "boolean"
  | number _ => "number"
  | text _ => "string"

/-! ### Numbers in texts -/

/-- The base that is announced by a zero and a letter. -/
def radixOf? : List Char → Option Nat
  | '0' :: c :: _ =>
    if c = 'x' ∨ c = 'X' then some 16
    else if c = 'o' ∨ c = 'O' then some 8
    else if c = 'b' ∨ c = 'B' then some 2
    else none
  | _ => none

/-- **The number a text denotes**, the blanks around it apart: a blank text denotes zero, a text
that announces a base an integer in that base, and any other text a decimal numeral. -/
def numberIn? (s : String) : Option Float :=
  let cs := Text.trimChars s.toList
  if cs = [] then some 0
  else match radixOf? cs with
    | some radix => (Number.word64? radix (cs.drop 2)).map Float.ofNat
    | none => (Number.Decimal.ofChars? cs).map Number.Decimal.toFloat

/-- **A value taken for a number**: a truth value for one or zero, a text for the finite number it
denotes, and everything that denotes none for zero. -/
def toNumber : Value → Float
  | number x => x
  | bool b => if b then 1 else 0
  | text s => ((numberIn? s).filter Float.isFinite).getD 0
  | undefined => 0
  | null => 0

/-! ### Truth and equality -/

/-- **Whether a value counts as true.** -/
def isTruthy : Value → Bool
  | undefined => false
  | null => false
  | bool b => b
  | number x => !(x == 0) && !x.isNaN
  | text s => s ≠ ""

/-- Equality of values of one sort. Doubles are compared as numbers, so both zeros are equal, and
what is no number is not equal to itself. -/
def strictlyEqual : Value → Value → Bool
  | undefined, undefined => true
  | null, null => true
  | bool a, bool b => a = b
  | number x, number y => x == y
  | text s, text t => s = t
  | _, _ => false

/-- Equality of what is displayed. -/
def looselyEqual (v w : Value) : Bool :=
  v.display = w.display

/-! ### Values from JSON -/

/-- The text of a truth value or a number inside an array. -/
def scalarText : Json → List Char
  | .bool b => (truthText b).toList
  | .number literal => (numberText ((Json.toFloat? (.number literal)).getD 0)).toList
  | .string literal => (Json.unescape? literal).getD literal
  | _ => []

mutual

/-- **The text of an array or object** as one value: the items of an array with commas between them,
`null` being empty among them, and a fixed text for an object. -/
def compositeText : Json → List Char
  | .array [] => []
  | .array (item :: items) => compositeText item ++ compositeItems items
  | .object _ => "[object Object]".toList
  | scalar => scalarText scalar

/-- The items of an array behind the first one, each with a comma before it. -/
def compositeItems : List Json → List Char
  | [] => []
  | item :: items => ',' :: compositeText item ++ compositeItems items

end

/-- **The value of a JSON value**: scalars keep their sort, an array or object becomes a text. -/
def ofJson : Json → Value
  | .null => null
  | .bool b => bool b
  | .number literal => number ((Json.toFloat? (.number literal)).getD 0)
  | .string literal => text (String.ofList ((Json.unescape? literal).getD literal))
  | composite => text (String.ofList (compositeText composite))

end Value

end Flowchart.Predicate
