import Flowchart.Json.Basic
import Flowchart.Number.Decimal
import Flowchart.Number.Shortest

/-!
# What JSON leaves mean

The literal of a string is read by `unescape?` and written by `escape`. Reading resolves the
escapes; two escapes that name the halves of a surrogate pair make one character, and half a pair
alone has no meaning. Writing escapes the quote, the backslash and the control characters below the
space, and nothing else. Whatever is written is read back (`unescape?_escape`).

A number is read in two ways: as a double (`toFloat?`), and as a word of 64 bits, if it is written
as a bare row of digits (`toWord?`). Doubles are written in the layout `doubleLayout`, with the
fewest digits that determine them. A double without digits has no number in JSON and is written as
`null`. Reading a double takes the quick way and may miss the double that was written; whether it is
found again is a property of the double (`ReadsBack`).
-/

namespace Flowchart.Json

/-! ### Strings -/

/-- The number that four hexadecimal digits denote. -/
def codeUnit? (a b c d : Char) : Option Nat :=
  Number.valueIn? 16 [a, b, c, d] 0

/-- The character that one letter after a backslash stands for. -/
def simpleEscape? : Char → Option Char
  | '"' => some '"'
  | '\\' => some '\\'
  | '/' => some '/'
  | 'b' => some '\x08'
  | 'f' => some '\x0c'
  | 'n' => some '\n'
  | 'r' => some '\r'
  | 't' => some '\t'
  | _ => none

/-- The character of a surrogate pair. -/
def pairedChar (high low : Nat) : Char :=
  Char.ofNat (0x10000 + (high - 0xD800) * 0x400 + (low - 0xDC00))

/-- **The text that a string literal means**, or `none` if it contains half of a surrogate pair. -/
def unescape? : List Char → Option (List Char)
  | [] => some []
  | '\\' :: 'u' :: a :: b :: c :: d :: rest =>
    (codeUnit? a b c d).bind fun unit =>
      if 0xD800 ≤ unit ∧ unit < 0xDC00 then
        -- the first half of a pair: the second half has to follow at once
        match rest with
        | '\\' :: 'u' :: a' :: b' :: c' :: d' :: rest' =>
          (codeUnit? a' b' c' d').bind fun second =>
            if 0xDC00 ≤ second ∧ second < 0xE000 then
              (unescape? rest').map (pairedChar unit second :: ·)
            else none
        | _ => none
      -- a second half that follows no first one
      else if 0xDC00 ≤ unit ∧ unit < 0xE000 then none
      else (unescape? rest).map (Char.ofNat unit :: ·)
  | '\\' :: c :: rest =>
    (simpleEscape? c).bind fun escaped => (unescape? rest).map (escaped :: ·)
  | c :: rest => (unescape? rest).map (c :: ·)

/-- The way one character is written in a string literal. -/
def escapeChar (c : Char) : List Char :=
  if c = '"' ∨ c = '\\' then ['\\', c]
  else if c = '\x08' then ['\\', 'b']
  else if c = '\x0c' then ['\\', 'f']
  else if c = '\n' then ['\\', 'n']
  else if c = '\r' then ['\\', 'r']
  else if c = '\t' then ['\\', 't']
  else if c.toNat < 0x20 then
    ['\\', 'u', '0', '0', Nat.digitChar (c.toNat / 16), Nat.digitChar (c.toNat % 16)]
  else [c]

/-- **The literal of a text.** -/
def escape (text : List Char) : List Char :=
  text.flatMap escapeChar

theorem codeUnit?_control : ∀ n < 0x20,
    codeUnit? '0' '0' (Nat.digitChar (n / 16)) (Nat.digitChar (n % 16)) = some n := by
  decide

theorem unescape?_cons_of_ne {c : Char} (h : c ≠ '\\') (rest : List Char) :
    unescape? (c :: rest) = (unescape? rest).map (c :: ·) := by
  rw [unescape?]
  · rintro _ _ _ _ _ rfl
    exact absurd rfl h
  · rintro _ _ rfl
    exact absurd rfl h

/-- A character is read back from the way it is written, whatever follows it. -/
theorem unescape?_escapeChar_append (c : Char) (rest : List Char) :
    unescape? (escapeChar c ++ rest) = (unescape? rest).map (c :: ·) := by
  by_cases hq : c = '"' ∨ c = '\\'
  · rcases hq with rfl | rfl <;> simp [escapeChar, unescape?, simpleEscape?]
  by_cases hs : c = '\x08' ∨ c = '\x0c' ∨ c = '\n' ∨ c = '\r' ∨ c = '\t'
  · rcases hs with rfl | rfl | rfl | rfl | rfl <;> simp [escapeChar, unescape?, simpleEscape?]
  obtain ⟨hb, hf, hn, hr, ht⟩ : c ≠ '\x08' ∧ c ≠ '\x0c' ∧ c ≠ '\n' ∧ c ≠ '\r' ∧ c ≠ '\t' := by
    simpa using hs
  by_cases hc : c.toNat < 0x20
  · have hunit := codeUnit?_control c.toNat hc
    have hlow : ¬(0xD800 ≤ c.toNat ∧ c.toNat < 0xDC00) := by omega
    have hhigh : ¬(0xDC00 ≤ c.toNat ∧ c.toNat < 0xE000) := by omega
    simp [escapeChar, hq, hb, hf, hn, hr, ht, hc, unescape?, hunit, hlow, hhigh]
  · have hbackslash : c ≠ '\\' := fun h => hq (.inr h)
    simp [escapeChar, hq, hb, hf, hn, hr, ht, hc, unescape?_cons_of_ne hbackslash]

/-- **Every text is read back from its literal.** -/
theorem unescape?_escape (text : List Char) : unescape? (escape text) = some text := by
  induction text with
  | nil => rfl
  | cons c text ih =>
    have h := unescape?_escapeChar_append c (escape text)
    rw [ih] at h
    exact h

/-- A text as a JSON string. -/
def ofText (text : String) : Json :=
  .string (escape text.toList)

/-- The text of a JSON string. -/
def toText? : Json → Option String
  | .string literal => (unescape? literal).map String.ofList
  | _ => none

@[simp] theorem toText?_ofText (text : String) : toText? (ofText text) = some text := by
  simp [toText?, ofText, unescape?_escape]

/-! ### Numbers -/

/-- Doubles in JSON: the exponent appears from `1e16` upwards and below `1e-5`, and a whole number
carries `.0`, zero included. -/
def doubleLayout : Number.Layout where
  tie := .even
  positional e := -5 ≤ e && e < 16
  afterWhole := ".0"
  zero negative := if negative then "-0.0" else "0.0"
  infinite _ := "null"
  nan := "null"

/-- A double as a JSON number, or `null` when it has no digits. -/
def ofFloat (x : Float) : Json :=
  if x.isFinite then .number (doubleLayout.write x).toList else .null

/-- A natural number as a JSON number. -/
def ofNat (n : Nat) : Json :=
  .number (Nat.toDigits 10 n)

/-- **The double that is read from a JSON number**, unless it lies beyond the largest one. It is not
always the nearest double, because numbers are read the quick way. -/
def toFloat? : Json → Option Float
  | .number literal => (Number.Decimal.abridged? literal).bind Number.Decimal.approximate?
  | _ => none

/-- **A double is read back** from the number that is written for it. -/
def ReadsBack (x : Float) : Prop :=
  toFloat? (ofFloat x) = some x

instance (x : Float) : Decidable (ReadsBack x) :=
  inferInstanceAs (Decidable (_ = _))

/-- **The word of 64 bits that a JSON number denotes**: a row of digits without sign, point and
exponent, with a value below `2 ^ 64`. -/
def toWord? : Json → Option UInt64
  | .number literal =>
    if literal.all Char.isDigit then
      let n := Number.Decimal.valueOf literal
      if n < UInt64.size then some (UInt64.ofNat n) else none
    else none
  | _ => none

/-- The truth value of a JSON boolean. -/
def toBool? : Json → Option Bool
  | .bool value => some value
  | _ => none

/-! ### Values that mean something throughout -/

mutual

/-- **A meaningful value**: each of its strings and keys has a text, and each of its numbers is a
double. -/
def meaningful : Json → Bool
  | .null => true
  | .bool _ => true
  | .number literal => (toFloat? (.number literal)).isSome
  | .string literal => (unescape? literal).isSome
  | .array items => meaningfulItems items
  | .object members => meaningfulMembers members

/-- Whether all values of a list are meaningful. -/
def meaningfulItems : List Json → Bool
  | [] => true
  | item :: items => meaningful item && meaningfulItems items

/-- Whether all keys and values of an object are meaningful. -/
def meaningfulMembers : List (List Char × Json) → Bool
  | [] => true
  | (key, value) :: members =>
    (unescape? key).isSome && meaningful value && meaningfulMembers members

end

/-- How deep a text that is read in full may nest. -/
def maxDepth : Nat := 127

/-- Whether a value that lies inside `outer` arrays and objects can be read in full. -/
def readable (outer : Nat) (value : Json) : Bool :=
  meaningful value && decide (outer + value.depth ≤ maxDepth)

end Flowchart.Json
