/-!
# Blanks and letter case

A label, a port name and a piece of numeric text are read without the blanks around them. *Blank*
is the property `White_Space` of the character database: the ASCII blanks, the next-line control,
the no-break space, and the separators of the general punctuation block. A zero width space and a
byte order mark are not blank. Trimming is defined on lists of characters, where it is two uses of
`List.dropWhile`, and carried over to strings.

Two comparisons in this library disregard case, and they disregard different amounts of it.

* The label of an arrow is compared with `true` and `false` up to the case of **ASCII** letters
  (`equalsIgnoringCase`).
* The name of a port and the keywords of a label are put into **lower case** first (`lowercase`),
  and after that only their ASCII letters, digits and underscores are looked at.

Of all characters outside ASCII exactly two have a lower case with an ASCII letter in it: the
kelvin sign, whose lower case is `k`, and the capital I with a dot, whose lower case is an `i`
followed by a combining dot. The lower case of any other character outside ASCII is again outside
ASCII, so `lowercase` leaves it alone: no reader of its result can tell the difference.
-/

namespace Flowchart.Text

/-! ### Blanks -/

/-- **A blank character**: one with the property `White_Space`. -/
def isBlank (c : Char) : Bool :=
  let n := c.toNat
  (9 ≤ n && n ≤ 13) || n == 0x20 || n == 0x85 || n == 0xA0 || n == 0x1680 ||
    (0x2000 ≤ n && n ≤ 0x200A) || n == 0x2028 || n == 0x2029 || n == 0x202F || n == 0x205F ||
    n == 0x3000

/-- The characters without the blanks in front of them. -/
def dropBlanks (cs : List Char) : List Char :=
  cs.dropWhile isBlank

/-- **Trimming**: the characters without the blanks before the first and after the last character
that is not blank. -/
def trimChars (cs : List Char) : List Char :=
  (dropBlanks (dropBlanks cs).reverse).reverse

/-- The text without the blanks around it. -/
def trim (s : String) : String :=
  String.ofList (trimChars s.toList)

/-! ### Letter case -/

/-- The lower case of a character, exact as far as ASCII characters go: `U+212A` becomes `k`,
`U+0130` becomes `i` and a combining dot, and an ASCII capital becomes its small letter. -/
def lowerChar (c : Char) : List Char :=
  if c = '\u212A' then ['k']
  else if c = '\u0130' then ['i', '\u0307']
  else [c.toLower]

/-- The lower case of a text, character by character. -/
def lowercase (cs : List Char) : List Char :=
  cs.flatMap lowerChar

/-- Equality of two texts up to the case of their ASCII letters. -/
def equalsIgnoringCase (s t : String) : Bool :=
  s.toList.map Char.toLower == t.toList.map Char.toLower

theorem equalsIgnoringCase_iff {s t : String} :
    equalsIgnoringCase s t = true ↔ s.toList.map Char.toLower = t.toList.map Char.toLower := by
  simp [equalsIgnoringCase]

end Flowchart.Text
