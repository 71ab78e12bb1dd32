import Flowchart.Json.Basic

/-!
# The words of a JSON text

A JSON text is a row of tokens with blanks between them: six punctuation marks, the three words, the
numbers and the strings. `Token.tokens?` cuts a text into its tokens, and fails as soon as something
stands in the text that begins no token.

Every token is the longest one that starts at its place, so a number followed directly by another
one, as in `01`, is cut into two tokens, which no JSON text has side by side.

The cut runs over the characters one by one. A token is recognised at its first character; the
number of its other characters is then passed along, and that many characters are stepped over.
-/

namespace Flowchart.Json

/-- A token of a JSON text. Numbers and strings keep their characters, strings without quotes. -/
inductive Token where
  | openArray
  | closeArray
  | openObject
  | closeObject
  | comma
  | colon
  | null
  | bool (value : Bool)
  | number (literal : List Char)
  | string (literal : List Char)
  deriving DecidableEq, Repr

namespace Token

/-- The four blanks of JSON. -/
def isBlank (c : Char) : Bool :=
  c = ' ' || c = '\t' || c = '\n' || c = '\r'

/-- A hexadecimal digit, in either case. -/
def isHexDigit (c : Char) : Bool :=
  c.isDigit || ('a' ≤ c && c ≤ 'f') || ('A' ≤ c && c ≤ 'F')

/-! ### Strings -/

/-- Whether a letter may follow a backslash, the `u` of a code unit apart. -/
def isSimpleEscape (c : Char) : Bool :=
  c = '"' || c = '\\' || c = '/' || c = 'b' || c = 'f' || c = 'n' || c = 'r' || c = 't'

/-- **The literal of a string**, read from behind its opening quote to its closing one. Control
characters below the space may not stand in it, and a backslash starts one of the nine escapes. -/
def stringLiteral? : List Char → Option (List Char)
  | [] => none
  | '"' :: _ => some []
  | '\\' :: 'u' :: a :: b :: c :: d :: rest =>
    if isHexDigit a && isHexDigit b && isHexDigit c && isHexDigit d then
      (stringLiteral? rest).map (['\\', 'u', a, b, c, d] ++ ·)
    else none
  | '\\' :: c :: rest =>
    if isSimpleEscape c then (stringLiteral? rest).map (['\\', c] ++ ·) else none
  | c :: rest =>
    if c.toNat < 0x20 || c = '\\' then none else (stringLiteral? rest).map (c :: ·)

/-! ### Numbers -/

/-- The digits of a whole part: a zero alone, or digits that do not start with zero. -/
def wholePart : List Char → List Char
  | '0' :: _ => ['0']
  | cs => cs.takeWhile Char.isDigit

/-- A fraction is absent, or a point with at least one digit. -/
def fractionPart? : List Char → Option (List Char)
  | '.' :: rest =>
    let digits := rest.takeWhile Char.isDigit
    if digits = [] then none else some ('.' :: digits)
  | _ => some []

/-- The sign an exponent may have. -/
def exponentSign : List Char → List Char
  | '+' :: _ => ['+']
  | '-' :: _ => ['-']
  | _ => []

/-- An exponent is absent, or the letter `e` in either case, a sign or none, and at least one
digit. -/
def exponentPart? : List Char → Option (List Char)
  | c :: rest =>
    if c = 'e' ∨ c = 'E' then
      let sign := exponentSign rest
      let digits := (rest.drop sign.length).takeWhile Char.isDigit
      if digits = [] then none else some (c :: sign ++ digits)
    else some []
  | [] => some []

/-- **The literal of a number** at the front of a text: a minus or none, a whole part, a fraction
and an exponent. -/
def numberLiteral? (cs : List Char) : Option (List Char) := do
  let sign := if cs.head? = some '-' then ['-'] else []
  let unsigned := cs.drop sign.length
  let whole := wholePart unsigned
  if whole = [] then none
  else
    let rest := unsigned.drop whole.length
    let fraction ← fractionPart? rest
    let exponent ← exponentPart? (rest.drop fraction.length)
    return sign ++ whole ++ fraction ++ exponent

/-! ### The token at a place -/

/-- The three words. -/
def word? (cs : List Char) : Option (Token × Nat) :=
  if "null".toList.isPrefixOf cs then some (.null, 4)
  else if "true".toList.isPrefixOf cs then some (.bool true, 4)
  else if "false".toList.isPrefixOf cs then some (.bool false, 5)
  else none

/-- **The token that a text starts with**, and the number of its characters. -/
def at? : List Char → Option (Token × Nat)
  | [] => none
  | '[' :: _ => some (.openArray, 1)
  | ']' :: _ => some (.closeArray, 1)
  | '\x7b' :: _ => some (.openObject, 1)
  | '\x7d' :: _ => some (.closeObject, 1)
  | ',' :: _ => some (.comma, 1)
  | ':' :: _ => some (.colon, 1)
  | '"' :: rest => (stringLiteral? rest).map fun s => (.string s, s.length + 2)
  | c :: rest =>
    if c = '-' || c.isDigit then
      (numberLiteral? (c :: rest)).map fun n => (.number n, n.length)
    else word? (c :: rest)

/-- The tokens of a text, after stepping over the given number of characters. -/
def scan? : Nat → List Char → Option (List Token)
  | _, [] => some []
  | skip + 1, _ :: rest => scan? skip rest
  | 0, c :: rest =>
    if isBlank c then scan? 0 rest
    else do
      let (token, length) ← at? (c :: rest)
      return token :: (← scan? (length - 1) rest)

/-- Stepping over characters is cutting what lies behind them. -/
theorem scan?_skip (skip : Nat) (cs : List Char) : scan? skip cs = scan? 0 (cs.drop skip) := by
  induction cs generalizing skip with
  | nil => simp [scan?]
  | cons c rest ih =>
    cases skip with
    | zero => rfl
    | succ skip =>
      rw [scan?, ih]
      rfl

theorem scan?_append_of_isBlank {blanks : List Char} (h : blanks.all isBlank = true)
    (cs : List Char) : scan? 0 (blanks ++ cs) = scan? 0 cs := by
  induction blanks with
  | nil => rfl
  | cons c blanks ih =>
    rw [List.all_cons, Bool.and_eq_true] at h
    rw [List.cons_append, scan?, if_pos h.1]
    exact ih h.2

/-- **The tokens of a JSON text**, or `none` if it has a character in it that starts none. -/
def tokens? (text : List Char) : Option (List Token) :=
  scan? 0 text

end Token

end Flowchart.Json
