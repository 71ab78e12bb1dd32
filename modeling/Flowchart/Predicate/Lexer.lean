/-!
# Cutting a predicate into tokens

A predicate is made of numbers, quoted texts, the two truth values, names and operators. A token
keeps the characters it was cut from, and the place where they start, counted in bytes of UTF-8.

Any text can be cut: a character that starts no token is stepped over, so `x = 1` is the two tokens
`x` and `1`, and it is the parser that decides what they mean.

At each place at most one kind of token can start, and the longest lexeme of that kind is taken.

* A number is a row of digits, and a point with more digits behind it if there are any.
* An operator is the longest of the operators that the text goes on with.
* A quoted text runs to the next quote like its first one. A backslash takes the character behind it
  along; before a line end, or at the end of the source, it leaves the text without an end, and then
  the quote is a character that starts no token.
* A name is a row of letters, digits and underscores that does not start with a digit; `true` and
  `false` are truth values.

The cut runs over the characters one by one. A token is recognised at its first character, and the
others are then stepped over.
-/

namespace Flowchart.Predicate

/-! ### Tokens -/

/-- The five kinds of tokens. -/
inductive Token.Kind where
  | number
  | text
  | truth
  | name
  | operator
  deriving DecidableEq, Repr

/-- A token with its characters, quotes and escapes included, and the byte at which it starts. -/
structure Token where
  kind : Token.Kind
  text : String
  position : Nat
  deriving DecidableEq, Repr

namespace Token

/-- Whether the token is the operator with the given symbol. -/
def isOperator (token : Token) (symbol : String) : Bool :=
  token.kind = .operator && token.text = symbol

/-- Resolves escapes: a backslash stands for the character behind it, and for nothing at the end. -/
def resolve : List Char → List Char
  | '\\' :: c :: rest => c :: resolve rest
  | ['\\'] => []
  | c :: rest => c :: resolve rest
  | [] => []

/-- **The text between the quotes** of a lexeme, with its escapes resolved. -/
def contentOf (lexeme : String) : String :=
  String.ofList (resolve lexeme.toList.tail.dropLast)

/-! ### The lexeme at a place -/

/-- The operators and parentheses, every one before those it starts with. -/
def operators : List (List Char) :=
  ["===", "!==", "==", "!=", "<=", ">=", "&&", "||",
    "(", ")", "!", "<", ">", "+", "-", "*", "/", "%"].map String.toList

/-- The length of the longest operator that a text starts with. -/
def operatorLength? (cs : List Char) : Option Nat :=
  (operators.find? (·.isPrefixOf cs)).map List.length

/-- The length of the number that a text starts with. -/
def numberLength (cs : List Char) : Nat :=
  let whole := (cs.takeWhile Char.isDigit).length
  match cs.drop whole with
  | '.' :: rest =>
    let fraction := (rest.takeWhile Char.isDigit).length
    if fraction = 0 then whole else whole + 1 + fraction
  | _ => whole

/-- How far it is from behind an opening quote to behind the quote that ends the text. -/
def quotedLength? (quote : Char) : List Char → Option Nat
  | [] => none
  | ['\\'] => none
  | '\\' :: c :: rest =>
    if c = '\n' then none else (quotedLength? quote rest).map (· + 2)
  | c :: rest => if c = quote then some 1 else (quotedLength? quote rest).map (· + 1)

/-- A character with which a name may start. -/
def startsName (c : Char) : Bool :=
  c.isAlpha || c = '_'

/-- A character with which a name may go on. -/
def continuesName (c : Char) : Bool :=
  c.isAlphanum || c = '_'

/-- Whether a word is a truth value or a name. -/
def wordKind (word : List Char) : Kind :=
  if word = "true".toList ∨ word = "false".toList then .truth else .name

/-- **The token that a text starts with**: its kind, and the number of its characters. -/
def at? : List Char → Option (Kind × Nat)
  | [] => none
  | c :: rest =>
    if c.isDigit then some (.number, numberLength (c :: rest))
    else if c = '"' ∨ c = '\'' then
      (quotedLength? c rest).map fun length => (.text, length + 1)
    else if startsName c then
      let word := (c :: rest).takeWhile continuesName
      some (wordKind word, word.length)
    else (operatorLength? (c :: rest)).map fun length => (.operator, length)

/-! ### The cut -/

/-- The tokens of a text that starts at the byte `position`, after stepping over `skip`
characters. -/
def scan : Nat → Nat → List Char → List Token
  | _, _, [] => []
  | position, skip + 1, c :: rest => scan (position + c.utf8Size) skip rest
  | position, 0, c :: rest =>
    match at? (c :: rest) with
    | none => scan (position + c.utf8Size) 0 rest
    | some (kind, length) =>
      ⟨kind, String.ofList ((c :: rest).take length), position⟩ ::
        scan (position + c.utf8Size) (length - 1) rest

/-- Stepping over characters is cutting what lies behind them. -/
theorem scan_skip (position skip : Nat) (cs : List Char) :
    scan position skip cs =
      scan ((cs.take skip).foldl (fun position c => position + c.utf8Size) position) 0
        (cs.drop skip) := by
  induction cs generalizing position skip with
  | nil => simp [scan]
  | cons c rest ih =>
    cases skip with
    | zero => simp
    | succ skip =>
      rw [scan, ih]
      simp

theorem scan_of_at?_eq_none {position : Nat} {c : Char} {rest : List Char}
    (h : at? (c :: rest) = none) :
    scan position 0 (c :: rest) = scan (position + c.utf8Size) 0 rest := by
  rw [scan, h]

end Token

/-- **The tokens of a source text**, from left to right. -/
def tokenize (source : String) : List Token :=
  Token.scan 0 0 source.toList

end Flowchart.Predicate
