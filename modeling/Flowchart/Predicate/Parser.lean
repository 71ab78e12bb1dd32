import Flowchart.Predicate.Expr
import Flowchart.Predicate.Lexer

/-!
# Parsing predicates

The grammar has one level for each strength of binary operators, all of them left associative:

```text
or    := and   ( '||' and )*
and   := equal ( '&&' equal )*
equal := order ( ('==' | '!=' | '===' | '!==') order )*
order := sum   ( ('<' | '<=' | '>' | '>=') sum )*
sum   := term  ( ('+' | '-') term )*
term  := unary ( ('*' | '/' | '%') unary )*
unary := '!' unary | primary
primary := number | text | truth value | name | '(' or ')'
```

At the end of the input a primary may be left out; it is then the constant `false`, so an empty
predicate is false.

The parser reads the tokens from left to right and keeps a stack of what is unfinished: left
operands with the operator behind them, negations and open parentheses. At each place either an
operand or an operator is due. A finished operand is joined with the negations in front of it at
once, and with the left operands below it as soon as an operator comes that binds no tighter. So
every token is looked at once, and what is wrong is found at the first token that cannot follow.
-/

namespace Flowchart.Predicate

/-- How many negations and parentheses may be open at one place. -/
def maxNesting : Nat := 128

/-- How many tokens a predicate may have. -/
def maxTokens : Nat := 2048

/-- Why a row of tokens is no predicate. -/
inductive ParseError where
  /-- The token stands where an operand is due and starts none. -/
  | unexpected (token : Token)
  /-- An open parenthesis is not closed where the token stands, or at the end of the input. -/
  | unclosed (found : Option Token)
  /-- The token follows a complete predicate. -/
  | trailing (token : Token)
  /-- Too many negations and parentheses are open. -/
  | tooDeep
  /-- There are too many tokens. -/
  | tooLong (count : Nat)
  deriving DecidableEq, Repr

/-- The message of an error. -/
def ParseError.message : ParseError → String
  | unexpected token => s!"Unexpected token '{token.text}' at position {token.position}"
  | unclosed (some token) => s!"Expected ')', but found '{token.text}'"
  | unclosed none => "Expected ')', but found end of input"
  | trailing token => s!"Unexpected trailing token '{token.text}' at position {token.position}"
  | tooDeep => s!"Expression nesting exceeds the limit of {maxNesting}"
  | tooLong count => s!"Expression has {count} tokens, more than the limit of {maxTokens}"

namespace Parser

/-- Something unfinished that waits for an operand to its right. -/
inductive Pending where
  | left (operand : Expr) (op : Operator)
  | not
  | paren
  deriving DecidableEq

/-- What is due at a place: an operand, or an operator behind a finished operand. -/
inductive Due where
  | operand
  | operator (finished : Expr)
  deriving DecidableEq

/-- Everything the parser knows about the tokens read so far. -/
structure Place where
  stack : List Pending
  due : Due
  deriving DecidableEq

/-- Whether a pending item counts as nesting. -/
def Pending.nests : Pending → Bool
  | left .. => false
  | not => true
  | paren => true

/-- How many negations and parentheses are open. -/
def depth (stack : List Pending) : Nat :=
  stack.countP Pending.nests

/-- Opens a negation or a parenthesis. -/
def openNested (stack : List Pending) (item : Pending) : Except ParseError Place :=
  if depth stack < maxNesting then .ok ⟨item :: stack, .operand⟩ else .error .tooDeep

/-- **A finished primary** ends the negations right in front of it. -/
def finish : List Pending → Expr → Place
  | .not :: stack, e => finish stack (.not e)
  | stack, e => ⟨stack, .operator e⟩

/-- **Joins an operand with the left operands below it** as long as their operators bind at least as
tightly as the given strength. -/
def join (strength : Nat) : List Pending → Expr → List Pending × Expr
  | .left l op :: stack, e =>
    if strength ≤ op.precedence then join strength stack (.binary op l e)
    else (.left l op :: stack, e)
  | stack, e => (stack, e)

/-- Reads a token where an operand is due. -/
def readOperand (stack : List Pending) (token : Token) : Except ParseError Place :=
  match token.kind with
  | .number =>
    match Number.Decimal.ofExtended? token.text.toList with
    | some x => .ok (finish stack (.const (.number x)))
    | none => .error (.unexpected token)
  | .text => .ok (finish stack (.const (.text (Token.contentOf token.text))))
  | .truth => .ok (finish stack (.const (.bool (token.text = "true"))))
  | .name => .ok (finish stack (.name token.text))
  | .operator =>
    if token.text = "!" then openNested stack .not
    else if token.text = "(" then openNested stack .paren
    else .error (.unexpected token)

/-- The binary operator that a token is. -/
def binaryOperator? (token : Token) : Option Operator :=
  if token.kind = .operator then Operator.ofSymbol? token.text else none

/-- Reads a token behind a finished operand. -/
def readOperator (stack : List Pending) (e : Expr) (token : Token) : Except ParseError Place :=
  match binaryOperator? token with
  | some op =>
    let (stack, left) := join op.precedence stack e
    .ok ⟨.left left op :: stack, .operand⟩
  | none =>
    match join 0 stack e with
    | (.paren :: stack, inner) =>
      if token.isOperator ")" then .ok (finish stack inner) else .error (.unclosed (some token))
    | _ => .error (.trailing token)

/-- **One token read.** -/
def readToken (place : Place) (token : Token) : Except ParseError Place :=
  match place.due with
  | .operand => readOperand place.stack token
  | .operator e => readOperator place.stack e token

/-- The end of the input behind a finished operand: everything that is pending is joined, and no
parenthesis may be open. -/
def close : List Pending → Expr → Except ParseError Expr
  | [], e => .ok e
  | .left l op :: stack, e => close stack (.binary op l e)
  | .not :: stack, e => close stack (.not e)
  | .paren :: _, _ => .error (.unclosed none)

/-- **The end of the input**, with the constant `false` in place of an operand that is due. -/
def atEnd (place : Place) : Except ParseError Expr :=
  match place.due with
  | .operand => close place.stack (.const (.bool false))
  | .operator e => close place.stack e

/-- The place in front of the first token. -/
def start : Place := ⟨[], .operand⟩

end Parser

/-- **The expression that a row of tokens spells.** -/
def parse (tokens : List Token) : Except ParseError Expr :=
  if maxTokens < tokens.length then .error (.tooLong tokens.length)
  else do Parser.atEnd (← tokens.foldlM Parser.readToken Parser.start)

/-- **The expression that a source text spells.** -/
def compile (source : String) : Except ParseError Expr :=
  parse (tokenize source)

end Flowchart.Predicate
