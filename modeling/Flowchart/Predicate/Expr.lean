import Flowchart.Predicate.Value
import Flowchart.Text.Quoted

/-!
# Expressions

A parsed predicate: constants and names joined by negations and binary operators. There are fifteen
binary operators, each with the symbol it is written with and the strength with which it binds its
operands. All of them are left associative.

Besides the tree itself this module has the names that an expression reads, and a drawing of the
tree for people.
-/

namespace Flowchart.Predicate

/-! ### Binary operators -/

/-- A binary operator. -/
inductive Operator where
  | add
  | subtract
  | multiply
  | divide
  | remainder
  | less
  | lessEqual
  | greater
  | greaterEqual
  | looseEqual
  | looseNotEqual
  | strictEqual
  | strictNotEqual
  | and
  | or
  deriving DecidableEq, Repr

namespace Operator

/-- The symbol of an operator. -/
def symbol : Operator → String
  | add => "+"
  | subtract => "-"
  | multiply => "*"
  | divide => "/"
  | remainder => "%"
  | less => "<"
  | lessEqual => "<="
  | greater => ">"
  | greaterEqual => ">="
  | looseEqual => "=="
  | looseNotEqual => "!="
  | strictEqual => "==="
  | strictNotEqual => "!=="
  | and => "&&"
  | or => "||"

/-- All operators. -/
def all : List Operator :=
  [add, subtract, multiply, divide, remainder, less, lessEqual, greater, greaterEqual, looseEqual,
    looseNotEqual, strictEqual, strictNotEqual, and, or]

/-- **The operator with a given symbol.** -/
def ofSymbol? (symbol : String) : Option Operator :=
  all.find? (·.symbol = symbol)

/-- **How tightly an operator binds**; a larger number binds tighter. -/
def precedence : Operator → Nat
  | or => 1
  | and => 2
  | looseEqual | looseNotEqual | strictEqual | strictNotEqual => 3
  | less | lessEqual | greater | greaterEqual => 4
  | add | subtract => 5
  | multiply | divide | remainder => 6

theorem ofSymbol?_symbol (op : Operator) : ofSymbol? op.symbol = some op := by
  cases op <;> decide

end Operator

/-- The strength of a negation: it binds tighter than every binary operator. -/
def notPrecedence : Nat := 7

/-- The strength of a leaf, which never needs parentheses. -/
def leafPrecedence : Nat := 8

/-! ### Trees -/

/-- An expression of the predicate language. -/
inductive Expr where
  | const (value : Value)
  | name (name : String)
  | not (operand : Expr)
  | binary (op : Operator) (left right : Expr)
  deriving DecidableEq, Inhabited

namespace Expr

/-- The names in an expression, from left to right, with repetitions. -/
def names : Expr → List String
  | const _ => []
  | name n => [n]
  | not e => e.names
  | binary _ l r => l.names ++ r.names

/-- **The names an expression reads**, in order and each once. -/
def identifiers (e : Expr) : List String :=
  e.names.eraseDups.mergeSort fun a b => decide (a ≤ b)

/-! ### Drawing -/

/-- A value in a drawing or an explanation: a text stands between quotes, so that it reads
differently from a number. -/
def quotedValue : Value → String
  | .text s => Text.quote s
  | v => v.display

/-- The lines of a subtree, behind a margin that shows which of its ancestors have more branches
to come. -/
def draw (margin : String) (last : Bool) : Expr → String
  | const v => margin ++ marker last ++ "Const: " ++ quotedValue v ++ "\n"
  | name n => margin ++ marker last ++ "Ident: " ++ n ++ "\n"
  | not e => margin ++ marker last ++ "Unary (!)\n" ++ draw (margin ++ gap last) true e
  | binary op l r =>
    margin ++ marker last ++ "Binary (" ++ op.symbol ++ ")\n" ++
      draw (margin ++ gap last) false l ++ draw (margin ++ gap last) true r
where
  /-- The branch that leads to a subtree. -/
  marker (last : Bool) : String := if last then "└── " else "├── "
  /-- The margin below a subtree. -/
  gap (last : Bool) : String := if last then "    " else "│   "

/-- **The tree of an expression**, one node to a line. -/
def drawing (e : Expr) : String :=
  e.draw "" true

end Expr

end Flowchart.Predicate
