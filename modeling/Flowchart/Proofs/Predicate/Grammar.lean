import Flowchart.Predicate.Parser

/-!
# The grammar of predicates

The grammar, on its own: what it means that a row of tokens spells an expression
(`Flowchart.Predicate.Grammar.Spells`). The parser does not occur here.

There is one level for each strength of binary operators, and two more for negations and for what
stands alone (`Flowchart.Predicate.Grammar.Level`). A binary expression has on its left something
of its own level and on its right something of the next one. This is what makes the operators of a
level left associative, and the operators of a later level bind tighter.

What is spelled is spelled in some depth, which is the number of negations and parentheses around
it. They count together, and none may be opened where `Flowchart.Predicate.maxNesting` of them are
open.

The one irregular thing about the grammar is that the last operand may be missing. It is then as if
the constant `false` stood at the end of the row (`Flowchart.Predicate.Grammar.Derives`).

The strength of an operator (`Flowchart.Predicate.Operator.precedence`) is no part of the grammar,
which lists the symbols of each level. That the two agree is shown below
(`Flowchart.Predicate.Grammar.mem_operators_iff`).
-/

namespace Flowchart.Predicate.Grammar

/-! ### Levels -/

/-- The levels of the grammar, from the one that binds loosest. -/
inductive Level where
  | or
  | and
  | equal
  | order
  | sum
  | term
  | unary
  | primary
  deriving DecidableEq

namespace Level

/-- The operands of a level are of the next one. -/
def next? : Level → Option Level
  | or => some and
  | and => some equal
  | equal => some order
  | order => some sum
  | sum => some term
  | term => some unary
  | unary => some primary
  | primary => none

/-- **The binary operators of a level**, with their symbols. -/
def operators : Level → List (String × Operator)
  | or => [("||", .or)]
  | and => [("&&", .and)]
  | equal =>
    [("==", .looseEqual), ("!=", .looseNotEqual), ("===", .strictEqual), ("!==", .strictNotEqual)]
  | order => [("<", .less), ("<=", .lessEqual), (">", .greater), (">=", .greaterEqual)]
  | sum => [("+", .add), ("-", .subtract)]
  | term => [("*", .multiply), ("/", .divide), ("%", .remainder)]
  | unary => []
  | primary => []

/-- The place of a level, counted from one. -/
def strength : Level → Nat
  | or => 1
  | and => 2
  | equal => 3
  | order => 4
  | sum => 5
  | term => 6
  | unary => notPrecedence
  | primary => leafPrecedence

theorem strength_of_next? {level next : Level} (h : level.next? = some next) :
    next.strength = level.strength + 1 := by
  cases level <;> cases h <;> rfl

theorem one_le_strength (level : Level) : 1 ≤ level.strength := by
  cases level <;> decide

theorem eq_of_strength_eq {level other : Level} (h : level.strength = other.strength) :
    level = other := by
  cases level <;> cases other <;> first | rfl | exact absurd h (by decide)

theorem exists_next?_of_lt {level other : Level} (h : level.strength < other.strength) :
    ∃ next, level.next? = some next := by
  cases level with
  | primary => cases other <;> exact absurd h (by decide)
  | _ => exact ⟨_, rfl⟩

end Level

/-! ### Rows of tokens -/

/-- **A token that stands for an expression by itself**: a number that can be read, a quoted text, a
truth value or a name. -/
inductive Leaf (token : Token) : Expr → Prop where
  | number {x : Float} (hkind : token.kind = .number)
      (hnumber : Number.Decimal.ofExtended? token.text.toList = some x) :
      Leaf token (.const (.number x))
  | text (hkind : token.kind = .text) : Leaf token (.const (.text (Token.contentOf token.text)))
  | truth (hkind : token.kind = .truth) : Leaf token (.const (.bool (token.text = "true")))
  | name (hkind : token.kind = .name) : Leaf token (.name token.text)

/-- **A row of tokens spells an expression**, on a level and inside of some negations and
parentheses, whose number is the depth. -/
inductive Spells : Level → Nat → List Token → Expr → Prop where
  /-- What is spelled on the next level is spelled on this one. -/
  | next {level next : Level} {depth : Nat} {tokens : List Token} {e : Expr}
      (hnext : level.next? = some next) (h : Spells next depth tokens e) :
      Spells level depth tokens e
  /-- An operator of the level between two operands. -/
  | binary {level next : Level} {depth : Nat} {lefts rights : List Token} {token : Token}
      {op : Operator} {l r : Expr} (hnext : level.next? = some next)
      (hkind : token.kind = .operator) (hop : (token.text, op) ∈ level.operators)
      (hleft : Spells level depth lefts l) (hright : Spells next depth rights r) :
      Spells level depth (lefts ++ token :: rights) (.binary op l r)
  /-- A negation. -/
  | not {depth : Nat} {tokens : List Token} {token : Token} {e : Expr}
      (htoken : token.isOperator "!") (hdepth : depth < maxNesting)
      (h : Spells .unary (depth + 1) tokens e) : Spells .unary depth (token :: tokens) (.not e)
  /-- An expression in parentheses. -/
  | paren {depth : Nat} {tokens : List Token} {opening closing : Token} {e : Expr}
      (hopening : opening.isOperator "(") (hclosing : closing.isOperator ")")
      (hdepth : depth < maxNesting) (h : Spells .or (depth + 1) tokens e) :
      Spells .primary depth (opening :: tokens ++ [closing]) e
  | leaf {depth : Nat} {token : Token} {e : Expr} (h : Leaf token e) :
      Spells .primary depth [token] e

/-- The token that is understood where the last operand is missing. -/
def missing : Token := ⟨.truth, "false", 0⟩

/-- **What a row of tokens means**: the expression that it spells, or that it spells when the
missing operand is put behind it. -/
def Derives (tokens : List Token) (e : Expr) : Prop :=
  Spells .or 0 tokens e ∨ Spells .or 0 (tokens ++ [missing]) e

/-- The missing operand is the constant `false`. -/
theorem leaf_missing : Leaf missing (.const (.bool false)) :=
  .truth rfl

/-- **What is spelled on a stronger level** is spelled on a weaker one. -/
theorem Spells.loosen {level strong : Level} {depth : Nat} {tokens : List Token} {e : Expr}
    (h : Spells strong depth tokens e) (hle : level.strength ≤ strong.strength) :
    Spells level depth tokens e := by
  induction hgap : strong.strength - level.strength generalizing level with
  | zero => exact Level.eq_of_strength_eq (by omega : level.strength = strong.strength) ▸ h
  | succ gap ih =>
    obtain ⟨next, hnext⟩ := Level.exists_next?_of_lt (by omega : level.strength < strong.strength)
    have hstrength := Level.strength_of_next? hnext
    exact .next hnext (ih (by omega) (by omega))

/-! ### Levels and the strength of operators -/

theorem eq_symbol_of_ofSymbol? {symbol : String} {op : Operator}
    (h : Operator.ofSymbol? symbol = some op) : op.symbol = symbol := by
  simpa using List.find?_some h

/-- Every operator belongs to the level of its strength. -/
theorem exists_level (op : Operator) :
    ∃ level : Level, (op.symbol, op) ∈ level.operators ∧ level.strength = op.precedence := by
  cases op with
  | or => exact ⟨.or, by decide, rfl⟩
  | and => exact ⟨.and, by decide, rfl⟩
  | looseEqual | looseNotEqual | strictEqual | strictNotEqual => exact ⟨.equal, by decide, rfl⟩
  | less | lessEqual | greater | greaterEqual => exact ⟨.order, by decide, rfl⟩
  | add | subtract => exact ⟨.sum, by decide, rfl⟩
  | multiply | divide | remainder => exact ⟨.term, by decide, rfl⟩

theorem of_mem_operators : ∀ {level : Level}, ∀ entry ∈ level.operators,
    entry.2.symbol = entry.1 ∧ entry.2.precedence = level.strength := by
  intro level
  cases level <;> decide

/-- **The levels of the grammar are the strengths of the operators.** -/
theorem mem_operators_iff {level : Level} {symbol : String} {op : Operator} :
    (symbol, op) ∈ level.operators ↔
      Operator.ofSymbol? symbol = some op ∧ op.precedence = level.strength := by
  constructor
  · intro h
    obtain ⟨hsymbol, hprecedence⟩ := of_mem_operators _ h
    obtain rfl : op.symbol = symbol := hsymbol
    exact ⟨Operator.ofSymbol?_symbol op, hprecedence⟩
  · rintro ⟨hsymbol, hprecedence⟩
    obtain ⟨own, hmem, hown⟩ := exists_level op
    obtain rfl : level = own := Level.eq_of_strength_eq (hprecedence.symm.trans hown.symm)
    obtain rfl : op.symbol = symbol := eq_symbol_of_ofSymbol? hsymbol
    exact hmem

theorem precedence_lt_notPrecedence (op : Operator) : op.precedence < notPrecedence := by
  cases op <;> decide

end Flowchart.Predicate.Grammar
