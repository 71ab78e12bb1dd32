import Flowchart.Number.Binary
import Flowchart.Predicate.Context
import Flowchart.Predicate.Parser

/-!
# Evaluation and traces

Every expression has a value in every context: the operators take their operands for numbers or
truth values as they need them, and nothing fails. A source text that does not parse has no value,
but as a condition it is simply not met.

A trace records how the value of an expression came about: the value of every leaf and the outcome
of every operation. A conjunction whose left side is false is false whatever its right side is, and
a disjunction whose left side is true is true; there the right side is skipped.

A trace is shown as the text of the predicate with the values of its names, as in `x (was 5) > 0`,
and without the operands that were skipped. Parentheses stand only where the text would otherwise
read differently.
-/

namespace Flowchart.Predicate

/-! ### Evaluation -/

/-- **The value of a binary operation.** -/
def Operator.apply (op : Operator) (v w : Value) : Value :=
  match op with
  | add => .number (v.toNumber + w.toNumber)
  | subtract => .number (v.toNumber - w.toNumber)
  | multiply => .number (v.toNumber * w.toNumber)
  | divide => .number (v.toNumber / w.toNumber)
  | remainder => .number (Number.remainder v.toNumber w.toNumber)
  | less => .bool (v.toNumber < w.toNumber)
  | lessEqual => .bool (v.toNumber ≤ w.toNumber)
  | greater => .bool (w.toNumber < v.toNumber)
  | greaterEqual => .bool (w.toNumber ≤ v.toNumber)
  | looseEqual => .bool (v.looselyEqual w)
  | looseNotEqual => .bool (!v.looselyEqual w)
  | strictEqual => .bool (v.strictlyEqual w)
  | strictNotEqual => .bool (!v.strictlyEqual w)
  | and => .bool (v.isTruthy && w.isTruthy)
  | or => .bool (v.isTruthy || w.isTruthy)

/-- The value of a negation. -/
def Value.negate (v : Value) : Value :=
  .bool (!v.isTruthy)

/-- **The value of an expression** in a context. -/
def Expr.eval (context : Context) : Expr → Value
  | const v => v
  | name n => context.get n
  | not e => (e.eval context).negate
  | binary op l r => op.apply (l.eval context) (r.eval context)

/-- **Whether a predicate holds**: it parses, and its value counts as true. -/
def holds (source : String) (context : Context) : Bool :=
  match compile source with
  | .ok e => (e.eval context).isTruthy
  | .error _ => false

/-! ### Traces -/

/-- Where the value of a leaf comes from. -/
inductive Source where
  | literal
  | name (name : String)
  deriving DecidableEq

/-- The record of an evaluation. -/
inductive Trace where
  | binary (op : Operator) (left right : Trace) (outcome : Value)
  | not (operand : Trace) (outcome : Value)
  | leaf (source : Source) (value : Value)
  /-- An operand that could not change the outcome. -/
  | skipped
  deriving DecidableEq

namespace Trace

/-- The value that a trace ends with. -/
def outcome : Trace → Value
  | binary _ _ _ outcome => outcome
  | not _ outcome => outcome
  | leaf _ value => value
  | skipped => .undefined

/-- Whether something was evaluated. -/
def isEvaluated : Trace → Bool
  | skipped => false
  | _ => true

/-- How tightly the text of a trace holds together. -/
def precedence : Trace → Nat
  | binary op .. => op.precedence
  | not .. => notPrecedence
  | leaf .. => leafPrecedence
  | skipped => leafPrecedence

end Trace

/-- Whether the left operand alone decides the outcome, and if so, what it is. -/
def Operator.decided? (op : Operator) (left : Value) : Option Bool :=
  match op with
  | and => if left.isTruthy then none else some false
  | or => if left.isTruthy then some true else none
  | _ => none

/-- **The trace of an expression** in a context. -/
def Expr.trace (context : Context) : Expr → Trace
  | const v => .leaf .literal v
  | name n => .leaf (.name n) (context.get n)
  | not e =>
    let operand := e.trace context
    .not operand operand.outcome.negate
  | binary op l r =>
    let left := l.trace context
    match op.decided? left.outcome with
    | some result => .binary op left .skipped (.bool result)
    | none =>
      let right := r.trace context
      .binary op left right (op.apply left.outcome right.outcome)

/-- What is decided by the left operand is the outcome whatever the right operand is. -/
theorem Operator.apply_of_decided? {op : Operator} {v : Value} {result : Bool}
    (h : op.decided? v = some result) (w : Value) : op.apply v w = .bool result := by
  cases op <;> simp only [decided?, reduceCtorEq] at h
  · split at h
    · simp at h
    · next hv =>
      obtain rfl : false = result := by simpa using h
      simp [apply, hv]
  · split at h
    · next hv =>
      obtain rfl : true = result := by simpa using h
      simp [apply, hv]
    · simp at h

/-- **A trace ends with the value of its expression.** -/
theorem Expr.outcome_trace (context : Context) (e : Expr) :
    (e.trace context).outcome = e.eval context := by
  induction e with
  | const v => rfl
  | name n => rfl
  | not e ih =>
    show (e.trace context).outcome.negate = (e.eval context).negate
    rw [ih]
  | binary op l r ihl ihr =>
    simp only [trace, ihl]
    split
    · next result hresult => exact (Operator.apply_of_decided? hresult _).symm
    · show op.apply (l.eval context) (r.trace context).outcome = _
      rw [ihr]
      rfl

/-! ### The text of a trace -/

/-- A leaf in the text of a trace: a value, or a name with the value it had. -/
def Source.text (value : Value) : Source → String
  | literal => Expr.quotedValue value
  | name n => n ++ " (was " ++ Expr.quotedValue value ++ ")"

/-- Puts parentheses around a text on a condition. -/
def parenthesize (needed : Bool) (text : String) : String :=
  if needed then "(" ++ text ++ ")" else text

/-- The text of a trace inside an operation of the given strength; `leafText` writes the leaves. -/
def Trace.write (leafText : Value → Source → String) (outer : Nat) : Trace → String
  | binary op left right _ =>
    let p := op.precedence
    let tail :=
      if right.isEvaluated then " " ++ op.symbol ++ " " ++ right.write leafText (p + 1) else ""
    parenthesize (p < outer) (left.write leafText p ++ tail)
  | not operand _ =>
    parenthesize (notPrecedence < outer) ("!" ++ operand.write leafText notPrecedence)
  | leaf source value => parenthesize (leafPrecedence < outer) (leafText value source)
  | skipped => parenthesize (leafPrecedence < outer) ""

/-- **The text of a trace**, with the values that names had. -/
def Trace.text (t : Trace) : String :=
  t.write Source.text 0

/-! ### Explanations -/

/-- Whether a predicate holds, and why. -/
structure Explanation where
  result : Bool
  value : Value
  reason : String
  trace : Trace

/-- The explanation of an expression. -/
def Expr.explain (e : Expr) (context : Context) : Explanation :=
  let trace := e.trace context
  { result := trace.outcome.isTruthy, value := trace.outcome, reason := trace.text, trace }

/-- **The explanation of a source text**, if it parses. -/
def explain? (source : String) (context : Context) : Option Explanation :=
  match compile source with
  | .ok e => some (e.explain context)
  | .error _ => none

end Flowchart.Predicate
