import Flowchart.Predicate.Trace

/-!
# What a trace records

A trace is made by an evaluation of its own, which stops early: where the left operand of a
conjunction or a disjunction settles the matter, the right one is not looked at. The plain
evaluation always looks at both. That the two come to the same values everywhere is what this file
is about.

The relation `Flowchart.Predicate.Records` says what a trace of an expression has to look like, and
it says so in terms of the plain evaluation only. A record has the shape of the expression. It
carries at every operation the value that the plain evaluation finds for that part of the
expression, and an operand is missing from it exactly where the one before it decides
(`Flowchart.Predicate.Operator.Decides`), which only the left operand of a conjunction or a
disjunction can do.

Every expression has one record in every context, and this is its trace
(`Flowchart.Predicate.records_iff`). Equality of values is equality of all their bits here, so a
zero keeps its sign and what is no number stays so. An explanation is therefore no second opinion:
it exists whenever the source parses, its value is the value of the expression, and its result is
the answer that the predicate gives anywhere else.
-/

namespace Flowchart.Predicate

/-- **A left operand decides** a conjunction if it counts as false, and a disjunction if it counts
as true. It decides nothing else. -/
def Operator.Decides (op : Operator) (left : Value) : Prop :=
  (op = .and ∧ left.isTruthy = false) ∨ (op = .or ∧ left.isTruthy = true)

/-- **A record of an evaluation**: the shape of the expression, with its value at every node, and
without the right operands that are decided on the left. -/
inductive Records (context : Context) : Expr → Trace → Prop where
  | const (v : Value) : Records context (.const v) (.leaf .literal v)
  | name (n : String) : Records context (.name n) (.leaf (.name n) (context.get n))
  | not {e : Expr} {operand : Trace} (h : Records context e operand) :
      Records context (.not e) (.not operand ((Expr.not e).eval context))
  /-- Both operands are recorded where the left one leaves the matter open. -/
  | binary {op : Operator} {l r : Expr} {left right : Trace}
      (hopen : ¬ op.Decides (l.eval context)) (hleft : Records context l left)
      (hright : Records context r right) :
      Records context (.binary op l r) (.binary op left right ((Expr.binary op l r).eval context))
  /-- The right operand is skipped where the left one decides. -/
  | skipped {op : Operator} {l r : Expr} {left : Trace} (hdecides : op.Decides (l.eval context))
      (hleft : Records context l left) :
      Records context (.binary op l r)
        (.binary op left .skipped ((Expr.binary op l r).eval context))

variable {context : Context} {op : Operator} {e l r : Expr} {t left right : Trace} {v : Value}

/-! ### Deciding -/

/-- **What decides is the outcome**: the truth value of the left operand. -/
theorem Operator.decided?_eq_some_iff {result : Bool} :
    op.decided? v = some result ↔ op.Decides v ∧ result = v.isTruthy := by
  cases hv : v.isTruthy <;> cases op <;> simp [decided?, Decides, hv, eq_comm]

theorem Operator.decided?_eq_none_iff : op.decided? v = none ↔ ¬ op.Decides v := by
  cases hv : v.isTruthy <;> cases op <;> simp [decided?, Decides, hv]

/-! ### The trace of an operation -/

/-- A decided operation is traced without its right operand. -/
theorem Expr.trace_binary_of_decides (h : op.Decides (l.eval context)) :
    (Expr.binary op l r).trace context =
      .binary op (l.trace context) .skipped ((Expr.binary op l r).eval context) := by
  have hsome : op.decided? (l.eval context) = some (l.eval context).isTruthy :=
    Operator.decided?_eq_some_iff.mpr ⟨h, rfl⟩
  have hvalue : (Expr.binary op l r).eval context = .bool (l.eval context).isTruthy :=
    Operator.apply_of_decided? hsome (r.eval context)
  simp only [Expr.trace, Expr.outcome_trace, hsome, hvalue]

/-- An operation that is left open is traced with both of its operands. -/
theorem Expr.trace_binary_of_not_decides (h : ¬ op.Decides (l.eval context)) :
    (Expr.binary op l r).trace context =
      .binary op (l.trace context) (r.trace context) ((Expr.binary op l r).eval context) := by
  have hnone : op.decided? (l.eval context) = none := Operator.decided?_eq_none_iff.mpr h
  have hvalue : (Expr.binary op l r).eval context = op.apply (l.eval context) (r.eval context) :=
    rfl
  simp only [Expr.trace, Expr.outcome_trace, hnone, hvalue]

/-! ### The one record of an expression -/

/-- **The trace of an expression records it.** -/
theorem records_trace (context : Context) (e : Expr) : Records context e (e.trace context) := by
  induction e with
  | const v => exact .const v
  | name n => exact .name n
  | not e ih =>
    have htrace : (Expr.not e).trace context =
        .not (e.trace context) ((Expr.not e).eval context) := by
      simp only [Expr.trace, Expr.outcome_trace, Expr.eval]
    rw [htrace]
    exact .not ih
  | binary op l r ihl ihr =>
    by_cases h : op.Decides (l.eval context)
    · rw [Expr.trace_binary_of_decides h]
      exact .skipped h ihl
    · rw [Expr.trace_binary_of_not_decides h]
      exact .binary h ihl ihr

/-- **There is no other record**: what is skipped and what is written down is settled by the plain
evaluation. -/
theorem Records.unique {t' : Trace} (h : Records context e t) (h' : Records context e t') :
    t = t' := by
  induction h generalizing t' with
  | const v =>
    cases h'
    rfl
  | name n =>
    cases h'
    rfl
  | not h ih =>
    cases h' with
    | not h' => rw [ih h']
  | binary hopen hleft hright ihleft ihright =>
    cases h' with
    | binary hopen' hleft' hright' => rw [ihleft hleft', ihright hright']
    | skipped hdecides' hleft' => exact absurd hdecides' hopen
  | skipped hdecides hleft ihleft =>
    cases h' with
    | binary hopen' hleft' hright' => exact absurd hdecides hopen'
    | skipped hdecides' hleft' => rw [ihleft hleft']

/-- Every expression has one record, which is its trace. -/
theorem records_iff : Records context e t ↔ t = e.trace context :=
  ⟨fun h => h.unique (records_trace context e), fun h => h ▸ records_trace context e⟩

/-! ### Explanations -/

/-- The result of an explanation is the answer of the predicate. -/
theorem result_explain {source : String} (h : compile source = .ok e) :
    (e.explain context).result = holds source context := by
  rw [holds, h]
  exact congrArg Value.isTruthy (Expr.outcome_trace context e)

/-- What is explained, and how. -/
theorem explain?_eq_some_iff_explain {source : String} {x : Explanation} :
    explain? source context = some x ↔ ∃ e, compile source = .ok e ∧ x = e.explain context := by
  rw [explain?]
  cases compile source with
  | error error => simp
  | ok e => simp [eq_comm]

/-- **A trace records the plain evaluation, and an explanation tells its result.** In every context
the trace of an expression is its one record. No explanation is given of a source exactly if it does
not parse; otherwise the explanation has the value of the expression, the answer of the predicate,
and a record of the expression, of which its reason is the text. -/
theorem trace_eq_iff_records (context : Context) :
    (∀ e t, e.trace context = t ↔ Records context e t) ∧
    (∀ source, explain? source context = none ↔ ∃ error, compile source = .error error) ∧
    ∀ source x, explain? source context = some x ↔
      ∃ e, compile source = .ok e ∧ x.value = e.eval context ∧ x.result = holds source context ∧
        Records context e x.trace ∧ x.reason = x.trace.text := by
  refine ⟨fun e t => ?_, fun source => ?_, fun source x => ?_⟩
  · rw [records_iff, eq_comm]
  · rw [explain?]
    cases compile source with
    | error error => simp
    | ok e => simp
  · rw [explain?_eq_some_iff_explain]
    constructor
    · rintro ⟨e, hcompile, rfl⟩
      exact ⟨e, hcompile, Expr.outcome_trace context e, result_explain hcompile,
        records_trace context e, rfl⟩
    · rintro ⟨e, hcompile, hvalue, hresult, hrecords, hreason⟩
      refine ⟨e, hcompile, ?_⟩
      obtain ⟨result, value, reason, trace⟩ := x
      have htrace : trace = e.trace context := records_iff.mp hrecords
      subst htrace
      rw [Expr.explain, Explanation.mk.injEq]
      exact ⟨hresult.trans (result_explain hcompile).symm,
        hvalue.trans (Expr.outcome_trace context e).symm, hreason, rfl⟩

end Flowchart.Predicate
