import Flowchart.Proofs.Predicate.Dependence
import Flowchart.Proofs.Predicate.Rendering

/-!
# What a shortened text still says

The text of a trace leaves out the operands that were skipped. If there are no names in it, it is a
predicate of its own (`Flowchart.Predicate.Expr.compile_text_trace`), and one would like it to give
the answer that it explains. What stands in the text for a conjunction or disjunction with a skipped
operand is its left operand (`Flowchart.Predicate.Expr.IsShortened`). The two count as true or false
alike, but they need not be the same value: `0 && 5` is `false`, and what is left of it is `0`.

* **Negations, conjunctions and disjunctions do not mind.** They look only at whether their operands
  count as true, and so does whoever asks for the answer.
* **The other operations may mind.** `(0 && 5) == 0` is false, because `false` is displayed in
  another way than `0`, but its text `(0) == 0` is true. `(0 && 5) < 1` has no such trouble: taken
  for numbers, `false` and `0` are the same.

So a text is *faithful* (`Flowchart.Predicate.Expr.Faithful`) if each operation of the second kind
that has a shortened operand comes to the same value with what is left of its operands. This is
asked at these places only, and only for the values there. It follows for the predicate as a whole
that its text gives the same answer (`Flowchart.Predicate.Expr.eval_prune`): below an operation of
the second kind no value has changed, and above it only truth values matter. Where the operands that
are left are truth values themselves, as they are behind comparisons and negations, every text is
faithful (`Flowchart.Predicate.Expr.faithful_of_leavesTruth`).
-/

namespace Flowchart.Predicate

variable {context : Context} {e l r : Expr} {op : Operator} {source : String}

/-! ### Shortened operations -/

/-- **A conjunction or disjunction is shortened** if its left operand decides, so that nothing but
this operand is written. -/
def Expr.IsShortened (context : Context) : Expr → Prop
  | const _ => False
  | name _ => False
  | not _ => False
  | binary op l _ => op.Decides (l.eval context)

/-- The operators that look at truth values only. -/
def Operator.IsLogical (op : Operator) : Prop :=
  op = .and ∨ op = .or

/-- **A property of all operations that read values**, and not only truth values, as far as they
were evaluated. -/
def Expr.AtReading (context : Context) (P : Operator → Expr → Expr → Prop) : Expr → Prop
  | const _ => True
  | name _ => True
  | not e => e.AtReading context P
  | binary op l r =>
    l.AtReading context P ∧
      (¬ op.Decides (l.eval context) → r.AtReading context P ∧ (¬ op.IsLogical → P op l r))

/-- **What is left of an expression is faithful to it**: where an operation looks at more than truth
values and has a shortened operand, it comes to the same value with what is left of its operands. -/
def Expr.Faithful (context : Context) : Expr → Prop :=
  Expr.AtReading context fun op l r => l.IsShortened context ∨ r.IsShortened context →
    op.apply ((l.prune context).eval context) ((r.prune context).eval context) =
      op.apply (l.eval context) (r.eval context)

/-- What is left of a shortened operand is a truth value, where an operation looks at more than
that. -/
def Expr.LeavesTruth (context : Context) : Expr → Prop :=
  Expr.AtReading context fun _ l r => ∀ e, e = l ∨ e = r → e.IsShortened context →
    ∃ b, (e.prune context).eval context = .bool b

instance (op : Operator) : Decidable op.IsLogical :=
  inferInstanceAs (Decidable (op = .and ∨ op = .or))

instance (context : Context) : (e : Expr) → Decidable (e.IsShortened context)
  | .const _ => .isFalse id
  | .name _ => .isFalse id
  | .not _ => .isFalse id
  | .binary op l _ => inferInstanceAs (Decidable (op.Decides (l.eval context)))

/-- A property that can be decided for one operation can be decided for all of them. -/
def Expr.decidableAtReading (context : Context) (P : Operator → Expr → Expr → Prop)
    [∀ op l r, Decidable (P op l r)] : (e : Expr) → Decidable (e.AtReading context P)
  | const _ => .isTrue trivial
  | name _ => .isTrue trivial
  | not e => e.decidableAtReading context P
  | binary op l r =>
    have := l.decidableAtReading context P
    have := r.decidableAtReading context P
    inferInstanceAs (Decidable (l.AtReading context P ∧
      (¬ op.Decides (l.eval context) → r.AtReading context P ∧ (¬ op.IsLogical → P op l r))))

instance (context : Context) (e : Expr) : Decidable (e.Faithful context) :=
  e.decidableAtReading context _

theorem Operator.Decides.isTruthy_apply {v : Value} (h : op.Decides v) (w : Value) :
    (op.apply v w).isTruthy = v.isTruthy := by
  rw [apply_of_decided? (decided?_eq_some_iff.mpr ⟨h, rfl⟩)]
  rfl

theorem Operator.IsLogical.apply_congr (h : op.IsLogical) {v v' w w' : Value}
    (hv : v.isTruthy = v'.isTruthy) (hw : w.isTruthy = w'.isTruthy) :
    op.apply v w = op.apply v' w' := by
  rcases h with rfl | rfl <;> simp only [apply, hv, hw]

/-! ### The value of what is left -/

/-- **The value of what is left.** What is left of an expression, if it is faithful, counts as true
exactly if the expression does, and it has the same value unless the expression as a whole is
shortened. -/
theorem Expr.eval_prune (h : e.Faithful context) :
    ((e.prune context).eval context).isTruthy = (e.eval context).isTruthy ∧
      (¬ e.IsShortened context → (e.prune context).eval context = e.eval context) := by
  induction e with
  | const v => exact ⟨rfl, fun _ => rfl⟩
  | name n => exact ⟨rfl, fun _ => rfl⟩
  | not e ih =>
    obtain ⟨htruth, -⟩ := ih h
    have hvalue : ((not e).prune context).eval context = (not e).eval context := by
      simp only [prune, eval, Value.negate, htruth]
    exact ⟨congrArg Value.isTruthy hvalue, fun _ => hvalue⟩
  | binary op l r ihl ihr =>
    obtain ⟨hl, hopen⟩ := h
    obtain ⟨htruthLeft, hleft⟩ := ihl hl
    by_cases hdecides : op.Decides (l.eval context)
    · rw [prune, if_pos hdecides]
      exact ⟨htruthLeft.trans (hdecides.isTruthy_apply _).symm, fun hnot => absurd hdecides hnot⟩
    · obtain ⟨hr, hreads⟩ := hopen hdecides
      obtain ⟨htruthRight, hright⟩ := ihr hr
      have hvalue : op.apply ((l.prune context).eval context) ((r.prune context).eval context) =
          op.apply (l.eval context) (r.eval context) := by
        by_cases hlogical : op.IsLogical
        · exact hlogical.apply_congr htruthLeft htruthRight
        · by_cases hshortened : l.IsShortened context ∨ r.IsShortened context
          · exact hreads hlogical hshortened
          · rw [not_or] at hshortened
            rw [hleft hshortened.1, hright hshortened.2]
      rw [prune, if_neg hdecides]
      exact ⟨congrArg Value.isTruthy hvalue, fun _ => hvalue⟩

/-- The value of a shortened operation is a truth value. -/
theorem Expr.IsShortened.exists_eval (h : e.IsShortened context) :
    ∃ b, e.eval context = .bool b := by
  cases e with
  | const v => exact h.elim
  | name n => exact h.elim
  | not e => exact h.elim
  | binary op l r =>
    exact ⟨_, Operator.apply_of_decided? (Operator.decided?_eq_some_iff.mpr ⟨h, rfl⟩) _⟩

/-- **What leaves truth values is faithful**, since truth values are equal if they count as true
alike. -/
theorem Expr.faithful_of_leavesTruth (h : e.LeavesTruth context) : e.Faithful context := by
  induction e with
  | const v => exact trivial
  | name n => exact trivial
  | not e ih => exact ih h
  | binary op l r ihl ihr =>
    obtain ⟨hl, hopen⟩ := h
    refine ⟨ihl hl, fun hdecides => ?_⟩
    obtain ⟨hr, htruth⟩ := hopen hdecides
    refine ⟨ihr hr, fun hlogical _ => ?_⟩
    have hsame : ∀ e, e = l ∨ e = r → e.Faithful context →
        (e.prune context).eval context = e.eval context := by
      intro e he hfaithful
      obtain ⟨htruths, hvalue⟩ := eval_prune hfaithful
      by_cases hshortened : e.IsShortened context
      · obtain ⟨b, hb⟩ := htruth hlogical e he hshortened
        obtain ⟨b', hb'⟩ := hshortened.exists_eval
        rw [hb, hb'] at htruths ⊢
        exact congrArg Value.bool htruths
      · exact hvalue hshortened
    rw [hsame l (.inl rfl) (ihl hl), hsame r (.inr rfl) (ihr hr)]

/-! ### The text without names -/

/-- What is left of an expression has no other names. -/
theorem Expr.names_prune_subset (context : Context) (e : Expr) :
    (e.prune context).names ⊆ e.names := by
  induction e with
  | const v => exact List.Subset.refl _
  | name n => exact List.Subset.refl _
  | not e ih => exact ih
  | binary op l r ihl ihr =>
    rw [prune]
    split
    · exact List.subset_append_of_subset_left _ ihl
    · exact List.append_subset.mpr ⟨List.subset_append_of_subset_left _ ihl,
        List.subset_append_of_subset_right _ ihr⟩

/-- Where there are no names, there are no values of names to be written. -/
theorem Expr.write_trace_of_names (h : e.names = []) (outer : Nat) :
    (e.trace context).write Source.text outer = (e.trace context).write Source.bareText outer := by
  induction e generalizing outer with
  | const v => rfl
  | name n => exact absurd h (List.cons_ne_nil _ _)
  | not e ih => simp only [trace, Trace.write, ih h]
  | binary op l r ihl ihr =>
    obtain ⟨hl, hr⟩ := List.append_eq_nil_iff.mp h
    by_cases hdecides : op.Decides (l.eval context)
    · simp only [trace_binary_of_decides hdecides, Trace.write, Trace.isEvaluated, ihl hl]
    · simp only [trace_binary_of_not_decides hdecides, Trace.write, ihl hl, ihr hr]

/-- **Without names a text compiles as it stands**, to what is left of the expression. -/
theorem Expr.compile_text_trace (hlength : (tokenize source).length ≤ maxTokens - 1)
    (hcompile : compile source = .ok e) (hnames : e.names = [])
    (hplain : ∀ v ∈ e.constants, v.IsPlain) (context : Context) :
    compile (e.trace context).text = .ok (e.prune context) := by
  obtain ⟨own, -, -, hreads⟩ := fits_of_compile hlength hcompile hplain context
  rw [Trace.text, write_trace_of_names hnames]
  exact hreads.compile (Nat.le_refl _)

/-! ### Explanations -/

/-- **A reason without names is a predicate, and where it is faithful it gives the answer.** Where a
source compiles to an expression without names and with plain constants, and is one token short of
the limit, the reason of its explanation compiles to what is left of the expression. If that is
faithful, the reason holds, in any context, exactly if the result of the explanation is true; and it
is faithful if no operation that looks at more than truth values finds anything else in the place of
a shortened operand. -/
theorem holds_reason_of_faithful {x : Explanation}
    (hlength : (tokenize source).length ≤ maxTokens - 1) (hcompile : compile source = .ok e)
    (hidentifiers : e.identifiers = []) (hplain : ∀ v ∈ e.constants, v.IsPlain)
    (hexplain : explain? source context = some x) :
    compile x.reason = .ok (e.prune context) ∧
      (e.Faithful context → ∀ other, holds x.reason other = x.result) ∧
      (e.LeavesTruth context → e.Faithful context) := by
  have hnames : e.names = [] := List.eq_nil_iff_forall_not_mem.mpr fun name hname => by
    simpa [hidentifiers] using Expr.mem_identifiers.mpr hname
  obtain ⟨e', hcompile', rfl⟩ := explain?_eq_some_iff_explain.mp hexplain
  obtain rfl := Except.ok.inj (hcompile.symm.trans hcompile')
  have hreason : compile (e.explain context).reason = .ok (e.prune context) :=
    Expr.compile_text_trace hlength hcompile hnames hplain context
  refine ⟨hreason, fun hfaithful other => ?_, Expr.faithful_of_leavesTruth⟩
  have hcontext : (e.prune context).eval other = (e.prune context).eval context :=
    Expr.eval_congr fun name hname => by
      simpa [hnames] using Expr.names_prune_subset context e hname
  rw [holds, hreason]
  calc ((e.prune context).eval other).isTruthy
      = ((e.prune context).eval context).isTruthy := congrArg Value.isTruthy hcontext
    _ = (e.eval context).isTruthy := (Expr.eval_prune hfaithful).1
    _ = (e.explain context).result :=
        (congrArg Value.isTruthy (Expr.outcome_trace context e)).symm

/-- A comparison takes what is left of a conjunction for the same number, and a negation takes it
for the same truth value. -/
theorem holds_reason_of_faithful_shortened :
    let source := "(0 && 1) < 1 && !(\"\" && 0)"
    let e : Expr := .binary .and
      (.binary .less (.binary .and (.const (.number 0)) (.const (.number 1))) (.const (.number 1)))
      (.not (.binary .and (.const (.text "")) (.const (.number 0))))
    let x := e.explain Context.empty
    (tokenize source).length ≤ maxTokens - 1 ∧ compile source = .ok e ∧ e.identifiers = [] ∧
      (∀ v ∈ e.constants, v.IsPlain) ∧ explain? source Context.empty = some x ∧
      x.reason = "(0) < 1 && !(\"\")" ∧ e.Faithful Context.empty ∧ x.result = true ∧
      compile x.reason = .ok (e.prune Context.empty) ∧
      holds x.reason Context.empty = x.result := by
  intro source e x
  have hlength : (tokenize source).length ≤ maxTokens - 1 := by decide +kernel
  have hcompile : compile source = .ok e := by decide +kernel
  have hidentifiers : e.identifiers = [] := by simp [e, Expr.identifiers, Expr.names]
  have hplain : ∀ v ∈ e.constants, v.IsPlain := by
    have hempty : IsPlainText "" := by decide
    have hconstants : e.constants = [.number 0, .number 1, .number 1, .text "", .number 0] := rfl
    rw [hconstants]
    simp only [List.forall_mem_cons]
    exact ⟨isPlainNumber_zero, isPlainNumber_one, isPlainNumber_one, hempty, isPlainNumber_zero,
      by simp⟩
  have hexplain : explain? source Context.empty = some x :=
    explain?_eq_some_iff_explain.mpr ⟨e, hcompile, rfl⟩
  have hfaithful : e.Faithful Context.empty := by decide +kernel
  obtain ⟨hreason, hholds, -⟩ :=
    holds_reason_of_faithful hlength hcompile hidentifiers hplain hexplain
  exact ⟨hlength, hcompile, hidentifiers, hplain, hexplain, by decide +kernel, hfaithful,
    by decide +kernel, hreason, hholds hfaithful Context.empty⟩

/-- **A reason can say the opposite of the result.** The conjunction in `(0 && 1) == 0` is `false`,
which is displayed in another way than `0`. The reason has `0` in place of the conjunction. -/
theorem holds_reason_ne_result :
    let source := "(0 && 1) == 0"
    let e : Expr := .binary .looseEqual
      (.binary .and (.const (.number 0)) (.const (.number 1))) (.const (.number 0))
    (tokenize source).length ≤ maxTokens - 1 ∧ compile source = .ok e ∧ e.identifiers = [] ∧
      (∀ v ∈ e.constants, v.IsPlain) ∧
      ∃ x, explain? source Context.empty = some x ∧ x.reason = "(0) == 0" ∧
        x.result = false ∧ holds x.reason Context.empty = true := by
  intro source e
  have hcompile : compile source = .ok e := by decide +kernel
  refine ⟨by decide +kernel, hcompile, by simp [e, Expr.identifiers, Expr.names], ?_,
    e.explain Context.empty, explain?_eq_some_iff_explain.mpr ⟨e, hcompile, rfl⟩,
    by decide +kernel, by decide +kernel, by decide +kernel⟩
  have hconstants : e.constants = [.number 0, .number 1, .number 0] := rfl
  rw [hconstants]
  simp only [List.forall_mem_cons]
  exact ⟨isPlainNumber_zero, isPlainNumber_one, isPlainNumber_zero, by simp⟩

end Flowchart.Predicate
