import Flowchart.Predicate.Trace
import Mathlib.Data.List.Basic

/-!
# What a predicate depends on

A context may bind any number of names, but a predicate looks up only those that it lists
(`Flowchart.Predicate.Expr.identifiers`). Two contexts that *agree* on these names
(`Flowchart.Predicate.Context.AgreesOn`) cannot be told apart by it, whatever else they bind. That
goes for its value, and also for its trace, where it is recorded which names were looked up and what
was found (`Flowchart.Predicate.Expr.trace_congr`). A trace may look up fewer names than are listed,
because it skips operands. Which ones it skips is settled by values, and these are the same in both
contexts.
-/

namespace Flowchart.Predicate

variable {a b : Context} {e : Expr} {source : String}

/-- **Two contexts agree on some names** if each of them has the same value in both. -/
def Context.AgreesOn (a b : Context) (names : List String) : Prop :=
  ∀ name ∈ names, a.get name = b.get name

theorem Context.AgreesOn.mono {names fewer : List String} (h : a.AgreesOn b names)
    (hsub : fewer ⊆ names) : a.AgreesOn b fewer :=
  fun name hname => h name (hsub hname)

theorem Expr.mem_identifiers {name : String} : name ∈ e.identifiers ↔ name ∈ e.names := by
  rw [identifiers, List.mem_mergeSort, List.mem_eraseDups]

theorem Context.AgreesOn.names (h : a.AgreesOn b e.identifiers) : a.AgreesOn b e.names :=
  fun name hname => h name (Expr.mem_identifiers.mpr hname)

/-! ### Values and traces -/

/-- **The value depends on the names that occur.** -/
theorem Expr.eval_congr (h : a.AgreesOn b e.names) : e.eval a = e.eval b := by
  induction e with
  | const v => rfl
  | name n => exact h n (List.mem_singleton_self n)
  | not e ih => exact congrArg Value.negate (ih h)
  | binary op l r ihl ihr =>
    have hl : l.eval a = l.eval b := ihl (h.mono (List.subset_append_left _ _))
    have hr : r.eval a = r.eval b := ihr (h.mono (List.subset_append_right _ _))
    rw [eval, eval, hl, hr]

/-- **The trace depends on the names that occur**, with everything that is recorded in it. -/
theorem Expr.trace_congr (h : a.AgreesOn b e.names) : e.trace a = e.trace b := by
  induction e with
  | const v => rfl
  | name n => exact congrArg (Trace.leaf (.name n)) (h n (List.mem_singleton_self n))
  | not e ih =>
    have he : e.trace a = e.trace b := ih h
    rw [trace, trace, he]
  | binary op l r ihl ihr =>
    -- the same operands are skipped, because the left one has the same value
    have hl : l.trace a = l.trace b := ihl (h.mono (List.subset_append_left _ _))
    have hr : r.trace a = r.trace b := ihr (h.mono (List.subset_append_right _ _))
    rw [trace, trace, hl, hr]

theorem explain?_congr (h : ∀ e, compile source = .ok e → a.AgreesOn b e.names) :
    explain? source a = explain? source b := by
  cases hcompile : compile source with
  | error error => rw [explain?, explain?, hcompile]
  | ok e => simp only [explain?, hcompile, Expr.explain, Expr.trace_congr (h e hcompile)]

/-- **Whether a predicate holds depends on the names that occur.** -/
theorem holds_congr (h : ∀ e, compile source = .ok e → a.AgreesOn b e.names) :
    holds source a = holds source b := by
  cases hcompile : compile source with
  | error error => rw [holds, holds, hcompile]
  | ok e => simp only [holds, hcompile, Expr.eval_congr (h e hcompile)]

end Flowchart.Predicate
