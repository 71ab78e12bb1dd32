import Flowchart.Proofs.Predicate.Dependence
import Flowchart.Run.Execution

/-!
# What a step depends on

The way through a flowchart depends on the context through the predicate of the current node alone,
and not at all if this predicate does not parse. A predicate in turn depends on the names that it
lists. So the arrows that are considered behind a node, and with them a step from it, are the same
in two contexts that agree on what this one predicate lists (`Flowchart.Run.step_congr`).
-/

namespace Flowchart.Run

open Predicate (Context)

variable {g : Graph} {id : NodeId} {a b : Context}

/-- **Two contexts agree at a node** on the names that its predicate lists, if it has one that
parses. -/
def AgreeAt (g : Graph) (id : NodeId) (a b : Context) : Prop :=
  ∀ node predicate e, g.node? id = some node → node.predicate? = some predicate →
    Predicate.compile predicate = .ok e → a.AgreesOn b e.identifiers

/-- **The arrows that are considered** depend on the names in the predicate of the node. -/
theorem candidates_congr (h : AgreeAt g id a b) : candidates g id a = candidates g id b := by
  unfold candidates
  cases hnode : g.node? id with
  | none => rfl
  | some node =>
    cases hpredicate : node.predicate? with
    | none => simp only [candidatesAmong, hpredicate]
    | some predicate =>
      have hholds : Predicate.holds predicate a = Predicate.holds predicate b :=
        Predicate.holds_congr fun e hcompile => (h node predicate e hnode hpredicate hcompile).names
      simp only [candidatesAmong, hpredicate, hholds]

/-- **A step** depends on the names in the predicate of the current node, and from idle on no name
at all. -/
theorem step_congr {e : Execution} (h : ∀ id, e.cursor.current = some id → AgreeAt g id a b) :
    e.step g a = e.step g b := by
  unfold Execution.step
  cases hcurrent : e.cursor.current with
  | none => rfl
  | some id => simp only [choose?, candidates_congr (h id hcurrent)]

/-- **A predicate depends on the names that it lists, and on nothing else in a context.** Two
contexts that agree on what an expression lists give it the same value and the same trace, with the
same text. If the expression comes from a source, the source holds in both or in neither, and it is
explained alike. Two contexts that agree on what the predicate of a node lists, if it has one that
parses, have the same arrows considered behind the node, and the same step made from it; and a step
from idle is the same in any two contexts. -/
theorem depends_on_identifiers (a b : Context) :
    (∀ source e, Predicate.compile source = .ok e → a.AgreesOn b e.identifiers →
      e.eval a = e.eval b ∧ e.trace a = e.trace b ∧ (e.trace a).text = (e.trace b).text ∧
        Predicate.explain? source a = Predicate.explain? source b ∧
        Predicate.holds source a = Predicate.holds source b) ∧
    (∀ g id, AgreeAt g id a b →
      candidates g id a = candidates g id b ∧
        ∀ e : Execution, e.cursor.current = some id → e.step g a = e.step g b) ∧
    ∀ (g : Graph) (e : Execution), e.cursor.current = none → e.step g a = e.step g b := by
  refine ⟨fun source e hcompile hagree => ?_, fun g id hagree => ?_, fun g e hidle => ?_⟩
  · have hsource : ∀ e', Predicate.compile source = .ok e' → a.AgreesOn b e'.names := by
      intro e' hcompile'
      obtain rfl := Except.ok.inj (hcompile.symm.trans hcompile')
      exact hagree.names
    have htrace : e.trace a = e.trace b := Predicate.Expr.trace_congr hagree.names
    exact ⟨Predicate.Expr.eval_congr hagree.names, htrace, congrArg Predicate.Trace.text htrace,
      Predicate.explain?_congr hsource, Predicate.holds_congr hsource⟩
  · refine ⟨candidates_congr hagree, fun e hcurrent => step_congr fun other hother => ?_⟩
    obtain rfl := Option.some.inj (hcurrent.symm.trans hother)
    exact hagree
  · exact step_congr fun id hcurrent => nomatch hidle.symm.trans hcurrent

/-- Two contexts that agree on `x` and on nothing else that they bind. -/
theorem depends_on_identifiers_unlisted :
    let a := (Context.empty.insert "x" (.number 5)).insert "y" (.bool true)
    let b := (Context.empty.insert "y" (.text "no")).insert "x" (.number 5)
    let e : Predicate.Expr := .binary .or (.binary .greater (.name "x") (.const (.number 3)))
      (.not (.name "x"))
    let g := Graph.ofParts
      [⟨1, ⟨0, 0⟩, .square, some " x > 3 || !x ", .none⟩, ⟨2, ⟨0, 0⟩, .circle, none, .none⟩]
      [⟨1, 2, none⟩, ⟨1, 2, some "TRUE"⟩]
    a.get "y" ≠ b.get "y" ∧ Predicate.compile "x > 3 || !x" = .ok e ∧
      a.AgreesOn b e.identifiers ∧ AgreeAt g 1 a b ∧
      (e.trace a).text = (e.trace b).text ∧ (e.trace a).text = "x (was 5) > 3" ∧
      candidates g 1 a = candidates g 1 b ∧ candidates g 1 a = [⟨1, 2, .matchesResult true⟩] ∧
      (Execution.initial.moveTo 1).step g a = (Execution.initial.moveTo 1).step g b ∧
      Execution.initial.step g a = Execution.initial.step g b := by
  intro a b e g
  have hcompile : Predicate.compile "x > 3 || !x" = .ok e := by decide +kernel
  have hagree : a.AgreesOn b e.identifiers := by
    intro name hname
    have hx : name = "x" := by simpa [e, Predicate.Expr.names] using
      Predicate.Expr.mem_identifiers.mp hname
    rw [hx]
    rfl
  have hnode : AgreeAt g 1 a b := by
    intro node predicate e' hnode hpredicate hcompile'
    have hfirst : (g.node? 1).bind Node.predicate? = some "x > 3 || !x" := by decide +kernel
    obtain rfl : "x > 3 || !x" = predicate := by
      rw [hnode, Option.bind_some, hpredicate] at hfirst
      exact (Option.some.inj hfirst).symm
    obtain rfl := Except.ok.inj (hcompile.symm.trans hcompile')
    exact hagree
  obtain ⟨hsource, hgraph, hidle⟩ := depends_on_identifiers a b
  exact ⟨by decide, hcompile, hagree, hnode, (hsource _ e hcompile hagree).2.2.1,
    by decide +kernel, (hgraph g 1 hnode).1, by decide +kernel, (hgraph g 1 hnode).2 _ rfl,
    hidle g Execution.initial rfl⟩

end Flowchart.Run
