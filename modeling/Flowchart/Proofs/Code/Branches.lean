import Flowchart.Proofs.Code.Walk
import Flowchart.Proofs.Run.Transition

/-!
# Conditions in the code and decisions in execution

A square becomes a condition in the code, and execution takes a decision there. The two look at the
same label and the same arrows, but not in the same way: the code asks whether the label is empty
and where the arrows labeled `true` and `false` lead, while execution asks whether anything is left
of the label without its blanks, and falls back on other arrows if none is labeled like the result.

Where there is an arrow labeled like the result, the two agree: what the branch of the code begins
with (`Flowchart.Code.branch_emitCondition`) is where execution goes. The other arrows that
execution may fall back on are in no branch of the code.

All of this rests on one equation for the arrow that is followed from a decision, which spells out
the order of the fallbacks (`Flowchart.Run.choose?_of_predicate?`).
-/

namespace Flowchart

open Predicate.Value (truthText)

variable {g : Graph} {id : NodeId} {node : Node} {predicate : String}
  {context : Predicate.Context} {result : Bool}

namespace Run

/-! ### The order of the fallbacks -/

/-- The candidate for an arrow. -/
def Candidate.ofEdge (reason : Reason) (edge : Edge × Nat) : Candidate :=
  ⟨edge.2, edge.1.target, reason⟩

/-- The first candidate among some of the arrows is the one for the first of these arrows. -/
theorem head?_candidatesOf_filter (reason : Reason) (p : Edge × Nat → Bool)
    (out : List (Edge × Nat)) :
    (candidatesOf reason (out.filter p)).head? = (out.find? p).map (Candidate.ofEdge reason) := by
  rw [candidatesOf, List.head?_map, List.head?_filter]
  rfl

theorem head?_firstNonempty {α : Type} (xs ys : List α) :
    (firstNonempty xs ys).head? = xs.head?.or ys.head? := by
  cases xs <;> rfl

/-- **The arrow that is followed from a decision**: the first one labeled like the result, or else
the first one without a label, or else the first one. -/
theorem choose?_of_predicate? (hnode : g.node? id = some node)
    (hpredicate : node.predicate? = some predicate)
    (hresult : Predicate.holds predicate context = result) :
    choose? g id context =
      (((g.outgoing id).find? (·.1.isLabeled (truthText result))).map
        (.ofEdge (.matchesResult result))).or
      ((((g.outgoing id).find? (·.1.isUnlabeled)).map (.ofEdge .unlabeledFallback)).or
      ((g.outgoing id).head?.map (.ofEdge .defaultPath))) := by
  simp only [choose?, candidates, hnode, candidatesAmong, hpredicate, hresult, head?_firstNonempty,
    head?_candidatesOf_filter]
  rw [candidatesOf, List.head?_map, List.head?_take]
  rfl

/-- Execution follows the arrow that a branch of the code begins with. -/
theorem choose?_of_branch? {target : NodeId} (hnode : g.node? id = some node)
    (hpredicate : node.predicate? = some predicate)
    (hresult : Predicate.holds predicate context = result)
    (hbranch : Code.branch? g id (truthText result) = some target) :
    ∃ chosen, choose? g id context = some chosen ∧ chosen.target = target := by
  obtain ⟨edge, hedge, rfl⟩ := Option.map_eq_some_iff.mp hbranch
  refine ⟨.ofEdge (.matchesResult result) edge, ?_, rfl⟩
  rw [choose?_of_predicate? hnode hpredicate hresult, hedge]
  rfl

/-- **An arrow that is followed because of its label** leaves a node where a decision is taken, and
it is the one that the branch of the code begins with. -/
theorem branch?_of_choose? {chosen : Candidate} (h : choose? g id context = some chosen)
    (hreason : chosen.reason = .matchesResult result) :
    (∃ node, g.node? id = some node ∧ node.predicate? ≠ none) ∧
      Code.branch? g id (truthText result) = some chosen.target := by
  have hmem := List.mem_of_head? h
  unfold candidates at hmem
  split at hmem
  · exact absurd hmem List.not_mem_nil
  · next node hnode =>
    cases hpredicate : node.predicate? with
    | none =>
      rw [hpredicate] at hmem
      obtain ⟨-, -, -, hdefault⟩ := mem_candidatesOf.mp hmem
      exact absurd (hreason.symm.trans hdefault) nofun
    | some predicate =>
      rw [choose?_of_predicate? hnode hpredicate rfl] at h
      rcases Option.or_eq_some_iff.mp h with hmatch | ⟨-, hfallback⟩
      · obtain ⟨edge, hedge, rfl⟩ := Option.map_eq_some_iff.mp hmatch
        obtain rfl := Reason.matchesResult.inj hreason
        exact ⟨⟨node, hnode, hpredicate ▸ nofun⟩, Option.map_eq_some_iff.mpr ⟨edge, hedge, rfl⟩⟩
      · rcases Option.or_eq_some_iff.mp hfallback with hunlabeled | ⟨-, hdefault⟩
        · obtain ⟨edge, -, rfl⟩ := Option.map_eq_some_iff.mp hunlabeled
          exact nomatch hreason
        · obtain ⟨edge, -, rfl⟩ := Option.map_eq_some_iff.mp hdefault
          exact nomatch hreason

end Run

namespace Code

/-! ### The branches of a condition -/

/-- Whether a step writes the line between the two branches of a condition. -/
def Step.isOtherwise : Step → Bool
  | .line ⟨_, .otherwise⟩ => true
  | _ => false

namespace Emission

/-- Whether a condition is opened. -/
def OpensIf (e : Emission) : Prop :=
  ∃ depth condition, ⟨depth, .openIf condition⟩ ∈ e.lines

/-- **The nodes that are visited in a branch** of a condition, in front of the line between the two
branches or behind it. -/
def branch (e : Emission) (result : Bool) : List NodeId :=
  waiting <|
    if result then e.follow.takeWhile (!·.isOtherwise) else e.follow.dropWhile (!·.isOtherwise)

end Emission

/-- **What a branch begins with**: the node behind the first arrow labeled like the result. -/
theorem branch_emitCondition (g : Graph) (id : NodeId) (depth : Nat) (condition : String)
    (result : Bool) :
    (emitCondition g id depth (some condition)).branch result =
      (branch? g id (truthText result)).toList := by
  cases htrue : branch? g id "true" <;> cases hfalse : branch? g id "false" <;> cases result <;>
    simp [emitCondition, Emission.branch, Step.isOtherwise, truthText, htrue, hfalse]

theorem opensIf_emitCondition_iff {depth : Nat} {label? : Option String} :
    (emitCondition g id depth label?).OpensIf ↔ label? ≠ none := by
  cases label? <;> simp [emitCondition, Emission.OpensIf]

/-- A label that is empty or has something but blanks in it counts for the code if it counts for
execution. -/
theorem labelOf?_eq_none_iff
    (hlabel : ∀ text, node.label = some text → text = "" ∨ Text.trim text ≠ "") :
    labelOf? node = none ↔ node.predicate? = none := by
  cases h : node.label with
  | none => simp [labelOf?, Node.predicate?, h]
  | some text =>
    rcases hlabel text h with rfl | htrim
    · simp [labelOf?, Node.predicate?, h, show Text.trim "" = "" from rfl]
    · have hne : text ≠ "" := by
        rintro rfl
        exact htrim rfl
      simp [labelOf?, Node.predicate?, h, htrim, hne]

theorem labelOf?_ne_none (h : node.predicate? ≠ none) : labelOf? node ≠ none := by
  have hlabel : ∀ text, node.label = some text → text = "" ∨ Text.trim text ≠ "" := by
    refine fun text htext => .inr fun htrim => h ?_
    simp [Node.predicate?, htext, htrim]
  rwa [ne_eq, labelOf?_eq_none_iff hlabel]

/-- **Where code and execution agree on squares.** Unless its label consists of blanks, a condition
is opened for a square exactly if execution takes a decision there. If an arrow is labeled like a
result, the branch for that result begins with the node where execution goes whenever the predicate
has that result; otherwise nothing is visited in that branch. -/
theorem emit_of_square (depth : Nat) (hnode : g.node? id = some node)
    (hshape : node.shape = .square)
    (hlabel : ∀ text, node.label = some text → text = "" ∨ Text.trim text ≠ "") :
    ((emit g node depth).OpensIf ↔ node.predicate? ≠ none) ∧
      ∀ predicate, node.predicate? = some predicate → ∀ result,
        ((∃ arrow ∈ g.outgoing id, arrow.1.isLabeled (truthText result)) →
          ∀ context, Predicate.holds predicate context = result →
            ∃ chosen, Run.choose? g id context = some chosen ∧
              (emit g node depth).branch result = [chosen.target]) ∧
        ((∀ arrow ∈ g.outgoing id, ¬ arrow.1.isLabeled (truthText result)) →
          (emit g node depth).branch result = []) := by
  have hemit : emit g node depth = emitCondition g id depth (labelOf? node) := by
    rw [← Graph.id_of_node?_eq_some hnode]
    simp [emit, hshape]
  refine ⟨?_, fun predicate hpredicate result => ?_⟩
  · rw [hemit, opensIf_emitCondition_iff, ne_eq, labelOf?_eq_none_iff hlabel]
  · obtain ⟨condition, hcondition⟩ :=
      Option.ne_none_iff_exists'.mp (labelOf?_ne_none (hpredicate ▸ Option.some_ne_none predicate))
    rw [hemit, hcondition, branch_emitCondition]
    constructor
    · intro hlabeled context hresult
      -- some arrow is labeled like the result, so there is a first one
      obtain ⟨first, hfirst⟩ := Option.isSome_iff_exists.mp
        (List.find?_isSome.mpr hlabeled)
      have hbranch : branch? g id (truthText result) = some first.1.target :=
        Option.map_eq_some_iff.mpr ⟨first, hfirst, rfl⟩
      obtain ⟨chosen, hchosen, htarget⟩ := Run.choose?_of_branch? hnode hpredicate hresult hbranch
      exact ⟨chosen, hchosen, by rw [hbranch, htarget]; rfl⟩
    · intro hnone
      have hfind : (g.outgoing id).find? (·.1.isLabeled (truthText result)) = none :=
        List.find?_eq_none.mpr hnone
      simp [branch?, hfind]

/-- A square with two branches, labeled in capital letters, whose predicate holds in one context and
does not hold in another one. -/
theorem emit_of_square_labeled :
    let node : Node := ⟨1, ⟨0, 0⟩, .square, some " x ", .none⟩
    let g := Graph.ofParts
      [node, ⟨2, ⟨0, 0⟩, .circle, none, .none⟩, ⟨3, ⟨0, 0⟩, .circle, none, .none⟩]
      [⟨1, 2, some "FALSE"⟩, ⟨1, 3, some "True"⟩]
    (emit g node 0).OpensIf ∧
      (∃ chosen, Run.choose? g 1 (.ofText "\x7b\"x\": true\x7d") = some chosen ∧
        (emit g node 0).branch true = [chosen.target]) ∧
      ∃ chosen, Run.choose? g 1 .empty = some chosen ∧
        (emit g node 0).branch false = [chosen.target] := by
  intro node g
  have hlabel : ∀ text, node.label = some text → text = "" ∨ Text.trim text ≠ "" := by
    intro text htext
    obtain rfl := Option.some.inj htext
    exact .inr (by decide)
  have hnode : g.node? 1 = some node := rfl
  obtain ⟨hopens, hbranches⟩ := emit_of_square 0 hnode rfl hlabel
  have hpredicate : node.predicate? = some "x" := by decide
  refine ⟨hopens.mpr (hpredicate ▸ nofun), ?_, ?_⟩
  · exact (hbranches "x" hpredicate true).1 (by decide) _ (by decide +kernel)
  · exact (hbranches "x" hpredicate false).1 (by decide) _ (by decide +kernel)

/-- **Where they do not agree.** Execution falls back on an arrow without a label, but nothing is
visited in the branch of the code; and a condition is opened for a label that consists of blanks,
although execution takes no decision there. -/
theorem emit_of_square_fallback :
    let node : Node := ⟨1, ⟨0, 0⟩, .square, some "x", .none⟩
    let blank : Node := ⟨1, ⟨0, 0⟩, .square, some "  ", .none⟩
    let behind : Node := ⟨2, ⟨0, 0⟩, .parallelogram, some "y", .none⟩
    let g := Graph.ofParts [node, behind] [⟨1, 2, none⟩]
    (node.predicate? = some "x" ∧ Predicate.holds "x" .empty = false ∧
      Run.choose? g 1 .empty = some ⟨0, 2, .unlabeledFallback⟩ ∧
      (emit g node 0).branch false = []) ∧
    (emit (.ofParts [blank, behind] [⟨1, 2, none⟩]) blank 0).OpensIf ∧ blank.predicate? = none := by
  refine ⟨⟨by decide, by decide +kernel, by decide +kernel, by decide⟩, ?_, by decide⟩
  exact opensIf_emitCondition_iff.mpr (by decide)

end Code

end Flowchart
