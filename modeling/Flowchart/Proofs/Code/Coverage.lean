import Flowchart.Proofs.Code.Branches
import Flowchart.Proofs.Graph.Reachable
import Flowchart.Proofs.Run.Stepping
import Mathlib.Data.List.Induction

/-!
# What the code covers of an execution

The code of a flowchart is meant to do what the flowchart does. Here only the nodes are compared:
those that an execution comes to, from idle and with any context for every step, and those that the
code writes.

Both begin at the first node and go along arrows, but they choose them differently. The code follows
all arrows from most nodes, no arrow from a circle or a square without a label, and from a square
with a label the arrows labeled like a result. Execution goes on from every node that an arrow
leaves. So a run stays among the nodes of the code as long as it takes arrows that the code follows
(`Flowchart.Code.IsFollowed`), and the first node that it comes to along another arrow may be
missing. This is the only way to leave the code, because one step stays in it unless it takes such
an arrow (`Flowchart.Code.Covers.step`).
-/

namespace Flowchart

variable {g : Graph} {source : NodeId} {context : Predicate.Context} {chosen : Run.Candidate}

namespace Code

open Run (Execution)

/-- **The code follows an arrow** that execution follows: it leaves a circle with a label, or it
leaves a square because of its label, or it leaves a node of another shape. -/
def IsFollowed (g : Graph) (source : NodeId) (chosen : Run.Candidate) : Prop :=
  ∃ node, g.node? source = some node ∧
    match node.shape with
    | .circle => labelOf? node ≠ none
    | .square => ∃ result, chosen.reason = .matchesResult result
    | _ => True

/-- **The code continues along an arrow that it follows.** -/
theorem IsFollowed.continues (hg : g.HasEnds) (h : IsFollowed g source chosen)
    (hchosen : Run.choose? g source context = some chosen) : Continues g source chosen.target := by
  obtain ⟨node, hnode, hshape⟩ := h
  have hid := Graph.id_of_node?_eq_some hnode
  refine ⟨node, hnode, ?_, Run.target_mem_ids_of_choose? hg hchosen⟩
  have htargets : chosen.target ∈ targets g node.id := by
    obtain ⟨edge, hplace, hsource, htarget⟩ :=
      Run.exists_edge_of_mem_candidates (List.mem_of_head? hchosen)
    exact List.mem_map.mpr
      ⟨(edge, chosen.index), Graph.mem_outgoing_iff.mpr ⟨hplace, hsource.trans hid.symm⟩, htarget⟩
  cases hcase : node.shape with
  | circle =>
    rw [hcase] at hshape
    obtain ⟨label, hlabel⟩ := Option.ne_none_iff_exists'.mp hshape
    simpa [successors, hcase, hlabel] using htargets
  | square =>
    rw [hcase] at hshape
    obtain ⟨result, hreason⟩ := hshape
    -- the label that decides is the one for the code, so the branch is written
    obtain ⟨⟨other, hother, hpredicate⟩, hbranch⟩ := Run.branch?_of_choose? hchosen hreason
    obtain rfl := Option.some.inj (hnode.symm.trans hother)
    obtain ⟨label, hlabel⟩ := Option.ne_none_iff_exists'.mp (labelOf?_ne_none hpredicate)
    rw [← hid] at hbranch
    cases result <;> simp [successors, hcase, hlabel, ← hbranch, Predicate.Value.truthText]
  | _ => simpa [successors, hcase] using htargets

/-- **The cursor is on a node that is written**, if it is on any. -/
def Covers (g : Graph) (e : Execution) : Prop :=
  ∀ id, e.cursor.current = some id → id ∈ writtenNodes g

/-- **A step stays among the nodes that are written**, unless it takes an arrow that the code does
not follow. -/
theorem Covers.step {e : Execution} (hg : g.HasEnds) (h : Covers g e)
    (htaken : ∀ source chosen, e.cursor.current = some source →
      Run.choose? g source context = some chosen → ¬ IsFollowed g source chosen →
        chosen.target ∈ writtenNodes g) : Covers g (e.step g context).2 := by
  intro id hcurrent
  rcases Execution.step_cases (Prod.eta (e.step g context)).symm with
    ⟨first, -, hfirst, -, he⟩ | ⟨hnone, -, -, he⟩ | ⟨source, chosen, hsource, hchosen, -, he⟩ |
      ⟨source, -, -, -, he⟩
  all_goals rw [he] at hcurrent
  · obtain rfl : first.id = id := Option.some.inj hcurrent
    exact mem_writtenNodes_iff.mpr ⟨first, hfirst, .refl⟩
  · exact absurd (hcurrent.symm.trans hnone) (Option.some_ne_none id)
  · obtain rfl : chosen.target = id := Option.some.inj hcurrent
    by_cases hfollowed : IsFollowed g source chosen
    · obtain ⟨first, hfirst, hreach⟩ := mem_writtenNodes_iff.mp (h source hsource)
      exact mem_writtenNodes_iff.mpr
        ⟨first, hfirst, hreach.tail (hfollowed.continues hg hchosen)⟩
    · exact htaken source chosen hsource hchosen hfollowed
  · exact nomatch hcurrent

/-- **What the code covers of a run.** A run comes to nodes that the code writes exactly once, all
the way, exactly if every arrow on its way that the code does not follow leads to a node that is
written anyway. -/
theorem count_writtenNodes_iff (hg : g.Reachable) (contexts : List Predicate.Context) :
    (∀ done, done <+: contexts → ∀ id, (Execution.initial.steps g done).cursor.current = some id →
        (writtenNodes g).count id = 1) ↔
      ∀ done context, done ++ [context] <+: contexts → ∀ source chosen,
        (Execution.initial.steps g done).cursor.current = some source →
          Run.choose? g source context = some chosen → ¬ IsFollowed g source chosen →
            chosen.target ∈ writtenNodes g := by
  have hcount : ∀ {id}, (writtenNodes g).count id = 1 ↔ id ∈ writtenNodes g := by
    intro id
    rw [(nodup_writtenNodes g).count, ite_eq_left_iff]
    tauto
  simp only [hcount]
  constructor
  · intro hcovers done context hdone source chosen hcurrent hchosen _
    refine hcovers (done ++ [context]) hdone chosen.target ?_
    rw [Execution.steps_append_singleton, Execution.step, hcurrent]
    simp [hchosen, Execution.moveTo]
  · intro htaken done
    -- a longer run is the shorter one with a step at its end
    induction done using List.reverseRecOn with
    | nil => exact fun _ id hcurrent => absurd hcurrent (Option.some_ne_none id).symm
    | append_singleton done context ih =>
      intro hdone
      have hbefore : Covers g (Execution.initial.steps g done) :=
        ih ((List.prefix_append done [context]).trans hdone)
      rw [Execution.steps_append_singleton]
      exact hbefore.step hg.isOrderly.ends (htaken done context hdone)

/-- Behind a loop comes a statement, and a run comes to both of them. -/
theorem count_writtenNodes_statement :
    let d : Document := ⟨"1.0", [⟨1, ⟨0, 0⟩, .circle, some "n", .none⟩,
      ⟨2, ⟨0, 0⟩, .parallelogram, some "n", .none⟩], [⟨1, 2, none⟩], none⟩
    let g := Graph.ofParts d.nodes d.edges
    let contexts : List Predicate.Context := [.empty, .empty]
    d.toGraph = .ok g ∧ (Execution.initial.steps g contexts).cursor.current = some 2 ∧
      (writtenNodes g).count 2 = 1 := by
  intro d g contexts
  have hopen : d.toGraph = .ok g := rfl
  have hcurrent : (Execution.initial.steps g contexts).cursor.current = some 2 := by decide +kernel
  have hg : g.Reachable := .pristine (.inr ⟨d, hopen⟩)
  refine ⟨hopen, hcurrent, (count_writtenNodes_iff hg contexts).mpr ?_ contexts List.prefix_rfl 2
    hcurrent⟩
  intro done context _ source chosen _ hchosen hnot
  -- the only arrow leaves the circle, and that has a label
  obtain ⟨edge, hplace, hsource, -⟩ := Run.exists_edge_of_mem_candidates (List.mem_of_head? hchosen)
  obtain rfl := List.mem_singleton.mp (List.mem_of_getElem? hplace)
  obtain rfl : 1 = source := hsource
  exact absurd ⟨_, rfl, by simp [labelOf?]⟩ hnot

/-- **Not everything that an execution comes to is written.** A loop without a label ends the walk,
but execution goes on behind it. -/
theorem count_writtenNodes_loop :
    let d : Document := ⟨"1.0", [⟨1, ⟨0, 0⟩, .circle, none, .none⟩,
      ⟨2, ⟨0, 0⟩, .parallelogram, some "y", .none⟩], [⟨1, 2, none⟩], none⟩
    let g := Graph.ofParts d.nodes d.edges
    d.toGraph = .ok g ∧
      (Execution.initial.steps g [.empty, .empty]).cursor.current = some 2 ∧
      writtenNodes g = [1] := by
  intro d g
  have hfirst : g.first? = some ⟨1, ⟨0, 0⟩, .circle, none, .none⟩ := rfl
  have hnode : g.node? 1 = some ⟨1, ⟨0, 0⟩, .circle, none, .none⟩ := rfl
  refine ⟨rfl, by decide +kernel, ?_⟩
  rw [writtenNodes_eq hfirst, written_of_new List.not_mem_nil hnode]
  exact congrArg _ written_nil

end Code

end Flowchart
