import Flowchart.Proofs.Code.Descent
import Flowchart.Proofs.Graph.Reachable
import Flowchart.Proofs.Run.Priority

/-!
# Which nodes are visited

The loop marks a node as visited when it comes to it for the first time, and this is when the node
is written. The nodes that are marked in the end are told here without the loop: they are those that
can be reached from the first node when only some of the arrows are followed
(`Flowchart.Code.Follows`), and which ones hangs on the shape of the node that they leave.

| shape | followed arrows |
|---|---|
| circle with a label | all |
| square with a label | the first one labeled `true`, and the first one labeled `false` |
| circle or square without a label | none |
| any other | all |

That the loop marks nothing twice and forgets nothing is known of the walk. What is left is that a
turn of the loop does not change the order of the visits, if this is what is marked already together
with what the walk writes from there (`Flowchart.Code.Progress.order_turn`), and that the arrows
that are followed are those to the successors of a node (`Flowchart.Code.follows_iff_continues`).
-/

namespace Flowchart

open Predicate.Value (truthText)
open Relation (ReflTransGen)

variable {g : Graph} {source target id : NodeId} {node : Node}

/-- There is something in the label of a node. -/
def Node.IsLabeled (node : Node) : Prop :=
  ∃ label, node.label = some label ∧ label ≠ ""

namespace Code

open Progress (turn)

/-! ### The arrows that are followed -/

/-- **The code follows an arrow** from one node to another one. -/
inductive Follows (g : Graph) (source : NodeId) : NodeId → Prop where
  /-- Everything behind a circle is in its loop. -/
  | loop {node : Node} {index : Nat} {edge : Edge} (hnode : g.node? source = some node)
      (hshape : node.shape = .circle) (hlabel : node.IsLabeled)
      (harrow : g.Leaves source index edge) : Follows g source edge.target
  /-- A branch of a square begins behind the first arrow labeled like the result. -/
  | branch {node : Node} {index : Nat} {edge : Edge} (result : Bool)
      (hnode : g.node? source = some node) (hshape : node.shape = .square)
      (hlabel : node.IsLabeled) (harrow : g.LeavesFirst source (Edge.Answers · result) index edge) :
      Follows g source edge.target
  /-- Everything behind a statement comes after it. -/
  | statement {node : Node} {index : Nat} {edge : Edge} (hnode : g.node? source = some node)
      (hcircle : node.shape ≠ .circle) (hsquare : node.shape ≠ .square)
      (harrow : g.Leaves source index edge) : Follows g source edge.target

theorem exists_labelOf?_iff : (∃ label, labelOf? node = some label) ↔ node.IsLabeled := by
  simp only [labelOf?, Option.filter_eq_some_iff, decide_eq_true_eq, Node.IsLabeled]

theorem mem_targets_iff :
    target ∈ targets g id ↔ ∃ index edge, g.Leaves id index edge ∧ edge.target = target := by
  simp only [targets, List.mem_map, Prod.exists, Graph.mem_outgoing_iff, Graph.Leaves]
  exact exists_comm

/-- Where a branch begins. -/
theorem branch?_eq_some_iff {result : Bool} :
    branch? g id (truthText result) = some target ↔
      ∃ index edge, g.LeavesFirst id (Edge.Answers · result) index edge ∧ edge.target = target := by
  simp only [branch?, Option.map_eq_some_iff, Prod.exists,
    Graph.find?_outgoing_eq_some_iff (p := fun edge => edge.isLabeled (truthText result)),
    Edge.isLabeled_truthText_iff]
  exact exists_comm

/-- **The successors of a node**, shape by shape. -/
theorem mem_successors_iff :
    target ∈ successors g node ↔
      (node.shape = .circle ∧ node.IsLabeled ∧ target ∈ targets g node.id) ∨
      (node.shape = .square ∧ node.IsLabeled ∧
        ∃ result, branch? g node.id (truthText result) = some target) ∨
      (node.shape ≠ .circle ∧ node.shape ≠ .square ∧ target ∈ targets g node.id) := by
  rw [← exists_labelOf?_iff]
  cases hshape : node.shape with
  | circle => cases hlabel : labelOf? node <;> simp [successors, hshape, hlabel]
  | square =>
    cases hlabel : labelOf? node <;>
      simp [successors, hshape, hlabel, Bool.exists_bool, truthText, or_comm]
  | _ => simp [successors, hshape]

/-- **The arrows that are followed** from a node are those to its successors. -/
theorem follows_iff_continues (hg : g.HasEnds) :
    Follows g source target ↔ Continues g source target := by
  constructor
  · intro h
    cases h with
    | @loop node index edge hnode hshape hlabel harrow =>
      obtain rfl := Graph.id_of_node?_eq_some hnode
      have htarget := mem_targets_iff.mpr ⟨index, edge, harrow, rfl⟩
      exact ⟨node, hnode, mem_successors_iff.mpr (.inl ⟨hshape, hlabel, htarget⟩),
        (hg edge (List.mem_of_getElem? harrow.1)).2⟩
    | @branch node index edge result hnode hshape hlabel harrow =>
      obtain rfl := Graph.id_of_node?_eq_some hnode
      have hbranch := branch?_eq_some_iff.mpr ⟨index, edge, harrow, rfl⟩
      exact ⟨node, hnode, mem_successors_iff.mpr (.inr (.inl ⟨hshape, hlabel, result, hbranch⟩)),
        (hg edge (List.mem_of_getElem? harrow.leaves.1)).2⟩
    | @statement node index edge hnode hcircle hsquare harrow =>
      obtain rfl := Graph.id_of_node?_eq_some hnode
      have htarget := mem_targets_iff.mpr ⟨index, edge, harrow, rfl⟩
      exact ⟨node, hnode, mem_successors_iff.mpr (.inr (.inr ⟨hcircle, hsquare, htarget⟩)),
        (hg edge (List.mem_of_getElem? harrow.1)).2⟩
  · rintro ⟨node, hnode, hsuccessor, -⟩
    obtain rfl := Graph.id_of_node?_eq_some hnode
    obtain ⟨hshape, hlabel, htarget⟩ | ⟨hshape, hlabel, result, hbranch⟩ |
      ⟨hcircle, hsquare, htarget⟩ := mem_successors_iff.mp hsuccessor
    · obtain ⟨index, edge, harrow, rfl⟩ := mem_targets_iff.mp htarget
      exact .loop hnode hshape hlabel harrow
    · obtain ⟨index, edge, harrow, rfl⟩ := branch?_eq_some_iff.mp hbranch
      exact .branch result hnode hshape hlabel harrow
    · obtain ⟨index, edge, harrow, rfl⟩ := mem_targets_iff.mp htarget
      exact .statement hnode hcircle hsquare harrow

/-! ### The order of the visits -/

namespace Progress

/-- The nodes in the order in which they are visited for the first time: those that are marked
already, and those that the walk writes from there. -/
def order (g : Graph) (p : Progress) : List NodeId :=
  p.visited.reverse ++ written g p.visited p.pending

/-- **A turn does not change the order of the visits.** -/
theorem order_turn (g : Graph) (p : Progress) : (p.turn g).order g = p.order g := by
  rcases turn_cases g p with ⟨-, hturn⟩ | ⟨line, steps, hpending, hturn⟩ |
    ⟨id, depth, steps, hpending, hskip, hturn⟩ |
    ⟨id, depth, steps, node, hpending, hnew, hnode, hturn⟩
  all_goals rw [hturn]
  · rw [order, order, hpending, written_line]
  · rw [order, order, hpending, hskip.elim written_of_mem written_of_missing]
  · rw [order, order, hpending, written_of_new hnew hnode, List.reverse_cons, List.append_assoc,
      List.singleton_append]

/-- When the loop ends, it has marked what the walk writes, the last node on top. -/
theorem Leads.written_eq {steps : List Step} {visited : List NodeId} {lines : List Line}
    (h : Leads g ⟨[], steps, []⟩ ⟨visited, [], lines⟩) : written g [] steps = visited.reverse := by
  have horder := h.eq_of_turn (order_turn g)
  simpa only [order, written_nil, List.append_nil, List.reverse_nil, List.nil_append]
    using horder.symm

end Progress

/-- **Every node that is followed is visited, once.** The loop comes to an end. The nodes that it
marks on its way are those that are written, in the same order. None of them is marked twice, and
they are exactly the nodes that can be reached from the first one along arrows that are followed. -/
theorem visits_follow {first : Node} (hg : g.HasEnds) (h : g.first? = some first) :
    (∃ turns, (turn g)^[turns] ⟨[], [.visit first.id 0], []⟩ =
        ⟨(writtenNodes g).reverse, [], body g⟩) ∧
      (writtenNodes g).Nodup ∧
      ∀ id, id ∈ writtenNodes g ↔ ReflTransGen (Follows g) first.id id := by
  refine ⟨?_, nodup_writtenNodes g, fun id => ?_⟩
  · have hleads := leads_descend g first.id
    rw [writtenNodes_eq h, hleads.written_eq, List.reverse_reverse, body_eq_descend h]
    exact hleads
  · have hfollows : Follows g = Continues g :=
      funext fun source => funext fun target => propext (follows_iff_continues hg)
    rw [mem_writtenNodes_iff, hfollows, h]
    simp only [Option.some.injEq, exists_eq_left']

/-- One arrow leads back to the first node, a second one is labeled `true`, and the last one leaves
a circle without a label; neither of these two is followed. -/
theorem visits_follow_branches :
    let d : Document := ⟨"1.0", [⟨1, ⟨0, 0⟩, .square, some "x", .none⟩,
      ⟨2, ⟨0, 0⟩, .circle, some "", .none⟩, ⟨3, ⟨0, 0⟩, .hexagon, none, .none⟩,
      ⟨4, ⟨0, 0⟩, .diamond, some "y = 1", .none⟩],
      [⟨1, 3, some "FALSE"⟩, ⟨1, 2, some "true"⟩, ⟨3, 1, none⟩, ⟨1, 4, some "true"⟩,
        ⟨2, 4, none⟩], none⟩
    let g := Graph.ofParts d.nodes d.edges
    d.toGraph = .ok g ∧ writtenNodes g = [1, 2, 3] ∧
      ReflTransGen (Follows g) 1 3 ∧ ¬ ReflTransGen (Follows g) 1 4 := by
  intro d g
  have hopen : d.toGraph = .ok g := rfl
  have hg : g.Reachable := .pristine (.inr ⟨d, hopen⟩)
  have hfirst : g.first? = some ⟨1, ⟨0, 0⟩, .square, some "x", .none⟩ := rfl
  -- six turns: four visits, and the two lines that go with the branches
  have hleads : Progress.Leads g ⟨[], [.visit 1 0], []⟩ ⟨[3, 2, 1], [],
      [⟨0, .plain "# Conditional node"⟩, ⟨0, .openIf "x"⟩, ⟨1, .plain "# Loop node: loop"⟩,
        ⟨0, .otherwise⟩, ⟨0, .close⟩]⟩ := ⟨6, by decide +kernel⟩
  have hwritten : writtenNodes g = [1, 2, 3] := (writtenNodes_eq hfirst).trans hleads.written_eq
  obtain ⟨-, -, hfollow⟩ := visits_follow hg.isOrderly.ends hfirst
  refine ⟨hopen, hwritten, (hfollow 3).mp (by simp [hwritten]), fun h => ?_⟩
  have h4 := (hfollow 4).mpr h
  simp [hwritten] at h4

end Code

end Flowchart
