import Flowchart.Proofs.Graph.Editing
import Flowchart.Session

/-!
# Deleting a node

Every part of a session may refer to a node: arrows lead there, a run stands on it, it is selected,
and suggestions join it to others. When a node is deleted, each part has to give up what refers to
the node and to keep everything else. What this comes to is written down part by part
(`Flowchart.Session.Deletes`), and a deletion does just that, whatever the session was busy with
(`Flowchart.Session.deleteNode_sets_right`).

Nothing is lost. The node and the arrows that are returned make up, with those that are left, all
that there was (`Flowchart.Session.Deletes.perm_nodes`, `Flowchart.Session.Deletes.perm_edges`). As
they are returned in the order of the graph, the deletion can be undone.
-/

namespace Flowchart.Session

variable {s s' : Session} {id : NodeId} {removed : Graph.Removed}

/-- **What the deletion of a node makes of a session.** -/
structure Deletes (s : Session) (id : NodeId) (removed : Graph.Removed) (s' : Session) : Prop where
  /-- The node is the first one with the id. Those before it and behind it are left. -/
  nodes : ∃ before behind, s.graph.SplitsAt id before removed.node behind ∧
    s'.graph.nodes = before ++ behind
  /-- The arrows that end at the node are returned. -/
  removedEdges : removed.edges =
    s.graph.edges.filter fun edge => edge.source = id ∨ edge.target = id
  /-- The others are left. -/
  edges : s'.graph.edges = s.graph.edges.filter fun edge => edge.source ≠ id ∧ edge.target ≠ id
  nextId : s'.graph.nextId = s.graph.nextId
  /-- An execution that stands elsewhere goes on. -/
  elsewhere : s.cursor.current ≠ some id → s'.execution = s.execution
  /-- An execution that stands on the node is idle, and no tick can move it. -/
  there : s.cursor.current = some id →
    s'.cursor = .idle ∧ ∀ token, s'.execution.isCurrent token = false
  /-- The selection is given up if it is the node. -/
  selected : s.selected = some id → s'.selected = none
  /-- Any other selection is kept. -/
  otherSelected : s.selected ≠ some id → s'.selected = s.selected
  /-- The suggestions that join other nodes are left, with their numbers and as they were selected.
  -/
  pending : s'.board.pending = s.board.pending.filter fun suggestion =>
    suggestion.edge.source ≠ id ∧ suggestion.edge.target ≠ id
  issued : s'.board.issued = s.board.issued
  contextText : s'.contextText = s.contextText
  config : s'.config = s.config

namespace Deletes

/-- **No node is lost.** -/
theorem perm_nodes (h : s.Deletes id removed s') :
    (removed.node :: s'.graph.nodes).Perm s.graph.nodes := by
  obtain ⟨before, behind, hsplit, hnodes⟩ := h.nodes
  rw [hsplit.nodes, hnodes]
  exact List.perm_middle.symm

/-- **No arrow is lost.** -/
theorem perm_edges (h : s.Deletes id removed s') :
    (removed.edges ++ s'.graph.edges).Perm s.graph.edges := by
  have hleft : s'.graph.edges =
      s.graph.edges.filter fun edge => !decide (edge.source = id ∨ edge.target = id) := by
    rw [h.edges]
    exact List.filter_congr fun edge _ => by simp
  rw [h.removedEdges, hleft]
  exact List.filter_append_perm _ _

/-- Where ids are different, no node is left with the id of the one that is gone. -/
theorem notMem_ids (h : s.Deletes id removed s') (hids : s.graph.ids.Nodup) :
    id ∉ s'.graph.ids := by
  obtain ⟨_, _, hsplit, -⟩ := h.nodes
  have hperm : (removed.node.id :: s'.graph.ids).Perm s.graph.ids := h.perm_nodes.map Node.id
  have hnodup := hperm.nodup_iff.mpr hids
  rw [hsplit.id_eq] at hnodup
  exact (List.nodup_cons.mp hnodup).1

end Deletes

/-- **A node that is there can be deleted**, and that is what becomes of the session. -/
theorem exists_deletes (hid : id ∈ s.graph.ids) :
    ∃ removed s', s.deleteNode id = .ok (removed, s') ∧ s.Deletes id removed s' := by
  obtain ⟨before, node, behind, hsplit⟩ := Graph.exists_splitsAt_iff.mpr hid
  refine ⟨_, _, bind_pure_eq_ok_iff.mpr ⟨_, hsplit.removeNode, rfl⟩, ?_⟩
  exact {
    nodes := ⟨before, behind, hsplit, rfl⟩
    removedEdges := List.filter_congr fun edge _ => by simp [Edge.touches]
    edges := List.filter_congr fun edge _ => by simp [Edge.touches]
    nextId := rfl
    elsewhere := fun hcurrent => if_neg hcurrent
    there := fun hcurrent => by
      have hreset : s.execution.nodeRemoved id = s.execution.reset := if_pos hcurrent
      exact ⟨congrArg Run.Execution.cursor hreset, fun token => by
        change (s.execution.nodeRemoved id).isCurrent token = false
        rw [hreset, Run.Execution.isCurrent_reset]⟩
    selected := fun hselected => if_pos hselected
    otherSelected := fun hselected => if_neg hselected
    pending := List.filter_congr fun suggestion _ => by simp [Wiring.Suggestion.touches]
    issued := rfl
    contextText := rfl
    config := rfl }

/-- **Deleting a node** succeeds if the node is there, and sets right what refers to it and nothing
else. All nodes and all arrows are returned or left. -/
theorem deleteNode_sets_right (hid : id ∈ s.graph.ids) :
    ∃ removed s', s.deleteNode id = .ok (removed, s') ∧ s.Deletes id removed s' ∧
      (removed.node :: s'.graph.nodes).Perm s.graph.nodes ∧
      (removed.edges ++ s'.graph.edges).Perm s.graph.edges ∧
      (s.graph.ids.Nodup → id ∉ s'.graph.ids) := by
  obtain ⟨removed, s', hdelete, hdeletes⟩ := exists_deletes hid
  exact ⟨removed, s', hdelete, hdeletes, hdeletes.perm_nodes, hdeletes.perm_edges,
    hdeletes.notMem_ids⟩

/-- A run stands on the second of three nodes, which is selected. Two arrows and one of two
suggestions go with it. -/
theorem deleteNode_sets_right_running :
    let g : Graph := ⟨[⟨1, ⟨0, 0⟩, .circle, none, .none⟩, ⟨2, ⟨0, 0⟩, .square, none, .none⟩,
      ⟨3, ⟨0, 0⟩, .square, none, .none⟩], [⟨1, 2, none⟩, ⟨1, 3, none⟩, ⟨2, 3, some "n"⟩], 4⟩
    let board : Wiring.Board :=
      ⟨[⟨⟨1⟩, ⟨1, 2, "a", none, none⟩, true⟩, ⟨⟨2⟩, ⟨1, 3, "b", none, none⟩, false⟩], 2⟩
    let s : Session := { start g .default "x = 1" with
      board, execution := ⟨⟨some 2, true⟩, 4⟩, selected := some 2 }
    2 ∈ s.graph.ids ∧ ∃ removed s', s.deleteNode 2 = .ok (removed, s') ∧
      removed.edges = [⟨1, 2, none⟩, ⟨2, 3, some "n"⟩] ∧ s'.graph.edges = [⟨1, 3, none⟩] ∧
      2 ∉ s'.graph.ids ∧ s'.execution.isCurrent ⟨4⟩ = false ∧ s'.selected = none ∧
      s'.board.pending = [⟨⟨2⟩, ⟨1, 3, "b", none, none⟩, false⟩] := by
  intro g board s
  have hid : 2 ∈ s.graph.ids := by decide
  obtain ⟨removed, s', hdelete, hdeletes, -, -, hgone⟩ := deleteNode_sets_right hid
  have hedges : removed.edges = [⟨1, 2, none⟩, ⟨2, 3, some "n"⟩] :=
    hdeletes.removedEdges.trans (by decide)
  exact ⟨hid, removed, s', hdelete, hedges, hdeletes.edges.trans (by decide), hgone (by decide),
    (hdeletes.there rfl).2 ⟨4⟩, hdeletes.selected rfl, hdeletes.pending.trans (by decide)⟩

end Flowchart.Session
