import Flowchart.Proofs.Graph.Editing
import Flowchart.Proofs.Session.Export

/-!
# Arrows from a node to itself

An arrow gets into a graph in three ways: it is added, it is suggested, or it stands in the document
that is opened. A *self-loop*, an arrow from a node to itself, is refused when it is added, and a
suggestion is added in the same way. Opening a document does not ask: both ends of a self-loop are
nodes of the document, and nothing else is checked.

So a graph without self-loops has none whatever is done with it, while a graph that was opened may
have some. No operation makes a self-loop; at most it takes some away, or gives them other labels
(`Flowchart.Session.selfLoops_perform`). By induction along the operations, the self-loops of a
session are some of those of its document, in their order
(`Flowchart.Session.selfLoops_after_start`).
-/

namespace Flowchart

/-- The node that an arrow leads to and comes from, if it is a self-loop. -/
def Edge.loop? (edge : Edge) : Option NodeId :=
  if edge.source = edge.target then some edge.source else none

namespace Graph

variable {g g' : Graph}

/-- **The self-loops of a graph**, as the nodes that have one, in the order of the arrows. A node
with several of them occurs as often. -/
def selfLoops (g : Graph) : List NodeId :=
  g.edges.filterMap Edge.loop?

theorem selfLoops_eq_nil_iff :
    g.selfLoops = [] ↔ ∀ edge ∈ g.edges, edge.source ≠ edge.target := by
  simp [selfLoops, List.filterMap_eq_nil_iff, Edge.loop?]

/-! ### Edits -/

theorem selfLoops_sublist (h : g'.edges.Sublist g.edges) : g'.selfLoops.Sublist g.selfLoops :=
  h.filterMap Edge.loop?

theorem selfLoops_append {edge : Edge} (h : edge.source ≠ edge.target) :
    { g with edges := g.edges ++ [edge] }.selfLoops = g.selfLoops := by
  simp [selfLoops, Edge.loop?, h]

/-- **No edit makes a self-loop.** -/
theorem selfLoops_of_edit {e : Edit} {reply : Edit.Reply} (h : g.edit e = .ok (reply, g')) :
    g'.selfLoops.Sublist g.selfLoops := by
  cases edit_eq_ok_iff.mp h with
  | newNode => exact List.Sublist.refl _
  | node => exact List.Sublist.refl _
  | newEdge label hne => rw [selfLoops_append hne]
  | @edge before behind edge label hsplit =>
    -- the arrow has the same ends with its new label
    have hloop : { edge with label }.loop? = edge.loop? := rfl
    simp only [selfLoops, hsplit, List.filterMap_append, List.filterMap_cons, hloop]
    exact List.Sublist.refl _
  | noEdge hsplit =>
    refine selfLoops_sublist ?_
    rw [hsplit]
    exact (List.sublist_cons_self _ _).append_left _

/-- A row of edits makes no self-loop. -/
theorem selfLoops_editAll (g : Graph) (edits : List Edit) :
    (g.editAll edits).selfLoops.Sublist g.selfLoops := by
  induction edits generalizing g with
  | nil => exact List.Sublist.refl _
  | cons e edits ih =>
    refine (ih (g.tryEdit e)).trans ?_
    rw [tryEdit]
    split
    · next reply g' h => exact selfLoops_of_edit h
    · exact List.Sublist.refl _

theorem selfLoops_of_removeNode {id : NodeId} {removed : Removed}
    (h : g.removeNode id = .ok (removed, g')) : g'.selfLoops.Sublist g.selfLoops := by
  obtain ⟨node, -, -, rfl⟩ := removeNode_eq_ok_iff.mp h
  exact selfLoops_sublist List.filter_sublist

end Graph

namespace Document

variable {d : Document} {g : Graph}

/-- **Opening a document lets self-loops in**: its arrows are those of the graph, and with one more
from a node to itself it is opened too. -/
theorem toGraph_selfLoop (h : d.toGraph = .ok g) :
    g.edges = d.edges ∧ ∀ id ∈ g.ids, ∀ label,
      ∃ g', { d with edges := d.edges ++ [Edge.mk id id label] }.toGraph = .ok g' ∧
        g'.selfLoops = g.selfLoops ++ [id] := by
  obtain ⟨hversion, hrange, hnodup, hends, rfl⟩ := toGraph_eq_ok_iff.mp h
  refine ⟨rfl, fun id hid label =>
    ⟨_, toGraph_eq_ok_iff.mpr ⟨hversion, hrange, hnodup, fun edge hedge => ?_, rfl⟩, ?_⟩⟩
  · rcases List.mem_append.mp hedge with hold | hnew
    · exact hends edge hold
    · obtain rfl := List.mem_singleton.mp hnew
      exact ⟨hid, hid⟩
  · simp [Graph.selfLoops, Graph.ofParts, Edge.loop?]

end Document

namespace Session

/-! ### Operations -/

theorem selfLoops_foldl_addSuggested (g : Graph) (ms : List Wiring.Match) :
    (ms.foldl addSuggested g).selfLoops = g.selfLoops :=
  foldl_addSuggested_of (P := fun g' => g'.selfLoops = g.selfLoops) rfl
    fun _ hsame _ _ hjoins _ => (Graph.selfLoops_append hjoins.2.2).trans hsame

/-- **No operation makes a self-loop.** -/
theorem selfLoops_perform (s : Session) (action : Action) :
    (s.perform action).2.graph.selfLoops.Sublist s.graph.selfLoops := by
  rcases s.graph_perform_cases action with
    ⟨e, reply, -, hedit⟩ | ⟨id, removed, -, hremove⟩ | ⟨ms, hgraph⟩ | hgraph
  · exact Graph.selfLoops_of_edit hedit
  · exact Graph.selfLoops_of_removeNode hremove
  · rw [hgraph, selfLoops_foldl_addSuggested]
  · rw [hgraph]

/-- **No row of operations makes a self-loop.** -/
theorem selfLoops_after (s : Session) (actions : List Action) :
    (s.after actions).graph.selfLoops.Sublist s.graph.selfLoops := by
  induction actions generalizing s with
  | nil => exact List.Sublist.refl _
  | cons action actions ih => exact (ih (s.perform action).2).trans (s.selfLoops_perform action)

/-- **Where self-loops come from.** A graph is edited, and then a session begins with it, in which
anything is done. The self-loops that there are then are some of those at the beginning, in their
order. The empty graph has none. A graph that was opened has those of its document, which may have
any: with one more at one of its nodes, it is opened too. -/
theorem selfLoops_after_start (g : Graph) (edits : List Graph.Edit) (config : Config)
    (contextText : String) (actions : List Action) :
    let s := (start (g.editAll edits) config contextText).after actions
    s.graph.selfLoops.Sublist g.selfLoops ∧
      (g = .empty → ∀ edge ∈ s.graph.edges, edge.source ≠ edge.target) ∧
      ∀ d : Document, d.toGraph = .ok g → g.edges = d.edges ∧ ∀ id ∈ g.ids, ∀ label,
        ∃ g', { d with edges := d.edges ++ [Edge.mk id id label] }.toGraph = .ok g' ∧
          g'.selfLoops = g.selfLoops ++ [id] := by
  intro s
  have hkept : s.graph.selfLoops.Sublist g.selfLoops :=
    (selfLoops_after _ actions).trans (g.selfLoops_editAll edits)
  refine ⟨hkept, ?_, fun d hopen => Document.toGraph_selfLoop hopen⟩
  rintro rfl
  exact Graph.selfLoops_eq_nil_iff.mp (List.sublist_nil.mp hkept)

/-- A document is opened with a self-loop at each of two nodes. One of them is given a label, and no
further one can be added; then its node is deleted, and the other one is left. -/
theorem selfLoops_after_start_opened :
    let d : Document := ⟨"1.0",
      [⟨1, ⟨0, 0⟩, .circle, none, .none⟩, ⟨2, ⟨0, 0⟩, .square, none, .none⟩],
      [⟨1, 1, none⟩, ⟨2, 2, none⟩], none⟩
    let g := Graph.ofParts d.nodes d.edges
    let edits : List Graph.Edit := [.setEdgeLabel 0 (some "again"), .addEdge 1 1 none]
    let s := (start (g.editAll edits) .default "").after [.deleteNode 1]
    d.toGraph = .ok g ∧ g.edges = d.edges ∧ g.selfLoops = [1, 2] ∧ s.graph.selfLoops = [2] ∧
      s.graph.selfLoops.Sublist g.selfLoops := by
  intro d g edits s
  have hopen : d.toGraph = .ok g := rfl
  obtain ⟨hkept, -, hdocument⟩ := selfLoops_after_start g edits .default "" [.deleteNode 1]
  exact ⟨hopen, (hdocument d hopen).1, by decide, by decide, hkept⟩

/-- **Not every graph is without self-loops.** A document with an arrow from a node to itself is
opened, although such an arrow is refused when it is added. -/
theorem toGraph_selfLoop_accepted :
    let d : Document := ⟨"1.0", [⟨1, ⟨0, 0⟩, .circle, none, .none⟩], [⟨1, 1, none⟩], none⟩
    ∃ g, d.toGraph = .ok g ∧ (∃ edge ∈ g.edges, edge.source = edge.target) ∧
      g.edit (.addEdge 1 1 none) = .error (.selfLoop 1) :=
  ⟨_, rfl, ⟨_, List.mem_singleton_self _, rfl⟩, rfl⟩

end Session

end Flowchart
