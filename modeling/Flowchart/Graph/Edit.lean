import Flowchart.Graph.Basic

/-!
# Editing flowcharts

Nodes and arrows are added at the end of their rows. A change names the node by its id or the arrow
by its place, and fails if there is none; it touches nothing else. An arrow may not lead from a node
to itself and must lead between nodes that exist. When a node is removed, the arrows that touch it
go with it.

An operation that may fail returns `Except Graph.Error`, so a failure leaves no changed graph
behind. `Graph.Edit` collects the operations that anyone who holds a graph may use; removing a node
is not among them, because others may have to be told (see `Flowchart.Session`).
-/

namespace Flowchart.Graph

/-- Why an edit is impossible. -/
inductive Error where
  | nodeNotFound (id : NodeId)
  | edgeNotFound (index : Nat)
  | selfLoop (id : NodeId)
  deriving DecidableEq

/-- The message of an error. -/
def Error.message : Error → String
  | nodeNotFound id => s!"Node {id.toNat} not found in the graph"
  | edgeNotFound index => s!"Edge #{index} not found in the graph"
  | selfLoop id => s!"Node {id.toNat} cannot be connected to itself"

/-! ### Nodes -/

/-- **Adds a node** without label and details, and returns its id. -/
def addNode (g : Graph) (position : Position) (shape : Shape) : NodeId × Graph :=
  (g.nextId,
    { g with
      nodes := g.nodes ++ [⟨g.nextId, position, shape, none, .none⟩]
      nextId := g.nextId.succ })

/-- Changes the node with a given id. -/
def updateNode (g : Graph) (id : NodeId) (f : Node → Node) : Except Error Graph :=
  if g.contains id then
    .ok { g with nodes := g.nodes.modify (g.nodes.findIdx (·.id = id)) f }
  else .error (.nodeNotFound id)

theorem updateNode_eq_error_iff {g : Graph} {id : NodeId} {f : Node → Node} {e : Error} :
    g.updateNode id f = .error e ↔ g.contains id = false ∧ e = .nodeNotFound id := by
  unfold updateNode
  by_cases h : g.contains id = true
  · simp [h]
  · simp [h, eq_comm]

/-- **A change that keeps the id of its node keeps all ids**, and their order. -/
theorem map_id_updateNode {g g' : Graph} {id : NodeId} {f : Node → Node}
    (hf : ∀ node, (f node).id = node.id) (h : g.updateNode id f = .ok g') :
    g'.nodes.map Node.id = g.nodes.map Node.id := by
  unfold updateNode at h
  split at h
  · obtain rfl : _ = g' := by simpa using h
    refine List.ext_getElem? fun i => ?_
    by_cases hi : g.nodes.findIdx (·.id = id) = i
    · cases hn : g.nodes[i]? <;> simp [hi, hn, hf]
    · simp [hi]
  · simp at h

/-- Moves a node. -/
def moveNode (g : Graph) (id : NodeId) (position : Position) : Except Error Graph :=
  g.updateNode id ({ · with position })

/-- Gives a node a label, or takes its label away. -/
def setLabel (g : Graph) (id : NodeId) (label : Option String) : Except Error Graph :=
  g.updateNode id ({ · with label })

/-- Changes some of the details of a node. -/
def setDetails (g : Graph) (id : NodeId) (change : Details.Change) : Except Error Graph :=
  g.updateNode id fun node => { node with details := node.details.change change }

/-- A node that was removed, with the arrows that touched it. -/
structure Removed where
  node : Node
  edges : List Edge
  deriving DecidableEq

/-- **Removes a node and the arrows that touch it.** -/
def removeNode (g : Graph) (id : NodeId) : Except Error (Removed × Graph) :=
  match g.node? id with
  | none => .error (.nodeNotFound id)
  | some node =>
    .ok (⟨node, g.edges.filter (·.touches id)⟩,
      { g with
        nodes := g.nodes.eraseP (·.id = id)
        edges := g.edges.filter (!·.touches id) })

/-! ### Arrows -/

/-- **Adds an arrow**, and returns its place in the row. -/
def addEdge (g : Graph) (source target : NodeId) (label : Option String) :
    Except Error (Nat × Graph) :=
  if source = target then .error (.selfLoop source)
  else if !g.contains source then .error (.nodeNotFound source)
  else if !g.contains target then .error (.nodeNotFound target)
  else .ok (g.edges.length, { g with edges := g.edges ++ [⟨source, target, label⟩] })

/-- **When an arrow can be added**: its two ends exist and differ. It is then the last one, and
nothing else changes. -/
theorem addEdge_eq_ok_iff {g g' : Graph} {source target : NodeId} {label : Option String}
    {index : Nat} :
    g.addEdge source target label = .ok (index, g') ↔
      source ≠ target ∧ g.contains source = true ∧ g.contains target = true ∧
        index = g.edges.length ∧ g' = { g with edges := g.edges ++ [⟨source, target, label⟩] } := by
  unfold addEdge
  by_cases hst : source = target
  · simp [hst]
  by_cases hs : g.contains source = true
  · by_cases ht : g.contains target = true
    · simp [hst, hs, ht, eq_comm]
    · simp [hst, hs, ht]
  · simp [hst, hs]

/-- Gives an arrow a label, or takes its label away. -/
def setEdgeLabel (g : Graph) (index : Nat) (label : Option String) : Except Error Graph :=
  if index < g.edges.length then
    .ok { g with edges := g.edges.modify index ({ · with label }) }
  else .error (.edgeNotFound index)

/-- Removes an arrow and returns it. -/
def removeEdge (g : Graph) (index : Nat) : Except Error (Edge × Graph) :=
  match g.edges[index]? with
  | some edge => .ok (edge, { g with edges := g.edges.eraseIdx index })
  | none => .error (.edgeNotFound index)

/-! ### Edits as data -/

/-- An edit of a graph. -/
inductive Edit where
  | addNode (position : Position) (shape : Shape)
  | moveNode (id : NodeId) (position : Position)
  | setLabel (id : NodeId) (label : Option String)
  | setDetails (id : NodeId) (change : Details.Change)
  | addEdge (source target : NodeId) (label : Option String)
  | setEdgeLabel (index : Nat) (label : Option String)
  | removeEdge (index : Nat)
  deriving DecidableEq

/-- What an edit returns. -/
inductive Edit.Reply where
  | done
  | node (id : NodeId)
  | index (index : Nat)
  | edge (edge : Edge)
  deriving DecidableEq

/-- **Carries out an edit.** -/
def edit (g : Graph) : Edit → Except Error (Edit.Reply × Graph)
  | .addNode position shape =>
    let (id, g) := g.addNode position shape
    .ok (.node id, g)
  | .moveNode id position => do return (.done, ← g.moveNode id position)
  | .setLabel id label => do return (.done, ← g.setLabel id label)
  | .setDetails id change => do return (.done, ← g.setDetails id change)
  | .addEdge source target label => do
    let (index, g) ← g.addEdge source target label
    return (.index index, g)
  | .setEdgeLabel index label => do return (.done, ← g.setEdgeLabel index label)
  | .removeEdge index => do
    let (edge, g) ← g.removeEdge index
    return (.edge edge, g)

end Flowchart.Graph
