import Flowchart.Proofs.Graph.Soundness
import Flowchart.Proofs.Rows

/-!
# What an edit does

An edit is refused, or it changes one thing. This file says which, without the definition of any
edit in sight.

* **Refused** (`Flowchart.Graph.Edit.IsRefused`): the node or the arrow that the edit names is not
  there; or an arrow would lead from a node to itself, or one of its ends is not there, and these
  are looked at in this order.
* **Changed** (`Flowchart.Graph.Edit.Changes`): one node or one arrow is different, gone or new, at
  its place between the others. All other nodes and arrows are what they were, in the same order.

Both are exact (`Flowchart.Graph.edit_eq_error_iff`, `Flowchart.Graph.edit_eq_ok_iff`). A node that
is named by its id is the first one with that id; the nodes are written as those before it, the
node, and those behind it (`Flowchart.Graph.SplitsAt`). The three edits that change a node are one
edit with different functions (`Flowchart.Graph.Edit.nodeChange?`).
-/

namespace Flowchart.Graph

variable {g g' : Graph} {id : NodeId} {before behind : List Node} {node : Node}

/-! ### The node with an id -/

/-- **The first node with an id**, between the nodes before it and those behind it. -/
structure SplitsAt (g : Graph) (id : NodeId) (before : List Node) (node : Node)
    (behind : List Node) : Prop where
  nodes : g.nodes = before ++ node :: behind
  id_eq : node.id = id
  first : ∀ other ∈ before, other.id ≠ id

/-- A graph has a node with an id exactly if it has a first one. -/
theorem exists_splitsAt_iff :
    (∃ before node behind, g.SplitsAt id before node behind) ↔ id ∈ g.ids := by
  constructor
  · rintro ⟨before, node, behind, hsplit⟩
    refine mem_ids.mpr ⟨node, ?_, hsplit.id_eq⟩
    rw [hsplit.nodes]
    exact List.mem_append_right _ List.mem_cons_self
  · intro hid
    obtain ⟨node, hnode⟩ := Option.isSome_iff_exists.mp (isSome_node?_iff.mpr hid)
    obtain ⟨hnodeId, before, behind, hnodes, hfirst⟩ := List.find?_eq_some_iff_append.mp hnode
    exact ⟨before, node, behind, hnodes, by simpa using hnodeId, by simpa using hfirst⟩

namespace SplitsAt

theorem mem_ids (h : g.SplitsAt id before node behind) : id ∈ g.ids :=
  exists_splitsAt_iff.mp ⟨before, node, behind, h⟩

theorem node?_eq (h : g.SplitsAt id before node behind) : g.node? id = some node :=
  List.find?_eq_some_iff_append.mpr
    ⟨by simpa using h.id_eq, before, behind, h.nodes, by simpa using h.first⟩

/-- **A change of the node** leaves the others where they are. -/
theorem updateNode (h : g.SplitsAt id before node behind) (f : Node → Node) :
    g.updateNode id f = .ok { g with nodes := before ++ f node :: behind } := by
  have hplace : (before ++ node :: behind).findIdx (·.id = id) = before.length :=
    findIdx_between (by simpa using h.first) (by simpa using h.id_eq)
  rw [Graph.updateNode, if_pos (contains_iff_mem_ids.mpr h.mem_ids), h.nodes, hplace,
    modify_between]

/-- **The removal of the node** leaves the others where they are. -/
theorem removeNode (h : g.SplitsAt id before node behind) :
    g.removeNode id = .ok (⟨node, g.edges.filter (·.touches id)⟩,
      { g with nodes := before ++ behind, edges := g.edges.filter (!·.touches id) }) := by
  have hrest : (before ++ node :: behind).eraseP (·.id = id) = before ++ behind :=
    eraseP_between (by simpa using h.first) (by simpa using h.id_eq)
  rw [Graph.removeNode, h.node?_eq, h.nodes, hrest]

end SplitsAt

/-- **What a change of a node makes of a graph.** -/
theorem updateNode_eq_ok_iff {f : Node → Node} :
    g.updateNode id f = .ok g' ↔ ∃ before node behind, g.SplitsAt id before node behind ∧
      g' = { g with nodes := before ++ f node :: behind } := by
  constructor
  · intro h
    have hid : id ∈ g.ids := by
      refine contains_iff_mem_ids.mp (eq_true_of_ne_false fun hnot => ?_)
      rw [updateNode_eq_error_iff.mpr ⟨hnot, rfl⟩] at h
      exact nomatch h
    obtain ⟨before, node, behind, hsplit⟩ := exists_splitsAt_iff.mpr hid
    rw [hsplit.updateNode] at h
    exact ⟨before, node, behind, hsplit, (Except.ok.inj h).symm⟩
  · rintro ⟨before, node, behind, hsplit, rfl⟩
    exact hsplit.updateNode f

theorem removeNode_eq_error_iff {error : Error} :
    g.removeNode id = .error error ↔ id ∉ g.ids ∧ error = .nodeNotFound id := by
  rw [removeNode, ← isSome_node?_iff]
  cases g.node? id with
  | none => simp [eq_comm]
  | some node => simp

/-! ### Edits that are refused -/

/-- The node that an edit changes, and what it makes of it. -/
def Edit.nodeChange? : Edit → Option (NodeId × (Node → Node))
  | .moveNode id position => some (id, fun node => { node with position })
  | .setLabel id label => some (id, fun node => { node with label })
  | .setDetails id change =>
    some (id, fun node => { node with details := node.details.change change })
  | _ => none

/-- The place of the arrow that an edit changes or takes away. -/
def Edit.place? : Edit → Option Nat
  | .setEdgeLabel index _ => some index
  | .removeEdge index => some index
  | _ => none

/-- No edit changes both a node and an arrow. -/
theorem Edit.place?_of_nodeChange? {e : Edit} {f : Node → Node}
    (h : e.nodeChange? = some (id, f)) : e.place? = none := by
  cases e with
  | setEdgeLabel => exact nomatch h
  | removeEdge => exact nomatch h
  | _ => rfl

/-- **Which edits are refused**, and with which error. -/
inductive Edit.IsRefused (g : Graph) : Edit → Error → Prop where
  /-- There is no node with the id. -/
  | node {e : Edit} {id : NodeId} {f : Node → Node} (hchange : e.nodeChange? = some (id, f))
      (hid : id ∉ g.ids) : IsRefused g e (.nodeNotFound id)
  /-- There is no arrow at the place. -/
  | place {e : Edit} {index : Nat} (hplace : e.place? = some index)
      (hindex : g.edges.length ≤ index) : IsRefused g e (.edgeNotFound index)
  /-- The arrow would lead from a node to itself. -/
  | loop (id : NodeId) (label : Option String) : IsRefused g (.addEdge id id label) (.selfLoop id)
  /-- There is no node that the arrow could come from. -/
  | source {source target : NodeId} (label : Option String) (hne : source ≠ target)
      (hsource : source ∉ g.ids) : IsRefused g (.addEdge source target label) (.nodeNotFound source)
  /-- There is a node that the arrow could come from, but none that it could lead to. -/
  | target {source target : NodeId} (label : Option String) (hne : source ≠ target)
      (hsource : source ∈ g.ids) (htarget : target ∉ g.ids) :
      IsRefused g (.addEdge source target label) (.nodeNotFound target)

/-- An edit that changes a node is a change of that node. -/
theorem edit_of_nodeChange? {e : Edit} {f : Node → Node} (h : e.nodeChange? = some (id, f)) :
    g.edit e = do return (.done, ← g.updateNode id f) := by
  cases e with
  | moveNode => obtain ⟨rfl, rfl⟩ := Prod.mk.inj (Option.some.inj h); rfl
  | setLabel => obtain ⟨rfl, rfl⟩ := Prod.mk.inj (Option.some.inj h); rfl
  | setDetails => obtain ⟨rfl, rfl⟩ := Prod.mk.inj (Option.some.inj h); rfl
  | _ => exact nomatch h

theorem setEdgeLabel_eq_error_iff {index : Nat} {label : Option String} {error : Error} :
    g.setEdgeLabel index label = .error error ↔
      g.edges.length ≤ index ∧ error = .edgeNotFound index := by
  rw [setEdgeLabel, ← Nat.not_lt]
  by_cases hindex : index < g.edges.length
  · simp [hindex]
  · simp [hindex, eq_comm]

theorem removeEdge_eq_error_iff {index : Nat} {error : Error} :
    g.removeEdge index = .error error ↔
      g.edges.length ≤ index ∧ error = .edgeNotFound index := by
  rw [removeEdge, ← List.getElem?_eq_none_iff]
  cases g.edges[index]? with
  | none => simp [eq_comm]
  | some edge => simp

/-- **Why an arrow cannot be added.** -/
theorem addEdge_eq_error_iff {source target : NodeId} {label : Option String} {error : Error} :
    g.addEdge source target label = .error error ↔
      (source = target ∧ error = .selfLoop source) ∨
      (source ≠ target ∧ source ∉ g.ids ∧ error = .nodeNotFound source) ∨
      (source ≠ target ∧ source ∈ g.ids ∧ target ∉ g.ids ∧ error = .nodeNotFound target) := by
  simp only [addEdge, ← contains_iff_mem_ids, Bool.not_eq_true]
  by_cases hst : source = target
  · simp [hst, @eq_comm _ error]
  · cases hs : g.contains source with
    | false => simp [hst, @eq_comm _ error]
    | true => cases ht : g.contains target <;> simp [hst, @eq_comm _ error]

/-- An edit that changes a node is refused if there is none. -/
theorem isRefused_iff_of_nodeChange? {e : Edit} {f : Node → Node} {error : Error}
    (h : e.nodeChange? = some (id, f)) :
    e.IsRefused g error ↔ g.contains id = false ∧ error = .nodeNotFound id := by
  rw [← Bool.not_eq_true, contains_iff_mem_ids]
  constructor
  · intro hrefused
    cases hrefused with
    | node hchange hid =>
      obtain ⟨rfl, -⟩ := Prod.mk.inj (Option.some.inj (hchange.symm.trans h))
      exact ⟨hid, rfl⟩
    | place hplace => exact nomatch hplace.symm.trans (Edit.place?_of_nodeChange? h)
    | _ => exact nomatch h
  · rintro ⟨hid, rfl⟩
    exact .node h hid

/-- An edit that changes an arrow or takes it away is refused if there is none at the place. -/
theorem isRefused_iff_of_place? {e : Edit} {index : Nat} {error : Error}
    (h : e.place? = some index) :
    e.IsRefused g error ↔ g.edges.length ≤ index ∧ error = .edgeNotFound index := by
  constructor
  · intro hrefused
    cases hrefused with
    | node hchange => exact nomatch h.symm.trans (Edit.place?_of_nodeChange? hchange)
    | place hplace hindex =>
      obtain rfl := Option.some.inj (hplace.symm.trans h)
      exact ⟨hindex, rfl⟩
    | _ => exact nomatch h
  · rintro ⟨hindex, rfl⟩
    exact .place h hindex

/-- **An edit fails** exactly if it is refused. -/
theorem edit_eq_error_iff {e : Edit} {error : Error} :
    g.edit e = .error error ↔ e.IsRefused g error := by
  cases e with
  | addNode position shape =>
    refine ⟨fun h => (nomatch h), fun h => ?_⟩
    cases h with
    | node hchange => exact nomatch hchange
    | place hplace => exact nomatch hplace
  | addEdge source target label =>
    refine (bind_pure_eq_error_iff.trans addEdge_eq_error_iff).trans ⟨?_, fun h => ?_⟩
    · rintro (⟨rfl, rfl⟩ | ⟨hne, hsource, rfl⟩ | ⟨hne, hsource, htarget, rfl⟩)
      · exact .loop source label
      · exact .source label hne hsource
      · exact .target label hne hsource htarget
    · cases h with
      | node hchange => exact nomatch hchange
      | place hplace => exact nomatch hplace
      | loop => exact .inl ⟨rfl, rfl⟩
      | source _ hne hsource => exact .inr (.inl ⟨hne, hsource, rfl⟩)
      | target _ hne hsource htarget => exact .inr (.inr ⟨hne, hsource, htarget, rfl⟩)
  | setEdgeLabel index label =>
    rw [isRefused_iff_of_place? rfl, ← setEdgeLabel_eq_error_iff]
    exact bind_pure_eq_error_iff
  | removeEdge index =>
    rw [isRefused_iff_of_place? rfl, ← removeEdge_eq_error_iff]
    exact bind_pure_eq_error_iff
  | _ =>
    rw [isRefused_iff_of_nodeChange? rfl, ← updateNode_eq_error_iff]
    exact bind_pure_eq_error_iff

/-! ### Edits that change something -/

/-- **What an edit makes of a graph**, and what it returns. -/
inductive Edit.Changes (g : Graph) : Edit → Edit.Reply → Graph → Prop where
  /-- A node comes last, with the counter for its id, and the counter moves on. -/
  | newNode (position : Position) (shape : Shape) :
      Changes g (.addNode position shape) (.node g.nextId)
        { g with nodes := g.nodes ++ [⟨g.nextId, position, shape, none, .none⟩]
                 nextId := g.nextId.succ }
  /-- A node is different. -/
  | node {e : Edit} {id : NodeId} {f : Node → Node} {before behind : List Node} {node : Node}
      (hchange : e.nodeChange? = some (id, f)) (hsplit : g.SplitsAt id before node behind) :
      Changes g e .done { g with nodes := before ++ f node :: behind }
  /-- An arrow between two different nodes comes last. -/
  | newEdge {source target : NodeId} (label : Option String) (hne : source ≠ target)
      (hsource : source ∈ g.ids) (htarget : target ∈ g.ids) :
      Changes g (.addEdge source target label) (.index g.edges.length)
        { g with edges := g.edges ++ [⟨source, target, label⟩] }
  /-- An arrow has another label. -/
  | edge {before behind : List Edge} {edge : Edge} (label : Option String)
      (hsplit : g.edges = before ++ edge :: behind) :
      Changes g (.setEdgeLabel before.length label) .done
        { g with edges := before ++ { edge with label } :: behind }
  /-- An arrow is gone, and returned. -/
  | noEdge {before behind : List Edge} {edge : Edge}
      (hsplit : g.edges = before ++ edge :: behind) :
      Changes g (.removeEdge before.length) (.edge edge) { g with edges := before ++ behind }

/-- **An edit succeeds** exactly if it changes the graph in this way. -/
theorem edit_eq_ok_iff {e : Edit} {reply : Edit.Reply} :
    g.edit e = .ok (reply, g') ↔ e.Changes g reply g' := by
  constructor
  · intro h
    have hnode : ∀ {id f}, e.nodeChange? = some (id, f) → e.Changes g reply g' := by
      intro id f hchange
      rw [edit_of_nodeChange? hchange] at h
      obtain ⟨_, hupdate, ⟨⟩⟩ := bind_pure_eq_ok_iff.mp h
      obtain ⟨before, node, behind, hsplit, rfl⟩ := updateNode_eq_ok_iff.mp hupdate
      exact .node hchange hsplit
    cases e with
    | addNode position shape =>
      obtain ⟨rfl, rfl⟩ := Prod.mk.inj (Except.ok.inj h)
      exact .newNode position shape
    | addEdge source target label =>
      obtain ⟨⟨index, g'⟩, hadd, ⟨⟩⟩ := bind_pure_eq_ok_iff.mp h
      obtain ⟨hne, hsource, htarget, rfl, rfl⟩ := addEdge_eq_ok_iff.mp hadd
      exact .newEdge label hne (contains_iff_mem_ids.mp hsource) (contains_iff_mem_ids.mp htarget)
    | setEdgeLabel index label =>
      obtain ⟨_, hset, ⟨⟩⟩ := bind_pure_eq_ok_iff.mp h
      obtain ⟨hindex, rfl⟩ := setEdgeLabel_eq_ok_iff.mp hset
      obtain ⟨before, edge, behind, hsplit, rfl⟩ := exists_between_iff.mpr hindex
      rw [hsplit, modify_between]
      exact .edge label hsplit
    | removeEdge index =>
      obtain ⟨⟨edge, g'⟩, hremove, ⟨⟩⟩ := bind_pure_eq_ok_iff.mp h
      obtain ⟨hedge, rfl⟩ := removeEdge_eq_ok_iff.mp hremove
      obtain ⟨hindex, -⟩ := List.getElem?_eq_some_iff.mp hedge
      obtain ⟨before, other, behind, hsplit, rfl⟩ := exists_between_iff.mpr hindex
      rw [hsplit, getElem?_between] at hedge
      obtain rfl := Option.some.inj hedge
      rw [hsplit, eraseIdx_between]
      exact .noEdge hsplit
    | _ => exact hnode rfl
  · intro h
    cases h with
    | newNode => rfl
    | node hchange hsplit =>
      rw [edit_of_nodeChange? hchange, hsplit.updateNode]
      rfl
    | newEdge label hne hsource htarget =>
      refine bind_pure_eq_ok_iff.mpr ⟨_, addEdge_eq_ok_iff.mpr ⟨hne, ?_, ?_, rfl, rfl⟩, rfl⟩
      · exact contains_iff_mem_ids.mpr hsource
      · exact contains_iff_mem_ids.mpr htarget
    | @edge before behind edge label hsplit =>
      refine bind_pure_eq_ok_iff.mpr ⟨_, setEdgeLabel_eq_ok_iff.mpr ⟨?_, rfl⟩, ?_⟩
      · exact exists_between_iff.mp ⟨before, edge, behind, hsplit, rfl⟩
      · rw [hsplit, modify_between]
    | @noEdge before behind edge hsplit =>
      refine bind_pure_eq_ok_iff.mpr ⟨(edge, _), removeEdge_eq_ok_iff.mpr ⟨?_, rfl⟩, ?_⟩
      · rw [hsplit, getElem?_between]
      · rw [hsplit, eraseIdx_between]

end Flowchart.Graph
