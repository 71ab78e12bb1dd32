import Flowchart.Graph.Edit
import Flowchart.Proofs.Fallible
import Mathlib.Algebra.Group.Nat.Defs
import Mathlib.Data.List.Nodup

/-!
# Sound graphs

A graph is *sound* (`Flowchart.Graph.IsSound`) if its ids are pairwise distinct, its arrows join
nodes that it has, and its counter lies above every id in use. The third condition is what carries
the first one through an edit: a new node gets the counter for its id, so the id is new, and the
counter moves on.

The counter is a word of 64 bits that stays where it is once it has reached the largest one. The
statements below therefore ask that the counter has room for the node that an edit adds, if it adds
one (`Flowchart.Graph.Edit.addsNode`); nothing else stands in the way of an edit.

Whatever else names nodes – an execution, a selection, a suggestion – asks only that no id is lost.
Removing a node is the one operation that loses an id, and it loses just that one
(`Flowchart.Graph.mem_ids_of_removeNode`).
-/

namespace Flowchart

/-! ### The counter -/

theorem NodeId.toNat_succ {id : NodeId} (h : id.toNat + 1 < 2 ^ 64) :
    id.succ.toNat = id.toNat + 1 := by
  have hne : id ≠ UInt64.ofNat (UInt64.size - 1) := by
    intro hid
    rw [hid] at h
    exact absurd h (by decide)
  rw [NodeId.succ, if_neg hne, UInt64.toNat_add]
  exact Nat.mod_eq_of_lt h

namespace Graph

variable {g g' : Graph}

/-! ### The ids of a graph -/

/-- The ids of the nodes, in the order of the nodes. -/
def ids (g : Graph) : List NodeId :=
  g.nodes.map Node.id

theorem mem_ids {id : NodeId} : id ∈ g.ids ↔ ∃ node ∈ g.nodes, node.id = id :=
  List.mem_map

theorem contains_iff_mem_ids {id : NodeId} : g.contains id = true ↔ id ∈ g.ids :=
  contains_iff.trans mem_ids.symm

theorem isSome_node?_iff {id : NodeId} : (g.node? id).isSome = true ↔ id ∈ g.ids := by
  rw [isSome_node?]
  exact contains_iff_mem_ids

theorem mem_ids_of_first? {node : Node} (h : g.first? = some node) : node.id ∈ g.ids :=
  mem_ids.mpr ⟨node, List.mem_of_head? h, rfl⟩

theorem isEmpty_eq (g : Graph) : g.isEmpty = g.first?.isNone := by
  cases h : g.nodes <;> simp [isEmpty, first?, h]

/-- **Arrows do not dangle**: both ends of an arrow are nodes of the graph. -/
def HasEnds (g : Graph) : Prop :=
  ∀ edge ∈ g.edges, edge.source ∈ g.ids ∧ edge.target ∈ g.ids

/-- **Sound graphs.** -/
structure IsSound (g : Graph) : Prop where
  /-- No id is used twice. -/
  nodup : g.ids.Nodup
  /-- Both ends of an arrow are nodes of the graph. -/
  ends : g.HasEnds
  /-- The next id lies above all ids. -/
  fresh : ∀ id ∈ g.ids, id.toNat < g.nextId.toNat

theorem isSound_empty : empty.IsSound :=
  ⟨List.nodup_nil, by simp [HasEnds, empty], by simp [empty, ids]⟩

/-! ### Adding and removing a node -/

theorem ids_addNode (g : Graph) (position : Position) (shape : Shape) :
    (g.addNode position shape).2.ids = g.ids ++ [g.nextId] := by
  simp [addNode, ids]

/-- A new node leaves all arrows where they are. -/
theorem HasEnds.addNode (hg : g.HasEnds) (position : Position) (shape : Shape) :
    (g.addNode position shape).2.HasEnds := by
  intro edge hedge
  obtain ⟨hs, ht⟩ := hg edge hedge
  rw [ids_addNode]
  exact ⟨List.mem_append_left _ hs, List.mem_append_left _ ht⟩

/-- **Adding a node keeps a graph sound** while the counter has room. -/
theorem IsSound.addNode (hg : g.IsSound) (hroom : g.nextId.toNat + 1 < 2 ^ 64)
    (position : Position) (shape : Shape) : (g.addNode position shape).2.IsSound := by
  constructor
  · -- all ids in use lie below the counter, so the new one is not among them
    have hnew : g.nextId ∉ g.ids := fun hmem => absurd (hg.fresh _ hmem) (Nat.lt_irrefl _)
    rw [ids_addNode, List.nodup_append]
    refine ⟨hg.nodup, List.nodup_singleton _, ?_⟩
    rintro id hid _ hlast rfl
    rw [List.mem_singleton] at hlast
    exact hnew (hlast ▸ hid)
  · exact hg.ends.addNode position shape
  · intro id hid
    change id.toNat < g.nextId.succ.toNat
    rw [NodeId.toNat_succ hroom]
    rw [ids_addNode, List.mem_append, List.mem_singleton] at hid
    rcases hid with hid | rfl
    · exact Nat.lt_succ_of_lt (hg.fresh id hid)
    · exact Nat.lt_succ_self _

/-- What removing a node returns, and what is left. -/
theorem removeNode_eq_ok_iff {id : NodeId} {removed : Removed} :
    g.removeNode id = .ok (removed, g') ↔
      ∃ node, g.node? id = some node ∧ removed = ⟨node, g.edges.filter (·.touches id)⟩ ∧
        g' = { g with
          nodes := g.nodes.eraseP (·.id = id)
          edges := g.edges.filter (!·.touches id) } := by
  unfold removeNode
  cases g.node? id with
  | none => simp
  | some node => simp [eq_comm]

/-- **Removing a node loses its id and no other one.** -/
theorem mem_ids_of_removeNode {id other : NodeId} {removed : Removed}
    (h : g.removeNode id = .ok (removed, g')) (hother : other ∈ g.ids) (hne : other ≠ id) :
    other ∈ g'.ids := by
  obtain ⟨node, -, -, rfl⟩ := removeNode_eq_ok_iff.mp h
  obtain ⟨n, hn, rfl⟩ := mem_ids.mp hother
  refine mem_ids.mpr ⟨n, ?_, rfl⟩
  exact (List.mem_eraseP_of_neg (by simpa using hne)).mpr hn

/-- A node that is removed takes the arrows with it that touch it. -/
theorem HasEnds.removeNode {id : NodeId} {removed : Removed} (hg : g.HasEnds)
    (h : g.removeNode id = .ok (removed, g')) : g'.HasEnds := by
  have hkept : ∀ other ∈ g.ids, other ≠ id → other ∈ g'.ids :=
    fun other hother hne => mem_ids_of_removeNode h hother hne
  obtain ⟨node, -, -, rfl⟩ := removeNode_eq_ok_iff.mp h
  intro edge hedge
  obtain ⟨hmem, htouches⟩ := List.mem_filter.mp hedge
  obtain ⟨hs, ht⟩ := hg edge hmem
  -- an arrow that is left does not touch the node, so its ends are other ones
  have hne : edge.source ≠ id ∧ edge.target ≠ id := by simpa [Edge.touches] using htouches
  exact ⟨hkept _ hs hne.1, hkept _ ht hne.2⟩

theorem ids_sublist_of_removeNode {id : NodeId} {removed : Removed}
    (h : g.removeNode id = .ok (removed, g')) : g'.ids.Sublist g.ids ∧ g'.nextId = g.nextId := by
  obtain ⟨node, -, -, rfl⟩ := removeNode_eq_ok_iff.mp h
  exact ⟨List.eraseP_sublist.map Node.id, rfl⟩

/-- **Removing a node keeps a graph sound**: the arrows that touched it are gone too. -/
theorem IsSound.removeNode {id : NodeId} {removed : Removed} (hg : g.IsSound)
    (h : g.removeNode id = .ok (removed, g')) : g'.IsSound := by
  obtain ⟨hsub, hnext⟩ := ids_sublist_of_removeNode h
  refine ⟨hsub.nodup hg.nodup, hg.ends.removeNode h, ?_⟩
  rw [hnext]
  exact fun other hother => hg.fresh other (hsub.subset hother)

/-! ### Changes that keep the ids -/

/-- A change of a node leaves the arrows and the counter alone, and all ids if it keeps the id of
its node. -/
theorem eq_of_updateNode {id : NodeId} {f : Node → Node} (h : g.updateNode id f = .ok g')
    (hf : ∀ node, (f node).id = node.id) :
    g'.ids = g.ids ∧ g'.nextId = g.nextId ∧ g'.edges = g.edges := by
  refine ⟨map_id_updateNode hf h, ?_⟩
  unfold updateNode at h
  split at h
  · obtain rfl : _ = g' := by simpa using h
    exact ⟨rfl, rfl⟩
  · simp at h

/-- A change of a node loses no node: it is still there, or its new form is. -/
theorem mem_nodes_or_of_updateNode {id : NodeId} {f : Node → Node} {node : Node}
    (h : g.updateNode id f = .ok g') (hnode : node ∈ g.nodes) :
    node ∈ g'.nodes ∨ f node ∈ g'.nodes := by
  unfold updateNode at h
  split at h
  · obtain rfl : _ = g' := by simpa using h
    obtain ⟨i, hi⟩ := List.mem_iff_getElem?.mp hnode
    by_cases hplace : g.nodes.findIdx (·.id = id) = i
    · exact Or.inr (List.mem_iff_getElem?.mpr ⟨i, by simp [hplace, hi]⟩)
    · exact Or.inl (List.mem_iff_getElem?.mpr ⟨i, by simp [hplace, hi]⟩)
  · exact nomatch h

theorem setEdgeLabel_eq_ok_iff {index : Nat} {label : Option String} :
    g.setEdgeLabel index label = .ok g' ↔
      index < g.edges.length ∧
        g' = { g with edges := g.edges.modify index ({ · with label }) } := by
  unfold setEdgeLabel
  by_cases hindex : index < g.edges.length
  · simp [hindex, eq_comm]
  · simp [hindex]

/-- **The arrows after one of them is given a label**: those before, of which the one at the given
place has the new label. -/
theorem mem_edges_of_setEdgeLabel {index : Nat} {label : Option String} {edge : Edge}
    (h : g.setEdgeLabel index label = .ok g') :
    edge ∈ g'.edges ↔ ∃ i old, g.edges[i]? = some old ∧
      edge = if index = i then { old with label } else old := by
  obtain ⟨-, rfl⟩ := setEdgeLabel_eq_ok_iff.mp h
  rw [List.mem_iff_getElem?]
  refine exists_congr fun i => ?_
  rw [List.getElem?_modify, Option.map_eq_map, Option.map_eq_some_iff]
  refine exists_congr fun old => and_congr_right fun _ => ?_
  split <;> exact eq_comm

theorem ends_of_setEdgeLabel {index : Nat} {label : Option String}
    (h : g.setEdgeLabel index label = .ok g') :
    g'.nodes = g.nodes ∧ g'.nextId = g.nextId ∧
      ∀ edge ∈ g'.edges, ∃ old ∈ g.edges, edge.source = old.source ∧ edge.target = old.target := by
  obtain ⟨-, hrest⟩ := setEdgeLabel_eq_ok_iff.mp h
  refine ⟨by rw [hrest], by rw [hrest], fun edge hedge => ?_⟩
  obtain ⟨i, old, hold, rfl⟩ := (mem_edges_of_setEdgeLabel h).mp hedge
  refine ⟨old, List.mem_of_getElem? hold, ?_⟩
  split <;> exact ⟨rfl, rfl⟩

theorem removeEdge_eq_ok_iff {index : Nat} {edge : Edge} :
    g.removeEdge index = .ok (edge, g') ↔
      g.edges[index]? = some edge ∧ g' = { g with edges := g.edges.eraseIdx index } := by
  unfold removeEdge
  cases g.edges[index]? with
  | none => simp
  | some found => simp [eq_comm]

/-- **What keeps the ids** also keeps the counter, and every arrow afterwards has the ends of an
arrow before, or it joins two different nodes. -/
def KeepsIds (g g' : Graph) : Prop :=
  g'.ids = g.ids ∧ g'.nextId = g.nextId ∧
    ∀ edge ∈ g'.edges, (∃ old ∈ g.edges, edge.source = old.source ∧ edge.target = old.target) ∨
      (edge.source ≠ edge.target ∧ edge.source ∈ g.ids ∧ edge.target ∈ g.ids)

/-- Where no arrow is new, only the ids and the counter count. -/
theorem keepsIds_of_subset (hids : g'.ids = g.ids) (hnext : g'.nextId = g.nextId)
    (hedges : g'.edges ⊆ g.edges) : KeepsIds g g' :=
  ⟨hids, hnext, fun edge hedge => Or.inl ⟨edge, hedges hedge, rfl, rfl⟩⟩

/-- What keeps the ids leaves no arrow dangling. -/
theorem HasEnds.of_keepsIds (hg : g.HasEnds) (h : KeepsIds g g') : g'.HasEnds := by
  obtain ⟨hids, -, hends⟩ := h
  intro edge hedge
  rw [hids]
  rcases hends edge hedge with ⟨old, hold, hs, ht⟩ | ⟨-, hs, ht⟩
  · rw [hs, ht]
    exact hg old hold
  · exact ⟨hs, ht⟩

/-- **What keeps the ids keeps a graph sound.** -/
theorem IsSound.of_keepsIds (hg : g.IsSound) (h : KeepsIds g g') : g'.IsSound := by
  refine ⟨h.1 ▸ hg.nodup, hg.ends.of_keepsIds h, ?_⟩
  rw [h.1, h.2.1]
  exact hg.fresh

theorem keepsIds_of_updateNode {id : NodeId} {f : Node → Node} (h : g.updateNode id f = .ok g')
    (hf : ∀ node, (f node).id = node.id) : KeepsIds g g' := by
  obtain ⟨hids, hnext, hedges⟩ := eq_of_updateNode h hf
  exact keepsIds_of_subset hids hnext (hedges ▸ List.Subset.refl _)

theorem keepsIds_of_addEdge {source target : NodeId} {label : Option String} {index : Nat}
    (h : g.addEdge source target label = .ok (index, g')) : KeepsIds g g' := by
  obtain ⟨hne, hs, ht, -, rfl⟩ := addEdge_eq_ok_iff.mp h
  refine ⟨rfl, rfl, fun edge hedge => ?_⟩
  rcases List.mem_append.mp hedge with hold | hnew
  · exact Or.inl ⟨edge, hold, rfl, rfl⟩
  · obtain rfl := List.mem_singleton.mp hnew
    exact Or.inr ⟨hne, contains_iff_mem_ids.mp hs, contains_iff_mem_ids.mp ht⟩

/-! ### Edits -/

/-- Whether an edit adds a node. -/
def Edit.addsNode : Edit → Bool
  | .addNode .. => true
  | _ => false

/-- **What an edit does to the ids**: it adds a node, or it keeps them. -/
theorem edit_cases {e : Edit} {reply : Edit.Reply} (h : g.edit e = .ok (reply, g')) :
    (∃ position shape, e = .addNode position shape ∧ g' = (g.addNode position shape).2) ∨
      (e.addsNode = false ∧ KeepsIds g g') := by
  cases e with
  | addNode position shape =>
    obtain ⟨-, rfl⟩ := Prod.mk.inj (Except.ok.inj h)
    exact Or.inl ⟨position, shape, rfl, rfl⟩
  | moveNode id position =>
    obtain ⟨_, hg, ⟨⟩⟩ := bind_pure_eq_ok_iff.mp h
    exact Or.inr ⟨rfl, keepsIds_of_updateNode hg fun _ => rfl⟩
  | setLabel id label =>
    obtain ⟨_, hg, ⟨⟩⟩ := bind_pure_eq_ok_iff.mp h
    exact Or.inr ⟨rfl, keepsIds_of_updateNode hg fun _ => rfl⟩
  | setDetails id change =>
    obtain ⟨_, hg, ⟨⟩⟩ := bind_pure_eq_ok_iff.mp h
    exact Or.inr ⟨rfl, keepsIds_of_updateNode hg fun _ => rfl⟩
  | addEdge source target label =>
    obtain ⟨_, hg, ⟨⟩⟩ := bind_pure_eq_ok_iff.mp h
    exact Or.inr ⟨rfl, keepsIds_of_addEdge hg⟩
  | setEdgeLabel index label =>
    obtain ⟨_, hg, ⟨⟩⟩ := bind_pure_eq_ok_iff.mp h
    obtain ⟨hnodes, hnext, hends⟩ := ends_of_setEdgeLabel hg
    exact Or.inr ⟨rfl, congrArg (List.map Node.id) hnodes, hnext,
      fun edge hedge => Or.inl (hends edge hedge)⟩
  | removeEdge index =>
    obtain ⟨_, hg, ⟨⟩⟩ := bind_pure_eq_ok_iff.mp h
    obtain ⟨-, hrest⟩ := removeEdge_eq_ok_iff.mp hg
    rw [hrest]
    exact Or.inr ⟨rfl, keepsIds_of_subset rfl rfl List.eraseIdx_subset⟩

theorem ids_subset_of_edit {e : Edit} {reply : Edit.Reply} (h : g.edit e = .ok (reply, g')) :
    g.ids ⊆ g'.ids := by
  rcases edit_cases h with ⟨position, shape, rfl, rfl⟩ | ⟨-, hids, -, -⟩
  · rw [ids_addNode]
    exact List.subset_append_left _ _
  · rw [hids]
    exact List.Subset.refl _

/-- Whether the counter has room for a number of nodes. -/
def HasRoom (g : Graph) (count : Nat) : Prop :=
  g.nextId.toNat + count < 2 ^ 64

theorem HasRoom.mono {m n : Nat} (h : g.HasRoom n) (hmn : m ≤ n) : g.HasRoom m :=
  Nat.lt_of_le_of_lt (Nat.add_le_add_left hmn _) h

theorem HasRoom.of_nextId_eq {count : Nat} (h : g.HasRoom count) (hnext : g'.nextId = g.nextId) :
    g'.HasRoom count := by
  rw [HasRoom, hnext]
  exact h

/-- **An edit keeps a graph sound**, if the counter has room for the node it may add, and leaves the
counter room for as many nodes as it had besides. -/
theorem IsSound.edit {e : Edit} {reply : Edit.Reply} {count : Nat} (hg : g.IsSound)
    (hroom : g.HasRoom (count + if e.addsNode then 1 else 0)) (h : g.edit e = .ok (reply, g')) :
    g'.IsSound ∧ g'.HasRoom count ∧ g.ids ⊆ g'.ids := by
  have hids := ids_subset_of_edit h
  rcases edit_cases h with ⟨position, shape, rfl, rfl⟩ | ⟨hadds, hkeeps⟩
  · have hlt : g.nextId.toNat + (count + 1) < 2 ^ 64 := hroom
    refine ⟨hg.addNode (by omega) position shape, ?_, hids⟩
    change g.nextId.succ.toNat + count < 2 ^ 64
    rw [NodeId.toNat_succ (by omega)]
    omega
  · rw [hadds] at hroom
    exact ⟨hg.of_keepsIds hkeeps, HasRoom.of_nextId_eq hroom hkeeps.2.1, hids⟩

/-! ### Rows of edits -/

/-- The graph after an edit, or as it was if the edit fails. -/
def tryEdit (g : Graph) (e : Edit) : Graph :=
  match g.edit e with
  | .ok (_, g') => g'
  | .error _ => g

/-- The graph after some edits, of which those that fail are passed over. -/
def editAll (g : Graph) (edits : List Edit) : Graph :=
  edits.foldl tryEdit g

/-- **A row of edits keeps a graph sound.** -/
theorem IsSound.editAll {edits : List Edit} {count : Nat} (hg : g.IsSound)
    (hroom : g.HasRoom (count + edits.countP Edit.addsNode)) :
    (g.editAll edits).IsSound ∧ (g.editAll edits).HasRoom count := by
  induction edits generalizing g with
  | nil => exact ⟨hg, hroom⟩
  | cons e edits ih =>
    rw [List.countP_cons, ← Nat.add_assoc] at hroom
    change ((g.tryEdit e).editAll edits).IsSound ∧ ((g.tryEdit e).editAll edits).HasRoom count
    rw [tryEdit]
    split
    · next reply g' h =>
      obtain ⟨hg', hroom', -⟩ := hg.edit hroom h
      exact ih hg' hroom'
    · exact ih hg (hroom.mono (Nat.le_add_right _ _))

end Graph

end Flowchart
