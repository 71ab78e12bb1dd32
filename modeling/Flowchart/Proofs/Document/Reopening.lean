import Flowchart.Proofs.Number.Parts
import Flowchart.Proofs.Session.Export

/-!
# Saving a graph and opening it again

The document of a graph holds its nodes and its arrows, but not its counter. So when the document is
opened, the counter is set anew, from the nodes that are there: to the least number behind all ids
(`Flowchart.Graph.nextId_ofParts_le_iff`). The counter that was saved had moved past every id that
was ever given out. The two agree exactly if the last id that was given out still belongs to a node,
and if it does not, the opened graph starts to count further below, and gives that id out again.

Two graphs are compared entry by entry (`Flowchart.Graph.Same`), where coordinates
count as numbers: the two zeros are the same, and a coordinate that is no number is not the same
as anything, itself included.
-/

namespace Flowchart

/-! ### Comparing graphs -/

/-- The two places have the same coordinates. -/
def Position.Same (p q : Position) : Prop :=
  (p.x == q.x) = true ∧ (p.y == q.y) = true

/-- Both coordinates are numbers. -/
def Position.IsNumeric (p : Position) : Prop :=
  p.x.isNaN = false ∧ p.y.isNaN = false

instance (p : Position) : Decidable p.IsNumeric :=
  inferInstanceAs (Decidable (_ ∧ _))

theorem Position.same_self_iff {p : Position} : p.Same p ↔ p.IsNumeric :=
  and_congr Number.beq_self_iff Number.beq_self_iff

/-- The two nodes agree in everything, with their coordinates compared as numbers. -/
structure Node.Same (m n : Node) : Prop where
  id : m.id = n.id
  position : m.position.Same n.position
  shape : m.shape = n.shape
  label : m.label = n.label
  details : m.details = n.details

namespace Graph

variable {g h : Graph}

/-- **The same graph**: the same nodes and the same arrows in the same order, and the same
counter. -/
structure Same (g h : Graph) : Prop where
  nodes : List.Forall₂ Node.Same g.nodes h.nodes
  edges : g.edges = h.edges
  nextId : g.nextId = h.nextId

/-- A graph with the same nodes and arrows is the same one exactly if the counters agree and all
coordinates are numbers. -/
theorem same_iff_of_nodes_eq (hnodes : h.nodes = g.nodes) (hedges : h.edges = g.edges) :
    h.Same g ↔ h.nextId = g.nextId ∧ ∀ node ∈ g.nodes, node.position.IsNumeric := by
  have hself : List.Forall₂ Node.Same g.nodes g.nodes ↔
      ∀ node ∈ g.nodes, node.position.IsNumeric := by
    rw [List.forall₂_same]
    exact forall₂_congr fun node _ =>
      ⟨fun hsame => Position.same_self_iff.mp hsame.position,
        fun hnumeric => ⟨rfl, Position.same_self_iff.mpr hnumeric, rfl, rfl, rfl⟩⟩
  constructor
  · intro hsame
    exact ⟨hsame.nextId, hself.mp (hnodes ▸ hsame.nodes)⟩
  · rintro ⟨hnext, hnumeric⟩
    exact ⟨hnodes.symm ▸ hself.mpr hnumeric, hedges, hnext⟩

/-! ### The counter -/

/-- **The last id that was given out is in use**: it belongs to a node, or none was given out. -/
def LastIsUsed (g : Graph) : Prop :=
  (g.nodes = [] ∧ g.nextId = 1) ∨ ∃ id ∈ g.ids, id.succ = g.nextId

theorem Reachable.isSound (hg : g.Reachable) (hrange : ∀ id ∈ g.ids, id ≤ Document.maxNodeId) :
    g.IsSound := by
  refine hg.isOrderly.isSound fun hlast => ?_
  exact absurd (hrange _ hlast) (by decide)

/-- **When the counter is found again** from the nodes: if the last id given out is in use. -/
theorem nextId_ofParts_eq_iff (hg : g.Reachable)
    (hrange : ∀ id ∈ g.ids, id ≤ Document.maxNodeId) :
    (ofParts g.nodes g.edges).nextId = g.nextId ↔ g.LastIsUsed := by
  have hsound := hg.isSound hrange
  have hle : ∀ {n}, (ofParts g.nodes g.edges).nextId ≤ n ↔ 1 ≤ n ∧ ∀ id ∈ g.ids, id < n :=
    nextId_ofParts_le_iff hrange
  have hfresh : ∀ id ∈ g.ids, id < g.nextId :=
    fun id hid => UInt64.lt_iff_toNat_lt.mpr (hsound.fresh id hid)
  constructor
  · intro heq
    simp only [ofParts] at heq
    cases hmax : (g.nodes.map Node.id).max? with
    | none =>
      rw [hmax] at heq
      exact Or.inl ⟨List.map_eq_nil_iff.mp (List.max?_eq_none_iff.mp hmax), heq.symm⟩
    | some largest =>
      rw [hmax] at heq
      exact Or.inr ⟨largest, (List.max?_eq_some_iff.mp hmax).1, heq⟩
  · rintro (⟨hnodes, hnext⟩ | ⟨id, hid, hsucc⟩)
    · rw [hnodes, hnext]
      rfl
    · -- no smaller number lies behind the last id, and the counter itself does
      have hbehind := (hle.mp (UInt64.le_refl _)).2 id hid
      have hmax : Document.maxNodeId.toNat = 2 ^ 53 - 1 := rfl
      have hidle := UInt64.le_iff_toNat_le.mp (hrange id hid)
      have hsuccNat : id.succ.toNat = id.toNat + 1 := NodeId.toNat_succ (by omega)
      refine UInt64.le_antisymm (hle.mpr ⟨hg.isOrderly.one_le, hfresh⟩) ?_
      rw [← hsucc, UInt64.le_iff_toNat_le, hsuccNat]
      exact UInt64.lt_iff_toNat_lt.mp hbehind

/-! ### Opening what was saved -/

/-- **What is opened again is what was saved, up to the counter.** The document of a reachable graph
can be opened exactly if its ids are within range. The graph that is opened has the same nodes and
the same arrows in the same order. Its counter is the least number behind all ids, so it lies above
every id in use and not above the counter that was saved; and it is that one exactly if the last id
that was given out is in use. Then, and if all coordinates are numbers, the graph is the same. -/
theorem toGraph_ofGraph_of_reachable (hg : g.Reachable) :
    ((∃ h, (Document.ofGraph g).toGraph = .ok h) ↔ ∀ id ∈ g.ids, id ≤ Document.maxNodeId) ∧
      ∀ h, (Document.ofGraph g).toGraph = .ok h →
        h.nodes = g.nodes ∧ h.edges = g.edges ∧
          (∀ n, h.nextId ≤ n ↔ 1 ≤ n ∧ ∀ id ∈ g.ids, id < n) ∧ h.nextId ≤ g.nextId ∧
          (h.nextId = g.nextId ↔ g.LastIsUsed) ∧
          (h.Same g ↔ g.LastIsUsed ∧ ∀ node ∈ g.nodes, node.position.IsNumeric) := by
  constructor
  · constructor
    · rintro ⟨h, hopen⟩
      exact (Document.toGraph_eq_ok_iff.mp hopen).2.1
    · intro hrange
      have hsound := hg.isSound hrange
      exact ⟨_, Document.toGraph_eq_ok_iff.mpr ⟨rfl, hrange, hsound.nodup, hsound.ends, rfl⟩⟩
  · intro h hopen
    obtain ⟨-, hrange, -, -, rfl⟩ := Document.toGraph_eq_ok_iff.mp hopen
    have hcounter := nextId_ofParts_eq_iff hg hrange
    have hle : ∀ n, (ofParts g.nodes g.edges).nextId ≤ n ↔ 1 ≤ n ∧ ∀ id ∈ g.ids, id < n :=
      fun n => nextId_ofParts_le_iff hrange
    refine ⟨rfl, rfl, hle, ?_, hcounter, ?_⟩
    · have hsound := hg.isSound hrange
      exact (hle _).mpr ⟨hg.isOrderly.one_le,
        fun id hid => UInt64.lt_iff_toNat_lt.mpr (hsound.fresh id hid)⟩
    · rw [← hcounter]
      exact same_iff_of_nodes_eq rfl rfl

/-- The first of two nodes is deleted. The second one keeps the last id in use, so the graph is
the same when it is opened again. -/
theorem toGraph_ofGraph_of_reachable_kept :
    let s := (Session.start .empty .default "").after
      [.edit (.addNode ⟨0, 0⟩ .circle), .edit (.addNode ⟨1, 0⟩ .square), .deleteNode 1]
    s.graph.Reachable ∧
      ∃ h, (Document.ofGraph s.graph).toGraph = .ok h ∧ h.Same s.graph := by
  intro s
  have hreachable : s.graph.Reachable := Session.reachable_after (.pristine (Or.inl rfl)) _
  obtain ⟨hopens, hsame⟩ := toGraph_ofGraph_of_reachable hreachable
  have hids : s.graph.ids = [2] := rfl
  have hrange : ∀ id ∈ s.graph.ids, id ≤ Document.maxNodeId := by
    rw [hids, List.forall_mem_singleton]
    decide
  obtain ⟨h, hopen⟩ := hopens.mpr hrange
  refine ⟨hreachable, h, hopen, (hsame h hopen).2.2.2.2.2.mpr ⟨?_, ?_⟩⟩
  · exact Or.inr ⟨2, hids ▸ List.mem_cons_self, rfl⟩
  · decide

/-- **An id is given out again after saving and opening.** The second of two nodes is deleted. The
counter stood at `3`, and the graph that is opened has it at `2`. -/
theorem toGraph_ofGraph_reuses_id :
    let s := (Session.start .empty .default "").after
      [.edit (.addNode ⟨0, 0⟩ .circle), .edit (.addNode ⟨1, 0⟩ .square), .deleteNode 2]
    s.graph.Reachable ∧ s.graph.nextId = 3 ∧
      ∃ h, (Document.ofGraph s.graph).toGraph = .ok h ∧ h.nextId = 2 ∧ ¬ h.Same s.graph := by
  intro s
  have hnext : s.graph.nextId = 3 := by decide
  refine ⟨Session.reachable_after (.pristine (Or.inl rfl)) _, hnext, _, rfl, rfl, ?_⟩
  intro hsame
  exact absurd (hsame.nextId.trans hnext) (by decide)

end Graph

end Flowchart
