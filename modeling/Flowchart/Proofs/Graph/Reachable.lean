import Flowchart.Proofs.Document.Opening

/-!
# Reachable graphs

A graph is *reachable* (`Flowchart.Graph.Reachable`) if it comes about by editing and by removing
nodes, in any order and as often as one likes, from the empty graph or from one that was opened.

Nothing is said about how many nodes are added, so the counter may have reached the largest id and
stay there, and then new nodes share that id. Everything else that holds of a sound graph holds of
all reachable ones (`Flowchart.Graph.Reachable.isOrderly`): arrows do not dangle, the counter lies
above every id or is the largest one itself, and no id but the largest is used twice. So a reachable
graph is sound as soon as it does without the largest id (`Flowchart.Graph.IsOrderly.isSound`).
-/

namespace Flowchart

/-! ### The largest id -/

/-- The largest id, which the counter does not get past. -/
def NodeId.last : NodeId := UInt64.ofNat (UInt64.size - 1)

/-- The id behind another one is larger, unless that is the largest id, which stays. -/
theorem NodeId.lt_succ_or_eq_last (id : NodeId) : id < id.succ ∨ id = last ∧ id.succ = last := by
  by_cases h : id = last
  · exact Or.inr ⟨h, (if_pos h).trans h⟩
  · refine Or.inl ?_
    have hne : id.toNat ≠ 2 ^ 64 - 1 := fun heq => h (UInt64.toNat_inj.mp heq)
    have hlt := id.toNat_lt
    rw [UInt64.lt_iff_toNat_lt, NodeId.toNat_succ (by omega)]
    omega

/-- An id is the largest one, or smaller. -/
theorem NodeId.lt_last {id : NodeId} (h : id ≠ last) : id < last := by
  have hne : id.toNat ≠ 2 ^ 64 - 1 := fun heq => h (UInt64.toNat_inj.mp heq)
  have hlt := id.toNat_lt
  have hlast : last.toNat = 2 ^ 64 - 1 := rfl
  rw [UInt64.lt_iff_toNat_lt]
  omega

namespace Graph

variable {g g' : Graph}

/-! ### Orderly graphs -/

/-- **Orderly graphs**: what is true however many nodes are added. -/
structure IsOrderly (g : Graph) : Prop where
  /-- Arrows do not dangle. -/
  ends : g.HasEnds
  /-- No id is used twice, except perhaps the largest one. -/
  distinct : g.ids.Pairwise fun id other => id = other → id = NodeId.last
  /-- The counter lies above all ids, unless it has run out. -/
  fresh : ∀ id ∈ g.ids, id < g.nextId ∨ g.nextId = NodeId.last
  /-- The ids are counted from one. -/
  one_le : 1 ≤ g.nextId

/-- **Without the largest id, an orderly graph is sound.** -/
theorem IsOrderly.isSound (hg : g.IsOrderly) (hlast : NodeId.last ∉ g.ids) : g.IsSound := by
  have hne : ∀ id ∈ g.ids, id ≠ NodeId.last := fun id hid heq => hlast (heq ▸ hid)
  refine ⟨hg.distinct.imp_of_mem fun hid _ himp heq => hne _ hid (himp heq), hg.ends, ?_⟩
  intro id hid
  rw [← UInt64.lt_iff_toNat_lt]
  rcases hg.fresh id hid with hlt | hnext
  · exact hlt
  · exact hnext ▸ NodeId.lt_last (hne id hid)

theorem IsSound.isOrderly (hg : g.IsSound) (hone : 1 ≤ g.nextId) : g.IsOrderly := by
  refine ⟨hg.ends, hg.nodup.imp fun hne heq => absurd heq hne, fun id hid => Or.inl ?_, hone⟩
  rw [UInt64.lt_iff_toNat_lt]
  exact hg.fresh id hid

/-- **Adding a node keeps a graph orderly**: the id of the new node is above all others, or it is
the largest one. -/
theorem IsOrderly.addNode (hg : g.IsOrderly) (position : Position) (shape : Shape) :
    (g.addNode position shape).2.IsOrderly := by
  have hnext := NodeId.lt_succ_or_eq_last g.nextId
  refine ⟨hg.ends.addNode position shape, ?_, ?_, ?_⟩
  · rw [ids_addNode, List.pairwise_append]
    refine ⟨hg.distinct, List.pairwise_singleton _ _, ?_⟩
    rintro id hid _ hlast rfl
    rw [List.mem_singleton] at hlast
    -- an id of the graph is the next one only if the counter has reached the largest id
    rcases hg.fresh id hid with hlt | hrun
    · exact absurd (hlast ▸ hlt) (UInt64.lt_irrefl _)
    · exact hlast.trans hrun
  · intro id hid
    rw [ids_addNode, List.mem_append, List.mem_singleton] at hid
    change id < g.nextId.succ ∨ g.nextId.succ = NodeId.last
    rcases hnext with hlt | ⟨-, hsucc⟩
    · rcases hid with hid | rfl
      · rcases hg.fresh id hid with hlt' | hrun
        · exact Or.inl (UInt64.lt_trans hlt' hlt)
        · exact Or.inr (by rw [hrun]; rfl)
      · exact Or.inl hlt
    · exact Or.inr hsucc
  · change 1 ≤ g.nextId.succ
    rcases hnext with hlt | ⟨-, hsucc⟩
    · exact UInt64.le_trans hg.one_le (UInt64.le_of_lt hlt)
    · rw [hsucc]
      decide

theorem IsOrderly.removeNode {id : NodeId} {removed : Removed} (hg : g.IsOrderly)
    (h : g.removeNode id = .ok (removed, g')) : g'.IsOrderly := by
  obtain ⟨hsub, hnext⟩ := ids_sublist_of_removeNode h
  refine ⟨hg.ends.removeNode h, hg.distinct.sublist hsub, ?_, hnext ▸ hg.one_le⟩
  rw [hnext]
  exact fun other hother => hg.fresh other (hsub.subset hother)

theorem IsOrderly.of_keepsIds (hg : g.IsOrderly) (h : KeepsIds g g') : g'.IsOrderly := by
  refine ⟨hg.ends.of_keepsIds h, h.1 ▸ hg.distinct, ?_, h.2.1 ▸ hg.one_le⟩
  rw [h.1, h.2.1]
  exact hg.fresh

/-- **An edit keeps a graph orderly.** -/
theorem IsOrderly.edit {e : Edit} {reply : Edit.Reply} (hg : g.IsOrderly)
    (h : g.edit e = .ok (reply, g')) : g'.IsOrderly := by
  rcases edit_cases h with ⟨position, shape, rfl, rfl⟩ | ⟨-, hkeeps⟩
  · exact hg.addNode position shape
  · exact hg.of_keepsIds hkeeps

/-! ### The counter of a graph that is put together -/

/-- **The counter of a graph that is put together** is the least number that comes behind all of its
ids, counted from one. -/
theorem nextId_ofParts_le_iff {nodes : List Node} {edges : List Edge} {n : NodeId}
    (hrange : ∀ id ∈ nodes.map Node.id, id ≤ Document.maxNodeId) :
    (ofParts nodes edges).nextId ≤ n ↔ 1 ≤ n ∧ ∀ id ∈ nodes.map Node.id, id < n := by
  simp only [ofParts]
  cases h : (nodes.map Node.id).max? with
  | none =>
    rw [List.max?_eq_none_iff.mp h]
    simp
  | some largest =>
    obtain ⟨hmem, hle⟩ := List.max?_eq_some_iff.mp h
    -- the largest id is within range, so the one behind it is one more
    have hmax : Document.maxNodeId.toNat = 2 ^ 53 - 1 := rfl
    have hlargest := UInt64.le_iff_toNat_le.mp (hrange largest hmem)
    have hsucc : largest.succ.toNat = largest.toNat + 1 := NodeId.toNat_succ (by omega)
    simp only [UInt64.le_iff_toNat_le, UInt64.lt_iff_toNat_lt, hsucc] at hle ⊢
    constructor
    · intro hn
      refine ⟨?_, fun id hid => Nat.lt_of_le_of_lt (hle id hid) hn⟩
      change 1 ≤ n.toNat
      omega
    · rintro ⟨-, hall⟩
      exact hall largest hmem

theorem IsPristine.isOrderly (hg : g.IsPristine) : g.IsOrderly := by
  refine hg.isSound.isOrderly ?_
  rcases hg with rfl | ⟨d, hd⟩
  · decide
  · obtain ⟨-, hrange, -, -, rfl⟩ := Document.toGraph_eq_ok_iff.mp hd
    exact ((nextId_ofParts_le_iff hrange).mp (UInt64.le_refl _)).1

/-! ### Reachable graphs -/

/-- **Reachable graphs**: what comes about from a pristine graph by edits and by removing nodes. -/
inductive Reachable : Graph → Prop where
  | pristine {g : Graph} (hg : g.IsPristine) : Reachable g
  | edit {g g' : Graph} {e : Edit} {reply : Edit.Reply} (hg : Reachable g)
      (h : g.edit e = .ok (reply, g')) : Reachable g'
  | removeNode {g g' : Graph} {id : NodeId} {removed : Removed} (hg : Reachable g)
      (h : g.removeNode id = .ok (removed, g')) : Reachable g'

/-- **A reachable graph is orderly.** -/
theorem Reachable.isOrderly (hg : g.Reachable) : g.IsOrderly := by
  induction hg with
  | pristine hg => exact hg.isOrderly
  | edit _ h ih => exact ih.edit h
  | removeNode _ h ih => exact ih.removeNode h

end Graph

end Flowchart
