import Flowchart.Proofs.Wiring.Identity
import Flowchart.Proofs.Wiring.Scan
import Mathlib.Data.List.Pairwise

/-!
# Pending suggestions and the nodes they join

What hangs on the board comes from one scan, less what was taken off since, in the order of the scan
(`Flowchart.Wiring.Board.edges`). So no two suggestions stand for the same arrow
(`Flowchart.Wiring.Board.IsDistinct`).

A suggestion names two nodes. A scan proposes nothing but arrows between two different nodes of the
graph (`Flowchart.Wiring.joins_of_mem_findMatches`), and no other operation hangs anything up, so
the suggestions keep joining nodes of the graph as long as no node is lost
(`Flowchart.Wiring.Board.StandsIn`). When a node is lost, forgetting it on the board is enough.
-/

namespace Flowchart.Wiring

namespace Board

variable {board : Board} {g : Graph}

/-! ### The arrows on the board -/

/-- The matches that hang on the board, in the order of the suggestions. -/
def edges (board : Board) : List Match :=
  board.pending.map Suggestion.edge

theorem edges_compute (board : Board) (g : Graph) (options : Options) :
    (board.compute g options).edges = findMatches g options := by
  simp only [edges, compute, number, List.map_map]
  exact List.zipIdx_map_fst 0 (findMatches g options)

theorem edges_eq_map_identity (board : Board) :
    board.edges = (board.pending.map Suggestion.identity).map Prod.snd := by
  rw [List.map_map]
  rfl

theorem edges_toggle (board : Board) (id : SuggestionId) :
    (board.toggle id).2.edges = board.edges := by
  rw [edges_eq_map_identity, identity_toggle, ← edges_eq_map_identity]

theorem edges_take_sublist (board : Board) (scope : Scope) :
    (board.take scope).2.edges.Sublist board.edges :=
  List.filter_sublist.map Suggestion.edge

/-- Forgetting a node leaves nothing that touches it, and hangs up nothing. -/
theorem mem_edges_forget {id : NodeId} {m : Match} :
    m ∈ (board.forget id).edges ↔ m ∈ board.edges ∧ m.source ≠ id ∧ m.target ≠ id := by
  simp only [edges, forget, List.mem_map, List.mem_filter, Suggestion.touches, Bool.not_eq_true',
    Bool.or_eq_false_iff, decide_eq_false_iff_not]
  constructor
  · rintro ⟨s, ⟨hs, htouches⟩, rfl⟩
    exact ⟨⟨s, hs, rfl⟩, htouches⟩
  · rintro ⟨⟨s, hs, rfl⟩, htouches⟩
    exact ⟨s, ⟨hs, htouches⟩, rfl⟩

/-- **No two suggestions stand for the same arrow.** -/
def IsDistinct (board : Board) : Prop :=
  board.edges.Pairwise fun m n => m.sameEdge n = false

theorem isDistinct_compute (board : Board) (g : Graph) (options : Options) :
    (board.compute g options).IsDistinct := by
  rw [IsDistinct, edges_compute]
  exact pairwise_findMatches g options

/-- **What is left on the board stands for none of the arrows that are taken off.** -/
theorem IsDistinct.sameEdge_take (h : board.IsDistinct) {scope : Scope} {m n : Match}
    (hkept : m ∈ (board.take scope).2.edges) (htaken : n ∈ (board.take scope).1.map (·.edge)) :
    m.sameEdge n = false := by
  obtain ⟨s, hs, rfl⟩ := List.mem_map.mp hkept
  obtain ⟨t, ht, rfl⟩ := List.mem_map.mp htaken
  obtain ⟨hs, hout⟩ := List.mem_filter.mp hs
  obtain ⟨ht, hin⟩ := List.mem_filter.mp ht
  have hsymm : Std.Symm fun s t : Suggestion => s.edge.sameEdge t.edge = false :=
    ⟨fun s t hst => Match.sameEdge_comm.trans hst⟩
  refine (List.pairwise_map.mp h).forall hs ht ?_
  rintro rfl
  rw [hin] at hout
  exact nomatch hout

/-! ### The nodes of the suggestions -/

/-- **The board stands in a graph**: every pending suggestion joins two different nodes of it. -/
def StandsIn (board : Board) (g : Graph) : Prop :=
  ∀ s ∈ board.pending, s.edge.Joins g

theorem standsIn_iff : board.StandsIn g ↔ ∀ m ∈ board.edges, m.Joins g := by
  rw [edges, List.forall_mem_map]
  rfl

theorem StandsIn.mono {g' : Graph} (h : board.StandsIn g) (hids : g.ids ⊆ g'.ids) :
    board.StandsIn g' := by
  intro s hs
  obtain ⟨hsource, htarget, hne⟩ := h s hs
  exact ⟨hids hsource, hids htarget, hne⟩

theorem StandsIn.of_edges_subset {board' : Board} (h : board.StandsIn g)
    (hsub : board'.edges ⊆ board.edges) : board'.StandsIn g :=
  standsIn_iff.mpr fun m hm => standsIn_iff.mp h m (hsub hm)

theorem standsIn_compute (board : Board) (g : Graph) (options : Options) :
    (board.compute g options).StandsIn g := by
  rw [standsIn_iff, edges_compute]
  exact fun m hm => joins_of_mem_findMatches hm

theorem StandsIn.toggle (h : board.StandsIn g) (id : SuggestionId) :
    (board.toggle id).2.StandsIn g :=
  h.of_edges_subset (board.edges_toggle id ▸ List.Subset.refl _)

theorem StandsIn.take (h : board.StandsIn g) (scope : Scope) :
    (board.take scope).2.StandsIn g :=
  h.of_edges_subset (board.edges_take_sublist scope).subset

/-- **Forgetting a node** leaves suggestions that stand in what is left of the graph. -/
theorem StandsIn.forget {g' : Graph} {id : NodeId} (h : board.StandsIn g)
    (hids : ∀ other ∈ g.ids, other ≠ id → other ∈ g'.ids) : (board.forget id).StandsIn g' := by
  rw [standsIn_iff] at h ⊢
  intro m hm
  obtain ⟨hmem, hs, ht⟩ := mem_edges_forget.mp hm
  obtain ⟨hsource, htarget, hne⟩ := h m hmem
  exact ⟨hids _ hsource hs, hids _ htarget ht, hne⟩

end Board

end Flowchart.Wiring
