import Flowchart.Proofs.Graph.Soundness
import Mathlib.Data.Fintype.Card
import Mathlib.Logic.Relation

/-!
# Flowcharts without cycles

A flowchart is *acyclic* (`Flowchart.Graph.IsAcyclic`) if no node can be reached from itself along
one or more arrows. Labels do not matter here, and neither does which of several arrows would be
followed: whatever execution does, it goes along arrows.

What the absence of cycles is good for is a *rank* (`Flowchart.Graph.IsRank`), a number for every
node that falls along every arrow. Whoever goes along arrows can go on only as often as the rank of
the node where they begin allows.

| from | to | theorem |
|---|---|---|
| a rank | no cycle | `Flowchart.Graph.IsRank.isAcyclic` |
| no cycle | a rank | `Flowchart.Graph.IsAcyclic.isRank` |

The rank of the second line is the number of nodes that can be reached from a node. The node itself
is not among them, so its rank is less than the number of nodes
(`Flowchart.Graph.IsAcyclic.card_reachedFrom_lt`).
-/

namespace Flowchart.Graph

open Relation (TransGen)

variable {g : Graph} {source target id : NodeId}

/-- **An arrow leads** from one node to another. -/
def LeadsTo (g : Graph) (source target : NodeId) : Prop :=
  ∃ edge ∈ g.edges, edge.source = source ∧ edge.target = target

/-- **No cycle**: no node is reached from itself along one or more arrows. -/
def IsAcyclic (g : Graph) : Prop :=
  ∀ id, ¬ TransGen g.LeadsTo id id

/-- A number for every node that falls along every arrow. -/
def IsRank (g : Graph) (rank : NodeId → Nat) : Prop :=
  ∀ edge ∈ g.edges, rank edge.target < rank edge.source

instance (g : Graph) (rank : NodeId → Nat) : Decidable (g.IsRank rank) :=
  inferInstanceAs (Decidable (∀ edge ∈ g.edges, rank edge.target < rank edge.source))

theorem IsRank.lt_of_transGen {rank : NodeId → Nat} (hrank : g.IsRank rank)
    (h : TransGen g.LeadsTo source target) : rank target < rank source := by
  induction h with
  | single harrow =>
    obtain ⟨edge, hedge, rfl, rfl⟩ := harrow
    exact hrank edge hedge
  | tail _ harrow ih =>
    obtain ⟨edge, hedge, rfl, rfl⟩ := harrow
    exact Nat.lt_trans (hrank edge hedge) ih

/-- **A rank excludes cycles**: it would have to fall from a number to that number. -/
theorem IsRank.isAcyclic {rank : NodeId → Nat} (hrank : g.IsRank rank) : g.IsAcyclic :=
  fun _ hcycle => Nat.lt_irrefl _ (hrank.lt_of_transGen hcycle)

theorem HasEnds.mem_ids_of_transGen (hg : g.HasEnds) (h : TransGen g.LeadsTo source target) :
    target ∈ g.ids := by
  cases h with
  | single harrow =>
    obtain ⟨edge, hedge, -, rfl⟩ := harrow
    exact (hg edge hedge).2
  | tail _ harrow =>
    obtain ⟨edge, hedge, -, rfl⟩ := harrow
    exact (hg edge hedge).2

open Classical in
/-- The nodes that can be reached from a node along one or more arrows. -/
noncomputable def reachedFrom (g : Graph) (id : NodeId) : Finset NodeId :=
  {target ∈ g.ids.toFinset | TransGen g.LeadsTo id target}

theorem mem_reachedFrom_iff (hg : g.HasEnds) :
    target ∈ g.reachedFrom id ↔ TransGen g.LeadsTo id target := by
  simp only [reachedFrom, Finset.mem_filter, List.mem_toFinset, and_iff_right_iff_imp]
  exact hg.mem_ids_of_transGen

/-- **Without cycles, the number of nodes that can be reached is a rank.** What can be reached from
the target of an arrow can be reached from its source, and the target itself besides. -/
theorem IsAcyclic.isRank (hacyclic : g.IsAcyclic) (hg : g.HasEnds) :
    g.IsRank fun id => (g.reachedFrom id).card := by
  intro edge hedge
  have harrow : g.LeadsTo edge.source edge.target := ⟨edge, hedge, rfl, rfl⟩
  refine Finset.card_lt_card (Finset.ssubset_iff_subset_ne.mpr ⟨fun id hid => ?_, fun heq => ?_⟩)
  · rw [mem_reachedFrom_iff hg] at hid ⊢
    exact .head harrow hid
  · have hself : edge.target ∈ g.reachedFrom edge.target :=
      heq ▸ (mem_reachedFrom_iff hg).mpr (.single harrow)
    exact hacyclic edge.target ((mem_reachedFrom_iff hg).mp hself)

/-- Without cycles, less than all nodes can be reached from a node: it is not among them. -/
theorem IsAcyclic.card_reachedFrom_lt (hacyclic : g.IsAcyclic) (hg : g.HasEnds) (hid : id ∈ g.ids) :
    (g.reachedFrom id).card < g.nodes.length := by
  have hsub : g.reachedFrom id ⊆ g.ids.toFinset := fun target htarget =>
    List.mem_toFinset.mpr (hg.mem_ids_of_transGen ((mem_reachedFrom_iff hg).mp htarget))
  have hlt : (g.reachedFrom id).card < g.ids.toFinset.card := by
    refine Finset.card_lt_card (Finset.ssubset_iff_subset_ne.mpr ⟨hsub, fun heq => ?_⟩)
    have hself : id ∈ g.reachedFrom id := heq ▸ List.mem_toFinset.mpr hid
    exact hacyclic id ((mem_reachedFrom_iff hg).mp hself)
  calc (g.reachedFrom id).card
      < g.ids.toFinset.card := hlt
    _ ≤ g.ids.length := List.toFinset_card_le g.ids
    _ = g.nodes.length := List.length_map Node.id

end Flowchart.Graph
