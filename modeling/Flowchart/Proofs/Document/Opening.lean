import Flowchart.Document.Basic
import Flowchart.Proofs.Graph.Soundness

/-!
# What can be opened

A document is opened exactly if it has the current version, its ids are within range and pairwise
distinct, and its arrows join its nodes (`Flowchart.Document.toGraph_eq_ok_iff`). The graph is then
the one of its nodes and arrows, so it is sound, and its counter stands at most one above the
largest id that a document may contain (`Flowchart.Document.isSound_of_toGraph`).

A graph is *pristine* (`Flowchart.Graph.IsPristine`) if nothing has been done with it yet: it is
empty, or it comes from a document. A pristine graph leaves its counter room for more nodes than
anybody adds.
-/

namespace Flowchart

/-- The larger of two ids is one of them, and bounded by what bounds both. -/
instance : Std.LawfulOrderMax NodeId where
  max_eq_or a b := by
    change (if a ≤ b then b else a) = a ∨ (if a ≤ b then b else a) = b
    split <;> simp
  max_le_iff a b c := by
    change (if a ≤ b then b else a) ≤ c ↔ a ≤ c ∧ b ≤ c
    split <;> simp only [UInt64.le_iff_toNat_le] at * <;> omega

namespace Document

variable {d : Document} {g : Graph}

/-! ### The checks -/

/-- **Ids pass** if they are within range, pairwise distinct, and none of them was seen before. -/
theorem checkIds_eq_ok_iff {seen ids : List NodeId} :
    checkIds seen ids = .ok () ↔
      (∀ id ∈ ids, id ≤ maxNodeId) ∧ ids.Nodup ∧ ∀ id ∈ ids, id ∉ seen := by
  induction ids generalizing seen with
  | nil => simp [checkIds]
  | cons id ids ih =>
    rw [checkIds]
    by_cases hrange : maxNodeId < id
    · have hnot : ¬ id ≤ maxNodeId := by
        rw [UInt64.le_iff_toNat_le]
        rw [UInt64.lt_iff_toNat_lt] at hrange
        omega
      simp [hrange, hnot]
    · have hle : id ≤ maxNodeId := by
        rw [UInt64.le_iff_toNat_le]
        rw [UInt64.lt_iff_toNat_lt] at hrange
        omega
      by_cases hseen : id ∈ seen
      · simp [hrange, hseen]
      · rw [if_neg hrange, if_neg hseen, ih]
        simp only [List.mem_cons, forall_eq_or_imp, List.nodup_cons, not_or]
        constructor
        · rintro ⟨hall, hnodup, hnew⟩
          exact ⟨⟨hle, hall⟩, ⟨fun hmem => (hnew id hmem).1 rfl, hnodup⟩, hseen,
            fun other hother => (hnew other hother).2⟩
        · rintro ⟨⟨-, hall⟩, ⟨hid, hnodup⟩, -, hnew⟩
          refine ⟨hall, hnodup, fun other hother => ⟨?_, hnew other hother⟩⟩
          rintro rfl
          exact hid hother

/-- **Arrows pass** if all their ends are among the ids. -/
theorem checkEdges_eq_ok_iff {ids : List NodeId} {edges : List Edge} :
    checkEdges ids edges = .ok () ↔ ∀ edge ∈ edges, edge.source ∈ ids ∧ edge.target ∈ ids := by
  rw [checkEdges]
  cases h : edges.find? fun edge => !(ids.contains edge.source && ids.contains edge.target) with
  | none => simpa using h
  | some edge =>
    have hbad := List.find?_some h
    simp only [reduceCtorEq, false_iff]
    intro hall
    obtain ⟨hs, ht⟩ := hall edge (List.mem_of_find?_eq_some h)
    simp [hs, ht] at hbad

/-- **What can be opened**, and what the graph is then. -/
theorem toGraph_eq_ok_iff :
    d.toGraph = .ok g ↔ d.version = currentVersion ∧
      (∀ id ∈ d.nodes.map Node.id, id ≤ maxNodeId) ∧ (d.nodes.map Node.id).Nodup ∧
      (∀ edge ∈ d.edges, edge.source ∈ d.nodes.map Node.id ∧ edge.target ∈ d.nodes.map Node.id) ∧
      g = .ofParts d.nodes d.edges := by
  rw [toGraph]
  by_cases hversion : d.version = currentVersion
  · simp only [hversion, ne_eq, not_true_eq_false, if_false, bind_eq_ok_iff, pure_eq_ok_iff,
      true_and]
    constructor
    · rintro ⟨_, hids, _, hedges, rfl⟩
      obtain ⟨hrange, hnodup, -⟩ := checkIds_eq_ok_iff.mp hids
      exact ⟨hrange, hnodup, checkEdges_eq_ok_iff.mp hedges, rfl⟩
    · rintro ⟨hrange, hnodup, hends, rfl⟩
      have hnew : ∀ id ∈ d.nodes.map Node.id, id ∉ ([] : List NodeId) := by simp
      exact ⟨(), checkIds_eq_ok_iff.mpr ⟨hrange, hnodup, hnew⟩, (),
        checkEdges_eq_ok_iff.mpr hends, rfl⟩
  · simp [hversion, throw, throwThe, MonadExceptOf.throw, bind, Except.bind]

/-! ### The graph of a document -/

/-- The counter of a graph that is put together lies above the ids of its nodes, and at most one
above a bound for them. -/
theorem nextId_ofParts {nodes : List Node} (edges : List Edge)
    (hrange : ∀ id ∈ nodes.map Node.id, id ≤ maxNodeId) :
    (∀ id ∈ nodes.map Node.id, id.toNat < (Graph.ofParts nodes edges).nextId.toNat) ∧
      (Graph.ofParts nodes edges).nextId.toNat ≤ 2 ^ 53 := by
  have hmax : maxNodeId.toNat = 2 ^ 53 - 1 := rfl
  simp only [Graph.ofParts]
  cases h : (nodes.map Node.id).max? with
  | none =>
    rw [List.max?_eq_none_iff.mp h]
    exact ⟨by simp, by decide⟩
  | some largest =>
    -- the largest id is within range, so the one behind it is one more
    obtain ⟨hmem, hle⟩ := List.max?_eq_some_iff.mp h
    have hlargest := UInt64.le_iff_toNat_le.mp (hrange largest hmem)
    change (∀ id ∈ nodes.map Node.id, id.toNat < largest.succ.toNat) ∧ largest.succ.toNat ≤ 2 ^ 53
    rw [NodeId.toNat_succ (by omega)]
    refine ⟨fun id hid => ?_, by omega⟩
    have := UInt64.le_iff_toNat_le.mp (hle id hid)
    omega

/-- **A document that can be opened has a sound graph.** -/
theorem isSound_of_toGraph (h : d.toGraph = .ok g) : g.IsSound ∧ g.nextId.toNat ≤ 2 ^ 53 := by
  obtain ⟨-, hrange, hnodup, hends, rfl⟩ := toGraph_eq_ok_iff.mp h
  obtain ⟨hfresh, hle⟩ := nextId_ofParts d.edges hrange
  exact ⟨⟨hnodup, hends, hfresh⟩, hle⟩

end Document

namespace Graph

variable {g : Graph}

/-- **A pristine graph** is empty, or comes from a document. -/
def IsPristine (g : Graph) : Prop :=
  g = empty ∨ ∃ d : Document, d.toGraph = .ok g

theorem IsPristine.isSound (hg : g.IsPristine) : g.IsSound := by
  rcases hg with rfl | ⟨d, hd⟩
  · exact isSound_empty
  · exact (Document.isSound_of_toGraph hd).1

/-- The counter of a pristine graph has room for more than `2 ^ 63` nodes. -/
theorem IsPristine.hasRoom (hg : g.IsPristine) {count : Nat} (hcount : count ≤ 2 ^ 63) :
    g.HasRoom count := by
  have hle : g.nextId.toNat ≤ 2 ^ 53 := by
    rcases hg with rfl | ⟨d, hd⟩
    · decide
    · exact (Document.isSound_of_toGraph hd).2
  rw [HasRoom]
  omega

end Graph

end Flowchart
