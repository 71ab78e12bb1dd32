import Flowchart.Proofs.Wiring.Scan

/-!
# Edits that disturb a match

A match that a scan reports stays one as long as its two nodes and their ports are there and nobody
adds its arrow. Of all edits only three can change that (`Flowchart.Wiring.Disturbs`): the details
of a node are replaced, so that the ports are declared no longer; the arrow itself is added; or an
arrow between the two nodes is given the name of the port for its label.

Each of them does change it: if a match is reported, an edit that disturbs it succeeds, and the
match is not reported afterwards (`Flowchart.Wiring.not_reports_of_disturbs`). All other edits leave
it reported (`Flowchart.Wiring.Reports.edit`).
-/

namespace Flowchart.Wiring

variable {g g' : Graph} {options : Options} {m : Match} {e : Graph.Edit} {reply : Graph.Edit.Reply}

/-- **An edit disturbs a match**: it takes its ports away, or it puts its arrow there. -/
def Disturbs (g : Graph) (options : Options) (m : Match) : Graph.Edit → Prop
  | .setDetails id change => ∃ g', g.setDetails id change = .ok g' ∧ ¬ Declares g' options m
  | .addEdge source target label =>
    source = m.source ∧ target = m.target ∧ label = some m.portName
  | .setEdgeLabel index label =>
    label = some m.portName ∧
      ∃ edge, g.edges[index]? = some edge ∧ edge.source = m.source ∧ edge.target = m.target
  | _ => False

/-- **A match is reported no longer once it is disturbed.** -/
theorem not_reports_of_disturbs (h : Reports g options m) (hdisturbs : Disturbs g options m e) :
    ∃ reply g', g.edit e = .ok (reply, g') ∧ ¬ Reports g' options m := by
  cases e with
  | setDetails id change =>
    obtain ⟨g', hset, hdeclares⟩ := hdisturbs
    exact ⟨.done, g', bind_pure_eq_ok_iff.mpr ⟨g', hset, rfl⟩,
      fun hreports => hdeclares (reports_iff.mp hreports).2.1⟩
  | addEdge source target label =>
    obtain ⟨rfl, rfl, rfl⟩ := hdisturbs
    refine ⟨_, _, bind_pure_eq_ok_iff.mpr ⟨_, h.joins.addEdge, rfl⟩, fun hreports => ?_⟩
    refine hreports.arrow_not_mem ?_
    exact List.mem_append_right _ (List.mem_singleton_self _)
  | setEdgeLabel index label =>
    obtain ⟨rfl, edge, hedge, hs, ht⟩ := hdisturbs
    have hindex : index < g.edges.length := (List.getElem?_eq_some_iff.mp hedge).1
    obtain ⟨g', hset⟩ : ∃ g', g.setEdgeLabel index (some m.portName) = .ok g' :=
      ⟨_, Graph.setEdgeLabel_eq_ok_iff.mpr ⟨hindex, rfl⟩⟩
    refine ⟨_, g', bind_pure_eq_ok_iff.mpr ⟨g', hset, rfl⟩, fun hreports => ?_⟩
    refine hreports.arrow_not_mem ?_
    refine (Graph.mem_edges_of_setEdgeLabel hset).mpr ⟨index, edge, hedge, ?_⟩
    rw [if_pos rfl, hs, ht]
    rfl
  | _ => exact hdisturbs.elim

theorem Reports.of_declares (h : Reports g options m) (hdeclares : Declares g' options m)
    (hedges : m.arrow ∉ g'.edges) : Reports g' options m :=
  reports_iff.mpr ⟨h.joins.2.2, hdeclares, hedges⟩

/-- A change of a node that keeps its id and its details leaves a match reported. -/
theorem Reports.updateNode {id : NodeId} {f : Node → Node} (h : Reports g options m)
    (hupdate : g.updateNode id f = .ok g') (hid : ∀ node, (f node).id = node.id)
    (hdetails : ∀ node, (f node).details = node.details) : Reports g' options m := by
  refine h.of_declares ((reports_iff.mp h).2.1.of_kept fun node hnode _ => ?_) ?_
  · rcases Graph.mem_nodes_or_of_updateNode hupdate hnode with hmem | hmem
    · exact ⟨node, hmem, rfl, rfl⟩
    · exact ⟨f node, hmem, hid node, hdetails node⟩
  · rw [(Graph.eq_of_updateNode hupdate hid).2.2]
    exact h.arrow_not_mem

/-- **All other edits leave a match reported.** -/
theorem Reports.edit (h : Reports g options m) (hdisturbs : ¬ Disturbs g options m e)
    (hedit : g.edit e = .ok (reply, g')) : Reports g' options m := by
  have hdeclares := (reports_iff.mp h).2.1
  cases e with
  | addNode position shape =>
    obtain ⟨-, rfl⟩ := Prod.mk.inj (Except.ok.inj hedit)
    refine h.of_declares (hdeclares.of_kept fun node hnode _ => ?_) h.arrow_not_mem
    exact ⟨node, List.mem_append_left _ hnode, rfl, rfl⟩
  | moveNode id position =>
    obtain ⟨_, hmove, ⟨⟩⟩ := bind_pure_eq_ok_iff.mp hedit
    exact h.updateNode hmove (fun _ => rfl) fun _ => rfl
  | setLabel id label =>
    obtain ⟨_, hset, ⟨⟩⟩ := bind_pure_eq_ok_iff.mp hedit
    exact h.updateNode hset (fun _ => rfl) fun _ => rfl
  | setDetails id change =>
    obtain ⟨_, hset, ⟨⟩⟩ := bind_pure_eq_ok_iff.mp hedit
    -- that the ports are still declared is just what the edit does not disturb
    have hstill : Declares g' options m := not_not.mp fun hnot => hdisturbs ⟨g', hset, hnot⟩
    refine h.of_declares hstill ?_
    rw [(Graph.eq_of_updateNode hset fun _ => rfl).2.2]
    exact h.arrow_not_mem
  | addEdge source target label =>
    obtain ⟨_, hadd, ⟨⟩⟩ := bind_pure_eq_ok_iff.mp hedit
    obtain ⟨-, -, -, -, hrest⟩ := Graph.addEdge_eq_ok_iff.mp hadd
    rw [hrest]
    refine h.of_declares (hdeclares.of_kept fun node hnode _ => ⟨node, hnode, rfl, rfl⟩) ?_
    intro hmem
    rcases List.mem_append.mp hmem with hold | hnew
    · exact h.arrow_not_mem hold
    · obtain ⟨rfl, rfl, rfl⟩ := Edge.mk.inj (List.mem_singleton.mp hnew)
      exact hdisturbs ⟨rfl, rfl, rfl⟩
  | setEdgeLabel index label =>
    obtain ⟨_, hset, ⟨⟩⟩ := bind_pure_eq_ok_iff.mp hedit
    obtain ⟨hnodes, -, -⟩ := Graph.ends_of_setEdgeLabel hset
    refine h.of_declares (hdeclares.of_kept fun node hnode _ =>
      ⟨node, hnodes ▸ hnode, rfl, rfl⟩) fun hmem => ?_
    -- the arrow that is there now had this label before, or has been given it
    obtain ⟨i, old, hold, heq⟩ := (Graph.mem_edges_of_setEdgeLabel hset).mp hmem
    split at heq
    · next hplace =>
      obtain ⟨hs, ht, hlabel⟩ := Edge.mk.inj heq
      exact hdisturbs ⟨hlabel.symm, old, hplace ▸ hold, hs.symm, ht.symm⟩
    · exact h.arrow_not_mem (heq ▸ List.mem_of_getElem? hold)
  | removeEdge index =>
    obtain ⟨_, hremove, ⟨⟩⟩ := bind_pure_eq_ok_iff.mp hedit
    obtain ⟨-, hrest⟩ := Graph.removeEdge_eq_ok_iff.mp hremove
    rw [hrest]
    exact h.of_declares (hdeclares.of_kept fun node hnode _ => ⟨node, hnode, rfl, rfl⟩)
      fun hmem => h.arrow_not_mem (List.eraseIdx_subset hmem)

/-- **Removing another node leaves a match reported.** -/
theorem Reports.removeNode {id : NodeId} {removed : Graph.Removed} (h : Reports g options m)
    (hne : m.source ≠ id ∧ m.target ≠ id) (hremove : g.removeNode id = .ok (removed, g')) :
    Reports g' options m := by
  obtain ⟨_, -, -, rfl⟩ := Graph.removeNode_eq_ok_iff.mp hremove
  refine h.of_declares ((reports_iff.mp h).2.1.of_kept fun node hnode hend => ?_) ?_
  · have hother : node.id ≠ id := by
      rcases hend with hs | ht
      · exact hs ▸ hne.1
      · exact ht ▸ hne.2
    exact ⟨node, (List.mem_eraseP_of_neg (by simpa using hother)).mpr hnode, rfl, rfl⟩
  · exact fun hmem => h.arrow_not_mem (List.mem_filter.mp hmem).1

end Flowchart.Wiring
