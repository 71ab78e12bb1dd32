import Flowchart.Proofs.Session.Staleness

/-!
# Applying suggestions

Suggestions are hung up by a scan, turned around one by one, and then some of them are applied. The
graph may have been edited in the meantime, and arrows may have been added by hand that a suggestion
stands for. Two things are still true of the board: the two nodes of a suggestion are there, and no
two suggestions stand for the same arrow. So the arrows that are missing are added, each of them
once, and none of them is in the way of another one
(`Flowchart.Session.foldl_addSuggested_eq_filter`).
Nothing else changes except that the suggestions are taken off the board
(`Flowchart.Session.apply_after_start`).

If nothing was done to the graph since the scan, then no arrow is there yet and all of them are
added. When the graph is scanned again, they silence their own suggestions and no others. As no two
suggestions stand for the same arrow, what is found then is what was not applied
(`Flowchart.Session.suggest_apply_suggest`).
-/

namespace Flowchart.Session

open Wiring

/-- **The arrows that are missing are added**, in their order, if they join nodes of the graph and
none of them occurs twice. -/
theorem foldl_addSuggested_eq_filter {g : Graph} {ms : List Match} (hjoins : ∀ m ∈ ms, m.Joins g)
    (hdistinct : ms.Pairwise fun m n => m.sameEdge n = false) :
    ms.foldl addSuggested g =
      { g with edges := g.edges ++ (ms.filter (·.arrow ∉ g.edges)).map Match.arrow } := by
  induction ms generalizing g with
  | nil => rw [List.foldl_nil, List.filter_nil, List.map_nil, List.append_nil]
  | cons m ms ih =>
    obtain ⟨hother, hdistinct⟩ := List.pairwise_cons.mp hdistinct
    have hjoins' : ∀ n ∈ ms, n.Joins g := fun n hn => hjoins n (List.mem_cons_of_mem m hn)
    rcases addSuggested_cases g m with ⟨-, hmissing, hadd⟩ | ⟨hnot, hadd⟩
    · -- the new arrow is not the one that another suggestion waits for
      have hfilter :
          ms.filter (·.arrow ∉ g.edges ++ [m.arrow]) = ms.filter (·.arrow ∉ g.edges) := by
        refine List.filter_congr fun n hn => decide_eq_decide.mpr ?_
        have hne : n.arrow ≠ m.arrow := fun heq =>
          Bool.eq_false_iff.mp (hother n hn) (Match.sameEdge_iff_arrow_eq.mpr heq.symm)
        rw [List.mem_append, List.mem_singleton, or_iff_left hne]
      rw [List.foldl_cons, hadd]
      refine (ih (g := { g with edges := g.edges ++ [m.arrow] }) hjoins' hdistinct).trans ?_
      rw [List.filter_cons_of_pos (by simpa using hmissing), List.map_cons]
      simp only [hfilter, List.append_assoc, List.singleton_append]
    · have hthere : m.arrow ∈ g.edges :=
        not_not.mp fun hmissing => hnot ⟨hjoins m List.mem_cons_self, hmissing⟩
      rw [List.foldl_cons, hadd, ih hjoins' hdistinct,
        List.filter_cons_of_neg (by simpa using hthere)]

/-- Missing arrows are all added. -/
theorem foldl_addSuggested_eq {g : Graph} {ms : List Match} (hjoins : ∀ m ∈ ms, m.Joins g)
    (hmissing : ∀ m ∈ ms, m.arrow ∉ g.edges)
    (hdistinct : ms.Pairwise fun m n => m.sameEdge n = false) :
    ms.foldl addSuggested g = { g with edges := g.edges ++ ms.map Match.arrow } := by
  have hall : ms.filter (·.arrow ∉ g.edges) = ms :=
    List.filter_eq_self.mpr fun m hm => decide_eq_true (hmissing m hm)
  rw [foldl_addSuggested_eq_filter hjoins hdistinct, hall]

/-- **Applying suggestions appends arrows and does nothing else**, whatever was done before. An
arrow is added for every suggestion that is meant unless it was there already, in the order of the
suggestions, and no two of the new arrows are equal. Their number is returned. The suggestions that
are not meant stay on the board as they were. -/
theorem apply_after_start (g : Graph) (config : Config) (contextText : String)
    (actions : List Action) (scope : Scope) :
    let s := (start g config contextText).after actions
    let meant := s.board.pending.filter fun t => scope = .all ∨ t.selected
    let missing := meant.filter fun t => t.edge.arrow ∉ s.graph.edges
    let others := s.board.pending.filter fun t => ¬ (scope = .all ∨ t.selected)
    (s.apply scope).2 =
        { s with
          graph := { s.graph with edges := s.graph.edges ++ missing.map (·.edge.arrow) }
          board := { s.board with pending := others } } ∧
      (missing.map (·.edge.arrow)).Nodup ∧
      (s.apply scope).1 = missing.length := by
  intro s meant missing others
  have hincludes : scope.includes = fun t => decide (scope = .all ∨ t.selected) := by
    cases scope <;> simp [Scope.includes, funext_iff]
  have htaken : (s.board.take scope).1 = meant := by rw [Board.take, hincludes]
  have hkept : (s.board.take scope).2 = { s.board with pending := others } := by
    simp only [Board.take, hincludes, others, decide_not]
  -- what a history keeps true of the board
  have hjoins : ∀ m ∈ meant.map Suggestion.edge, m.Joins s.graph := by
    refine List.forall_mem_map.mpr fun t ht => ?_
    exact standsIn_after (fun _ h => absurd h List.not_mem_nil) actions t
      (List.mem_of_mem_filter ht)
  have hboard : s.board.IsDistinct :=
    isDistinct_after (s := start g config contextText) List.Pairwise.nil actions
  have hdistinct : (meant.map Suggestion.edge).Pairwise fun m n => m.sameEdge n = false :=
    hboard.sublist (List.filter_sublist.map Suggestion.edge)
  have hadd : ((s.board.take scope).1.map (·.edge)).foldl addSuggested s.graph =
      { s.graph with edges := s.graph.edges ++ missing.map (·.edge.arrow) } := by
    rw [htaken, foldl_addSuggested_eq_filter hjoins hdistinct, List.filter_map, List.map_map]
    rfl
  refine ⟨?_, ?_, ?_⟩
  · simp only [Session.apply, hadd, hkept]
  · refine List.pairwise_map.mpr (((List.pairwise_map.mp hdistinct).filter _).imp fun hne heq => ?_)
    exact Bool.eq_false_iff.mp hne (Match.sameEdge_iff_arrow_eq.mpr heq)
  · simp only [Session.apply, hadd, List.length_append, List.length_map, Nat.add_sub_cancel_left]

/-- Turning suggestions around changes neither the graph nor what hangs on the board. -/
theorem edges_after_toggles (s : Session) (ids : List SuggestionId) :
    (s.after (ids.map .toggle)).graph = s.graph ∧
      (s.after (ids.map .toggle)).board.edges = s.board.edges := by
  induction ids generalizing s with
  | nil => exact ⟨rfl, rfl⟩
  | cons id ids ih =>
    obtain ⟨hgraph, hedges⟩ := ih (s.perform (.toggle id)).2
    exact ⟨hgraph, hedges.trans (s.board.edges_toggle id)⟩

/-- **Taking suggestions off a board** leaves those whose arrows are not among the arrows of the
others. -/
theorem filter_edges_arrow {board : Board} (h : board.IsDistinct) (scope : Scope) :
    board.edges.filter (fun m => m.arrow ∉ (board.take scope).1.map (·.edge.arrow)) =
      (board.take scope).2.edges := by
  rw [Board.edges, List.filter_map]
  refine congrArg _ (List.filter_congr fun s hs => ?_)
  cases hin : scope.includes s with
  | true =>
    have hmem : s.edge.arrow ∈ (board.take scope).1.map (·.edge.arrow) :=
      List.mem_map_of_mem (List.mem_filter.mpr ⟨hs, hin⟩)
    simpa using hmem
  | false =>
    have hkept : s.edge ∈ (board.take scope).2.edges :=
      List.mem_map_of_mem (List.mem_filter.mpr ⟨hs, by rw [hin]; rfl⟩)
    simp only [Function.comp_apply, Bool.not_false, decide_eq_true_eq]
    intro hmem
    obtain ⟨t, ht, harrow⟩ := List.mem_map.mp hmem
    have hsame : s.edge.sameEdge t.edge = true := Match.sameEdge_iff_arrow_eq.mpr harrow.symm
    exact absurd hsame (Bool.eq_false_iff.mp (h.sameEdge_take hkept (List.mem_map_of_mem ht)))

/-- **Scanning, applying and scanning again.** After a scan with any options, suggestions are turned
around in any way, and those that are meant are applied. All of them are added, one arrow for each,
and nothing else changes in the graph. A second scan with the same options finds those of the first
scan that were not meant, in the same order and with the same types. -/
theorem suggest_apply_suggest (s : Session) (options : Options) (toggles : List SuggestionId)
    (scope : Scope) :
    let scanned := s.suggest options
    let chosen := scanned.after (toggles.map .toggle)
    let meant := chosen.board.pending.filter scope.includes
    let others := chosen.board.pending.filter (!scope.includes ·)
    let applied := chosen.apply scope
    chosen.board.edges = scanned.board.edges ∧
      applied.1 = meant.length ∧
      applied.2.graph = { s.graph with edges := s.graph.edges ++ meant.map (·.edge.arrow) } ∧
      (applied.2.suggest options).board.edges = others.map Suggestion.edge := by
  intro scanned chosen meant others applied
  obtain ⟨hgraph, hedges⟩ : chosen.graph = s.graph ∧ chosen.board.edges = scanned.board.edges :=
    scanned.edges_after_toggles toggles
  -- toggling leaves what was found on the board, so all that is added can be added
  have hfound : chosen.board.edges = findMatches s.graph options :=
    hedges.trans (s.board.edges_compute s.graph options)
  have hdistinct : chosen.board.IsDistinct := by
    rw [Board.IsDistinct, hfound]
    exact pairwise_findMatches s.graph options
  have hreports : ∀ m ∈ meant.map Suggestion.edge, Reports s.graph options m := by
    intro m hm
    refine reports_of_mem_findMatches (hfound ▸ ?_)
    exact (List.filter_sublist.map Suggestion.edge).subset hm
  have hadd : applied.2.graph =
      { s.graph with edges := s.graph.edges ++ meant.map (·.edge.arrow) } := by
    change (meant.map Suggestion.edge).foldl addSuggested chosen.graph = _
    rw [hgraph, foldl_addSuggested_eq (fun m hm => (hreports m hm).joins)
      (fun m hm => (hreports m hm).arrow_not_mem)
      (hdistinct.sublist (List.filter_sublist.map Suggestion.edge)), List.map_map]
    rfl
  refine ⟨hedges, ?_, hadd, ?_⟩
  · change applied.2.graph.edges.length - chosen.graph.edges.length = meant.length
    rw [hadd, hgraph, List.length_append, List.length_map, Nat.add_sub_cancel_left]
  · change (applied.2.board.compute applied.2.graph options).edges = _
    rw [Board.edges_compute, hadd, findMatches_append, ← hfound]
    exact filter_edges_arrow hdistinct scope

end Flowchart.Session
