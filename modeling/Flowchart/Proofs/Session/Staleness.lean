import Flowchart.Proofs.Session.Export
import Flowchart.Proofs.Wiring.Disturbance

/-!
# How suggestions go stale

A suggestion is hung on the board by a scan, and what the scan reports is true of the graph at that
moment. The board is set right when a node is deleted and when suggestions are taken off it, but not
when a node gets other details, when an arrow is added, or when one gets another label. So a
suggestion may hang there although a scan would report it no longer.

What happens to a suggestion is followed from the scan that it comes from
(`Flowchart.Session.mem_edges_after`). As long as it hangs, an operation either disturbs its match
(`Flowchart.Session.Action.Disturbs`), and then it is reported no longer, or it leaves it reported
(`Flowchart.Session.reports_perform_iff`). Deleting a node and adding suggested arrows never disturb
what keeps hanging: the one drops what touches the node, and the other adds arrows of the same scan,
in which every arrow occurs once. By induction along the operations, a suggestion has been reported
all the time exactly if nothing disturbed it (`Flowchart.Session.reports_after_iff`).
-/

namespace Flowchart.Session

open Wiring

variable {s : Session} {action : Action} {actions : List Action} {options : Options} {m : Match}

/-- **An operation disturbs a match** if it is an edit that does. -/
def Action.Disturbs (g : Graph) (options : Options) (m : Match) : Action → Prop
  | .edit e => Wiring.Disturbs g options m e
  | _ => False

/-! ### What hangs on the board -/

/-- **Nothing is hung up except by a scan.** What hangs there after another operation hung there
before, in the same order. -/
theorem edges_perform_sublist (s : Session) (hscan : ∀ options, action ≠ .suggest options) :
    (s.perform action).2.board.edges.Sublist s.board.edges := by
  cases s.effect_perform action with
  | edits _ hboard => rw [hboard]
  | deletes _ hboard =>
    rw [hboard]
    exact List.filter_sublist.map Suggestion.edge
  | scans => exact absurd rfl (hscan _)
  | applies _ hboard =>
    rw [hboard]
    exact s.board.edges_take_sublist _
  | keeps _ hboard => exact hboard

/-- **Where a suggestion comes from**: it has been there all the time, or the last scan of several
operations has found it. -/
theorem mem_edges_after (h : m ∈ (s.after actions).board.edges) :
    (m ∈ s.board.edges ∧ ∀ options, .suggest options ∉ actions) ∨
      ∃ earlier options later, actions = earlier ++ .suggest options :: later ∧
        (∀ options, .suggest options ∉ later) ∧
        m ∈ findMatches (s.after earlier).graph options := by
  induction actions generalizing s with
  | nil => exact .inl ⟨h, fun _ => List.not_mem_nil⟩
  | cons action actions ih =>
    rcases ih (s := (s.perform action).2) h with
      ⟨hmem, hlater⟩ | ⟨earlier, options, later, hsplit, hlater, hfound⟩
    · by_cases hscan : ∃ options, action = .suggest options
      · obtain ⟨options, rfl⟩ := hscan
        have hfound : m ∈ findMatches s.graph options :=
          s.board.edges_compute s.graph options ▸ hmem
        exact .inr ⟨[], options, actions, rfl, hlater, hfound⟩
      · rw [not_exists] at hscan
        refine .inl ⟨(s.edges_perform_sublist hscan).subset hmem, fun options hmem => ?_⟩
        rcases List.mem_cons.mp hmem with heq | hmem
        · exact hscan options heq.symm
        · exact hlater options hmem
    · exact .inr ⟨action :: earlier, options, later, congrArg (action :: ·) hsplit, hlater, hfound⟩

/-- **The two nodes of a suggestion are there**, whatever is done. -/
theorem standsIn_perform (h : s.board.StandsIn s.graph) (action : Action) :
    (s.perform action).2.board.StandsIn (s.perform action).2.graph := by
  cases s.effect_perform action with
  | edits hedit hboard =>
    rw [hboard]
    exact h.mono (Graph.ids_subset_of_edit hedit)
  | deletes hremove hboard =>
    rw [hboard]
    exact h.forget fun other hother hne => Graph.mem_ids_of_removeNode hremove hother hne
  | scans hgraph hboard =>
    rw [hboard, hgraph]
    exact Board.standsIn_compute _ _ _
  | @applies scope hgraph hboard =>
    have hnodes := (nodes_foldl_addSuggested s.graph ((s.board.take scope).1.map (·.edge))).1
    rw [hboard, hgraph]
    refine (h.take scope).mono ?_
    rw [Graph.ids, Graph.ids, hnodes]
    exact List.Subset.refl _
  | keeps hgraph hboard =>
    rw [hgraph]
    exact h.of_edges_subset hboard.subset

theorem standsIn_after (h : s.board.StandsIn s.graph) (actions : List Action) :
    (s.after actions).board.StandsIn (s.after actions).graph := by
  induction actions generalizing s with
  | nil => exact h
  | cons action actions ih => exact ih (standsIn_perform h action)

/-- **No two suggestions stand for the same arrow**, whatever is done. -/
theorem isDistinct_perform (h : s.board.IsDistinct) (action : Action) :
    (s.perform action).2.board.IsDistinct := by
  by_cases hscan : ∃ options, action = .suggest options
  · obtain ⟨options, rfl⟩ := hscan
    exact s.board.isDistinct_compute s.graph options
  · exact h.sublist (s.edges_perform_sublist (not_exists.mp hscan))

theorem isDistinct_after (h : s.board.IsDistinct) (actions : List Action) :
    (s.after actions).board.IsDistinct := by
  induction actions generalizing s with
  | nil => exact h
  | cons action actions ih => exact ih (isDistinct_perform h action)

/-! ### One operation -/

theorem mem_edges_foldl_addSuggested {g : Graph} {ms : List Match} {edge : Edge}
    (h : edge ∈ (ms.foldl addSuggested g).edges) :
    edge ∈ g.edges ∨ ∃ m ∈ ms, edge = m.arrow := by
  refine foldl_addSuggested_of (g := g)
    (P := fun g' => edge ∈ g'.edges → edge ∈ g.edges ∨ ∃ m ∈ ms, edge = m.arrow) .inl ?_ h
  intro g' hold m hm _ _ hmem
  rcases List.mem_append.mp hmem with hmem | hnew
  · exact hold hmem
  · exact .inr ⟨m, hm, List.mem_singleton.mp hnew⟩

/-- **What keeps hanging is not disturbed by what is added**: the arrows of the suggestions that are
taken off the board are other ones. -/
theorem reports_apply {scope : Scope} (hdistinct : s.board.IsDistinct)
    (hkept : m ∈ (s.board.take scope).2.edges) (h : Reports s.graph options m) :
    Reports (((s.board.take scope).1.map (·.edge)).foldl addSuggested s.graph) options m := by
  have hnodes := (nodes_foldl_addSuggested s.graph ((s.board.take scope).1.map (·.edge))).1
  refine h.of_declares ((reports_iff.mp h).2.1.of_kept fun node hnode _ =>
    ⟨node, hnodes ▸ hnode, rfl, rfl⟩) fun hmem => ?_
  rcases mem_edges_foldl_addSuggested hmem with hold | ⟨n, hn, heq⟩
  · exact h.arrow_not_mem hold
  · have hsame : m.sameEdge n = true := Match.sameEdge_iff_arrow_eq.mpr heq
    exact absurd hsame (Bool.eq_false_iff.mp (hdistinct.sameEdge_take hkept hn))

/-- **Whether a suggestion is still reported after an operation**: exactly if the operation does not
disturb its match. -/
theorem reports_perform_iff (hdistinct : s.board.IsDistinct)
    (hscan : ∀ options, action ≠ .suggest options)
    (hpending : m ∈ (s.perform action).2.board.edges) (h : Reports s.graph options m) :
    Reports (s.perform action).2.graph options m ↔ ¬ action.Disturbs s.graph options m := by
  constructor
  · intro hafter hdisturbs
    cases action with
    | edit e =>
      obtain ⟨reply, g, hedit, hnot⟩ := not_reports_of_disturbs h hdisturbs
      refine hnot ?_
      simpa [perform, attempt, edit, hedit] using hafter
    | _ => exact hdisturbs
  · intro hdisturbs
    cases s.effect_perform action with
    | edits hedit _ => exact h.edit hdisturbs hedit
    | deletes hremove hboard =>
      -- a suggestion that is still there does not touch the node that is gone
      rw [hboard] at hpending
      exact h.removeNode (Board.mem_edges_forget.mp hpending).2 hremove
    | scans => exact absurd rfl (hscan _)
    | applies hgraph hboard =>
      rw [hboard] at hpending
      rw [hgraph]
      exact reports_apply hdistinct hpending h
    | keeps hgraph _ =>
      rw [hgraph]
      exact h

/-! ### Histories -/

section Prefix

variable {α : Type} {x : α} {xs : List α}

/-- What holds of all that was done so far, holds of nothing done and of what follows the first
operation. -/
theorem forall_prefix_cons_iff {P : List α → Prop} :
    (∀ done, done <+: x :: xs → P done) ↔ P [] ∧ ∀ done, done <+: xs → P (x :: done) := by
  constructor
  · exact fun h => ⟨h [] List.nil_prefix,
      fun done hdone => h (x :: done) (List.cons_prefix_cons.mpr ⟨rfl, hdone⟩)⟩
  · rintro ⟨hnil, hcons⟩ done hdone
    rcases List.prefix_cons_iff.mp hdone with rfl | ⟨done, rfl, htail⟩
    · exact hnil
    · exact hcons done htail

/-- What holds of every operation in its turn, holds of the first one and of those that follow. -/
theorem forall_prefix_append_singleton_cons_iff {P : List α → α → Prop} :
    (∀ done y, done ++ [y] <+: x :: xs → P done y) ↔
      P [] x ∧ ∀ done y, done ++ [y] <+: xs → P (x :: done) y := by
  constructor
  · exact fun h => ⟨h [] x (List.cons_prefix_cons.mpr ⟨rfl, List.nil_prefix⟩),
      fun done y hdone => h (x :: done) y (List.cons_prefix_cons.mpr ⟨rfl, hdone⟩)⟩
  · rintro ⟨hfirst, hlater⟩ done y hdone
    cases done with
    | nil =>
      obtain ⟨rfl, -⟩ := List.cons_prefix_cons.mp hdone
      exact hfirst
    | cons z done =>
      obtain ⟨rfl, htail⟩ := List.cons_prefix_cons.mp hdone
      exact hlater done y htail

end Prefix

/-- **Whether a suggestion has been reported all the time**: exactly if none of the operations has
disturbed its match. -/
theorem reports_after_iff (hdistinct : s.board.IsDistinct)
    (hscan : ∀ options, .suggest options ∉ actions)
    (hpending : m ∈ (s.after actions).board.edges) (h : Reports s.graph options m) :
    (∀ done, done <+: actions → Reports (s.after done).graph options m) ↔
      ∀ done action, done ++ [action] <+: actions →
        ¬ action.Disturbs (s.after done).graph options m := by
  induction actions generalizing s with
  | nil =>
    refine ⟨fun _ done action hdone => ?_, fun _ done hdone => ?_⟩
    · exact absurd (List.prefix_nil.mp hdone) (by simp)
    · obtain rfl := List.prefix_nil.mp hdone
      exact h
  | cons action actions ih =>
    have hfirst : ∀ options, action ≠ .suggest options :=
      fun options heq => hscan options (heq ▸ List.mem_cons_self)
    have hlater : ∀ options, .suggest options ∉ actions :=
      fun options hmem => hscan options (List.mem_cons_of_mem action hmem)
    -- what is pending in the end was pending all the time, as nothing else scans
    have hnext : m ∈ (s.perform action).2.board.edges := by
      rcases mem_edges_after (s := (s.perform action).2) hpending with ⟨hmem, -⟩ | hagain
      · exact hmem
      · obtain ⟨earlier, options, later, rfl, -⟩ := hagain
        exact absurd (List.mem_append_right _ List.mem_cons_self) (hlater options)
    have hdistinct' : (s.perform action).2.board.IsDistinct := isDistinct_perform hdistinct action
    have hstep := reports_perform_iff hdistinct hfirst hnext h
    rw [forall_prefix_cons_iff, forall_prefix_append_singleton_cons_iff]
    constructor
    · rintro ⟨-, hreports⟩
      have hreports' : Reports (s.perform action).2.graph options m := hreports [] List.nil_prefix
      exact ⟨hstep.mp hreports', (ih hdistinct' hlater hpending hreports').mp hreports⟩
    · rintro ⟨hcalm, hcalms⟩
      have hreports' := hstep.mpr hcalm
      exact ⟨h, (ih hdistinct' hlater hpending hreports').mpr hcalms⟩

/-- **What becomes of a suggestion.** A suggestion that is pending after any operations comes from
the last scan among them, and its two nodes are there. A scan with the same options would have
reported its arrow after every single operation since then exactly if none of them disturbed it: if
none gave a node details that do not declare the ports, added the arrow, or gave its label to an
arrow between the two nodes. -/
theorem pending_after_start (g : Graph) (config : Config) (contextText : String)
    (actions : List Action) (suggestion : Suggestion)
    (h : suggestion ∈ ((start g config contextText).after actions).board.pending) :
    suggestion.edge.Joins ((start g config contextText).after actions).graph ∧
      ∃ earlier options later, actions = earlier ++ .suggest options :: later ∧
        (∀ options, .suggest options ∉ later) ∧
        let scanned := ((start g config contextText).after earlier).suggest options
        suggestion.edge ∈ findMatches scanned.graph options ∧
          ((∀ done, done <+: later → Reports (scanned.after done).graph options suggestion.edge) ↔
            ∀ done action, done ++ [action] <+: later →
              ¬ action.Disturbs (scanned.after done).graph options suggestion.edge) := by
  refine ⟨standsIn_after (fun _ h => absurd h List.not_mem_nil) actions suggestion h, ?_⟩
  have hedge : suggestion.edge ∈ ((start g config contextText).after actions).board.edges :=
    List.mem_map_of_mem h
  rcases mem_edges_after hedge with ⟨hmem, -⟩ | ⟨earlier, options, later, hsplit, hlater, hfound⟩
  · exact absurd hmem List.not_mem_nil
  · refine ⟨earlier, options, later, hsplit, hlater, hfound, ?_⟩
    refine reports_after_iff (Board.isDistinct_compute _ _ _) hlater ?_
      (reports_of_mem_findMatches hfound)
    rw [hsplit, after, List.foldl_append] at hedge
    exact hedge

/-- A suggestion that hangs between two nodes while one of them is moved, the suggestion is turned
around, and an arrow is added in the other direction. -/
theorem pending_after_start_calm :
    let d : Document := ⟨"1.0",
      [⟨1, ⟨0, 0⟩, .circle, none, ⟨none, none, [], ["n"]⟩⟩,
        ⟨2, ⟨0, 0⟩, .square, none, ⟨none, none, ["n"], []⟩⟩], [], none⟩
    let g := Graph.ofParts d.nodes d.edges
    let later : List Action :=
      [.edit (.moveNode 1 ⟨1, 2⟩), .toggle ⟨1⟩, .edit (.addEdge 2 1 (some "n"))]
    let s := (start g .default "").after (.suggest .default :: later)
    let suggestion : Suggestion := ⟨⟨1⟩, ⟨1, 2, "n", none, none⟩, false⟩
    suggestion ∈ s.board.pending ∧ Reports s.graph .default suggestion.edge := by
  intro d g later s suggestion
  have hpending : suggestion ∈ s.board.pending := by decide +kernel
  obtain ⟨-, earlier, options, rest, hsplit, -, -, hiff⟩ :=
    pending_after_start g .default "" (.suggest .default :: later) suggestion hpending
  have hfirst : earlier = [] := by
    cases earlier with
    | nil => rfl
    | cons first earlier =>
      obtain ⟨-, hsplit⟩ := List.cons.inj hsplit
      have hmem : Action.suggest options ∈ later :=
        hsplit ▸ List.mem_append_right _ List.mem_cons_self
      simp [later] at hmem
  subst hfirst
  obtain ⟨heq, rfl⟩ := List.cons.inj hsplit
  obtain rfl := Action.suggest.inj heq
  refine ⟨hpending, hiff.mpr (fun done action hdone => ?_) later List.prefix_rfl⟩
  have hmem : action ∈ later := hdone.subset (List.mem_append_right _ (List.mem_singleton_self _))
  simp only [later, List.mem_cons, List.not_mem_nil, or_false] at hmem
  rcases hmem with rfl | rfl | rfl
  · exact id
  · exact id
  · rintro ⟨hsource, -⟩
    exact absurd hsource (by decide)

/-- **Not every pending suggestion is reported.** After a scan, the output that a suggestion needs
is taken away, or its arrow is added, or an arrow between its two nodes is given its label; the
suggestion hangs there as before. -/
theorem pending_not_reported :
    let d : Document := ⟨"1.0",
      [⟨1, ⟨0, 0⟩, .circle, none, ⟨none, none, [], ["n"]⟩⟩,
        ⟨2, ⟨0, 0⟩, .square, none, ⟨none, none, ["n"], []⟩⟩], [⟨1, 2, none⟩], none⟩
    let g := Graph.ofParts d.nodes d.edges
    d.toGraph = .ok g ∧
      ∀ e ∈ [Graph.Edit.setDetails 1 ⟨none, none, none, some []⟩, .addEdge 1 2 (some "n"),
          .setEdgeLabel 0 (some "n")],
        let s := (start g .default "").after [.suggest .default, .edit e]
        ∃ suggestion ∈ s.board.pending, ¬ Reports s.graph .default suggestion.edge := by
  refine ⟨rfl, ?_⟩
  decide +kernel

end Flowchart.Session
