import Flowchart.Proofs.Document.Opening
import Flowchart.Proofs.Run.Transition
import Flowchart.Proofs.Wiring.Pending
import Flowchart.Session

/-!
# Sessions stay consistent

The parts of a session refer to the nodes of its graph: the cursor stands on one, one is selected,
and every pending suggestion joins two. A session is *consistent* (`Flowchart.Session.Consistent`)
if the graph is sound and none of these references dangles.

Consistency is kept by every operation, whether it succeeds or not
(`Flowchart.Session.Consistent.perform`). Most operations are harmless because they lose no node:
they touch one part, and the others stand where they stood. Only deleting a node takes one away, and
it sets right all three references in the same breath. What makes a step safe is that arrows do not
dangle, and this in turn rests on the check of a document when it is opened and on the arrows that
go with a removed node.

The one thing that is asked of a history is that it does not add so many nodes that the counter of
the graph runs out.
-/

namespace Flowchart.Session

/-- **Consistent sessions.** -/
structure Consistent (s : Session) : Prop where
  /-- Ids are pairwise distinct, arrows join nodes, and the counter lies above all ids. -/
  graph : s.graph.IsSound
  /-- The cursor is on a node of the graph, if on any, and on one while it is running. -/
  execution : s.execution.StandsIn s.graph
  /-- Suggestions join two different nodes of the graph. -/
  board : s.board.StandsIn s.graph
  /-- The selected node is one of the graph. -/
  selected : ∀ id, s.selected = some id → id ∈ s.graph.ids

variable {s : Session}

theorem consistent_start {g : Graph} (hg : g.IsSound) (config : Config) (contextText : String) :
    (start g config contextText).Consistent :=
  ⟨hg, Run.Execution.standsIn_of_idle rfl g, fun _ h => absurd h List.not_mem_nil,
    fun _ h => nomatch h⟩

/-! ### Operations that lose no node -/

theorem Consistent.withGraph {g : Graph} (hs : s.Consistent) (hg : g.IsSound)
    (hids : s.graph.ids ⊆ g.ids) : ({ s with graph := g } : Session).Consistent :=
  ⟨hg, hs.execution.mono hids, hs.board.mono hids, fun id hid => hids (hs.selected id hid)⟩

theorem Consistent.withExecution {e : Run.Execution} (hs : s.Consistent)
    (he : e.StandsIn s.graph) : ({ s with execution := e } : Session).Consistent :=
  ⟨hs.graph, he, hs.board, hs.selected⟩

theorem Consistent.withBoard {board : Wiring.Board} (hs : s.Consistent)
    (hboard : board.StandsIn s.graph) : ({ s with board } : Session).Consistent :=
  ⟨hs.graph, hs.execution, hboard, hs.selected⟩

/-- A node that can be selected is one of the graph. -/
theorem Consistent.select {id? : Option NodeId} {s' : Session} (hs : s.Consistent)
    (h : s.select id? = .ok s') : s'.Consistent ∧ s'.graph = s.graph := by
  cases id? with
  | none =>
    obtain rfl := Except.ok.inj h
    exact ⟨⟨hs.graph, hs.execution, hs.board, fun _ h => nomatch h⟩, rfl⟩
  | some id =>
    rw [Session.select] at h
    split at h
    · next hcontains =>
      obtain rfl := Except.ok.inj h
      refine ⟨⟨hs.graph, hs.execution, hs.board, fun other hother => ?_⟩, rfl⟩
      obtain rfl := Option.some.inj hother
      exact Graph.contains_iff_mem_ids.mp hcontains
    · exact nomatch h

/-- **When the arrow of a suggestion is added**: if it leads between two different nodes of the
graph and is not there yet. Otherwise nothing happens. -/
theorem addSuggested_cases (g : Graph) (m : Wiring.Match) :
    (m.Joins g ∧ m.arrow ∉ g.edges ∧
        addSuggested g m = { g with edges := g.edges ++ [m.arrow] }) ∨
      (¬ (m.Joins g ∧ m.arrow ∉ g.edges) ∧ addSuggested g m = g) := by
  rw [addSuggested, Wiring.Match.hasEdge_eq]
  by_cases hmem : m.arrow ∈ g.edges
  · rw [if_pos (decide_eq_true hmem)]
    exact .inr ⟨fun h => h.2 hmem, rfl⟩
  · rw [if_neg (by simpa using hmem)]
    by_cases hjoins : m.Joins g
    · rw [hjoins.addEdge]
      exact .inl ⟨hjoins, hmem, rfl⟩
    · refine .inr ⟨fun h => hjoins h.1, ?_⟩
      cases hadd : g.addEdge m.source m.target (some m.portName) with
      | error error => rfl
      | ok answer =>
        obtain ⟨hne, hs, ht, -, -⟩ := Graph.addEdge_eq_ok_iff.mp hadd
        exact absurd
          ⟨Graph.contains_iff_mem_ids.mp hs, Graph.contains_iff_mem_ids.mp ht, hne⟩ hjoins

/-- **What holds after suggested arrows were added**: what held before, if it is kept whenever an
arrow that is missing between two different nodes is added. -/
theorem foldl_addSuggested_of {P : Graph → Prop} {g : Graph} {ms : List Wiring.Match} (hg : P g)
    (hadd : ∀ g, P g → ∀ m ∈ ms, m.Joins g → m.arrow ∉ g.edges →
      P { g with edges := g.edges ++ [m.arrow] }) : P (ms.foldl addSuggested g) := by
  induction ms generalizing g with
  | nil => exact hg
  | cons m ms ih =>
    refine ih ?_ fun g hg n hn => hadd g hg n (List.mem_cons_of_mem m hn)
    rcases addSuggested_cases g m with ⟨hjoins, hmissing, heq⟩ | ⟨-, heq⟩
    · rw [heq]
      exact hadd g hg m List.mem_cons_self hjoins hmissing
    · rw [heq]
      exact hg

/-- **Applying suggestions keeps a graph sound**, with its ids and its counter. -/
theorem isSound_foldl_addSuggested {g : Graph} (hg : g.IsSound) (ms : List Wiring.Match) :
    (ms.foldl addSuggested g).IsSound ∧ (ms.foldl addSuggested g).ids = g.ids ∧
      (ms.foldl addSuggested g).nextId = g.nextId := by
  refine foldl_addSuggested_of
    (P := fun g' => g'.IsSound ∧ g'.ids = g.ids ∧ g'.nextId = g.nextId) ⟨hg, rfl, rfl⟩ ?_
  rintro g' ⟨hsound, hids, hnext⟩ m - hjoins -
  exact ⟨hsound.of_keepsIds (Graph.keepsIds_of_addEdge hjoins.addEdge), hids, hnext⟩

/-! ### Deleting a node -/

/-- **Deleting a node sets everything right** that refers to it. -/
theorem Consistent.deleteNode {id : NodeId} {removed : Graph.Removed} {s' : Session}
    (hs : s.Consistent) (h : s.deleteNode id = .ok (removed, s')) :
    s'.Consistent ∧ s'.graph.nextId = s.graph.nextId := by
  obtain ⟨⟨_, g⟩, hremove, ⟨⟩⟩ := bind_pure_eq_ok_iff.mp h
  have hids : ∀ other ∈ s.graph.ids, other ≠ id → other ∈ g.ids :=
    fun other hother hne => Graph.mem_ids_of_removeNode hremove hother hne
  refine ⟨⟨hs.graph.removeNode hremove, hs.execution.nodeRemoved hids, hs.board.forget hids, ?_⟩,
    ?_⟩
  · intro other hother
    change (if s.selected = some id then none else s.selected) = some other at hother
    split at hother
    · exact nomatch hother
    · next hselected =>
      -- the selection was not given up, so it is on another node than the one that is gone
      refine hids other (hs.selected other hother) ?_
      rintro rfl
      exact hselected hother
  · obtain ⟨node, -, -, rfl⟩ := Graph.removeNode_eq_ok_iff.mp hremove
    rfl

/-! ### All operations -/

/-- Whether an operation adds a node. -/
def Action.addsNode : Action → Bool
  | .edit e => e.addsNode
  | _ => false

theorem Action.addsNode_iff {action : Action} :
    action.addsNode = true ↔ ∃ position shape, action = .edit (.addNode position shape) := by
  constructor
  · intro h
    cases action with
    | edit e =>
      cases e with
      | addNode position shape => exact ⟨position, shape, rfl⟩
      | _ => exact nomatch h
    | _ => exact nomatch h
  · rintro ⟨position, shape, rfl⟩
    rfl

/-- What holds of a session and of what an operation makes of it, holds after an attempt at it. -/
theorem attempt_of {α : Type} {P : Session → Prop} {reply : α → Reply}
    {result : Except Graph.Error (α × Session)} (hs : P s)
    (h : ∀ value s', result = .ok (value, s') → P s') : P (s.attempt reply result).2 := by
  cases result with
  | error error => exact hs
  | ok answer => exact h answer.1 answer.2 rfl

/-- **An operation keeps a session consistent**, if the counter has room for the node it may add,
and leaves the counter room for as many nodes as it had besides. -/
theorem Consistent.perform {action : Action} {count : Nat} (hs : s.Consistent)
    (hroom : s.graph.HasRoom (count + if action.addsNode then 1 else 0)) :
    (s.perform action).2.Consistent ∧ (s.perform action).2.graph.HasRoom count := by
  have hroom' : s.graph.HasRoom count := hroom.mono (Nat.le_add_right _ _)
  cases action with
  | edit e =>
    refine attempt_of (P := fun s' => s'.Consistent ∧ s'.graph.HasRoom count) ⟨hs, hroom'⟩ ?_
    intro reply s' h
    obtain ⟨⟨_, g⟩, hedit, ⟨⟩⟩ := bind_pure_eq_ok_iff.mp h
    obtain ⟨hg, hroom, hids⟩ := hs.graph.edit hroom hedit
    exact ⟨hs.withGraph hg hids, hroom⟩
  | deleteNode id =>
    refine attempt_of (P := fun s' => s'.Consistent ∧ s'.graph.HasRoom count) ⟨hs, hroom'⟩ ?_
    intro removed s' h
    obtain ⟨hs', hnext⟩ := hs.deleteNode h
    exact ⟨hs', hroom'.of_nextId_eq hnext⟩
  | select id? =>
    refine attempt_of (P := fun s' => s'.Consistent ∧ s'.graph.HasRoom count) ⟨hs, hroom'⟩ ?_
    intro _ s' h
    cases hselect : s.select id? with
    | error error => exact nomatch hselect ▸ h
    | ok selected =>
      rw [hselect] at h
      obtain ⟨-, rfl⟩ := Prod.mk.inj (Except.ok.inj h)
      obtain ⟨hs', hgraph⟩ := hs.select hselect
      exact ⟨hs', hgraph ▸ hroom'⟩
  | setContext text => exact ⟨⟨hs.graph, hs.execution, hs.board, hs.selected⟩, hroom'⟩
  | step => exact ⟨hs.withExecution (hs.execution.step hs.graph), hroom'⟩
  | reset => exact ⟨hs.withExecution (Run.Execution.standsIn_of_idle rfl _), hroom'⟩
  | beginRun => exact ⟨hs.withExecution hs.execution.beginRun, hroom'⟩
  | endRun => exact ⟨hs.withExecution hs.execution.endRun, hroom'⟩
  | tick token => exact ⟨hs.withExecution (hs.execution.tick hs.graph), hroom'⟩
  | suggest options => exact ⟨hs.withBoard (Wiring.Board.standsIn_compute _ _ _), hroom'⟩
  | toggle id => exact ⟨hs.withBoard (hs.board.toggle id), hroom'⟩
  | apply scope =>
    obtain ⟨hg, hids, hnext⟩ :=
      isSound_foldl_addSuggested hs.graph ((s.board.take scope).1.map (·.edge))
    -- the arrows are added one after the other, and none of them takes a node away
    have hboard := hs.withBoard (hs.board.take scope)
    exact ⟨hboard.withGraph hg (hids ▸ List.Subset.refl _), hroom'.of_nextId_eq hnext⟩
  | clearSuggestions =>
    exact ⟨hs.withBoard fun _ h => absurd h List.not_mem_nil, hroom'⟩

/-- The session after some operations, one after the other. -/
def after (s : Session) (actions : List Action) : Session :=
  actions.foldl (fun s action => (s.perform action).2) s

theorem after_append (s : Session) (earlier later : List Action) :
    s.after (earlier ++ later) = (s.after earlier).after later :=
  List.foldl_append

theorem Consistent.after {actions : List Action} {count : Nat} (hs : s.Consistent)
    (hroom : s.graph.HasRoom (count + actions.countP Action.addsNode)) :
    (s.after actions).Consistent ∧ (s.after actions).graph.HasRoom count := by
  induction actions generalizing s with
  | nil => exact ⟨hs, hroom⟩
  | cons action actions ih =>
    rw [List.countP_cons, ← Nat.add_assoc] at hroom
    obtain ⟨hs', hroom'⟩ := hs.perform hroom
    exact ih hs' hroom'

/-- **Sessions stay consistent.** A session begins with a graph that is empty or comes from a
document, perhaps after some edits. Whatever is then done, in any order, it is consistent after
every single operation, as long as fewer than `2 ^ 63` nodes are added altogether. -/
theorem consistent_after_start {g : Graph} (hg : g.IsPristine) (edits : List Graph.Edit)
    (config : Config) (contextText : String) (actions : List Action)
    (hcount : edits.countP Graph.Edit.addsNode + actions.countP Action.addsNode < 2 ^ 63) :
    ∀ done, done <+: actions →
      ((start (g.editAll edits) config contextText).after done).Consistent := by
  intro done hdone
  have hle : done.countP Action.addsNode ≤ actions.countP Action.addsNode :=
    hdone.sublist.countP_le
  have hgraph : (g.editAll edits).IsSound ∧
      (g.editAll edits).HasRoom (0 + done.countP Action.addsNode) :=
    hg.isSound.editAll (hg.hasRoom (by omega))
  exact ((consistent_start hgraph.1 config contextText).after hgraph.2).1

/-- A run reaches the second of two nodes, which is selected and joined by a suggestion, and then
the node is deleted. -/
theorem consistent_after_start_deleted :
    let d : Document := ⟨"1.0",
      [⟨1, ⟨0, 0⟩, .circle, none, ⟨none, none, [], ["n"]⟩⟩,
        ⟨2, ⟨0, 0⟩, .square, none, ⟨none, none, ["n"], []⟩⟩], [⟨1, 2, none⟩], none⟩
    let g := Graph.ofParts d.nodes d.edges
    let edits : List Graph.Edit := [.addNode ⟨0, 0⟩ .circle]
    let actions : List Action :=
      [.suggest .default, .select (some 2), .beginRun, .tick ⟨1⟩, .deleteNode 2]
    d.toGraph = .ok g ∧ edits.countP Graph.Edit.addsNode + actions.countP Action.addsNode < 2 ^ 63 ∧
      ((start (g.editAll edits) .default "").after actions).Consistent := by
  intro d g edits actions
  have hopen : d.toGraph = .ok g := rfl
  have hcount : edits.countP Graph.Edit.addsNode + actions.countP Action.addsNode < 2 ^ 63 := by
    decide
  exact ⟨hopen, hcount,
    consistent_after_start (Or.inr ⟨d, hopen⟩) edits .default "" actions hcount actions
      List.prefix_rfl⟩

end Flowchart.Session
