import Flowchart.Proofs.Document.RoundTrip
import Flowchart.Proofs.Graph.Editing
import Flowchart.Proofs.Graph.Reachable
import Flowchart.Proofs.Session.Consistency

/-!
# What a session exports

A session is saved as the text of its document, and nothing is checked when it is saved. Whether the
text can be opened again is therefore a question about everything that was done before. Two things
can go wrong, and no others: a coordinate is not finite, or an id is beyond the range of what a
document may contain. What is opened is what was saved, up to the coordinates that are not read
back.

The rest of what opening asks for is true of every consistent session: the version is the current
one, no id is used twice, and arrows join nodes (`Flowchart.Graph.IsSound.toGraph_ofGraph`). The two
conditions that remain are traced back to the history. A coordinate is one that the session began
with or one that an operation was given (`Flowchart.Session.positions_after`), and the counter,
which lies above all ids, moves by at most one with every node that is added
(`Flowchart.Session.nextId_after`). So a session that begins with the empty graph stays within
range, while one that begins with the largest id leaves it with the first node that is added.

What an operation does is said once (`Flowchart.Session.Effect`), and both facts follow by going
through its cases.
-/

namespace Flowchart

theorem NodeId.toNat_succ_le (id : NodeId) : id.succ.toNat ≤ id.toNat + 1 := by
  by_cases h : id.toNat + 1 < 2 ^ 64
  · exact (NodeId.toNat_succ h).le
  · have hlt : id.succ.toNat < 2 ^ 64 := id.succ.toNat_lt
    omega

/-! ### Opening the document of a graph -/

namespace Document

/-- **Distinct ids pass** unless one is beyond the range, and the first such id is reported. -/
theorem checkIds_of_nodup {seen ids : List NodeId} (hnodup : ids.Nodup)
    (hnew : ∀ id ∈ ids, id ∉ seen) :
    checkIds seen ids =
      match ids.find? (maxNodeId < ·) with
      | some id => .error (.nodeIdOutOfRange id)
      | none => .ok () := by
  induction ids generalizing seen with
  | nil => rfl
  | cons id ids ih =>
    rw [checkIds, List.find?_cons]
    by_cases hrange : maxNodeId < id
    · simp [hrange]
    · obtain ⟨hid, hnodup⟩ := List.nodup_cons.mp hnodup
      have hnew' : ∀ other ∈ ids, other ∉ id :: seen := by
        intro other hother hmem
        rcases List.mem_cons.mp hmem with rfl | hseen
        · exact hid hother
        · exact hnew other (List.mem_cons_of_mem id hother) hseen
      simp [hrange, hnew id List.mem_cons_self, ih hnodup hnew']

end Document

namespace Graph

variable {g g' : Graph}

/-- **The document of a sound graph is opened** unless an id is beyond the range. -/
theorem IsSound.toGraph_ofGraph (hg : g.IsSound) (code : Option String) :
    Document.toGraph { Document.ofGraph g with generatedCode := code } =
      match g.ids.find? (Document.maxNodeId < ·) with
      | some id => .error (.nodeIdOutOfRange id)
      | none => .ok (.ofParts g.nodes g.edges) := by
  have hids : Document.checkIds [] g.ids = _ := Document.checkIds_of_nodup hg.nodup (by simp)
  have hedges : Document.checkEdges g.ids g.edges = .ok () :=
    Document.checkEdges_eq_ok_iff.mpr hg.ends
  change (do
    Document.checkIds [] g.ids
    Document.checkEdges g.ids g.edges
    return .ofParts g.nodes g.edges : Except Document.Error Graph) = _
  rw [hids, hedges]
  cases g.ids.find? (Document.maxNodeId < ·) <;> rfl

/-! ### Where coordinates come from -/

/-- The positions of the nodes, in the order of the nodes. -/
def positions (g : Graph) : List Position :=
  g.nodes.map Node.position

/-- The position that an edit is given, if it is given one. -/
def Edit.position? : Edit → Option Position
  | .addNode position _ => some position
  | .moveNode _ position => some position
  | _ => none

/-- An edit that changes a node leaves its position alone, unless it is given one. -/
theorem Edit.position_of_nodeChange? {e : Edit} {id : NodeId} {f : Node → Node}
    (h : e.nodeChange? = some (id, f)) (node : Node) :
    (f node).position = e.position?.getD node.position := by
  cases e with
  | moveNode => obtain ⟨-, rfl⟩ := Prod.mk.inj (Option.some.inj h); rfl
  | setLabel => obtain ⟨-, rfl⟩ := Prod.mk.inj (Option.some.inj h); rfl
  | setDetails => obtain ⟨-, rfl⟩ := Prod.mk.inj (Option.some.inj h); rfl
  | _ => exact nomatch h

/-- **A position after an edit** was there before, or was given. -/
theorem positions_of_edit {e : Edit} {reply : Edit.Reply} (h : g.edit e = .ok (reply, g')) :
    g'.positions ⊆ g.positions ++ e.position?.toList := by
  cases edit_eq_ok_iff.mp h with
  | newNode position shape => simp [positions, Edit.position?]
  | @node _ _ f before behind node hchange hsplit =>
    have hnew : (f node).position ∈ node.position :: e.position?.toList := by
      rw [Edit.position_of_nodeChange? hchange]
      cases e.position? <;> simp
    intro position hposition
    simp only [positions, hsplit.nodes, List.map_append, List.map_cons, List.mem_append,
      List.mem_cons] at hposition hnew ⊢
    rcases hposition with hbefore | rfl | hbehind
    · exact .inl (.inl hbefore)
    · exact hnew.imp_left fun heq => .inr (.inl heq)
    · exact .inl (.inr (.inr hbehind))
  | newEdge => exact List.subset_append_left _ _
  | edge => exact List.subset_append_left _ _
  | noEdge => exact List.subset_append_left _ _

/-- **The counter moves on when a node is added**, and only then. -/
theorem nextId_of_edit {e : Edit} {reply : Edit.Reply} (h : g.edit e = .ok (reply, g')) :
    g'.nextId = if e.addsNode then g.nextId.succ else g.nextId := by
  rcases edit_cases h with ⟨position, shape, rfl, rfl⟩ | ⟨hadds, -, hnext, -⟩
  · rfl
  · rw [hadds, hnext]
    rfl

theorem positions_subset_of_removeNode {id : NodeId} {removed : Removed}
    (h : g.removeNode id = .ok (removed, g')) : g'.positions ⊆ g.positions := by
  obtain ⟨node, -, -, rfl⟩ := removeNode_eq_ok_iff.mp h
  have hsub : List.Sublist (g.nodes.eraseP (·.id = id)) g.nodes := List.eraseP_sublist
  exact (hsub.map Node.position).subset

end Graph

namespace Session

variable {s : Session}

/-! ### What an operation does -/

theorem nodes_foldl_addSuggested (g : Graph) (ms : List Wiring.Match) :
    (ms.foldl addSuggested g).nodes = g.nodes ∧ (ms.foldl addSuggested g).nextId = g.nextId :=
  foldl_addSuggested_of (P := fun g' => g'.nodes = g.nodes ∧ g'.nextId = g.nextId) ⟨rfl, rfl⟩
    fun _ h _ _ _ _ => h

/-- Selecting leaves the graph and the board alone. -/
theorem graph_of_select {id? : Option NodeId} {s' : Session} (h : s.select id? = .ok s') :
    s'.graph = s.graph ∧ s'.board = s.board := by
  cases id? with
  | none =>
    obtain rfl := Except.ok.inj h
    exact ⟨rfl, rfl⟩
  | some id =>
    rw [select] at h
    split at h
    · obtain rfl := Except.ok.inj h
      exact ⟨rfl, rfl⟩
    · cases h

/-- **What an operation does to the graph and the board** of a session. -/
inductive Effect (s s' : Session) : Action → Prop where
  /-- It edits the graph. -/
  | edits {e : Graph.Edit} {reply : Graph.Edit.Reply}
      (hgraph : s.graph.edit e = .ok (reply, s'.graph)) (hboard : s'.board = s.board) :
      Effect s s' (.edit e)
  /-- It removes a node, which is forgotten on the board. -/
  | deletes {id : NodeId} {removed : Graph.Removed}
      (hgraph : s.graph.removeNode id = .ok (removed, s'.graph))
      (hboard : s'.board = s.board.forget id) : Effect s s' (.deleteNode id)
  /-- It scans the graph. -/
  | scans {options : Wiring.Options} (hgraph : s'.graph = s.graph)
      (hboard : s'.board = s.board.compute s.graph options) : Effect s s' (.suggest options)
  /-- It takes suggestions off the board and adds their arrows. -/
  | applies {scope : Wiring.Scope}
      (hgraph : s'.graph = ((s.board.take scope).1.map (·.edge)).foldl addSuggested s.graph)
      (hboard : s'.board = (s.board.take scope).2) : Effect s s' (.apply scope)
  /-- It leaves the graph alone and hangs nothing up. -/
  | keeps {action : Action} (hgraph : s'.graph = s.graph)
      (hboard : s'.board.edges.Sublist s.board.edges) : Effect s s' action

theorem effect_refl (s : Session) (action : Action) : Effect s s action :=
  .keeps rfl (List.Sublist.refl _)

/-- Every operation does one of these things. -/
theorem effect_perform (s : Session) (action : Action) : Effect s (s.perform action).2 action := by
  have hkept : ∀ {s' : Session}, s'.graph = s.graph → s'.board = s.board → Effect s s' action :=
    fun hgraph hboard => .keeps hgraph (hboard ▸ List.Sublist.refl _)
  cases action with
  | edit e =>
    refine attempt_of (P := fun s' => Effect s s' _) (effect_refl s _) fun reply s' h => ?_
    obtain ⟨⟨_, g⟩, hedit, heq⟩ := bind_pure_eq_ok_iff.mp h
    obtain ⟨-, rfl⟩ := Prod.mk.inj heq
    exact .edits hedit rfl
  | deleteNode id =>
    refine attempt_of (P := fun s' => Effect s s' _) (effect_refl s _) fun removed s' h => ?_
    obtain ⟨⟨_, g⟩, hremove, heq⟩ := bind_pure_eq_ok_iff.mp h
    obtain ⟨-, rfl⟩ := Prod.mk.inj heq
    exact .deletes hremove rfl
  | select id? =>
    refine attempt_of (P := fun s' => Effect s s' _) (effect_refl s _) fun _ s' h => ?_
    cases hselect : s.select id? with
    | error error => exact nomatch hselect ▸ h
    | ok selected =>
      rw [hselect] at h
      obtain ⟨-, rfl⟩ := Prod.mk.inj (Except.ok.inj h)
      obtain ⟨hgraph, hboard⟩ := graph_of_select hselect
      exact hkept hgraph hboard
  | suggest options => exact .scans rfl rfl
  | apply scope => exact .applies rfl rfl
  | toggle id => exact .keeps rfl (s.board.edges_toggle id ▸ List.Sublist.refl _)
  | clearSuggestions => exact .keeps rfl (List.nil_sublist _)
  | _ => exact hkept rfl rfl

/-- **What an operation does to the graph**: it edits it, it deletes a node, it adds suggested
arrows, or it leaves it alone. -/
theorem graph_perform_cases (s : Session) (action : Action) :
    let g' := (s.perform action).2.graph
    (∃ e reply, action = .edit e ∧ s.graph.edit e = .ok (reply, g')) ∨
      (∃ id removed, action = .deleteNode id ∧ s.graph.removeNode id = .ok (removed, g')) ∨
      (∃ ms : List Wiring.Match, g' = ms.foldl addSuggested s.graph) ∨ g' = s.graph := by
  intro g'
  cases s.effect_perform action with
  | edits hedit _ => exact .inl ⟨_, _, rfl, hedit⟩
  | deletes hremove _ => exact .inr (.inl ⟨_, _, rfl, hremove⟩)
  | scans hgraph _ => exact .inr (.inr (.inr hgraph))
  | applies hgraph _ => exact .inr (.inr (.inl ⟨_, hgraph⟩))
  | keeps hgraph _ => exact .inr (.inr (.inr hgraph))

theorem reachable_foldl_addSuggested {g : Graph} (hg : g.Reachable) (ms : List Wiring.Match) :
    (ms.foldl addSuggested g).Reachable := by
  refine foldl_addSuggested_of hg fun g hg m _ hjoins _ => ?_
  have hedit : g.edit (.addEdge m.source m.target (some m.portName)) =
      .ok (.index g.edges.length, { g with edges := g.edges ++ [m.arrow] }) :=
    bind_pure_eq_ok_iff.mpr ⟨_, hjoins.addEdge, rfl⟩
  exact hg.edit hedit

/-- **Every graph of a session is reachable**, if the one that it begins with is. -/
theorem reachable_after {s : Session} (hs : s.graph.Reachable) (actions : List Action) :
    (s.after actions).graph.Reachable := by
  induction actions generalizing s with
  | nil => exact hs
  | cons action actions ih =>
    refine ih (s := (s.perform action).2) ?_
    rcases s.graph_perform_cases action with
      ⟨e, reply, -, hedit⟩ | ⟨id, removed, -, hremove⟩ | ⟨ms, hgraph⟩ | hgraph
    · exact hs.edit hedit
    · exact hs.removeNode hremove
    · exact hgraph ▸ reachable_foldl_addSuggested hs ms
    · exact hgraph ▸ hs

/-! ### Histories -/

/-- The position that an operation is given, if it is given one. -/
def Action.position? : Action → Option Position
  | .edit e => e.position?
  | _ => none

/-- A position after an operation was there before, or was given. -/
theorem positions_perform (s : Session) (action : Action) :
    (s.perform action).2.graph.positions ⊆ s.graph.positions ++ action.position?.toList := by
  rcases s.graph_perform_cases action with
    ⟨e, reply, rfl, hedit⟩ | ⟨id, removed, rfl, hremove⟩ | ⟨ms, hgraph⟩ | hgraph
  · exact Graph.positions_of_edit hedit
  · exact List.subset_append_of_subset_left _ (Graph.positions_subset_of_removeNode hremove)
  · rw [hgraph, Graph.positions, (nodes_foldl_addSuggested s.graph ms).1]
    exact List.subset_append_left _ _
  · rw [hgraph]
    exact List.subset_append_left _ _

/-- **Every position** is one that the session began with, or one that an operation was given. -/
theorem positions_after (s : Session) (actions : List Action) :
    (s.after actions).graph.positions ⊆
      s.graph.positions ++ actions.filterMap Action.position? := by
  induction actions generalizing s with
  | nil => simp [after]
  | cons action actions ih =>
    have hstep := s.positions_perform action
    intro position hposition
    rcases List.mem_append.mp (ih (s.perform action).2 hposition) with hbefore | hgiven
    · rcases List.mem_append.mp (hstep hbefore) with hbefore | hgiven
      · exact List.mem_append_left _ hbefore
      · refine List.mem_append_right _ (List.mem_filterMap.mpr ⟨action, List.mem_cons_self, ?_⟩)
        exact Option.mem_toList.mp hgiven
    · obtain ⟨other, hother, hposition⟩ := List.mem_filterMap.mp hgiven
      exact List.mem_append_right _
        (List.mem_filterMap.mpr ⟨other, List.mem_cons_of_mem _ hother, hposition⟩)

/-- The counter moves on when an operation adds a node, and only then. -/
theorem nextId_perform (s : Session) (action : Action) :
    (s.perform action).2.graph.nextId =
      if action.addsNode then s.graph.nextId.succ else s.graph.nextId := by
  cases hadds : action.addsNode with
  | true =>
    -- an operation that adds a node never fails
    obtain ⟨position, shape, rfl⟩ := Action.addsNode_iff.mp hadds
    rfl
  | false =>
    rcases s.graph_perform_cases action with
      ⟨e, reply, rfl, hedit⟩ | ⟨id, removed, rfl, hremove⟩ | ⟨ms, hgraph⟩ | hgraph
    · exact hadds ▸ Graph.nextId_of_edit hedit
    · exact (Graph.ids_sublist_of_removeNode hremove).2
    · rw [hgraph]
      exact (nodes_foldl_addSuggested s.graph ms).2
    · rw [hgraph]
      rfl

/-- **The counter moves at most as often as nodes are added.** -/
theorem nextId_after (s : Session) (actions : List Action) :
    (s.after actions).graph.nextId.toNat ≤
      s.graph.nextId.toNat + actions.countP Action.addsNode := by
  induction actions generalizing s with
  | nil => exact Nat.le_refl _
  | cons action actions ih =>
    have hstep : (s.perform action).2.graph.nextId.toNat ≤
        s.graph.nextId.toNat + if action.addsNode then 1 else 0 := by
      rw [s.nextId_perform action]
      split
      · exact NodeId.toNat_succ_le s.graph.nextId
      · exact Nat.le_refl _
    have hrest := ih (s.perform action).2
    rw [List.countP_cons]
    change ((s.perform action).2.after actions).graph.nextId.toNat ≤ _
    omega

/-- Below the largest id that a document may contain, the counter vouches for all ids. -/
theorem Consistent.inRange (hs : s.Consistent) (hnext : s.graph.nextId.toNat ≤ 2 ^ 53) :
    ∀ id ∈ s.graph.ids, id ≤ Document.maxNodeId := by
  intro id hid
  have hfresh := hs.graph.fresh id hid
  have hmax : Document.maxNodeId.toNat = 2 ^ 53 - 1 := rfl
  rw [UInt64.le_iff_toNat_le]
  omega

/-! ### Saving and opening -/

/-- **When a saved session can be opened again.** A session begins with a graph that is empty or
comes from a document, and then anything is done with it. The text of its document is read up to the
coordinates, exactly if all of them are finite, and as it was exactly if all of them are read back.
The document that is read is opened, with its nodes and the arrows of the session, unless it has an
id beyond the range; then the first such id is reported. So is the document that was saved.

The coordinates are finite if those at the beginning and those that were given are, and the ids are
within the range if the counter at the beginning leaves room for the nodes that were added. -/
theorem toDocument_after_start {g : Graph} (hg : g.IsPristine) (config : Config)
    (contextText : String) (actions : List Action)
    (hcount : actions.countP Action.addsNode < 2 ^ 53) :
    let s := (start g config contextText).after actions
    let read? := Document.ofText? s.toDocument.toText
    read? = s.toDocument.reread? ∧
      (read?.isSome = true ↔ s.toDocument.IsFinite) ∧
      (read? = some s.toDocument ↔ s.toDocument.ReadsBack) ∧
      (∀ d, read? = some d ∨ d = s.toDocument →
        d.nodes.map Node.id = s.graph.ids ∧
          d.toGraph =
            match s.graph.ids.find? (Document.maxNodeId < ·) with
            | some id => .error (.nodeIdOutOfRange id)
            | none => .ok (.ofParts d.nodes s.graph.edges)) ∧
      ((∀ position ∈ g.positions ++ actions.filterMap Action.position?, position.IsFinite) →
        s.toDocument.IsFinite) ∧
      (g.nextId.toNat + actions.countP Action.addsNode ≤ 2 ^ 53 →
        ∀ id ∈ s.graph.ids, id ≤ Document.maxNodeId) := by
  intro s read?
  have hroom : g.HasRoom (0 + actions.countP Action.addsNode) := hg.hasRoom (by omega)
  have hs : s.Consistent := ((consistent_start hg.isSound config contextText).after hroom).1
  have hread : read? = s.toDocument.reread? := s.toDocument.ofText?_toText
  have hopen := hs.graph.toGraph_ofGraph (some s.code)
  refine ⟨hread, hread ▸ s.toDocument.isSome_reread?, s.toDocument.ofText?_toText_eq_some_iff, ?_,
    ?_, ?_⟩
  · rintro d (hd | rfl)
    · rw [hread] at hd
      refine ⟨Document.ids_of_reread? hd, (Document.toGraph_of_reread? hd).trans ?_⟩
      rw [toDocument, hopen]
      cases s.graph.ids.find? (Document.maxNodeId < ·) <;> rfl
    · exact ⟨rfl, hopen⟩
  · intro hfinite node hnode
    exact hfinite _ (positions_after _ actions (List.mem_map_of_mem hnode))
  · intro hle
    have hnext : s.graph.nextId.toNat ≤ g.nextId.toNat + actions.countP Action.addsNode :=
      nextId_after (start g config contextText) actions
    exact hs.inRange (by omega)

/-- A session begins one id below the limit. The node that it adds gets the largest id that a
document may contain, so the session can be saved and opened, also after the first node is gone. -/
theorem toDocument_after_start_limit :
    let d : Document :=
      ⟨"1.0", [⟨9007199254740990, ⟨0, 0⟩, .circle, none, .none⟩], [], none⟩
    let g := Graph.ofParts d.nodes d.edges
    let actions : List Action :=
      [.edit (.addNode ⟨0, 0⟩ .square), .edit (.moveNode 9007199254740991 ⟨1, 2⟩),
        .deleteNode 9007199254740990]
    let s := (start g .default "").after actions
    d.toGraph = .ok g ∧ actions.countP Action.addsNode < 2 ^ 53 ∧
      Document.ofText? s.toDocument.toText = some s.toDocument ∧
      s.toDocument.toGraph = .ok (.ofParts s.graph.nodes s.graph.edges) := by
  intro d g actions s
  have hopen : d.toGraph = .ok g := rfl
  have hcount : actions.countP Action.addsNode < 2 ^ 53 := by decide
  obtain ⟨-, -, htext, hgraph, -, hrange⟩ :=
    toDocument_after_start (Or.inr ⟨d, hopen⟩) .default "" actions hcount
  refine ⟨hopen, hcount, htext.mpr (by decide +kernel), ?_⟩
  have hnone : s.graph.ids.find? (Document.maxNodeId < ·) = none := by
    rw [List.find?_eq_none]
    intro id hid
    simpa using hrange (by decide) id hid
  rw [(hgraph s.toDocument (.inr rfl)).2, hnone]
  rfl

/-- **Not every saved session can be opened again.** A session that begins with the largest id
leaves the range with the first node that is added: its text is read back, but the document is
refused. A node at a coordinate that is no number makes a text that cannot even be read. -/
theorem toDocument_refused :
    let d : Document :=
      ⟨"1.0", [⟨9007199254740991, ⟨0, 0⟩, .circle, none, .none⟩], [], none⟩
    let g := Graph.ofParts d.nodes d.edges
    let s := (start g .default "").after [.edit (.addNode ⟨0, 0⟩ .circle)]
    let t := (start .empty .default "").after [.edit (.addNode ⟨0 / 0, 0⟩ .circle)]
    d.toGraph = .ok g ∧ Document.ofText? s.toDocument.toText = some s.toDocument ∧
      s.toDocument.toGraph = .error (.nodeIdOutOfRange 9007199254740992) ∧
      Document.ofText? t.toDocument.toText = none := by
  intro d g s t
  have hreads : s.toDocument.ReadsBack := by decide +kernel
  have hinfinite : ¬ t.toDocument.IsFinite := by decide
  refine ⟨rfl, s.toDocument.ofText?_toText_eq_some_iff.mpr hreads, rfl, ?_⟩
  rw [Document.ofText?_toText]
  exact Option.not_isSome_iff_eq_none.mp (mt t.toDocument.isSome_reread?.mp hinfinite)

end Session

end Flowchart
