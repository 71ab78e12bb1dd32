import Flowchart.Proofs.Session.Export

/-!
# Ids are never used again

A new node gets the counter for its id, and then the counter moves on. It is not turned back when a
node is deleted, so an id stands for one node and for no other one, now and later.

That is a statement about the whole past of a session: an id that is returned for a new node is
larger than every id that any node has had before, although many of these nodes may be gone. The
nodes that are left do not show it, but the counter does. It never moves back
(`Flowchart.Session.nextId_le_after`), and in a consistent session it lies above all ids in use. So
it lies above all ids that were in use at any earlier time, and it is the id that is returned next
(`Flowchart.Session.addedId?_perform`).

Only the largest word of 64 bits stops the counter. A session begins with a counter of `2 ^ 53` at
most, so it would take more than `2 ^ 63` new nodes to get there.
-/

namespace Flowchart

theorem NodeId.le_succ (id : NodeId) : id ≤ id.succ := by
  rcases NodeId.lt_succ_or_eq_last id with hlt | ⟨hid, hsucc⟩
  · exact UInt64.le_of_lt hlt
  · rw [hsucc, hid]
    exact UInt64.le_refl _

namespace Graph

/-- The id that an edit returns, if it returns one. -/
def Edit.Reply.id? : Edit.Reply → Option NodeId
  | .node id => some id
  | _ => none

/-- **An edit returns an id if it adds a node**, and only then. The id is the counter. -/
theorem id?_of_edit {g g' : Graph} {e : Edit} {reply : Edit.Reply}
    (h : g.edit e = .ok (reply, g')) : reply.id? = if e.addsNode then some g.nextId else none := by
  cases e with
  | addNode position shape =>
    obtain ⟨rfl, -⟩ := Prod.mk.inj (Except.ok.inj h)
    rfl
  | _ =>
    obtain ⟨_, -, ⟨⟩⟩ := bind_pure_eq_ok_iff.mp h
    rfl

end Graph

namespace Session

variable {s : Session} {actions : List Action}

/-! ### What operations return -/

/-- The id that an operation returns for a new node, if it returns one. -/
def Reply.addedId? : Reply → Option NodeId
  | .edited reply => reply.id?
  | _ => none

/-- The replies to some operations, one after the other. -/
def replies (s : Session) : List Action → List Reply
  | [] => []
  | action :: actions => (s.perform action).1 :: (s.perform action).2.replies actions

/-- **The ids that are returned for new nodes**, in the order of the operations. -/
def addedIds (s : Session) (actions : List Action) : List NodeId :=
  (s.replies actions).filterMap Reply.addedId?

/-- An attempt returns no id unless what it attempts does. -/
theorem addedId?_attempt {α : Type} {reply : α → Reply} {result : Except Graph.Error (α × Session)}
    (h : ∀ value s', result = .ok (value, s') → (reply value).addedId? = none) :
    (s.attempt reply result).1.addedId? = none := by
  cases result with
  | error error => rfl
  | ok answer => exact h answer.1 answer.2 rfl

/-- **An operation returns an id if it adds a node**, and only then. The id is the counter. -/
theorem addedId?_perform (s : Session) (action : Action) :
    (s.perform action).1.addedId? = if action.addsNode then some s.graph.nextId else none := by
  cases hadds : action.addsNode with
  | true =>
    obtain ⟨position, shape, rfl⟩ := Action.addsNode_iff.mp hadds
    rfl
  | false =>
    cases action with
    | edit e =>
      refine addedId?_attempt fun reply s' h => ?_
      obtain ⟨⟨_, g⟩, hedit, ⟨⟩⟩ := bind_pure_eq_ok_iff.mp h
      have hid := Graph.id?_of_edit hedit
      rwa [show e.addsNode = false from hadds] at hid
    | deleteNode id => exact addedId?_attempt fun _ _ _ => rfl
    | select id? => exact addedId?_attempt fun _ _ _ => rfl
    | _ => rfl

theorem addedIds_cons (s : Session) (action : Action) (actions : List Action) :
    s.addedIds (action :: actions) =
      (if action.addsNode then [s.graph.nextId] else []) ++
        (s.perform action).2.addedIds actions := by
  rw [addedIds, replies, List.filterMap_cons, addedId?_perform]
  cases action.addsNode <;> rfl

theorem length_addedIds (s : Session) (actions : List Action) :
    (s.addedIds actions).length = actions.countP Action.addsNode := by
  induction actions generalizing s with
  | nil => rfl
  | cons action actions ih =>
    rw [addedIds_cons, List.length_append, ih, List.countP_cons, Nat.add_comm]
    cases action.addsNode <;> rfl

/-! ### The counter -/

/-- **The counter never moves back.** -/
theorem nextId_le_after (s : Session) (actions : List Action) :
    s.graph.nextId ≤ (s.after actions).graph.nextId := by
  induction actions generalizing s with
  | nil => exact UInt64.le_refl _
  | cons action actions ih =>
    have hstep : s.graph.nextId ≤ (s.perform action).2.graph.nextId := by
      rw [s.nextId_perform action]
      split
      · exact NodeId.le_succ _
      · exact UInt64.le_refl _
    exact UInt64.le_trans hstep (ih (s.perform action).2)

/-- The ids that are returned are not below the counter. -/
theorem nextId_le_of_mem_addedIds {id : NodeId} (h : id ∈ s.addedIds actions) :
    s.graph.nextId ≤ id := by
  induction actions generalizing s with
  | nil => exact absurd h List.not_mem_nil
  | cons action actions ih =>
    rw [addedIds_cons] at h
    rcases List.mem_append.mp h with hfirst | hlater
    · split at hfirst
      · exact List.mem_singleton.mp hfirst ▸ UInt64.le_refl _
      · exact absurd hfirst List.not_mem_nil
    · exact UInt64.le_trans (s.nextId_le_after [action]) (ih hlater)

/-- **The ids that are returned grow**, as long as the counter has room for the new nodes. -/
theorem pairwise_addedIds (hroom : s.graph.HasRoom (actions.countP Action.addsNode)) :
    (s.addedIds actions).Pairwise (· < ·) := by
  induction actions generalizing s with
  | nil => exact List.Pairwise.nil
  | cons action actions ih =>
    have hnext := s.nextId_perform action
    rw [addedIds_cons]
    rw [List.countP_cons] at hroom
    cases hadds : action.addsNode with
    | false =>
      rw [hadds] at hnext hroom
      exact ih (hroom.of_nextId_eq hnext)
    | true =>
      rw [hadds] at hnext hroom
      have hlt : s.graph.nextId.toNat + (actions.countP Action.addsNode + 1) < 2 ^ 64 := hroom
      have hsucc : (s.perform action).2.graph.nextId.toNat = s.graph.nextId.toNat + 1 :=
        (congrArg UInt64.toNat hnext).trans (NodeId.toNat_succ (by omega))
      have hroom' : (s.perform action).2.graph.HasRoom (actions.countP Action.addsNode) := by
        rw [Graph.HasRoom]
        omega
      refine List.pairwise_cons.mpr ⟨fun id hid => ?_, ih hroom'⟩
      -- later ids are not below the counter, which has moved on
      have hle := UInt64.le_iff_toNat_le.mp (nextId_le_of_mem_addedIds hid)
      rw [UInt64.lt_iff_toNat_lt]
      omega

/-! ### The past of a session -/

/-- A session that begins with an edited graph is one that edits its graph first. -/
theorem after_edits (g : Graph) (edits : List Graph.Edit) (config : Config) (contextText : String) :
    (start g config contextText).after (edits.map .edit) =
      start (g.editAll edits) config contextText := by
  induction edits generalizing g with
  | nil => rfl
  | cons e edits ih =>
    have hstep : ((start g config contextText).perform (.edit e)).2 =
        start (g.tryEdit e) config contextText := by
      cases h : g.edit e <;> simp [perform, attempt, edit, start, Graph.tryEdit, h]
    calc ((start g config contextText).perform (.edit e)).2.after (edits.map .edit)
        = (start (g.tryEdit e) config contextText).after (edits.map .edit) := by rw [hstep]
      _ = start ((g.tryEdit e).editAll edits) config contextText := ih (g.tryEdit e)

/-- **No id is used again.** A graph is empty or comes from a document. It is edited, and then a
session begins with it, in which anything is done, as long as fewer than `2 ^ 63` nodes are added
altogether. Every operation that adds a node returns an id, and the ids that are returned grow. Each
of them is larger than all ids that any node has had at an earlier time, whether it was deleted
since or not. -/
theorem addedIds_after_start {g : Graph} (hg : g.IsPristine) (edits : List Graph.Edit)
    (config : Config) (contextText : String) (actions : List Action)
    (hcount : edits.countP Graph.Edit.addsNode + actions.countP Action.addsNode < 2 ^ 63) :
    let s := start g config contextText
    let all := edits.map .edit ++ actions
    s.after (edits.map .edit) = start (g.editAll edits) config contextText ∧
      (s.addedIds all).length = all.countP Action.addsNode ∧
      (s.addedIds all).Pairwise (· < ·) ∧
      ∀ done action id, done ++ [action] <+: all →
        ((s.after done).perform action).1 = .edited (.node id) →
        ∀ earlier, earlier <+: done → ∀ other ∈ (s.after earlier).graph.ids, other < id := by
  intro s all
  have hedits : (edits.map Action.edit).countP Action.addsNode =
      edits.countP Graph.Edit.addsNode := List.countP_map
  have hall : all.countP Action.addsNode < 2 ^ 63 := by
    rw [List.countP_append, hedits]
    exact hcount
  have hroom : g.HasRoom (0 + all.countP Action.addsNode) := hg.hasRoom (by omega)
  refine ⟨after_edits g edits config contextText, s.length_addedIds all, ?_, ?_⟩
  · exact pairwise_addedIds (s := s) (hroom.mono (Nat.le_add_left _ _))
  · rintro done action id hdone hreply earlier ⟨between, rfl⟩ other hother
    have hid : id = (s.after (earlier ++ between)).graph.nextId := by
      have hadded := (s.after (earlier ++ between)).addedId?_perform action
      rw [hreply] at hadded
      split at hadded
      · exact Option.some.inj hadded
      · exact nomatch hadded
    have hearlier : earlier <+: all :=
      (List.prefix_append earlier between).trans ((List.prefix_append _ _).trans hdone)
    have hroom' : g.HasRoom (0 + earlier.countP Action.addsNode) :=
      hroom.mono (Nat.add_le_add_left hearlier.countP_le 0)
    have hconsistent : (s.after earlier).Consistent :=
      ((consistent_start hg.isSound config contextText).after hroom').1
    have hbefore : other < (s.after earlier).graph.nextId :=
      UInt64.lt_iff_toNat_lt.mpr (hconsistent.graph.fresh other hother)
    -- the counter was above the id then, and has not moved back since
    have hsince : (s.after earlier).graph.nextId ≤ id := by
      rw [hid, after_append]
      exact (s.after earlier).nextId_le_after between
    exact UInt64.lt_of_lt_of_le hbefore hsince

/-- The node with the largest id is deleted, and the next one gets an id above it. The node that was
added by an edit, before the session, is deleted too. -/
theorem addedIds_after_start_deleted :
    let d : Document := ⟨"1.0",
      [⟨7, ⟨0, 0⟩, .circle, none, .none⟩, ⟨2, ⟨0, 0⟩, .square, none, .none⟩], [⟨2, 7, none⟩], none⟩
    let g := Graph.ofParts d.nodes d.edges
    let edits : List Graph.Edit := [.addNode ⟨0, 0⟩ .circle]
    let actions : List Action :=
      [.deleteNode 7, .deleteNode 8, .edit (.addNode ⟨1, 2⟩ .square), .edit (.moveNode 7 ⟨0, 0⟩),
        .edit (.addNode ⟨3, 4⟩ .circle)]
    let s := start g .default ""
    d.toGraph = .ok g ∧ edits.countP Graph.Edit.addsNode + actions.countP Action.addsNode < 2 ^ 63 ∧
      s.addedIds (edits.map .edit ++ actions) = [8, 9, 10] ∧
      (s.addedIds (edits.map .edit ++ actions)).Pairwise (· < ·) ∧
      ∀ other ∈ s.graph.ids, other < 9 := by
  intro d g edits actions s
  have hopen : d.toGraph = .ok g := rfl
  have hcount : edits.countP Graph.Edit.addsNode + actions.countP Action.addsNode < 2 ^ 63 := by
    decide
  obtain ⟨-, -, hgrow, hpast⟩ :=
    addedIds_after_start (Or.inr ⟨d, hopen⟩) edits .default "" actions hcount
  refine ⟨hopen, hcount, rfl, hgrow, ?_⟩
  exact hpast [.edit (.addNode ⟨0, 0⟩ .circle), .deleteNode 7, .deleteNode 8]
    (.edit (.addNode ⟨1, 2⟩ .square)) 9 ⟨_, rfl⟩ rfl [] List.nil_prefix

end Session

end Flowchart
