import Flowchart.Proofs.Graph.Editing
import Flowchart.Session

/-!
# Operations that are refused

Of the operations on a session, only those can fail that name a node or an arrow, and they fail only
if what they name is not there, or if an arrow would lead from a node to itself
(`Flowchart.Session.Action.IsRefused`). An operation that fails leaves the whole session as it was:
not only the graph with its counter, but also the cursor and the generation of its runs, the
selection, the board, the context and the configuration.

An edit that does not fail changes the graph and no other part of the session, and in the graph it
changes one thing (`Flowchart.Graph.Edit.Changes`). So an edit is either refused, or it does what it
is meant to do and nothing else (`Flowchart.Session.perform_refused_or_changes`). Deleting a node is
no edit of this kind, since it concerns the whole session; here it is only said when it fails.
-/

namespace Flowchart.Session

variable {s : Session} {error : Graph.Error}

/-- **Which operations are refused**, and with which error. -/
inductive Action.IsRefused (g : Graph) : Action → Graph.Error → Prop where
  /-- An edit of the graph is refused. -/
  | edit {e : Graph.Edit} {error : Graph.Error} (h : e.IsRefused g error) :
      IsRefused g (.edit e) error
  /-- There is no node to delete. -/
  | deleteNode {id : NodeId} (hid : id ∉ g.ids) : IsRefused g (.deleteNode id) (.nodeNotFound id)
  /-- There is no node to select. -/
  | select {id : NodeId} (hid : id ∉ g.ids) : IsRefused g (.select (some id)) (.nodeNotFound id)

theorem attempt_eq_failed_iff {α : Type} {reply : α → Reply}
    {result : Except Graph.Error (α × Session)} (hreply : ∀ a, reply a ≠ .failed error) :
    (s.attempt reply result).1 = .failed error ↔ result = .error error := by
  cases result with
  | error other => simp [attempt]
  | ok answer => simp [attempt, hreply]

theorem select_eq_error_iff {id : NodeId} :
    s.select (some id) = .error error ↔ id ∉ s.graph.ids ∧ error = .nodeNotFound id := by
  rw [select, ← Graph.contains_iff_mem_ids]
  cases s.graph.contains id with
  | false => simp [eq_comm]
  | true => simp

/-- **An operation fails** exactly if it is refused. -/
theorem perform_eq_failed_iff {action : Action} :
    (s.perform action).1 = .failed error ↔ action.IsRefused s.graph error := by
  cases action with
  | edit e =>
    have hedit : s.edit e = .error error ↔ e.IsRefused s.graph error :=
      bind_pure_eq_error_iff.trans Graph.edit_eq_error_iff
    rw [perform, attempt_eq_failed_iff (by simp), hedit]
    refine ⟨.edit, fun h => ?_⟩
    cases h with
    | edit h => exact h
  | deleteNode id =>
    have hdelete : s.deleteNode id = .error error ↔ id ∉ s.graph.ids ∧ error = .nodeNotFound id :=
      bind_pure_eq_error_iff.trans Graph.removeNode_eq_error_iff
    rw [perform, attempt_eq_failed_iff (by simp), hdelete]
    constructor
    · rintro ⟨hid, rfl⟩
      exact .deleteNode hid
    · intro h
      cases h with
      | deleteNode hid => exact ⟨hid, rfl⟩
  | select id? =>
    have hselect : (s.select id?).map (fun s => ((), s)) = .error error ↔
        s.select id? = .error error := by
      cases s.select id? <;> simp [Except.map]
    rw [perform, attempt_eq_failed_iff (by simp), hselect]
    cases id? with
    | none =>
      constructor
      · intro h
        cases h
      · intro h
        cases h
    | some id =>
      rw [select_eq_error_iff]
      constructor
      · rintro ⟨hid, rfl⟩
        exact .select hid
      · intro h
        cases h with
        | select hid => exact ⟨hid, rfl⟩
  | _ =>
    constructor
    · intro h
      simp [perform] at h
    · intro h
      cases h

/-- **An edit of a session** is refused, or it is an edit of the graph and nothing else. -/
theorem perform_edit {e : Graph.Edit} (h : ∀ error, ¬ e.IsRefused s.graph error) :
    ∃ reply g', e.Changes s.graph reply g' ∧
      s.perform (.edit e) = (.edited reply, { s with graph := g' }) := by
  cases hedit : s.graph.edit e with
  | error error => exact absurd (Graph.edit_eq_error_iff.mp hedit) (h error)
  | ok answer =>
    obtain ⟨reply, g'⟩ := answer
    refine ⟨reply, g', Graph.edit_eq_ok_iff.mp hedit, ?_⟩
    rw [perform, edit, hedit]
    rfl

/-- **An operation is refused and changes nothing, or it is carried out.** What fails is what is
refused, with that error, and it leaves the whole session as it was. An edit that is not refused
changes the graph at one place and no other part of the session. -/
theorem perform_refused_or_changes (s : Session) :
    (∀ action error, (s.perform action).1 = .failed error ↔ action.IsRefused s.graph error) ∧
    (∀ action error, action.IsRefused s.graph error → (s.perform action).2 = s) ∧
    ∀ e : Graph.Edit, (∀ error, ¬ e.IsRefused s.graph error) →
      ∃ reply g', e.Changes s.graph reply g' ∧
        s.perform (.edit e) = (.edited reply, { s with graph := g' }) :=
  ⟨fun _ _ => perform_eq_failed_iff,
    fun _ _ hrefused => perform_of_failed (perform_eq_failed_iff.mpr hrefused),
    fun _ => perform_edit⟩

/-- A run is on its way, and a node is selected. A node that is not there cannot be joined to
itself, and the loop is what is complained of. The arrow that is there can be given a label. -/
theorem perform_refused_or_changes_running :
    let g : Graph := ⟨[⟨1, ⟨0, 0⟩, .circle, none, .none⟩, ⟨2, ⟨0, 0⟩, .square, none, .none⟩],
      [⟨1, 2, none⟩], 3⟩
    let s : Session := { start g .default "x = 1" with
      execution := ⟨⟨some 1, true⟩, 4⟩, selected := some 2 }
    let loop : Action := .edit (.addEdge 9 9 none)
    let label : Graph.Edit := .setEdgeLabel 0 (some "yes")
    (s.perform loop).1 = .failed (.selfLoop 9) ∧ (s.perform loop).2 = s ∧
      (∀ error, ¬ label.IsRefused g error) ∧
      ∃ reply g', label.Changes g reply g' ∧
        s.perform (.edit label) = (.edited reply, { s with graph := g' }) := by
  intro g s loop label
  obtain ⟨hfails, hstays, hchanges⟩ := perform_refused_or_changes s
  have hloop : loop.IsRefused g (.selfLoop 9) := .edit (.loop 9 none)
  have hlabel : ∀ error, ¬ label.IsRefused g error := by
    intro error hrefused
    have hplace := (Graph.isRefused_iff_of_place? (g := g) (e := label) rfl).mp hrefused
    exact absurd hplace.1 (by decide)
  exact ⟨(hfails loop _).mpr hloop, hstays loop _ hloop, hlabel, hchanges label hlabel⟩

end Flowchart.Session
