import Flowchart.Proofs.Graph.Soundness
import Flowchart.Proofs.Run.Priority

/-!
# The transitions of an execution

What one operation can do to an execution, said once and used everywhere else. There are two views.

* **Where the cursor goes.** A step enters the first node, follows an arrow that leaves the current
  one, or halts (`Flowchart.Run.Execution.step_cases`); a run starts where the cursor stands or on
  the first node (`Flowchart.Run.Execution.beginRun_cases`). In a sound graph the cursor therefore
  stays on nodes of the graph (`Flowchart.Run.Execution.StandsIn`).
* **What becomes of the run.** An operation lets a run go on, or it ends one, or it starts one, and
  in the last two cases it begins a new generation (`Flowchart.Run.Execution.Turn`). The operations
  that only playback may use and the step that halts look alike from here.
-/

namespace Flowchart.Run

/-! ### The arrow that is followed -/

/-- **A candidate is an arrow that leaves the node**, at its place. -/
theorem exists_edge_of_mem_candidates {g : Graph} {id : NodeId} {context : Predicate.Context}
    {c : Candidate} (h : c ∈ candidates g id context) :
    ∃ edge, g.edges[c.index]? = some edge ∧ edge.source = id ∧ edge.target = c.target := by
  obtain ⟨edge, ⟨hplace, hsource⟩, htarget, -⟩ := mem_candidates_iff.mp h
  exact ⟨edge, hplace, hsource, htarget⟩

theorem target_mem_ids_of_choose? {g : Graph} (hg : g.HasEnds) {id : NodeId}
    {context : Predicate.Context} {chosen : Candidate} (h : choose? g id context = some chosen) :
    chosen.target ∈ g.ids := by
  obtain ⟨edge, hplace, -, htarget⟩ := exists_edge_of_mem_candidates (List.mem_of_head? h)
  exact htarget ▸ (hg edge (List.mem_of_getElem? hplace)).2

namespace Execution

variable {e e' : Execution} {g : Graph} {context : Predicate.Context}

/-! ### Where the cursor goes -/

/-- **What a step can do.** -/
theorem step_cases {outcome : Outcome} (h : e.step g context = (outcome, e')) :
    (∃ first, e.cursor.current = none ∧ g.first? = some first ∧ outcome = .entered first.id ∧
      e' = e.moveTo first.id) ∨
    (e.cursor.current = none ∧ g.first? = none ∧ outcome = .emptyGraph ∧ e' = e) ∨
    (∃ current chosen, e.cursor.current = some current ∧ choose? g current context = some chosen ∧
      outcome = .advanced current chosen ∧ e' = e.moveTo chosen.target) ∨
    (∃ current, e.cursor.current = some current ∧ choose? g current context = none ∧
      outcome = .halted current ∧ e' = e.reset) := by
  unfold step at h
  cases hcurrent : e.cursor.current with
  | none =>
    rw [hcurrent] at h
    cases hfirst : g.first? with
    | none =>
      obtain ⟨rfl, rfl⟩ : .emptyGraph = outcome ∧ e = e' := by simpa [hfirst] using h
      exact Or.inr (Or.inl ⟨rfl, rfl, rfl, rfl⟩)
    | some first =>
      obtain ⟨rfl, rfl⟩ : .entered first.id = outcome ∧ e.moveTo first.id = e' := by
        simpa [hfirst] using h
      exact Or.inl ⟨first, rfl, rfl, rfl, rfl⟩
  | some current =>
    rw [hcurrent] at h
    cases hchoose : choose? g current context with
    | none =>
      obtain ⟨rfl, rfl⟩ : .halted current = outcome ∧ e.reset = e' := by simpa [hchoose] using h
      exact Or.inr (Or.inr (Or.inr ⟨current, rfl, hchoose, rfl, rfl⟩))
    | some chosen =>
      obtain ⟨rfl, rfl⟩ : .advanced current chosen = outcome ∧ e.moveTo chosen.target = e' := by
        simpa [hchoose] using h
      exact Or.inr (Or.inr (Or.inl ⟨current, chosen, rfl, hchoose, rfl, rfl⟩))

/-- **What starting a run can do**: nothing, or it runs from the node where the cursor stands, or
from the first one. -/
theorem beginRun_cases {token? : Option Token} (h : e.beginRun g = (token?, e')) :
    (token? = none ∧ e' = e) ∨
    (∃ id, e.cursor.running = false ∧
      (e.cursor.current = some id ∨ ∃ first, g.first? = some first ∧ first.id = id) ∧
      token? = some ⟨e.generation + 1⟩ ∧ e' = ⟨⟨some id, true⟩, e.generation + 1⟩) := by
  unfold beginRun at h
  split at h
  · obtain ⟨rfl, rfl⟩ : none = token? ∧ e = e' := by simpa using h
    exact Or.inl ⟨rfl, rfl⟩
  · next hrunning =>
    split at h
    · obtain ⟨rfl, rfl⟩ : none = token? ∧ e = e' := by simpa using h
      exact Or.inl ⟨rfl, rfl⟩
    · next id hstart =>
      obtain ⟨rfl, rfl⟩ := Prod.mk.inj h
      refine Or.inr ⟨id, by simpa using hrunning, ?_, rfl, rfl⟩
      rw [Option.orElse_eq_orElse, Option.orElse_eq_or, Option.or_eq_some_iff] at hstart
      rcases hstart with hcurrent | ⟨-, hfirst⟩
      · exact Or.inl hcurrent
      · exact Or.inr (Option.map_eq_some_iff.mp hfirst)

/-- **The cursor stands in a graph**: it is on a node of the graph if it is on any, and it is on one
while the execution is running. -/
structure StandsIn (e : Execution) (g : Graph) : Prop where
  current_mem : ∀ id, e.cursor.current = some id → id ∈ g.ids
  current_ne_none : e.cursor.running = true → e.cursor.current ≠ none

/-- An idle cursor stands anywhere. -/
theorem standsIn_of_idle (h : e.cursor = .idle) (g : Graph) : e.StandsIn g := by
  refine ⟨fun id hid => ?_, fun hrunning => ?_⟩
  · simp [h, Cursor.idle] at hid
  · simp [h, Cursor.idle] at hrunning

theorem standsIn_moveTo {id : NodeId} (h : id ∈ g.ids) : (e.moveTo id).StandsIn g := by
  refine ⟨fun other hother => ?_, fun _ hnone => nomatch hnone⟩
  obtain rfl : id = other := Option.some.inj hother
  exact h

theorem StandsIn.step (h : e.StandsIn g) (hg : g.IsSound) : (e.step g context).2.StandsIn g := by
  rcases step_cases (Prod.eta (e.step g context)).symm with
    ⟨first, -, hfirst, -, he⟩ | ⟨-, -, -, he⟩ | ⟨current, chosen, -, hchoose, -, he⟩ |
      ⟨current, -, -, -, he⟩
  all_goals rw [he]
  · exact standsIn_moveTo (Graph.mem_ids_of_first? hfirst)
  · exact h
  · exact standsIn_moveTo (target_mem_ids_of_choose? hg.ends hchoose)
  · exact standsIn_of_idle rfl g

/-- A run starts on a node of the graph. -/
theorem StandsIn.beginRun (h : e.StandsIn g) : (e.beginRun g).2.StandsIn g := by
  rcases beginRun_cases (Prod.eta (e.beginRun g)).symm with
    ⟨-, he⟩ | ⟨id, -, hid, -, he⟩
  all_goals rw [he]
  · exact h
  · refine ⟨fun other hother => ?_, fun _ hnone => nomatch hnone⟩
    obtain rfl : id = other := Option.some.inj hother
    rcases hid with hcurrent | ⟨first, hfirst, rfl⟩
    · exact h.current_mem id hcurrent
    · exact Graph.mem_ids_of_first? hfirst

theorem StandsIn.endRun (h : e.StandsIn g) : e.endRun.2.StandsIn g :=
  ⟨h.current_mem, fun hrunning => nomatch hrunning⟩

theorem StandsIn.tick {token : Token} (h : e.StandsIn g) (hg : g.IsSound) :
    (e.tick token g context).2.StandsIn g := by
  unfold Execution.tick
  split
  · exact h.step hg
  · exact h

theorem StandsIn.mono {g' : Graph} (h : e.StandsIn g) (hids : g.ids ⊆ g'.ids) : e.StandsIn g' :=
  ⟨fun id hid => hids (h.current_mem id hid), h.current_ne_none⟩

/-- Once it is told that a node is gone, the execution stands in what is left. -/
theorem StandsIn.nodeRemoved {g' : Graph} {id : NodeId} (h : e.StandsIn g)
    (hids : ∀ other ∈ g.ids, other ≠ id → other ∈ g'.ids) : (e.nodeRemoved id).StandsIn g' := by
  unfold Execution.nodeRemoved
  split
  · exact standsIn_of_idle rfl g'
  · next hne =>
    refine ⟨fun other hother => hids other (h.current_mem other hother) ?_, h.current_ne_none⟩
    rintro rfl
    exact hne hother

/-! ### What becomes of the run -/

/-- **What an operation does to the run in progress**, with the token of the run that it starts. -/
inductive Turn (e e' : Execution) : Option Token → Prop where
  /-- The run goes on, or there is still none. -/
  | keeps (hgeneration : e'.generation = e.generation)
      (hrunning : e'.cursor.running = e.cursor.running) : Turn e e' none
  /-- No run is in progress, and no token of an earlier one is current. -/
  | ends (hgeneration : e'.generation = e.generation + 1)
      (hrunning : e'.cursor.running = false) : Turn e e' none
  /-- A run starts where there was none. -/
  | starts (hbefore : e.cursor.running = false) (hgeneration : e'.generation = e.generation + 1)
      (hrunning : e'.cursor.running = true) : Turn e e' (some ⟨e'.generation⟩)

theorem Turn.generation_le {token? : Option Token} (h : Turn e e' token?) :
    e'.generation ≤ e.generation + 1 := by
  cases h with
  | keeps hgeneration => omega
  | ends hgeneration => omega
  | starts _ hgeneration => omega

theorem turn_refl (e : Execution) : Turn e e none :=
  .keeps rfl rfl

theorem turn_reset (e : Execution) : Turn e e.reset none :=
  .ends rfl rfl

/-- A step lets the run go on, or halts and ends it. -/
theorem turn_step (e : Execution) (g : Graph) (context : Predicate.Context) :
    Turn e (e.step g context).2 none := by
  rcases step_cases (Prod.eta (e.step g context)).symm with
    ⟨first, -, -, -, he⟩ | ⟨-, -, -, he⟩ | ⟨current, chosen, -, -, -, he⟩ | ⟨current, -, -, -, he⟩
  all_goals rw [he]
  · exact .keeps rfl rfl
  · exact turn_refl e
  · exact .keeps rfl rfl
  · exact turn_reset e

/-- Starting a run starts one with the token that is returned, or nothing happens. -/
theorem turn_beginRun (e : Execution) (g : Graph) :
    Turn e (e.beginRun g).2 (e.beginRun g).1 := by
  rcases beginRun_cases (Prod.eta (e.beginRun g)).symm with ⟨ht, he⟩ | ⟨id, hbefore, -, ht, he⟩
  all_goals rw [ht, he]
  · exact turn_refl e
  · exact .starts hbefore rfl rfl

theorem turn_endRun (e : Execution) : Turn e e.endRun.2 none :=
  .ends rfl rfl

/-- A tick does what a step does, or nothing. -/
theorem turn_tick (e : Execution) (token : Token) (g : Graph) (context : Predicate.Context) :
    Turn e (e.tick token g context).2 none := by
  unfold tick
  split
  · exact turn_step e g context
  · exact turn_refl e

/-- The removal of the current node ends the run, and that of another one does not touch it. -/
theorem turn_nodeRemoved (e : Execution) (id : NodeId) : Turn e (e.nodeRemoved id) none := by
  unfold nodeRemoved
  split
  · exact turn_reset e
  · exact turn_refl e

end Execution

end Flowchart.Run
