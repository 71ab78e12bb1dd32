import Flowchart.Proofs.Run.Transition

/-!
# Rows of steps

An execution is stepped again and again, with a context for each step. This file has words for what
it returns on the way (`Flowchart.Run.Execution.outcomes`) and where it stands in the end
(`Flowchart.Run.Execution.steps`), and the same two for the ticks of a run, which may be too late
and then return nothing. A single step is one of four equations, one for each place where the cursor
may stand.
-/

namespace Flowchart.Run.Execution

variable {e : Execution} {g : Graph} {context : Predicate.Context}

/-! ### One step -/

theorem state_eq_idle_iff : e.state = .idle ↔ e.cursor.current = none := by
  obtain ⟨⟨current, running⟩, generation⟩ := e
  cases current <;> cases running <;> simp [state, Cursor.state]

theorem step_of_first? {first : Node} (hidle : e.cursor.current = none)
    (hfirst : g.first? = some first) :
    e.step g context = (.entered first.id, e.moveTo first.id) := by
  simp only [step, hidle, hfirst]

theorem step_of_first?_eq_none (hidle : e.cursor.current = none) (hfirst : g.first? = none) :
    e.step g context = (.emptyGraph, e) := by
  simp only [step, hidle, hfirst]

theorem step_of_choose? {id : NodeId} {chosen : Candidate} (hcurrent : e.cursor.current = some id)
    (hchosen : choose? g id context = some chosen) :
    e.step g context = (.advanced id chosen, e.moveTo chosen.target) := by
  simp only [step, hcurrent, hchosen]

theorem step_of_choose?_eq_none {id : NodeId} (hcurrent : e.cursor.current = some id)
    (hchosen : choose? g id context = none) : e.step g context = (.halted id, e.reset) := by
  simp only [step, hcurrent, hchosen]

theorem tick_of_isCurrent {token : Token} (h : e.isCurrent token = true) :
    e.tick token g context = (some (e.step g context).1, (e.step g context).2) := by
  rw [tick, if_pos h]

/-! ### Many steps -/

/-- An execution after some steps, each with its own context. -/
def steps (e : Execution) (g : Graph) (contexts : List Predicate.Context) : Execution :=
  contexts.foldl (fun e context => (e.step g context).2) e

theorem steps_append_singleton (e : Execution) (contexts : List Predicate.Context) :
    e.steps g (contexts ++ [context]) = ((e.steps g contexts).step g context).2 :=
  List.foldl_append

theorem steps_cons (e : Execution) (contexts : List Predicate.Context) :
    e.steps g (context :: contexts) = (e.step g context).2.steps g contexts := rfl

/-- **The outcomes of some steps**, each with its own context. -/
def outcomes (e : Execution) (g : Graph) : List Predicate.Context → List Outcome
  | [] => []
  | context :: contexts => (e.step g context).1 :: (e.step g context).2.outcomes g contexts

theorem outcomes_cons (e : Execution) (contexts : List Predicate.Context) :
    e.outcomes g (context :: contexts) =
      (e.step g context).1 :: (e.step g context).2.outcomes g contexts := rfl

theorem outcomes_append (e : Execution) (contexts later : List Predicate.Context) :
    e.outcomes g (contexts ++ later) =
      e.outcomes g contexts ++ (e.steps g contexts).outcomes g later := by
  induction contexts generalizing e with
  | nil => rfl
  | cons context contexts ih =>
    rw [List.cons_append, outcomes_cons, ih, outcomes_cons, steps_cons, List.cons_append]

/-- Nothing ever happens in a graph without nodes. -/
theorem eq_emptyGraph_of_mem_outcomes {contexts : List Predicate.Context} {outcome : Outcome}
    (hidle : e.cursor.current = none) (hfirst : g.first? = none)
    (h : outcome ∈ e.outcomes g contexts) : outcome = .emptyGraph := by
  induction contexts with
  | nil => exact absurd h List.not_mem_nil
  | cons context contexts ih =>
    rw [outcomes_cons, step_of_first?_eq_none hidle hfirst] at h
    rcases List.mem_cons.mp h with hnow | hlater
    · exact hnow
    · exact ih hlater

/-! ### Many ticks -/

/-- An execution after some ticks with a token, each with its own context. -/
def ticks (e : Execution) (token : Token) (g : Graph) (contexts : List Predicate.Context) :
    Execution :=
  contexts.foldl (fun e context => (e.tick token g context).2) e

theorem ticks_cons (e : Execution) (token : Token) (contexts : List Predicate.Context) :
    e.ticks token g (context :: contexts) = (e.tick token g context).2.ticks token g contexts := rfl

/-- **The outcomes of some ticks**; a tick that comes too late has none. -/
def tickOutcomes (e : Execution) (token : Token) (g : Graph) :
    List Predicate.Context → List (Option Outcome)
  | [] => []
  | context :: contexts =>
    (e.tick token g context).1 :: (e.tick token g context).2.tickOutcomes token g contexts

theorem tickOutcomes_cons (e : Execution) (token : Token) (contexts : List Predicate.Context) :
    e.tickOutcomes token g (context :: contexts) =
      (e.tick token g context).1 :: (e.tick token g context).2.tickOutcomes token g contexts := rfl

end Flowchart.Run.Execution
