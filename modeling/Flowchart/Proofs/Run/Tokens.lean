import Flowchart.Proofs.Run.Transition

/-!
# The tokens of runs

A tick that was scheduled for a run may come when that run is over, and another one may be in
progress by then. This file shows that such a tick does nothing: a token is current from the start
of its run until the run ends, and never again.

What is reasoned about are arbitrary histories. An operation (`Flowchart.Run.Execution.Operation`)
comes with its own graph and context, since both may change between any two operations, and a
history (`Flowchart.Run.Execution.history`) is a row of operations with the tokens that they issue.
Generations are counted without an end. A counter of 64 bits counts the same way for fewer than
`2 ^ 64` operations, since each raises the generation by one at most.

Two invariants carry the result, both kept by every turn that an operation can take.

* `Flowchart.Run.Execution.Issued`: the tokens issued so far increase, none lies above the
  generation, and the generation itself is a token while a run is in progress.
* `Flowchart.Run.Execution.Retired`: a token that lies within the generation and is not current
  stays so. A later run gets a new generation, so it cannot bring an old token back.
-/

namespace Flowchart.Run.Execution

/-! ### Operations and histories -/

/-- An operation on an execution, with what it is given. -/
inductive Operation where
  | step (g : Graph) (context : Predicate.Context)
  | reset
  | beginRun (g : Graph)
  | endRun
  | tick (token : Token) (g : Graph) (context : Predicate.Context)
  | nodeRemoved (id : NodeId)

/-- The token that an operation issues, if it starts a run, and the execution afterwards. -/
def perform (e : Execution) : Operation → Option Token × Execution
  | .step g context => (none, (e.step g context).2)
  | .reset => (none, e.reset)
  | .beginRun g => e.beginRun g
  | .endRun => (none, e.endRun.2)
  | .tick token g context => (none, (e.tick token g context).2)
  | .nodeRemoved id => (none, e.nodeRemoved id)

/-- **The tokens that a row of operations issues**, in order, and the execution afterwards. -/
def history (e : Execution) : List Operation → List Token × Execution
  | [] => ([], e)
  | op :: ops =>
    let (token?, e) := e.perform op
    let (tokens, e) := e.history ops
    (token?.toList ++ tokens, e)

/-- **Which operations end the run** that is in progress: to end it, to go back to idle, a step or a
tick that halts, and the removal of the current node. -/
def Operation.EndsRun (e : Execution) : Operation → Prop
  | .step g context => ∃ id, (e.step g context).1 = .halted id
  | .reset => True
  | .beginRun _ => False
  | .endRun => True
  | .tick token g context => ∃ id, (e.tick token g context).1 = some (.halted id)
  | .nodeRemoved id => e.cursor.current = some id

variable {e e' : Execution} {tokens : List Token} {token : Token}

/-- Every operation takes one of the three turns. -/
theorem turn_perform (e : Execution) (op : Operation) :
    Turn e (e.perform op).2 (e.perform op).1 := by
  cases op with
  | step g context => exact turn_step e g context
  | reset => exact turn_reset e
  | beginRun g => exact turn_beginRun e g
  | endRun => exact turn_endRun e
  | tick token g context => exact turn_tick e token g context
  | nodeRemoved id => exact turn_nodeRemoved e id

theorem history_cons (e : Execution) (op : Operation) (ops : List Operation) :
    e.history (op :: ops) =
      ((e.perform op).1.toList ++ ((e.perform op).2.history ops).1,
        ((e.perform op).2.history ops).2) := rfl

theorem history_append (e : Execution) (ops later : List Operation) :
    e.history (ops ++ later) =
      ((e.history ops).1 ++ ((e.history ops).2.history later).1,
        ((e.history ops).2.history later).2) := by
  induction ops generalizing e with
  | nil => rfl
  | cons op ops ih => rw [List.cons_append, history_cons, ih, history_cons, List.append_assoc]

/-- A history raises the generation by one at most with each operation. -/
theorem generation_history_le (e : Execution) (ops : List Operation) :
    (e.history ops).2.generation ≤ e.generation + ops.length := by
  induction ops generalizing e with
  | nil => exact Nat.le_refl _
  | cons op ops ih =>
    calc ((e.perform op).2.history ops).2.generation
        ≤ (e.perform op).2.generation + ops.length := ih (e.perform op).2
      _ ≤ e.generation + 1 + ops.length :=
          Nat.add_le_add_right (turn_perform e op).generation_le _
      _ = e.generation + (op :: ops).length := by rw [List.length_cons]; omega

/-! ### Current tokens -/

theorem isCurrent_iff :
    e.isCurrent token = true ↔ e.cursor.running = true ∧ e.generation = token.generation := by
  rw [isCurrent, Bool.and_eq_true, decide_eq_true_eq]

theorem isCurrent_of_not_running (h : e.cursor.running = false) : e.isCurrent token = false := by
  rw [isCurrent, h, Bool.false_and]

theorem eq_of_isCurrent {other : Token} (h : e.isCurrent token = true)
    (hother : e.isCurrent other = true) : token = other := by
  obtain ⟨-, hgeneration⟩ := isCurrent_iff.mp h
  obtain ⟨-, hgeneration'⟩ := isCurrent_iff.mp hother
  exact Token.mk.injEq .. ▸ hgeneration.symm.trans hgeneration'

/-! ### The tokens issued so far -/

/-- **What holds of the tokens that were issued** and the execution at any moment. -/
structure Issued (tokens : List Token) (e : Execution) : Prop where
  /-- A later token has a larger generation. -/
  increasing : tokens.Pairwise fun earlier later => earlier.generation < later.generation
  /-- No token lies above the generation. -/
  bounded : ∀ token ∈ tokens, token.generation ≤ e.generation
  /-- The run in progress has one of the tokens. -/
  current_mem : e.cursor.running = true → ⟨e.generation⟩ ∈ tokens

theorem issued_initial : Issued [] initial :=
  ⟨List.Pairwise.nil, by simp, fun h => nomatch h⟩

/-- **A turn keeps the tokens in order**: only a run that starts issues one, and it is the new
generation. -/
theorem Issued.turn {token? : Option Token} (h : Issued tokens e) (hturn : Turn e e' token?) :
    Issued (tokens ++ token?.toList) e' := by
  cases hturn with
  | keeps hgeneration hrunning =>
    rw [Option.toList_none, List.append_nil]
    refine ⟨h.increasing, ?_, ?_⟩
    · rw [hgeneration]
      exact h.bounded
    · rw [hgeneration, hrunning]
      exact h.current_mem
  | ends hgeneration hrunning =>
    rw [Option.toList_none, List.append_nil]
    refine ⟨h.increasing, fun token htoken => ?_, fun hcontra => ?_⟩
    · have := h.bounded token htoken
      omega
    · rw [hrunning] at hcontra
      exact nomatch hcontra
  | starts hbefore hgeneration hrunning =>
    rw [Option.toList_some]
    -- all tokens so far lie below the generation that the run has started
    have hbelow : ∀ token ∈ tokens, token.generation < e'.generation := by
      intro token htoken
      have := h.bounded token htoken
      omega
    refine ⟨List.pairwise_append.mpr ⟨h.increasing, List.pairwise_singleton _ _, ?_⟩, ?_, ?_⟩
    · intro earlier hearlier later hlater
      rw [List.mem_singleton.mp hlater]
      exact hbelow earlier hearlier
    · intro token htoken
      rcases List.mem_append.mp htoken with hold | hnew
      · exact Nat.le_of_lt (hbelow token hold)
      · exact Nat.le_of_eq (congrArg Token.generation (List.mem_singleton.mp hnew))
    · exact fun _ => List.mem_append_right _ (List.mem_singleton_self _)

theorem Issued.history (h : Issued tokens e) (ops : List Operation) :
    Issued (tokens ++ (e.history ops).1) (e.history ops).2 := by
  induction ops generalizing tokens e with
  | nil => simpa [Execution.history] using h
  | cons op ops ih =>
    rw [history_cons, ← List.append_assoc]
    exact ih (h.turn (turn_perform e op))

/-! ### Tokens that are over -/

/-- **A token whose run is over**: it was issued in this generation or before, and is not current.
-/
structure Retired (e : Execution) (token : Token) : Prop where
  le_generation : token.generation ≤ e.generation
  not_current : e.isCurrent token = false

/-- **No turn brings a token back**: a run that goes on has another token, and one that starts gets
a new generation. -/
theorem Retired.turn {token? : Option Token} (h : Retired e token) (hturn : Turn e e' token?) :
    Retired e' token := by
  cases hturn with
  | keeps hgeneration hrunning =>
    refine ⟨hgeneration ▸ h.le_generation, ?_⟩
    rw [isCurrent, hgeneration, hrunning]
    exact h.not_current
  | ends hgeneration hrunning =>
    exact ⟨by have := h.le_generation; omega, isCurrent_of_not_running hrunning⟩
  | starts hbefore hgeneration hrunning =>
    have hle := h.le_generation
    refine ⟨by omega, Bool.eq_false_iff.mpr fun hcurrent => ?_⟩
    -- a current token is the generation itself, which has moved on
    obtain ⟨-, heq⟩ := isCurrent_iff.mp hcurrent
    omega

theorem Retired.history (h : Retired e token) (ops : List Operation) :
    Retired (e.history ops).2 token := by
  induction ops generalizing e with
  | nil => exact h
  | cons op ops ih => exact ih (h.turn (turn_perform e op))

/-! ### How a run ends -/

/-- A step ends the run exactly if it halts. -/
theorem isCurrent_step (h : e.isCurrent token = true) (g : Graph) (context : Predicate.Context) :
    (e.step g context).2.isCurrent token = false ↔ ∃ id, (e.step g context).1 = .halted id := by
  rcases step_cases (Prod.eta (e.step g context)).symm with
    ⟨first, -, -, ho, he⟩ | ⟨-, -, ho, he⟩ | ⟨current, chosen, -, -, ho, he⟩ |
      ⟨current, -, -, ho, he⟩
  all_goals rw [ho, he]
  · change e.isCurrent token = false ↔ _
    simp [h]
  · simp [h]
  · change e.isCurrent token = false ↔ _
    simp [h]
  · simp [isCurrent_reset]

/-- **The run in progress ends exactly with the operations that end runs.** -/
theorem isCurrent_perform (h : e.isCurrent token = true) (op : Operation) :
    (e.perform op).2.isCurrent token = false ↔ op.EndsRun e := by
  obtain ⟨hrunning, -⟩ := isCurrent_iff.mp h
  cases op with
  | step g context => exact isCurrent_step h g context
  | reset => simp [perform, Operation.EndsRun, isCurrent_reset]
  | beginRun g => simp [perform, Operation.EndsRun, beginRun, hrunning, h]
  | endRun => simp [perform, Operation.EndsRun, isCurrent_endRun]
  | tick other g context =>
    change (e.tick other g context).2.isCurrent token = false ↔
      ∃ id, (e.tick other g context).1 = some (.halted id)
    unfold tick
    split
    · simpa using isCurrent_step h g context
    · simp [h]
  | nodeRemoved id =>
    change (e.nodeRemoved id).isCurrent token = false ↔ e.cursor.current = some id
    unfold nodeRemoved
    split
    · next hcurrent => simp [isCurrent_reset, hcurrent]
    · next hcurrent => simp [h, hcurrent]

/-! ### No tick outlives its run -/

/-- The tokens that have been issued when an execution has gone through some operations. -/
def tokensOf (ops : List Operation) : List Token :=
  (initial.history ops).1

/-- The execution that has gone through some operations. -/
def after (ops : List Operation) : Execution :=
  (initial.history ops).2

theorem issued_tokensOf (ops : List Operation) : Issued (tokensOf ops) (after ops) :=
  issued_initial.history ops

/-- **No tick outlives its run.** After any history the tokens issued are pairwise distinct; at most
one of them is current, and one is exactly while a run is in progress. The token of the run in
progress stops being current with the operations that end runs and with no others. Once it has
stopped it never becomes current again: whatever happens later, runs that start included, a tick
with it has no outcome and changes nothing. The generation has not passed the number of operations,
so as long as there are fewer than `2 ^ 64` of them it fits into 64 bits. -/
theorem tick_of_ended_run (ops : List Operation) :
    (after ops).generation ≤ ops.length ∧
      (tokensOf ops).Nodup ∧
      (∀ token other, (after ops).isCurrent token = true → (after ops).isCurrent other = true →
        token = other) ∧
      ((after ops).cursor.running = true ↔
        ∃ token ∈ tokensOf ops, (after ops).isCurrent token = true) ∧
      (∀ token op, (after ops).isCurrent token = true →
        ((after (ops ++ [op])).isCurrent token = false ↔ op.EndsRun (after ops))) ∧
      ∀ token ∈ tokensOf ops, (after ops).isCurrent token = false → ∀ later,
        (after (ops ++ later)).isCurrent token = false ∧ ∀ g context,
          (after (ops ++ later)).tick token g context = (none, after (ops ++ later)) := by
  have hissued := issued_tokensOf ops
  have hafter : ∀ later, after (ops ++ later) = ((after ops).history later).2 := by
    intro later
    rw [after, history_append]
    rfl
  refine ⟨?_, ?_, fun _ _ => eq_of_isCurrent, ⟨?_, ?_⟩, ?_, ?_⟩
  · exact (generation_history_le initial ops).trans_eq (Nat.zero_add _)
  · refine hissued.increasing.imp ?_
    rintro earlier later hlt rfl
    exact absurd hlt (Nat.lt_irrefl _)
  · intro hrunning
    exact ⟨_, hissued.current_mem hrunning, isCurrent_iff.mpr ⟨hrunning, rfl⟩⟩
  · rintro ⟨token, -, hcurrent⟩
    exact (isCurrent_iff.mp hcurrent).1
  · intro token op hcurrent
    rw [hafter]
    exact isCurrent_perform hcurrent op
  · intro token htoken hover later
    have hretired : Retired (after ops) token := ⟨hissued.bounded token htoken, hover⟩
    have hlater : (after (ops ++ later)).isCurrent token = false := by
      rw [hafter]
      exact (hretired.history later).not_current
    exact ⟨hlater, tick_of_not_isCurrent hlater⟩

/-- A run is stopped and another one started on the same node: the tick of the first one comes too
late. -/
theorem tick_of_ended_run_restarted :
    let g : Graph := ⟨[⟨1, ⟨0, 0⟩, .circle, none, .none⟩], [], 2⟩
    let ops : List Operation := [.beginRun g, .endRun]
    (⟨1⟩ : Token) ∈ tokensOf ops ∧ (after ops).isCurrent ⟨1⟩ = false ∧
      (after (ops ++ [.beginRun g])).tick ⟨1⟩ g .empty = (none, ⟨⟨some 1, true⟩, 3⟩) := by
  intro g ops
  have hmem : (⟨1⟩ : Token) ∈ tokensOf ops := by decide
  have hover : (after ops).isCurrent ⟨1⟩ = false := by decide
  exact ⟨hmem, hover,
    ((tick_of_ended_run ops).2.2.2.2.2 ⟨1⟩ hmem hover [.beginRun g]).2 g .empty⟩

end Flowchart.Run.Execution
