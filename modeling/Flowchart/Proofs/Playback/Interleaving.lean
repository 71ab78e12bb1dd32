import Flowchart.Playback.Basic
import Flowchart.Proofs.Run.Tokens
import Mathlib.Data.List.Induction

/-!
# Playback under any interleaving

A session under playback is shared between the person who works on it and the tasks that make the
ticks of its runs. Whoever enters a locked section has the session to himself, so what can happen is
a row of sections in some order (`Flowchart.SharedPlayback.Section`). Nothing is assumed about that
order. In particular a task that was told to go away may still tick: here a task goes away only when
a tick finds its run over, or ends it, and a section that starts or ends a run may come at any time,
not only where the button that does both would choose it.

Along the way it is noted what each section did to the run in progress
(`Flowchart.SharedPlayback.Event`): it started one with a task of its own, or it was stopped, reset,
halted, or lost the node it stood on, or nothing of the kind happened and the section was quiet. The
main statement is that a tick changes the session only if its task was spawned by the latest start,
and everything since was quiet. What carries it is `Flowchart.SharedPlayback.Tracks`: the events so
far tell which task has the current token, if any has.

Playback as it is operated, with one ticker and a clock, is one of these interleavings
(`Flowchart.Playback.exists_sections_of_calls`, in a file of its own).
-/

namespace Flowchart

open Run (Execution Outcome Token)

/-! ### Sections -/

/-- A task that makes ticks: its number among those that were spawned, and its token. -/
structure TickTask where
  number : Nat
  token : Token
  deriving DecidableEq

/-- A shared playback: the session with the cursor that was published last, the tasks that were
spawned and have not finished, and how many were spawned so far. -/
structure SharedPlayback where
  broadcast : Broadcast
  tasks : List TickTask
  spawned : Nat

namespace SharedPlayback

/-- Playback of a session, where nothing was spawned yet. -/
def start (session : Session) : SharedPlayback :=
  ⟨.start session, [], 0⟩

/-- The session. -/
def session (p : SharedPlayback) : Session :=
  p.broadcast.session

/-- **The locked sections.** -/
inductive Section where
  /-- Any operation on the session, those that only playback uses included. -/
  | perform (action : Session.Action)
  /-- A step outside of any run. -/
  | step
  /-- A run is started, and a task is spawned for it. -/
  | begin
  /-- The run is stopped. -/
  | stop
  /-- Back to idle. -/
  | reset
  /-- A task makes a tick. -/
  | tick (task : TickTask)

/-- **What a section does.** A task that goes on stays among the tasks, and one that does not has
finished; who is no task makes no tick. -/
def enter (p : SharedPlayback) : Section → SharedPlayback
  | .perform action => { p with broadcast := (p.broadcast.locked fun s => s.perform action).2 }
  | .step => { p with broadcast := (p.broadcast.locked Session.step).2 }
  | .begin =>
    match p.broadcast.locked Session.beginRun with
    | (none, broadcast) => { p with broadcast }
    | (some token, broadcast) => ⟨broadcast, p.tasks ++ [⟨p.spawned, token⟩], p.spawned + 1⟩
  | .stop => { p with broadcast := (p.broadcast.locked Session.endRun).2 }
  | .reset => { p with broadcast := (p.broadcast.locked fun s => ((), s.reset)).2 }
  | .tick task =>
    if task ∈ p.tasks then
      let (goesOn, broadcast) := p.broadcast.tick task.token
      { p with broadcast, tasks := if goesOn then p.tasks else p.tasks.erase task }
    else p

/-! ### Events -/

/-- What a section did to the run in progress. -/
inductive Event where
  | started (task : TickTask)
  | stopped
  | reset
  | halted
  /-- The node was deleted on which the cursor stood. -/
  | lostNode
  /-- Nothing of the kind. -/
  | quiet
  deriving DecidableEq

/-- What a step did to the run. -/
def Event.ofOutcome : Outcome → Event
  | .halted _ => .halted
  | _ => .quiet

/-- What a tick did to the run, which is nothing if it found the run over. -/
def Event.ofTick : Option Outcome → Event
  | some outcome => .ofOutcome outcome
  | none => .quiet

/-- What an operation on the session does to the run. -/
def Event.ofAction (s : Session) : Session.Action → Event
  | .step => .ofOutcome s.step.1
  | .reset => .reset
  | .endRun => .stopped
  | .tick token => .ofTick (s.tick token).1
  | .deleteNode id =>
    if s.graph.contains id ∧ s.cursor.current = some id then .lostNode else .quiet
  | _ => .quiet

/-- **What a section does to the run.** -/
def event (p : SharedPlayback) : Section → Event
  | .perform action => .ofAction p.session action
  | .step => .ofOutcome p.session.step.1
  | .begin =>
    match p.session.beginRun.1 with
    | none => .quiet
    | some token => .started ⟨p.spawned, token⟩
  | .stop => .stopped
  | .reset => .reset
  | .tick task => if task ∈ p.tasks then .ofTick (p.session.tick task.token).1 else .quiet

/-- The playback after a row of sections. -/
def after (p : SharedPlayback) (sections : List Section) : SharedPlayback :=
  sections.foldl enter p

/-- The events of a row of sections, in order. -/
def events (p : SharedPlayback) : List Section → List Event
  | [] => []
  | s :: sections => p.event s :: (p.enter s).events sections

/-- **The task of the run in progress**, as far as the events tell: that of the latest start, unless
something has ended the run since. -/
def Event.next (live : Option TickTask) : Event → Option TickTask
  | .started task => some task
  | .quiet => live
  | _ => none

/-- The task of the run in progress after some events, that of no run being in progress before. -/
def live (events : List Event) : Option TickTask :=
  events.foldl Event.next none

/-- **The latest start.** A task is that of the run in progress exactly if the events end with its
start, followed by nothing but quiet ones. -/
theorem live_eq_some_iff {events : List Event} {task : TickTask} :
    live events = some task ↔
      ∃ earlier later, events = earlier ++ .started task :: later ∧ ∀ e ∈ later, e = .quiet := by
  -- the last event decides, so the induction is from the right
  induction events using List.reverseRecOn with
  | nil => simp [live]
  | append_singleton events e ih =>
    have hlive : live (events ++ [e]) = e.next (live events) := by
      rw [live, List.foldl_append]
      rfl
    rw [hlive]
    constructor
    · intro h
      cases e with
      | started other =>
        obtain rfl := Option.some.inj h
        exact ⟨events, [], rfl, by simp⟩
      | quiet =>
        obtain ⟨earlier, later, rfl, hquiet⟩ := ih.mp h
        refine ⟨earlier, later ++ [.quiet], by simp, fun e he => ?_⟩
        rcases List.mem_append.mp he with he | he
        · exact hquiet e he
        · exact List.mem_singleton.mp he
      | _ => exact nomatch h
    · rintro ⟨earlier, later, heq, hquiet⟩
      rcases List.eq_nil_or_concat later with rfl | ⟨init, last, rfl⟩
      · obtain ⟨-, he⟩ := List.append_inj' heq rfl
        obtain rfl := List.singleton_inj.mp he
        rfl
      · have heq' : events ++ [e] = (earlier ++ .started task :: init) ++ [last] := by
          simpa using heq
        obtain ⟨rfl, he⟩ := List.append_inj' heq' rfl
        obtain rfl := List.singleton_inj.mp he
        obtain rfl : e = .quiet := hquiet e (by simp)
        exact ih.mpr ⟨earlier, init, rfl, fun e he => hquiet e (by simp [he])⟩

/-- Once something has ended the run, no task is that of the run in progress until one is started.
-/
theorem live_eq_none {earlier later : List Event} {e : Event} (he : e = .stopped ∨ e = .reset)
    (hlater : ∀ task, .started task ∉ later) : live (earlier ++ e :: later) = none := by
  have hnone : later.foldl Event.next none = none := by
    induction later with
    | nil => rfl
    | cons e later ih =>
      have hnext : e.next none = none := by
        cases e with
        | started task => exact absurd List.mem_cons_self (hlater task)
        | _ => rfl
      rw [List.foldl_cons, hnext]
      exact ih fun task htask => hlater task (List.mem_cons_of_mem _ htask)
  rw [live, List.foldl_append, List.foldl_cons]
  rcases he with rfl | rfl <;> exact hnone

/-! ### What a section does to the run -/

/-- A step is quiet, or it has halted and no run is in progress. -/
theorem quiet_or_of_step (e : Execution) (g : Graph) (context : Predicate.Context) :
    Event.ofOutcome (e.step g context).1 = .quiet ∨
      (e.step g context).2.cursor.running = false := by
  rcases Execution.step_cases (Prod.eta (e.step g context)).symm with
    ⟨first, -, -, ho, -⟩ | ⟨-, -, ho, -⟩ | ⟨current, chosen, -, -, ho, -⟩ | ⟨current, -, -, -, he⟩
  · exact Or.inl (ho ▸ rfl)
  · exact Or.inl (ho ▸ rfl)
  · exact Or.inl (ho ▸ rfl)
  · exact Or.inr (he ▸ rfl)

theorem quiet_or_of_tick (e : Execution) (token : Token) (g : Graph)
    (context : Predicate.Context) :
    Event.ofTick (e.tick token g context).1 = .quiet ∨
      (e.tick token g context).2.cursor.running = false := by
  unfold Execution.tick
  split
  · exact quiet_or_of_step e g context
  · exact Or.inl rfl

/-- **What deleting a node does**: it fails and changes nothing, or it tells the execution that the
node is gone. -/
theorem execution_deleteNode (s : Session) (id : NodeId) :
    (s.perform (.deleteNode id)).2.execution =
      if s.graph.contains id then s.execution.nodeRemoved id else s.execution := by
  have hcontains : s.graph.contains id = (s.graph.node? id).isSome := List.isSome_find?.symm
  rw [hcontains]
  change (s.attempt .removed (s.deleteNode id)).2.execution = _
  unfold Session.deleteNode Graph.removeNode
  cases s.graph.node? id <;> rfl

/-- **Every operation on a session takes one of the three turns.** -/
theorem turn_perform (s : Session) (action : Session.Action) :
    ∃ token?, Execution.Turn s.execution (s.perform action).2.execution token? := by
  cases action with
  | deleteNode id =>
    rw [execution_deleteNode]
    split
    · exact ⟨none, Execution.turn_nodeRemoved _ id⟩
    · exact ⟨none, Execution.turn_refl _⟩
  | edit e =>
    refine ⟨none, ?_⟩
    change Execution.Turn _ (s.attempt .edited (s.edit e)).2.execution none
    unfold Session.edit
    cases s.graph.edit e <;> exact Execution.turn_refl _
  | select id? =>
    refine ⟨none, ?_⟩
    cases id? with
    | none => exact Execution.turn_refl _
    | some id =>
      change Execution.Turn _ (s.attempt _ (((s.select (some id))).map _)).2.execution none
      rw [Session.select]
      cases s.graph.contains id <;> exact Execution.turn_refl _
  | step => exact ⟨none, Execution.turn_step _ _ _⟩
  | reset => exact ⟨none, Execution.turn_reset _⟩
  | beginRun => exact ⟨_, Execution.turn_beginRun _ _⟩
  | endRun => exact ⟨none, Execution.turn_endRun _⟩
  | tick token => exact ⟨none, Execution.turn_tick _ _ _ _⟩
  | _ => exact ⟨none, Execution.turn_refl _⟩

/-- **An operation is quiet, or no run is in progress after it.** -/
theorem quiet_or_of_perform (s : Session) (action : Session.Action) :
    Event.ofAction s action = .quiet ∨ (s.perform action).2.cursor.running = false := by
  cases action with
  | deleteNode id =>
    rw [Session.cursor, execution_deleteNode]
    by_cases h : s.graph.contains id ∧ s.cursor.current = some id
    · refine Or.inr ?_
      have hcurrent : s.execution.cursor.current = some id := h.2
      rw [if_pos h.1, Execution.nodeRemoved, if_pos hcurrent]
      rfl
    · exact Or.inl (if_neg h)
  | step => exact quiet_or_of_step _ _ _
  | tick token => exact quiet_or_of_tick _ _ _ _
  | reset => exact Or.inr rfl
  | endRun => exact Or.inr rfl
  | _ => exact Or.inl rfl

/-- **What starting a run does**: nothing, or it spawns a task whose token is the new generation. -/
theorem enter_begin_cases (p : SharedPlayback) :
    (p.event .begin = .quiet ∧ (p.enter .begin).tasks = p.tasks ∧
      (p.enter .begin).session = p.session) ∨
    (∃ task, p.event .begin = .started task ∧ (p.enter .begin).tasks = p.tasks ++ [task] ∧
      task.token.generation = p.session.execution.generation + 1 ∧
      (p.enter .begin).session.execution.generation = task.token.generation) := by
  obtain ⟨token?, e, hbegin⟩ :
      ∃ token? e, p.session.execution.beginRun p.session.graph = (token?, e) := ⟨_, _, rfl⟩
  have hsession : p.broadcast.session.beginRun = (token?, { p.session with execution := e }) := by
    change p.session.beginRun = _
    rw [Session.beginRun, Session.execute, hbegin]
  have hlocked : p.broadcast.locked Session.beginRun =
      (token?, ⟨{ p.session with execution := e }, e.cursor, p.broadcast.publications + 1⟩) := by
    rw [Broadcast.locked, hsession]
    rfl
  have hreply : p.session.beginRun.1 = token? := congrArg Prod.fst hbegin
  rcases Execution.beginRun_cases hbegin with ⟨rfl, rfl⟩ | ⟨id, -, -, rfl, rfl⟩
  · refine Or.inl ⟨?_, ?_, ?_⟩
    · rw [event, hreply]
    · rw [enter, hlocked]
    · rw [enter, hlocked]
      rfl
  · refine Or.inr ⟨⟨p.spawned, ⟨p.session.execution.generation + 1⟩⟩, ?_, ?_, rfl, ?_⟩
    · rw [event, hreply]
    · rw [enter, hlocked]
    · rw [enter, hlocked]
      rfl

/-- A tick of a task is one of the session, and no task appears. -/
theorem enter_tick {p : SharedPlayback} {task : TickTask} (h : task ∈ p.tasks) :
    (p.enter (.tick task)).session = (p.session.tick task.token).2 ∧
      (p.enter (.tick task)).tasks ⊆ p.tasks := by
  rw [enter, if_pos h]
  refine ⟨rfl, ?_⟩
  change (if _ then p.tasks else p.tasks.erase task) ⊆ p.tasks
  split
  · exact List.Subset.refl _
  · exact List.erase_subset

/-- Who is no task makes no tick. -/
theorem enter_tick_of_not_mem {p : SharedPlayback} {task : TickTask} (h : task ∉ p.tasks) :
    p.enter (.tick task) = p := by
  rw [enter, if_neg h]

theorem session_enter_begin (p : SharedPlayback) :
    (p.enter .begin).session = p.session.beginRun.2 := by
  have hlocked : (p.broadcast.locked Session.beginRun).2.session = p.session.beginRun.2 := rfl
  rw [← hlocked, enter]
  split
  all_goals
    next heq =>
      rw [heq]
      rfl

/-- **Every section takes one of the three turns.** -/
theorem turn_enter (p : SharedPlayback) (sec : Section) :
    ∃ token?, Execution.Turn p.session.execution (p.enter sec).session.execution token? := by
  cases sec with
  | perform action => exact turn_perform p.session action
  | step => exact ⟨none, Execution.turn_step _ _ _⟩
  | begin =>
    rw [session_enter_begin]
    exact ⟨_, Execution.turn_beginRun _ _⟩
  | stop => exact ⟨none, Execution.turn_endRun _⟩
  | reset => exact ⟨none, Execution.turn_reset _⟩
  | tick task =>
    refine ⟨none, ?_⟩
    by_cases htask : task ∈ p.tasks
    · rw [(enter_tick htask).1]
      exact Execution.turn_tick _ _ _ _
    · rw [enter_tick_of_not_mem htask]
      exact Execution.turn_refl _

/-- The generation grows by one at most with each section. -/
theorem generation_after_le (p : SharedPlayback) (sections : List Section) :
    (p.after sections).session.execution.generation ≤
      p.session.execution.generation + sections.length := by
  induction sections generalizing p with
  | nil => exact Nat.le_refl _
  | cons sec sections ih =>
    obtain ⟨token?, hturn⟩ := turn_enter p sec
    calc ((p.enter sec).after sections).session.execution.generation
        ≤ (p.enter sec).session.execution.generation + sections.length := ih (p.enter sec)
      _ ≤ p.session.execution.generation + 1 + sections.length :=
          Nat.add_le_add_right hturn.generation_le _
      _ = p.session.execution.generation + (sec :: sections).length := by
          rw [List.length_cons]; omega

/-! ### The events tell which task is current -/

/-- **The events tell which task is current.** Tokens do not lie above the generation, and a task
whose token is current is the one that the events point to. -/
structure Tracks (p : SharedPlayback) (live : Option TickTask) : Prop where
  bounded : ∀ task ∈ p.tasks, task.token.generation ≤ p.session.execution.generation
  current : ∀ task ∈ p.tasks, p.session.execution.isCurrent task.token = true → live = some task

theorem tracks_start (session : Session) : Tracks (start session) none :=
  ⟨fun _ h => absurd h List.not_mem_nil, fun _ h => absurd h List.not_mem_nil⟩

/-- A section that spawns no task and leaves no run that it has not noted goes on telling which task
is current. -/
theorem Tracks.of_turn {p p' : SharedPlayback} {live : Option TickTask} {token? : Option Token}
    {e : Event} (h : Tracks p live) (htasks : p'.tasks ⊆ p.tasks)
    (hturn : Execution.Turn p.session.execution p'.session.execution token?)
    (hevent : e = .quiet ∨ p'.session.cursor.running = false) : Tracks p' (e.next live) := by
  refine ⟨fun task htask => ?_, fun task htask hcurrent => ?_⟩
  · have hle := h.bounded task (htasks htask)
    cases hturn with
    | keeps hgeneration => omega
    | ends hgeneration => omega
    | starts _ hgeneration => omega
  · rcases hevent with rfl | hrunning
    · refine h.current task (htasks htask) ?_
      -- a token that is not current before the section is not current after it either
      by_contra hover
      have hretired : Execution.Retired p.session.execution task.token :=
        ⟨h.bounded task (htasks htask), Bool.eq_false_iff.mpr hover⟩
      have hover' := (hretired.turn hturn).not_current
      rw [hcurrent] at hover'
      exact nomatch hover'
    · rw [Execution.isCurrent_of_not_running hrunning] at hcurrent
      exact nomatch hcurrent

/-- **A section goes on telling which task is current.** -/
theorem Tracks.enter {p : SharedPlayback} {live : Option TickTask} (h : Tracks p live)
    (sec : Section) : Tracks (p.enter sec) ((p.event sec).next live) := by
  obtain ⟨token?, hturn⟩ := turn_enter p sec
  cases sec with
  | perform action =>
    exact h.of_turn (List.Subset.refl _) hturn (quiet_or_of_perform p.session action)
  | step => exact h.of_turn (List.Subset.refl _) hturn (quiet_or_of_step _ _ _)
  | begin =>
    rcases enter_begin_cases p with
      ⟨hevent, htasks, hsession⟩ | ⟨task, hevent, htasks, htoken, hgen⟩
    · rw [hevent]
      refine ⟨?_, ?_⟩
      · rw [htasks, hsession]
        exact h.bounded
      · rw [htasks, hsession]
        exact h.current
    · rw [hevent]
      refine ⟨fun other hother => ?_, fun other hother hcurrent => ?_⟩
      all_goals
        rw [htasks] at hother
        rcases List.mem_append.mp hother with hold | hnew
      · have hle := h.bounded other hold
        omega
      · rw [List.mem_singleton.mp hnew]
        omega
      · -- the tokens of all tasks before lie below the new generation
        have hle := h.bounded other hold
        obtain ⟨-, heq⟩ := Execution.isCurrent_iff.mp hcurrent
        omega
      · rw [List.mem_singleton.mp hnew]
        rfl
  | stop => exact h.of_turn (List.Subset.refl _) hturn (Or.inr rfl)
  | reset => exact h.of_turn (List.Subset.refl _) hturn (Or.inr rfl)
  | tick task =>
    by_cases htask : task ∈ p.tasks
    · obtain ⟨hsession, htasks⟩ := enter_tick htask
      have hevent : p.event (.tick task) = .ofTick (p.session.tick task.token).1 := if_pos htask
      refine h.of_turn htasks hturn ?_
      rw [hevent, hsession]
      exact quiet_or_of_tick _ _ _ _
    · have hevent : p.event (.tick task) = .quiet := if_neg htask
      rw [hevent, enter_tick_of_not_mem htask]
      exact h

/-- **After any sections the events tell which task is current.** -/
theorem Tracks.after {p : SharedPlayback} {live : Option TickTask} (h : Tracks p live)
    (sections : List Section) :
    Tracks (p.after sections) ((p.events sections).foldl Event.next live) := by
  induction sections generalizing p live with
  | nil => exact h
  | cons sec sections ih => exact ih (h.enter sec)

/-- **A tick that changes the session** is one of the task that the events point to. -/
theorem Tracks.live_of_tick {p : SharedPlayback} {live : Option TickTask} {task : TickTask}
    (h : Tracks p live) (hchanges : (p.enter (.tick task)).session ≠ p.session) :
    live = some task := by
  by_cases htask : task ∈ p.tasks
  · refine h.current task htask ?_
    by_contra hover
    refine hchanges ?_
    rw [(enter_tick htask).1, Session.tick, Session.execute,
      Execution.tick_of_not_isCurrent (Bool.eq_false_iff.mpr hover)]
  · exact absurd (by rw [enter_tick_of_not_mem htask]) hchanges

/-! ### The cursor that is published -/

/-- What is published is the cursor, after every section. -/
theorem published_enter {p : SharedPlayback} (h : p.broadcast.published = p.session.cursor)
    (sec : Section) : (p.enter sec).broadcast.published = (p.enter sec).session.cursor := by
  cases sec with
  | begin =>
    have hlocked := p.broadcast.published_locked Session.beginRun
    rw [enter]
    split
    all_goals
      next heq =>
        rw [heq] at hlocked
        exact hlocked
  | tick task =>
    rw [enter]
    split
    · exact p.broadcast.published_locked fun s => s.tick task.token
    · exact h
  | perform action => exact p.broadcast.published_locked fun s => s.perform action
  | step => exact p.broadcast.published_locked Session.step
  | stop => exact p.broadcast.published_locked Session.endRun
  | reset => exact p.broadcast.published_locked fun s => ((), s.reset)

theorem published_after {p : SharedPlayback} (h : p.broadcast.published = p.session.cursor)
    (sections : List Section) :
    (p.after sections).broadcast.published = (p.after sections).session.cursor := by
  induction sections generalizing p with
  | nil => exact h
  | cons sec sections ih => exact ih (published_enter h sec)

/-! ### Only the latest start moves the cursor -/

/-- **Only the latest start moves the cursor.** After any sections, in any order, what is published
is the cursor. A tick changes the session only if its task was spawned by the latest start, and
since then the run was not stopped or reset, has not halted and has not lost its node. So no two
tasks can both do so, and none can after a stop or a reset until a run is started. The generation
has grown by no more than the number of sections, so as long as both together stay below `2 ^ 64` it
fits into 64 bits. -/
theorem tick_of_latest_start (session : Session) (sections : List Section) :
    let p := (start session).after sections
    let events := (start session).events sections
    p.session.execution.generation ≤ session.execution.generation + sections.length ∧
      p.broadcast.published = p.session.cursor ∧
      (∀ task, (p.enter (.tick task)).session ≠ p.session →
        ∃ earlier later, events = earlier ++ .started task :: later ∧ ∀ e ∈ later, e = .quiet) ∧
      (∀ task other, (p.enter (.tick task)).session ≠ p.session →
        (p.enter (.tick other)).session ≠ p.session → task = other) ∧
      ∀ earlier e later, events = earlier ++ e :: later → e = .stopped ∨ e = .reset →
        (∀ task, .started task ∉ later) →
          ∀ task, (p.enter (.tick task)).session = p.session := by
  intro p events
  have htracks : Tracks p (live events) := (tracks_start session).after sections
  refine ⟨generation_after_le (start session) sections, published_after rfl sections, ?_, ?_, ?_⟩
  · intro task hchanges
    exact live_eq_some_iff.mp (htracks.live_of_tick hchanges)
  · intro task other hchanges hchanges'
    exact Option.some.inj
      ((htracks.live_of_tick hchanges).symm.trans (htracks.live_of_tick hchanges'))
  · intro earlier e later hevents he hlater task
    by_contra hchanges
    have hlive := htracks.live_of_tick hchanges
    rw [hevents, live_eq_none he hlater] at hlive
    exact nomatch hlive

/-- The run is stopped and started again on the first of two nodes: the first task is still there,
but the second one is the one whose ticks count. -/
theorem tick_of_latest_start_restarted :
    let g : Graph := ⟨[⟨1, ⟨0, 0⟩, .circle, none, .none⟩, ⟨2, ⟨0, 0⟩, .circle, none, .none⟩],
      [⟨1, 2, none⟩], 3⟩
    let p := start (.start g .default "")
    let first : TickTask := ⟨0, ⟨1⟩⟩
    let second : TickTask := ⟨1, ⟨3⟩⟩
    let stopped := p.after [.begin, .stop]
    let restarted := p.after [.begin, .stop, .begin]
    restarted.tasks = [first, second] ∧
      (stopped.enter (.tick first)).session = stopped.session ∧
      (restarted.enter (.tick second)).session ≠ restarted.session ∧
      ∃ earlier later, p.events [.begin, .stop, .begin] = earlier ++ .started second :: later ∧
        ∀ e ∈ later, e = .quiet := by
  intro g p first second stopped restarted
  have hchanges : (restarted.enter (.tick second)).session ≠ restarted.session := by
    intro h
    have hcurrent := congrArg (fun s : Session => s.cursor.current) h
    exact absurd hcurrent (by decide)
  exact ⟨by decide,
    (tick_of_latest_start _ [.begin, .stop]).2.2.2.2 [.started first] .stopped [] rfl (Or.inl rfl)
      (fun _ => List.not_mem_nil) first,
    hchanges, (tick_of_latest_start _ [.begin, .stop, .begin]).2.2.1 second hchanges⟩

end SharedPlayback

end Flowchart
