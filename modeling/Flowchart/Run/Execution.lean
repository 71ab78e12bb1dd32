import Flowchart.Graph.Basic
import Flowchart.Predicate.Trace

/-!
# Execution

An execution walks over a flowchart node by node. It is idle, or it stands on a node, and while it
stands on a node it may be running: then it is moved on by ticks.

A tick belongs to a run. Each run has a token, the number of the *generation* that it started.
Starting a run, ending one and going back to idle each begin a new generation, so a token is current
only from the start of its run to the end of it, and a tick that comes later has no effect.

Where execution goes on from a node is decided by the node's predicate. The first of these rules
that gives any arrow gives the arrows to consider, and the first of those is followed:

1. without a predicate, the first arrow that leaves the node;
2. the arrows labeled like the result of the predicate, `true` or `false`;
3. the arrows without a label;
4. the first arrow that leaves the node.

No arrow is left over only if none leaves the node.
-/

namespace Flowchart.Run

/-! ### Choosing an arrow -/

/-- Why an arrow is considered. -/
inductive Reason where
  /-- Its label is the result of the predicate. -/
  | matchesResult (result : Bool)
  /-- It has no label, and none is labeled like the result. -/
  | unlabeledFallback
  /-- It is the first one, and nothing else decides. -/
  | defaultPath
  deriving DecidableEq, Repr

/-- An arrow that is considered: its place, where it leads, and why. -/
structure Candidate where
  index : Nat
  target : NodeId
  reason : Reason
  deriving DecidableEq

/-- A candidate for each of some arrows. -/
def candidatesOf (reason : Reason) (edges : List (Edge × Nat)) : List Candidate :=
  edges.map fun (edge, index) => ⟨index, edge.target, reason⟩

/-- The first of two lists that is not empty. -/
def firstNonempty {α : Type} (xs ys : List α) : List α :=
  if xs.isEmpty then ys else xs

/-- The candidates among the arrows that leave a node with the given predicate. -/
def candidatesAmong (out : List (Edge × Nat)) (predicate? : Option String)
    (context : Predicate.Context) : List Candidate :=
  let byDefault := candidatesOf .defaultPath (out.take 1)
  match predicate? with
  | none => byDefault
  | some predicate =>
    let result := Predicate.holds predicate context
    let word := Predicate.Value.truthText result
    firstNonempty (candidatesOf (.matchesResult result) (out.filter (·.1.isLabeled word)))
      (firstNonempty (candidatesOf .unlabeledFallback (out.filter (·.1.isUnlabeled))) byDefault)

/-- **The arrows to consider behind a node**, the one that is followed first. -/
def candidates (g : Graph) (id : NodeId) (context : Predicate.Context) : List Candidate :=
  match g.node? id with
  | none => []
  | some node => candidatesAmong (g.outgoing id) node.predicate? context

/-- **The arrow that is followed from a node**, if one leaves it. -/
def choose? (g : Graph) (id : NodeId) (context : Predicate.Context) : Option Candidate :=
  (candidates g id context).head?

/-! ### Executions -/

/-- Where an execution stands, and whether it is running. -/
structure Cursor where
  current : Option NodeId
  running : Bool
  deriving DecidableEq

/-- The cursor of an idle execution. -/
def Cursor.idle : Cursor := ⟨none, false⟩

/-- The three states of an execution. -/
inductive State where
  | idle
  | positioned (id : NodeId)
  | running (id : NodeId)
  deriving DecidableEq

/-- The state that a cursor shows. -/
def Cursor.state : Cursor → State
  | ⟨none, _⟩ => .idle
  | ⟨some id, false⟩ => .positioned id
  | ⟨some id, true⟩ => .running id

/-- What a step did. -/
inductive Outcome where
  /-- It entered the first node. -/
  | entered (id : NodeId)
  /-- It followed an arrow. -/
  | advanced (source : NodeId) (chosen : Candidate)
  /-- It found no arrow to follow, and the execution is idle again. -/
  | halted (id : NodeId)
  /-- There is no node to enter. -/
  | emptyGraph
  deriving DecidableEq

/-- What a run is known by. -/
structure Token where
  /-- The generation that began with the run. -/
  generation : Nat
  deriving DecidableEq, Repr

/-- An execution: its cursor and its generation. -/
structure Execution where
  cursor : Cursor
  /-- How often a run was started or ended, or the execution went back to idle. It counts on without
  an end; 64 bits hold it for fewer than `2 ^ 64` operations, since none adds more than one. -/
  generation : Nat
  deriving DecidableEq

namespace Execution

/-- The execution that has done nothing yet. -/
def initial : Execution := ⟨.idle, 0⟩

instance : Inhabited Execution := ⟨initial⟩

/-- The state of an execution. -/
def state (e : Execution) : State :=
  e.cursor.state

/-- **Back to idle**, where no token is current. -/
def reset (e : Execution) : Execution :=
  ⟨.idle, e.generation + 1⟩

/-- The execution on another node. -/
def moveTo (e : Execution) (id : NodeId) : Execution :=
  { e with cursor := { e.cursor with current := some id } }

/-- **One step**: from idle onto the first node, from a node along the arrow that is chosen, and
back to idle where there is none. -/
def step (e : Execution) (g : Graph) (context : Predicate.Context) : Outcome × Execution :=
  match e.cursor.current with
  | none =>
    match g.first? with
    | some first => (.entered first.id, e.moveTo first.id)
    | none => (.emptyGraph, e)
  | some current =>
    match choose? g current context with
    | some chosen => (.advanced current chosen, e.moveTo chosen.target)
    | none => (.halted current, e.reset)

/-- **Starts a run**, on the first node if the execution is idle. It returns the token of the run,
unless one is in progress already or there is no node. -/
def beginRun (e : Execution) (g : Graph) : Option Token × Execution :=
  if e.cursor.running then (none, e)
  else match e.cursor.current <|> g.first?.map Node.id with
    | none => (none, e)
    | some id =>
      (some ⟨e.generation + 1⟩, { cursor := ⟨some id, true⟩, generation := e.generation + 1 })

/-- **Ends the run** where it is, and returns whether there was one. -/
def endRun (e : Execution) : Bool × Execution :=
  (e.cursor.running,
    { cursor := { e.cursor with running := false }, generation := e.generation + 1 })

/-- Whether a token belongs to the run in progress. -/
def isCurrent (e : Execution) (token : Token) : Bool :=
  e.cursor.running && e.generation = token.generation

theorem isCurrent_of_beginRun {e e' : Execution} {g : Graph} {token : Token}
    (h : e.beginRun g = (some token, e')) : e'.isCurrent token = true := by
  unfold beginRun at h
  split at h
  · simp at h
  · split at h
    · simp at h
    · obtain ⟨rfl, rfl⟩ := by simpa using h
      simp [isCurrent]

theorem isCurrent_reset (e : Execution) (token : Token) : e.reset.isCurrent token = false := rfl

theorem isCurrent_endRun (e : Execution) (token : Token) : e.endRun.2.isCurrent token = false := rfl

/-- **A tick**: a step, if the token belongs to the run in progress. -/
def tick (e : Execution) (token : Token) (g : Graph) (context : Predicate.Context) :
    Option Outcome × Execution :=
  if e.isCurrent token then
    let (outcome, e) := e.step g context
    (some outcome, e)
  else (none, e)

theorem tick_of_not_isCurrent {e : Execution} {token : Token} (h : e.isCurrent token = false)
    (g : Graph) (context : Predicate.Context) : e.tick token g context = (none, e) := by
  simp [tick, h]

/-- What becomes of the execution when a node is removed: it goes back to idle if it stood there. -/
def nodeRemoved (e : Execution) (id : NodeId) : Execution :=
  if e.cursor.current = some id then e.reset else e

end Execution

end Flowchart.Run
