import Flowchart.Code.Generator
import Flowchart.Config
import Flowchart.Document.Basic
import Flowchart.Graph.Edit
import Flowchart.Graph.Group
import Flowchart.Run.Execution
import Flowchart.Wiring.Board

/-!
# Sessions

A session is one person's work on a flowchart: the graph, an execution on it, the board of
suggestions, the context as a text, the configuration, and the node that is selected.

These parts refer to each other. The execution stands on a node, a suggestion joins two nodes, and
a node is selected; so when a node is deleted, the execution goes back to idle if it stood there,
the suggestions that touch the node are dropped, and the selection is given up. The other operations
act on one part each, and `Session.perform` collects them all.
-/

namespace Flowchart

/-- A session. -/
structure Session where
  graph : Graph
  execution : Run.Execution
  board : Wiring.Board
  contextText : String
  config : Config
  selected : Option NodeId
  deriving DecidableEq

namespace Session

/-- The session that begins with a graph: idle, without suggestions, and with nothing selected. -/
def start (graph : Graph) (config : Config) (contextText : String) : Session where
  graph
  execution := .initial
  board := .empty
  contextText
  config
  selected := none

/-- The cursor of the execution. -/
def cursor (s : Session) : Run.Cursor :=
  s.execution.cursor

/-- The context, read anew from its text. -/
def context (s : Session) : Predicate.Context :=
  .ofText s.contextText

/-! ### Editing -/

/-- Edits the graph. -/
def edit (s : Session) (edit : Graph.Edit) : Except Graph.Error (Graph.Edit.Reply × Session) := do
  let (reply, graph) ← s.graph.edit edit
  return (reply, { s with graph })

/-- **Deletes a node** and the arrows that touch it, and sets right whatever refers to the node. -/
def deleteNode (s : Session) (id : NodeId) : Except Graph.Error (Graph.Removed × Session) := do
  let (removed, graph) ← s.graph.removeNode id
  return (removed,
    { s with
      graph
      execution := s.execution.nodeRemoved id
      board := s.board.forget id
      selected := if s.selected = some id then none else s.selected })

/-- Selects a node, or gives the selection up. -/
def select (s : Session) : Option NodeId → Except Graph.Error Session
  | none => .ok { s with selected := none }
  | some id =>
    if s.graph.contains id then .ok { s with selected := some id } else .error (.nodeNotFound id)

/-- Replaces the text of the context. -/
def setContext (s : Session) (text : String) : Session :=
  { s with contextText := text }

/-! ### Execution -/

/-- The arrows to consider behind the selected node, or behind the current one if none is
selected. -/
def candidates (s : Session) : List Run.Candidate :=
  match s.selected <|> s.cursor.current with
  | some id => Run.candidates s.graph id s.context
  | none => []

/-- Carries out a change of the execution. -/
def execute {α : Type} (s : Session) (change : Run.Execution → α × Run.Execution) : α × Session :=
  let (reply, execution) := change s.execution
  (reply, { s with execution })

/-- One step. -/
def step (s : Session) : Run.Outcome × Session :=
  s.execute fun e => e.step s.graph s.context

/-- Back to idle. -/
def reset (s : Session) : Session :=
  { s with execution := s.execution.reset }

/-- Starts a run. -/
def beginRun (s : Session) : Option Run.Token × Session :=
  s.execute fun e => e.beginRun s.graph

/-- Ends the run. -/
def endRun (s : Session) : Bool × Session :=
  s.execute fun e => e.endRun

/-- A tick of the run with a given token. -/
def tick (s : Session) (token : Run.Token) : Option Run.Outcome × Session :=
  s.execute fun e => e.tick token s.graph s.context

/-! ### Suggestions -/

/-- Scans for suggestions with given options. -/
def suggest (s : Session) (options : Wiring.Options) : Session :=
  { s with board := s.board.compute s.graph options }

/-- Turns the selection of a suggestion around. -/
def toggle (s : Session) (id : Wiring.SuggestionId) : Option Bool × Session :=
  let (reply, board) := s.board.toggle id
  (reply, { s with board })

/-- Adds the arrow of a suggestion to a graph, unless it is there already or impossible. -/
def addSuggested (g : Graph) (edge : Wiring.Match) : Graph :=
  if g.hasEdge edge.source edge.target edge.portName then g
  else match g.addEdge edge.source edge.target (some edge.portName) with
    | .ok (_, g) => g
    | .error _ => g

/-- **Adds the arrows of the suggestions that are meant**, takes them off the board, and returns how
many arrows were added. -/
def apply (s : Session) (scope : Wiring.Scope) : Nat × Session :=
  let (taken, board) := s.board.take scope
  let graph := (taken.map (·.edge)).foldl addSuggested s.graph
  (graph.edges.length - s.graph.edges.length, { s with graph, board })

/-- Drops all suggestions. -/
def clearSuggestions (s : Session) : Session :=
  { s with board := s.board.clear }

/-! ### Views -/

/-- The groups of the nodes. -/
def groups (s : Session) (grouping : Grouping) : List Group :=
  s.graph.groups grouping

/-- The generated code. -/
def code (s : Session) : String :=
  Code.generate s.graph

/-- **The document of a session**, with the generated code. -/
def toDocument (s : Session) : Document :=
  { Document.ofGraph s.graph with generatedCode := some s.code }

/-! ### Operations as data -/

/-- An operation on a session. -/
inductive Action where
  | edit (edit : Graph.Edit)
  | deleteNode (id : NodeId)
  | select (id? : Option NodeId)
  | setContext (text : String)
  | step
  | reset
  | beginRun
  | endRun
  | tick (token : Run.Token)
  | suggest (options : Wiring.Options)
  | toggle (id : Wiring.SuggestionId)
  | apply (scope : Wiring.Scope)
  | clearSuggestions
  deriving DecidableEq

/-- What an operation returns. -/
inductive Reply where
  | done
  | failed (error : Graph.Error)
  | edited (reply : Graph.Edit.Reply)
  | removed (removed : Graph.Removed)
  | stepped (outcome : Run.Outcome)
  | began (token? : Option Run.Token)
  | ended (wasRunning : Bool)
  | ticked (outcome? : Option Run.Outcome)
  | toggled (selected? : Option Bool)
  | applied (count : Nat)
  deriving DecidableEq

/-- A reply and the session after an operation that may fail; a failure changes nothing. -/
def attempt {α : Type} (s : Session) (reply : α → Reply)
    (result : Except Graph.Error (α × Session)) : Reply × Session :=
  match result with
  | .ok (value, s) => (reply value, s)
  | .error error => (.failed error, s)

/-- **Carries out an operation.** -/
def perform (s : Session) : Action → Reply × Session
  | .edit e => s.attempt .edited (s.edit e)
  | .deleteNode id => s.attempt .removed (s.deleteNode id)
  | .select id? => s.attempt (fun _ => .done) ((s.select id?).map fun s => ((), s))
  | .setContext text => (.done, s.setContext text)
  | .step => s.step.map .stepped id
  | .reset => (.done, s.reset)
  | .beginRun => s.beginRun.map .began id
  | .endRun => s.endRun.map .ended id
  | .tick token => (s.tick token).map .ticked id
  | .suggest options => (.done, s.suggest options)
  | .toggle id' => (s.toggle id').map .toggled id
  | .apply scope => (s.apply scope).map .applied id
  | .clearSuggestions => (.done, s.clearSuggestions)

/-- **An operation that fails leaves the session as it was.** -/
theorem perform_of_failed {s : Session} {action : Action} {error : Graph.Error}
    (h : (s.perform action).1 = .failed error) : (s.perform action).2 = s := by
  have hattempt : ∀ {α : Type} (reply : α → Reply) (result : Except Graph.Error (α × Session)),
      (∀ a, reply a ≠ .failed error) → (s.attempt reply result).1 = .failed error →
        (s.attempt reply result).2 = s := by
    intro α reply result hreply hfailed
    cases result with
    | error e => rfl
    | ok answer => exact absurd hfailed (hreply answer.1)
  cases action with
  | edit e => exact hattempt _ _ (by simp) h
  | deleteNode id => exact hattempt _ _ (by simp) h
  | select id? => exact hattempt _ _ (by simp) h
  | _ => simp [perform] at h

end Session

end Flowchart
