import Flowchart.Graph.Basic

/-!
# Generating code

The code of a flowchart is a row of lines, each of them a statement at some depth. Two statements
open a block, one stands between the two branches of a condition, one closes a block, and all the
others are plain. A line is written with two spaces for each level of its depth.

The code starts at the first node and follows the arrows depth first. A circle is a loop over what
is behind it, a square a condition whose branches start with its arrows labeled `true` and `false`;
both do so only if they have a label. All other shapes are statements, and what is behind them
follows at the same depth. Each node is written once, where it is first reached.

What is still to be done stands on a stack of steps, the next one on top: nodes to visit, and lines
that close what was opened. A visit writes the lines that open its node and puts the steps that
follow it on the stack. The walk ends because a visit either takes a node that was not visited
before, or only takes a step off the stack.

The walk keeps apart what it writes for which node: its result is a row of pieces, from which both
the lines of the code and the nodes in the order of their visits can be read off.
-/

namespace Flowchart.Code

/-! ### Statements -/

/-- A statement. -/
inductive Statement where
  | plain (text : String)
  /-- Opens a loop. -/
  | openWhile (condition : String)
  /-- Opens the first branch of a condition. -/
  | openIf (condition : String)
  /-- Ends the first branch of a condition and opens the second one. -/
  | otherwise
  /-- Closes a block. -/
  | close
  deriving DecidableEq, Repr

/-- The text of a statement. -/
def Statement.text : Statement → String
  | plain text => text
  | openWhile condition => "while " ++ condition ++ " \x7b"
  | openIf condition => "if " ++ condition ++ " \x7b"
  | otherwise => "\x7d else \x7b"
  | close => "\x7d"

/-- A statement at a depth. -/
structure Line where
  depth : Nat
  statement : Statement
  deriving DecidableEq, Repr

/-- The text of a line. -/
def Line.text (line : Line) : String :=
  String.ofList (List.replicate (2 * line.depth) ' ') ++ line.statement.text

/-! ### Steps and emissions -/

/-- Something still to be done. -/
inductive Step where
  | visit (id : NodeId) (depth : Nat)
  | line (line : Line)
  deriving DecidableEq

/-- What a node contributes: the lines that open it and the steps that follow. -/
structure Emission where
  lines : List Line
  follow : List Step
  deriving DecidableEq

/-- The label of a node, unless it is empty. -/
def labelOf? (node : Node) : Option String :=
  node.label.filter (· ≠ "")

/-- Visits of everything behind a node. -/
def visitAll (g : Graph) (id : NodeId) (depth : Nat) : List Step :=
  (g.outgoing id).map fun (edge, _) => .visit edge.target depth

/-- Where the first arrow with a given label leads. -/
def branch? (g : Graph) (id : NodeId) (word : String) : Option NodeId :=
  ((g.outgoing id).find? (·.1.isLabeled word)).map (·.1.target)

/-- A loop over everything behind a node. -/
def emitLoop (g : Graph) (id : NodeId) (depth : Nat) (label? : Option String) : Emission :=
  let title : Line := ⟨depth, .plain ("# Loop node: " ++ label?.getD "loop")⟩
  match label? with
  | none => ⟨[title], []⟩
  | some condition =>
    ⟨[title, ⟨depth, .openWhile condition⟩],
      visitAll g id (depth + 1) ++ [.line ⟨depth, .close⟩]⟩

/-- A condition whose branches start with the arrows labeled `true` and `false`. -/
def emitCondition (g : Graph) (id : NodeId) (depth : Nat) (label? : Option String) : Emission :=
  let title : Line := ⟨depth, .plain "# Conditional node"⟩
  match label? with
  | none => ⟨[title], []⟩
  | some condition =>
    let first := match branch? g id "true" with
      | some target => [.visit target (depth + 1)]
      | none => []
    let second := match branch? g id "false" with
      | some target => [.line ⟨depth, .otherwise⟩, .visit target (depth + 1)]
      | none => []
    ⟨[title, ⟨depth, .openIf condition⟩], first ++ second ++ [.line ⟨depth, .close⟩]⟩

/-- A statement with a title, and everything behind a node at the same depth. -/
def emitStatement (g : Graph) (id : NodeId) (depth : Nat) (title : String)
    (body? : Option String) : Emission :=
  { lines := ⟨depth, .plain title⟩ :: body?.toList.map fun body => ⟨depth, .plain body⟩
    follow := visitAll g id depth }

/-- **What a node contributes** at a depth. -/
def emit (g : Graph) (node : Node) (depth : Nat) : Emission :=
  let label? := labelOf? node
  match node.shape with
  | .circle => emitLoop g node.id depth label?
  | .square => emitCondition g node.id depth label?
  | .triangle =>
    emitStatement g node.id depth ("# Function: " ++ label?.getD "function")
      (label?.map fun name => "print \"" ++ name ++ "\"")
  | .diamond => emitStatement g node.id depth "# Decision/Assignment" label?
  | .parallelogram =>
    emitStatement g node.id depth "# Input/Output" (label?.map ("print " ++ ·))
  | .hexagon => ⟨[], visitAll g node.id depth⟩

/-! ### The walk -/

/-- The nodes that were not visited yet. -/
def unvisited (g : Graph) (visited : List NodeId) : List Node :=
  g.nodes.filter fun node => !visited.contains node.id

/-- A visit of a node of the graph that was not visited before leaves fewer of them. -/
theorem length_unvisited_lt {g : Graph} {visited : List NodeId} {id : NodeId} {node : Node}
    (hnew : id ∉ visited) (hnode : g.node? id = some node) :
    (unvisited g (id :: visited)).length < (unvisited g visited).length := by
  have hid : node.id = id := by simpa using List.find?_some hnode
  have hmem : node ∈ g.nodes := List.mem_of_find?_eq_some hnode
  have hsplit : unvisited g (id :: visited) =
      (unvisited g visited).filter fun node => node.id ≠ id := by
    simp only [unvisited, List.filter_filter]
    congr 1
    funext n
    simp
  rw [hsplit]
  refine List.length_filter_lt_length_iff_exists.2 ⟨node, ?_, ?_⟩
  · simp [unvisited, hmem, hid, hnew]
  · simp [hid]

/-- A piece of the code. -/
inductive Piece where
  /-- The lines that open a node. -/
  | node (id : NodeId) (lines : List Line)
  /-- A line that follows what a node opened. -/
  | line (line : Line)
  deriving DecidableEq

namespace Piece

/-- The lines of a piece. -/
def lines : Piece → List Line
  | .node _ lines => lines
  | .line l => [l]

/-- The node that a piece opens. -/
def node? : Piece → Option NodeId
  | .node id _ => some id
  | .line _ => none

end Piece

/-- **The pieces of a walk**, given the nodes that were visited and the steps still to be done. -/
def walk (g : Graph) (visited : List NodeId) : List Step → List Piece
  | [] => []
  | .line line :: steps => .line line :: walk g visited steps
  | .visit id depth :: steps =>
    -- another arrow into a node that is written already
    if _hnew : id ∈ visited then walk g visited steps
    else
      match _hnode : g.node? id with
      | none => walk g visited steps
      | some node =>
        let emission := emit g node depth
        .node id emission.lines :: walk g (id :: visited) (emission.follow ++ steps)
termination_by steps => ((unvisited g visited).length, steps.length)
decreasing_by
  · exact Prod.Lex.right _ (by simp)
  · exact Prod.Lex.right _ (by simp)
  · exact Prod.Lex.right _ (by simp)
  · exact Prod.Lex.left _ _ (length_unvisited_lt _hnew _hnode)

/-! ### The text -/

/-- The name in the specification of a port: what stands before the first colon, trimmed. -/
def nameIn (spec : String) : String :=
  Text.trim (String.ofList (spec.toList.takeWhile (· ≠ ':')))

/-- **The names that the code declares**: those in the specifications of all inputs, each once. -/
def declaredNames (g : Graph) : List String :=
  ((g.nodes.flatMap fun node => node.details.inputs).map nameIn).filter (· ≠ "") |>.eraseDups

/-- The line that declares a name. -/
def declaration (name : String) : String :=
  "let " ++ name ++ " = 0"

/-- The lines in front of the statements. -/
def header (g : Graph) : List String :=
  ["# Auto-generated from flowchart", "", "# Variable initialization"] ++
    (declaredNames g).map declaration ++ [""]

/-- The pieces of the code of a flowchart, from its first node on. -/
def pieces (g : Graph) : List Piece :=
  match g.first? with
  | some first => walk g [] [.visit first.id 0]
  | none => []

/-- **The nodes that are written**, in the order of their visits. -/
def writtenNodes (g : Graph) : List NodeId :=
  (pieces g).filterMap Piece.node?

/-- The lines behind the header. -/
def body (g : Graph) : List Line :=
  (pieces g).flatMap Piece.lines

/-- **The code of a flowchart.** -/
def generate (g : Graph) : String :=
  if g.isEmpty then "# No flowchart nodes defined"
  else "\n".intercalate (header g ++ (body g).map Line.text)

end Flowchart.Code
