import Flowchart.Text.Basic

/-!
# Flowcharts

A flowchart is a row of nodes and a row of arrows between them. The order of both matters: the first
node is where execution starts, and of several arrows that fit the first one is followed.

A node is known by its id. The ids are handed out in increasing order by the graph, which remembers
the next one, so that the id of a node that is gone is not used again.

The label of a node is its predicate, once the blanks around it are taken off. The label of an arrow
is compared with the words `true` and `false` without regard to case.

The details of a node specify its ports. A port is specified by a text `name` or `name:type`. Blanks
around either part do not count, an empty type is no type, and what follows a second colon is passed
over. A list of specifications may be typed with commas between them.
-/

namespace Flowchart

/-- What a node is known by. -/
abbrev NodeId := UInt64

/-- A place on the canvas. -/
structure Position where
  x : Float
  y : Float
  deriving DecidableEq

/-! ### Nodes -/

/-- The shape of a node. -/
inductive Shape where
  | circle
  | square
  | triangle
  | diamond
  | hexagon
  | parallelogram
  deriving DecidableEq, Repr

namespace Shape

/-- The name of a shape. -/
def name : Shape → String
  | circle => "circle"
  | square => "square"
  | triangle => "triangle"
  | diamond => "diamond"
  | hexagon => "hexagon"
  | parallelogram => "parallelogram"

/-- All shapes. -/
def all : List Shape :=
  [circle, square, triangle, diamond, hexagon, parallelogram]

/-- The shape with a given name. -/
def ofName? (name : String) : Option Shape :=
  all.find? (·.name = name)

theorem ofName?_name (shape : Shape) : ofName? shape.name = some shape := by
  cases shape <;> decide

end Shape

/-- What is said about a node besides its label: a role, a group, and the specifications of its
input and output ports. -/
structure Details where
  role : Option String
  group : Option String
  inputs : List String
  outputs : List String
  deriving DecidableEq

namespace Details

/-- Nothing said. -/
def none : Details := ⟨.none, .none, [], []⟩

/-- Whether nothing is said. -/
def isNone (d : Details) : Bool :=
  d.role.isNone && d.group.isNone && d.inputs.isEmpty && d.outputs.isEmpty

/-- A change of some of the details. -/
structure Change where
  role : Option String
  group : Option String
  inputs : Option (List String)
  outputs : Option (List String)
  deriving DecidableEq

/-- The details after a change: what the change names is replaced, and the rest is kept. -/
def change (d : Details) (c : Change) : Details where
  role := c.role <|> d.role
  group := c.group <|> d.group
  inputs := c.inputs.getD d.inputs
  outputs := c.outputs.getD d.outputs

end Details

/-- A node of a flowchart. -/
structure Node where
  id : NodeId
  position : Position
  shape : Shape
  label : Option String
  details : Details
  deriving DecidableEq

/-- **The predicate of a node**: its label without the blanks around it, unless nothing is left. -/
def Node.predicate? (node : Node) : Option String :=
  (node.label.map Text.trim).filter (· ≠ "")

/-! ### Ports -/

/-- A port of a node. -/
structure Port where
  name : String
  type? : Option String
  deriving DecidableEq

namespace Port

/-- The parts of a text between occurrences of a separator, trimmed. -/
def partsOf (separator : Char) (text : String) : List String :=
  (text.toList.splitOn separator).map fun part => String.ofList (Text.trimChars part)

/-- **The port that a text specifies.** -/
def ofText (spec : String) : Port :=
  match partsOf ':' spec with
  | name :: type :: _ => ⟨name, if type = "" then none else some type⟩
  | name :: [] => ⟨name, none⟩
  | [] => ⟨"", none⟩

/-- **The specifications in a list** with commas between them; those that are blank are left out. -/
def listOf (text : String) : List String :=
  (partsOf ',' text).filter (· ≠ "")

end Port

/-! ### Arrows -/

/-- An arrow from one node to another. -/
structure Edge where
  source : NodeId
  target : NodeId
  label : Option String
  deriving DecidableEq

namespace Edge

/-- Whether the arrow has no label, or an empty one. -/
def isUnlabeled (edge : Edge) : Bool :=
  edge.label.getD "" = ""

/-- **Whether the label is the given word**, up to the case of ASCII letters; no label counts as
the empty one. -/
def isLabeled (edge : Edge) (word : String) : Bool :=
  Text.equalsIgnoringCase (edge.label.getD "") word

/-- Whether a node is one of the two ends. -/
def touches (edge : Edge) (id : NodeId) : Bool :=
  edge.source = id || edge.target = id

end Edge

/-! ### Graphs -/

/-- A flowchart with the id that the next node will get. -/
structure Graph where
  nodes : List Node
  edges : List Edge
  nextId : NodeId
  deriving DecidableEq

/-- The id behind a given one; the largest one is followed by itself. -/
def NodeId.succ (id : NodeId) : NodeId :=
  if id = UInt64.ofNat (UInt64.size - 1) then id else id + 1

namespace Graph

/-- The graph without nodes; its first node will have the id `1`. -/
def empty : Graph := ⟨[], [], 1⟩

instance : Inhabited Graph := ⟨empty⟩

/-- The graph with the given nodes and arrows, where the next id is the one behind the largest
id. -/
def ofParts (nodes : List Node) (edges : List Edge) : Graph where
  nodes
  edges
  nextId := match (nodes.map Node.id).max? with
    | some largest => largest.succ
    | none => 1

/-- The node with a given id. -/
def node? (g : Graph) (id : NodeId) : Option Node :=
  g.nodes.find? (·.id = id)

/-- Whether there is a node with the given id. -/
def contains (g : Graph) (id : NodeId) : Bool :=
  g.nodes.any (·.id = id)

theorem contains_iff {g : Graph} {id : NodeId} :
    g.contains id = true ↔ ∃ node ∈ g.nodes, node.id = id := by
  simp [contains]

theorem id_of_node?_eq_some {g : Graph} {id : NodeId} {node : Node} (h : g.node? id = some node) :
    node.id = id := by
  simpa using List.find?_some h

theorem isSome_node? (g : Graph) (id : NodeId) : (g.node? id).isSome = g.contains id := by
  rw [Bool.eq_iff_iff, node?, List.find?_isSome, contains_iff]
  simp

/-- **The node where execution starts.** -/
def first? (g : Graph) : Option Node :=
  g.nodes.head?

/-- Whether there are no nodes. -/
def isEmpty (g : Graph) : Bool :=
  g.nodes.isEmpty

/-- **The arrows that leave a node**, each with its place in the row of all arrows. -/
def outgoing (g : Graph) (id : NodeId) : List (Edge × Nat) :=
  g.edges.zipIdx.filter (·.1.source = id)

/-- **What leaves a node**: the arrows with that source, each at its place. -/
theorem mem_outgoing_iff {g : Graph} {id : NodeId} {edge : Edge} {index : Nat} :
    (edge, index) ∈ g.outgoing id ↔ g.edges[index]? = some edge ∧ edge.source = id := by
  simp [outgoing, List.mem_zipIdx_iff_getElem?]

/-- Whether there is an arrow between two nodes with exactly the given label. -/
def hasEdge (g : Graph) (source target : NodeId) (label : String) : Bool :=
  g.edges.any fun edge => edge = ⟨source, target, some label⟩

end Graph

end Flowchart
