import Flowchart.Graph.Basic
import Flowchart.Number.Binary

/-!
# Groups of nodes

For an overview the nodes of a flowchart are put into groups. What puts two nodes into one group is
a key, and there are three ways to find it: by the group that is written down for the node, with the
words in its label and then its shape to fall back on; by the words in its label alone; or by its
shape alone.

The groups stand in the order in which their keys first occur, and the nodes of a group in the order
of the graph. Each group has a box around its nodes, with a margin on all sides.
-/

namespace Flowchart

/-- A way to put nodes into groups. -/
inductive Grouping where
  /-- By the group written down for a node, else by the words in its label, else by its shape. -/
  | group
  /-- By the words in the label. -/
  | label
  /-- By the shape. -/
  | shape
  deriving DecidableEq, Repr

namespace Grouping

/-- All ways to group, by name. -/
def named : List (String × Grouping) :=
  [("group", group), ("label", label), ("shape", shape)]

/-- The way to group with a given name. -/
def ofName? (name : String) : Option Grouping :=
  named.lookup name

/-- Whether a word occurs in a text. -/
def occurs (word : List Char) : List Char → Bool
  | [] => word.isEmpty
  | c :: rest => word.isPrefixOf (c :: rest) || occurs word rest

/-- The key that the words in a label give: they speak of loops, conditions or functions. -/
def keyOfLabel? (label : String) : Option String :=
  let text := Text.lowercase label.toList
  let speaksOf (word : String) : Bool := occurs word.toList text
  if speaksOf "loop" then some "loops"
  else if speaksOf "if" || speaksOf "cond" then some "conditionals"
  else if speaksOf "func" then some "functions"
  else none

/-- **The key of a node.** -/
def key (grouping : Grouping) (node : Node) : String :=
  let byLabel? := keyOfLabel? (node.label.getD "")
  match grouping with
  | group => ((node.details.group.filter (· ≠ "")) <|> byLabel?).getD node.shape.name
  | label => byLabel?.getD "ungrouped"
  | shape => node.shape.name

end Grouping

/-- A box with its sides along the axes: its corner, width and height. -/
structure Box where
  x : Float
  y : Float
  width : Float
  height : Float
  deriving DecidableEq

namespace Box

/-- The margin around the nodes of a group. -/
def margin : Float := 48

/-- The first of two doubles in the line of all doubles. -/
def lower (a b : Float) : Float :=
  if Number.before b a then b else a

/-- The last of two doubles in the line of all doubles. -/
def upper (a b : Float) : Float :=
  if Number.before a b then b else a

/-- The least and the greatest of some coordinates, and zero if there are none. -/
def range : List Float → Float × Float
  | [] => (0, 0)
  | x :: xs => (xs.foldl lower x, xs.foldl upper x)

/-- **The box around some places**, with the margin on all sides. -/
def around (places : List Position) : Box :=
  let (left, right) := range (places.map Position.x)
  let (top, bottom) := range (places.map Position.y)
  { x := left - margin
    y := top - margin
    width := (right - left) + 2 * margin
    height := (bottom - top) + 2 * margin }

end Box

/-- A group of nodes with a common key. -/
structure Group where
  key : String
  members : List NodeId
  box : Box
  deriving DecidableEq

/-- What a group is known by. -/
def Group.id (group : Group) : String :=
  "g-" ++ group.key

/-- Nodes that have turned out to have a common key, in the order in which they came. -/
structure Bucket where
  key : String
  members : List Node

namespace Bucket

/-- **Puts a node into the bucket with its key**, behind the nodes that are there. If there is no
such bucket yet, one is opened behind the others. -/
def put (key : String) (node : Node) : List Bucket → List Bucket
  | [] => [⟨key, [node]⟩]
  | bucket :: rest =>
    if bucket.key = key then { bucket with members := bucket.members ++ [node] } :: rest
    else bucket :: put key node rest

/-- The group of the nodes in a bucket. -/
def toGroup (bucket : Bucket) : Group where
  key := bucket.key
  members := bucket.members.map Node.id
  box := .around (bucket.members.map Node.position)

end Bucket

namespace Graph

/-- The nodes of a graph in buckets: one node after the other is put into the bucket with its
key. -/
def buckets (g : Graph) (grouping : Grouping) : List Bucket :=
  g.nodes.foldl (fun buckets node => Bucket.put (grouping.key node) node buckets) []

/-- **The groups of a graph.** -/
def groups (g : Graph) (grouping : Grouping) : List Group :=
  (g.buckets grouping).map Bucket.toGroup

end Graph

end Flowchart
