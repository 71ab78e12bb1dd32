import Flowchart.Graph.Basic

/-!
# Documents

A document is what a flowchart is saved as: a version, the nodes, the arrows, and optionally the
code that was generated for it. A document can hold nodes and arrows that make no flowchart, so it
is checked when it is opened: the version has to be the one known here, every id has to be small
enough and used once, and every arrow has to lead between nodes of the document. The first thing
that is wrong is reported.
-/

namespace Flowchart

/-- A saved flowchart. -/
structure Document where
  version : String
  nodes : List Node
  edges : List Edge
  generatedCode : Option String
  deriving DecidableEq

namespace Document

/-- The version of the documents that are read and written here. -/
def currentVersion : String := "1.0"

/-- The largest id that a document may contain. -/
def maxNodeId : NodeId := 9007199254740991

/-- What is wrong with a document. -/
inductive Error where
  | unsupportedVersion (version : String)
  | duplicateNodeId (id : NodeId)
  | danglingEdge (source target : NodeId)
  | nodeIdOutOfRange (id : NodeId)
  deriving DecidableEq

/-- The message of an error. -/
def Error.message : Error → String
  | unsupportedVersion version => s!"Unsupported flowchart document version '{version}'"
  | duplicateNodeId id => s!"Node id {id.toNat} appears more than once in the document"
  | danglingEdge source target =>
    s!"Edge {source.toNat} -> {target.toNat} references a node that is not in the document"
  | nodeIdOutOfRange id =>
    s!"Node id {id.toNat} exceeds the largest supported id {maxNodeId.toNat}"

/-- The document of a graph, without code. -/
def ofGraph (g : Graph) : Document :=
  ⟨currentVersion, g.nodes, g.edges, none⟩

/-- Checks ids one after the other, given those before them. -/
def checkIds (seen : List NodeId) : List NodeId → Except Error Unit
  | [] => .ok ()
  | id :: ids =>
    if maxNodeId < id then .error (.nodeIdOutOfRange id)
    else if id ∈ seen then .error (.duplicateNodeId id)
    else checkIds (id :: seen) ids

/-- Checks that the arrows lead between the given ids. -/
def checkEdges (ids : List NodeId) (edges : List Edge) : Except Error Unit :=
  match edges.find? fun edge => !(ids.contains edge.source && ids.contains edge.target) with
  | some edge => .error (.danglingEdge edge.source edge.target)
  | none => .ok ()

/-- **The graph of a document**, or the first thing that is wrong with it. -/
def toGraph (d : Document) : Except Error Graph := do
  if d.version ≠ currentVersion then throw (.unsupportedVersion d.version)
  let ids := d.nodes.map Node.id
  checkIds [] ids
  checkEdges ids d.edges
  return .ofParts d.nodes d.edges

end Document

end Flowchart
