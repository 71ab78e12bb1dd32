import Flowchart.Document.Basic
import Flowchart.Json.Reader

/-!
# The JSON form of documents

Each structure is an object with its fields in a fixed order. A field without content is left out:
a label, a role, a group or a code that is absent, an empty list of ports, details that say nothing.
The position of a node has no object of its own; its coordinates stand among the fields of the node.

Reading is more lenient than writing. Fields may come in any order, and the ones that may be left
out may be `null` where a text is expected. A field that is not known is passed over. Documents,
arrows and details may also be given as arrays of their fields (see `Flowchart.Json.Record`). A node
may not; and since its coordinates have to be looked for among its fields, all fields of a node that
are not its own are read in full.
-/

namespace Flowchart

open Json (Fields)

/-- An optional field, which is left out if there is nothing in it. -/
def Json.optionalField {α : Type} (name : String) (toJson : α → Json) : Option α → Fields
  | some value => [(name, toJson value)]
  | none => []

/-- A list field, which is left out if the list is empty. -/
def Json.listField {α : Type} (name : String) (toJson : α → Json) : List α → Fields
  | [] => []
  | values => [(name, .array (values.map toJson))]

/-- A field with a text that may be absent or `null`. -/
def Json.Fields.textOrNone? (fields : Fields) (name : String) : Option (Option String) :=
  fields.getD? name none Json.toTextOrNull?

/-! ### Shapes -/

namespace Shape

/-- A shape is written by its name. -/
def toJson (shape : Shape) : Json :=
  .ofText shape.name

/-- A shape is read from its name, or from an object whose only key is its name, with `null` as the
value. -/
def ofJson? : Json → Option Shape
  | .object [(key, .null)] => do ofName? (String.ofList (← Json.unescape? key))
  | json => json.toText?.bind ofName?

end Shape

/-! ### Details -/

namespace Details

/-- The JSON form of details. -/
def toJson (d : Details) : Json :=
  Json.ofFields <|
    Json.optionalField "role" Json.ofText d.role ++
    Json.optionalField "group" Json.ofText d.group ++
    Json.listField "inputs" Json.ofText d.inputs ++
    Json.listField "outputs" Json.ofText d.outputs

/-- The details that a JSON value describes. -/
def ofJson? (json : Json) : Option Details := do
  let fields ← json.record? ["role", "group", "inputs", "outputs"]
  return {
    role := ← fields.textOrNone? "role"
    group := ← fields.textOrNone? "group"
    inputs := ← fields.getD? "inputs" [] (Json.toList? Json.toText?)
    outputs := ← fields.getD? "outputs" [] (Json.toList? Json.toText?) }

end Details

/-! ### Nodes -/

namespace Node

/-- The JSON form of a node. -/
def toJson (node : Node) : Json :=
  Json.ofFields <|
    [("id", Json.ofNat node.id.toNat), ("x", Json.ofFloat node.position.x),
      ("y", Json.ofFloat node.position.y), ("type", node.shape.toJson)] ++
    Json.optionalField "label" Json.ofText node.label ++
    Json.optionalField "meta" Details.toJson (if node.details.isNone then none else node.details)

/-- The fields that are read on their own; the coordinates are looked for among the others. -/
def ownFields : List String := ["id", "type", "label", "meta"]

/-- How many brackets there are around the fields of a node: those of the document, of its list of
nodes, and of the node. -/
def bracketsAround : Nat := 3

/-- The node that a JSON object describes. -/
def ofJson? : Json → Option Node
  | .object members => do
    let fields ← Json.fieldsOf? members
    let others := fields.filter fun field => !ownFields.contains field.1
    if fields.distinct (ownFields ++ ["x", "y"]) &&
        others.all (fun field => field.2.readable bracketsAround) then
      return {
        id := ← fields.required? "id" Json.toWord?
        position := {
          x := ← fields.required? "x" Json.toFloat?
          y := ← fields.required? "y" Json.toFloat? }
        shape := ← fields.getD? "type" .circle Shape.ofJson?
        label := ← fields.textOrNone? "label"
        details := ← fields.getD? "meta" .none Details.ofJson? }
    else none
  | _ => none

end Node

/-! ### Arrows -/

namespace Edge

/-- The JSON form of an arrow. -/
def toJson (edge : Edge) : Json :=
  Json.ofFields <|
    [("from", Json.ofNat edge.source.toNat), ("to", Json.ofNat edge.target.toNat)] ++
    Json.optionalField "label" Json.ofText edge.label

/-- The arrow that a JSON value describes. -/
def ofJson? (json : Json) : Option Edge := do
  let fields ← json.record? ["from", "to", "label"]
  return {
    source := ← fields.required? "from" Json.toWord?
    target := ← fields.required? "to" Json.toWord?
    label := ← fields.textOrNone? "label" }

end Edge

/-! ### Documents -/

namespace Document

/-- The JSON form of a document. -/
def toJson (d : Document) : Json :=
  Json.ofFields <|
    [("version", Json.ofText d.version), ("nodes", .array (d.nodes.map Node.toJson)),
      ("edges", .array (d.edges.map Edge.toJson))] ++
    Json.optionalField "generatedCode" Json.ofText d.generatedCode

/-- The document that a JSON value describes. -/
def ofJson? (json : Json) : Option Document := do
  let fields ← json.record? ["version", "nodes", "edges", "generatedCode"]
  return {
    version := ← fields.required? "version" Json.toText?
    nodes := ← fields.required? "nodes" (Json.toList? Node.ofJson?)
    edges := ← fields.required? "edges" (Json.toList? Edge.ofJson?)
    generatedCode := ← fields.textOrNone? "generatedCode" }

/-- **The text of a document.** -/
def toText (d : Document) : String :=
  d.toJson.pretty

/-- **The document in a text.** -/
def ofText? (text : String) : Option Document :=
  (Json.parse? text).bind ofJson?

end Document

end Flowchart
