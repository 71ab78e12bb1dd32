import Flowchart.Proofs.Json.Records

/-!
# Saved documents are read back

A document that is written as a text is read from the text, up to its coordinates
(`Flowchart.Document.ofText?_toText`). Nothing else about it changes: the version and the ids may be
any, the texts may have any characters in them, and an empty text is kept apart from an absent one.

Coordinates are numbers, and a number is read the quick way, which may miss the double that was
written. So the document comes back as it was exactly if each of its coordinates is read back
(`Flowchart.Document.ofText?_toText_eq_some_iff`). A coordinate without digits is written as `null`,
which is no number for the reader, and then the whole text is refused; this is the only reason for
which it is (`Flowchart.Document.isSome_reread?`). A document that is read from any text has finite
coordinates (`Flowchart.Document.isFinite_of_ofText?`), so what was read once can be written and
read again.

Each structure has the same lemmas: its fields have different names, it is read from its JSON form,
and this form can be written.
-/

namespace Flowchart

open Json (Fields)

/-! ### Shapes -/

@[simp] theorem Shape.ofJson?_toJson (shape : Shape) : ofJson? shape.toJson = some shape := by
  rw [toJson, Json.ofText, ofJson?]
  · have htext : (Json.string (Json.escape shape.name.toList)).toText? = some shape.name :=
      Json.toText?_ofText shape.name
    rw [htext, Option.bind_some, ofName?_name]
  · intro _ h
    cases h

/-! ### Details -/

namespace Details

/-- The fields of written details. -/
def fields (d : Details) : Fields :=
  Json.optionalField "role" Json.ofText d.role ++
    Json.optionalField "group" Json.ofText d.group ++
    Json.listField "inputs" Json.ofText d.inputs ++
    Json.listField "outputs" Json.ofText d.outputs

theorem toJson_eq_ofFields (d : Details) : d.toJson = Json.ofFields d.fields := rfl

theorem names_nodup (d : Details) : (d.fields.map Prod.fst).Nodup := by
  have hsublist := Json.names_append_sublist (Json.names_append_sublist (Json.names_append_sublist
    (Json.names_optionalField_sublist "role" Json.ofText d.role)
    (Json.names_optionalField_sublist "group" Json.ofText d.group))
    (Json.names_listField_sublist "inputs" Json.ofText d.inputs))
    (Json.names_listField_sublist "outputs" Json.ofText d.outputs)
  exact hsublist.nodup (by decide)

/-- **Details are read back.** -/
@[simp] theorem ofJson?_toJson (d : Details) : ofJson? d.toJson = some d := by
  have hrole : d.fields.textOrNone? "role" = some d.role :=
    Json.textOrNone?_of_get? (by simp [fields])
  have hgroup : d.fields.textOrNone? "group" = some d.group :=
    Json.textOrNone?_of_get? (by simp [fields])
  have hinputs : d.fields.getD? "inputs" [] (Json.toList? Json.toText?) = some d.inputs :=
    Json.getD?_of_get? (by simp [fields]) fun text _ => Json.toText?_ofText text
  have houtputs : d.fields.getD? "outputs" [] (Json.toList? Json.toText?) = some d.outputs :=
    Json.getD?_of_get? (by simp [fields]) fun text _ => Json.toText?_ofText text
  rw [toJson_eq_ofFields, ofJson?, Json.record?_ofFields _ d.names_nodup]
  simp [hrole, hgroup, hinputs, houtputs]

theorem wellFormed_toJson (d : Details) : d.toJson.WellFormed := by
  have htext : ∀ text, (Json.ofText text).WellFormed := Json.wellFormed_ofText
  exact Json.wellFormed_ofFields (Json.wellFormed_append (Json.wellFormed_append
    (Json.wellFormed_append (Json.wellFormed_optionalField fun text _ => htext text)
      (Json.wellFormed_optionalField fun text _ => htext text))
    (Json.wellFormed_listField fun text _ => htext text))
    (Json.wellFormed_listField fun text _ => htext text))

theorem eq_none_of_isNone {d : Details} (h : d.isNone = true) : d = none := by
  obtain ⟨role, group, inputs, outputs⟩ := d
  simp only [isNone, Bool.and_eq_true, Option.isNone_iff_eq_none, List.isEmpty_iff] at h
  obtain ⟨⟨⟨rfl, rfl⟩, rfl⟩, rfl⟩ := h
  rfl

end Details

/-! ### Positions -/

namespace Position

variable {position : Position}

/-- **Both coordinates are finite.** -/
def IsFinite (position : Position) : Prop :=
  position.x.isFinite = true ∧ position.y.isFinite = true

instance (position : Position) : Decidable position.IsFinite :=
  inferInstanceAs (Decidable (_ ∧ _))

/-- **Both coordinates are read back.** -/
def ReadsBack (position : Position) : Prop :=
  Json.ReadsBack position.x ∧ Json.ReadsBack position.y

instance (position : Position) : Decidable position.ReadsBack :=
  inferInstanceAs (Decidable (_ ∧ _))

/-- The position that is read from the numbers that are written for a position. -/
def reread? (position : Position) : Option Position := do
  return {
    x := ← Json.toFloat? (Json.ofFloat position.x)
    y := ← Json.toFloat? (Json.ofFloat position.y) }

theorem isSome_reread? : position.reread?.isSome = true ↔ position.IsFinite := by
  rw [IsFinite, ← Json.isSome_toFloat?_ofFloat, ← Json.isSome_toFloat?_ofFloat, reread?]
  cases Json.toFloat? (Json.ofFloat position.x) <;>
    cases Json.toFloat? (Json.ofFloat position.y) <;> simp

theorem reread?_eq_some_iff : position.reread? = some position ↔ position.ReadsBack := by
  obtain ⟨x, y⟩ := position
  rw [ReadsBack, Json.ReadsBack, Json.ReadsBack, reread?]
  cases Json.toFloat? (Json.ofFloat x) <;> cases Json.toFloat? (Json.ofFloat y) <;> simp

end Position

/-! ### Nodes -/

namespace Node

/-- The fields of a written node. -/
def fields (node : Node) : Fields :=
  [("id", Json.ofNat node.id.toNat), ("x", Json.ofFloat node.position.x),
      ("y", Json.ofFloat node.position.y), ("type", node.shape.toJson)] ++
    Json.optionalField "label" Json.ofText node.label ++
    Json.optionalField "meta" Details.toJson (if node.details.isNone then none else node.details)

theorem toJson_eq_ofFields (node : Node) : node.toJson = Json.ofFields node.fields := rfl

theorem names_nodup (node : Node) : (node.fields.map Prod.fst).Nodup := by
  refine (Json.names_append_sublist (Json.names_append_sublist (List.Sublist.refl _)
    (Json.names_optionalField_sublist "label" Json.ofText node.label))
    (Json.names_optionalField_sublist "meta" Details.toJson _)).nodup ?_
  simp

/-- A coordinate can be read in full, whether or not it is a number. -/
theorem readable_ofFloat (x : Float) : (Json.ofFloat x).readable bracketsAround = true := by
  have hdepth : (Json.ofFloat x).depth = 0 := by
    rw [Json.ofFloat]
    split <;> rfl
  have hmeaningful : (Json.ofFloat x).meaningful = true := by
    have hread := Json.isSome_toFloat?_ofFloat x
    rw [Json.ofFloat] at hread ⊢
    split
    · next hx =>
      rw [if_pos hx, hx] at hread
      rw [Json.meaningful, hread]
    · rfl
  rw [Json.readable, hmeaningful, hdepth]
  decide

/-- The fields in which the coordinates are looked for are the coordinates. -/
theorem filter_fields (node : Node) :
    node.fields.filter (fun field => !ownFields.contains field.1) =
      [("x", Json.ofFloat node.position.x), ("y", Json.ofFloat node.position.y)] := by
  obtain ⟨id, position, shape, label, details⟩ := node
  cases label <;> cases hdetails : details.isNone <;>
    simp [fields, ownFields, Json.optionalField, hdetails]

/-- The node that is read from what is written for a node. -/
def reread? (node : Node) : Option Node :=
  node.position.reread?.map fun position => { node with position }

theorem reread?_eq_some_iff (node : Node) :
    node.reread? = some node ↔ node.position.ReadsBack := by
  rw [← Position.reread?_eq_some_iff, reread?, Option.map_eq_some_iff]
  constructor
  · rintro ⟨position, hread, hnode⟩
    rw [hread]
    exact congrArg some (congrArg Node.position hnode)
  · exact fun h => ⟨node.position, h, rfl⟩

/-- **A node is read back up to its coordinates.** -/
theorem ofJson?_toJson (node : Node) : ofJson? node.toJson = node.reread? := by
  have hid : node.fields.required? "id" Json.toWord? = some node.id := by
    simp [Fields.required?, fields]
  have hx : node.fields.required? "x" Json.toFloat? =
      Json.toFloat? (Json.ofFloat node.position.x) := by
    simp [Fields.required?, fields]
  have hy : node.fields.required? "y" Json.toFloat? =
      Json.toFloat? (Json.ofFloat node.position.y) := by
    simp [Fields.required?, fields]
  have hshape : node.fields.getD? "type" .circle Shape.ofJson? = some node.shape := by
    simp [Fields.getD?, fields]
  have hlabel : node.fields.textOrNone? "label" = some node.label :=
    Json.textOrNone?_of_get? (by simp [fields])
  have hdetails : node.fields.getD? "meta" .none Details.ofJson? = some node.details := by
    by_cases h : node.details.isNone = true
    · have hget : node.fields.get? "meta" = none := by simp [fields, h]
      rw [Fields.getD?, hget, Details.eq_none_of_isNone h]
    · simp [Fields.getD?, fields, h]
  have hdistinct := Json.distinct_of_nodup (ownFields ++ ["x", "y"]) node.names_nodup
  rw [toJson_eq_ofFields, Json.ofFields, ofJson?, Json.fieldsOf?_map]
  simp only [Option.bind_eq_bind, Option.bind_some, filter_fields, hdistinct,
    List.all_cons, List.all_nil, readable_ofFloat, Bool.and_true, if_true, hid, hx, hy, hshape,
    hlabel, hdetails, reread?, Position.reread?]
  cases Json.toFloat? (Json.ofFloat node.position.x) <;>
    cases Json.toFloat? (Json.ofFloat node.position.y) <;> rfl

theorem wellFormed_toJson (node : Node) : node.toJson.WellFormed := by
  refine Json.wellFormed_ofFields (Json.wellFormed_append (Json.wellFormed_append ?_
    (Json.wellFormed_optionalField fun text _ => Json.wellFormed_ofText text))
    (Json.wellFormed_optionalField fun details _ => details.wellFormed_toJson))
  exact Json.wellFormed_cons (Json.wellFormed_ofNat _) (Json.wellFormed_cons
    (Json.wellFormed_ofFloat _) (Json.wellFormed_cons (Json.wellFormed_ofFloat _)
    (Json.wellFormed_cons (Json.wellFormed_ofText _) Json.wellFormed_nil)))

end Node

/-- **A node that is read has finite coordinates.** -/
theorem Node.isFinite_of_ofJson? {json : Json} {node : Node} (h : Node.ofJson? json = some node) :
    node.position.IsFinite := by
  cases json with
  | object members =>
    simp only [Node.ofJson?, Option.bind_eq_bind, Option.bind_eq_some_iff,
      Option.ite_none_right_eq_some, Option.pure_def, Option.some.injEq, Fields.required?] at h
    obtain ⟨fields, -, -, id, -, x, ⟨xjson, -, hx⟩, y, ⟨yjson, -, hy⟩, shape, -, label, -,
      details, -, rfl⟩ := h
    exact ⟨Json.isFinite_of_toFloat? hx, Json.isFinite_of_toFloat? hy⟩
  | _ => exact nomatch h

/-! ### Arrows -/

namespace Edge

/-- The fields of a written arrow. -/
def fields (edge : Edge) : Fields :=
  [("from", Json.ofNat edge.source.toNat), ("to", Json.ofNat edge.target.toNat)] ++
    Json.optionalField "label" Json.ofText edge.label

theorem toJson_eq_ofFields (edge : Edge) : edge.toJson = Json.ofFields edge.fields := rfl

theorem names_nodup (edge : Edge) : (edge.fields.map Prod.fst).Nodup := by
  refine (Json.names_append_sublist (List.Sublist.refl _)
    (Json.names_optionalField_sublist "label" Json.ofText edge.label)).nodup ?_
  simp

/-- **An arrow is read back.** -/
@[simp] theorem ofJson?_toJson (edge : Edge) : ofJson? edge.toJson = some edge := by
  have hsource : edge.fields.required? "from" Json.toWord? = some edge.source := by
    simp [Fields.required?, fields]
  have htarget : edge.fields.required? "to" Json.toWord? = some edge.target := by
    simp [Fields.required?, fields]
  have hlabel : edge.fields.textOrNone? "label" = some edge.label :=
    Json.textOrNone?_of_get? (by simp [fields])
  rw [toJson_eq_ofFields, ofJson?, Json.record?_ofFields _ edge.names_nodup]
  simp [hsource, htarget, hlabel]

theorem wellFormed_toJson (edge : Edge) : edge.toJson.WellFormed := by
  refine Json.wellFormed_ofFields (Json.wellFormed_append ?_
    (Json.wellFormed_optionalField fun text _ => Json.wellFormed_ofText text))
  exact Json.wellFormed_cons (Json.wellFormed_ofNat _)
    (Json.wellFormed_cons (Json.wellFormed_ofNat _) Json.wellFormed_nil)

end Edge

/-! ### Documents -/

namespace Document

/-- **All coordinates are finite.** -/
def IsFinite (d : Document) : Prop :=
  ∀ node ∈ d.nodes, node.position.IsFinite

instance (d : Document) : Decidable d.IsFinite :=
  inferInstanceAs (Decidable (∀ _ ∈ _, _))

/-- **All coordinates are read back.** -/
def ReadsBack (d : Document) : Prop :=
  ∀ node ∈ d.nodes, node.position.ReadsBack

instance (d : Document) : Decidable d.ReadsBack :=
  inferInstanceAs (Decidable (∀ _ ∈ _, _))

/-- The fields of a written document. -/
def fields (d : Document) : Fields :=
  [("version", Json.ofText d.version), ("nodes", .array (d.nodes.map Node.toJson)),
      ("edges", .array (d.edges.map Edge.toJson))] ++
    Json.optionalField "generatedCode" Json.ofText d.generatedCode

theorem toJson_eq_ofFields (d : Document) : d.toJson = Json.ofFields d.fields := rfl

theorem names_nodup (d : Document) : (d.fields.map Prod.fst).Nodup := by
  refine (Json.names_append_sublist (List.Sublist.refl _)
    (Json.names_optionalField_sublist "generatedCode" Json.ofText d.generatedCode)).nodup ?_
  simp

/-- **The document that is read from the text of a document**: all is as it was, except that the
coordinates are read from their numbers. -/
def reread? (d : Document) : Option Document :=
  (d.nodes.mapM Node.reread?).map fun nodes => { d with nodes }

/-- **A document is read back from its JSON form up to its coordinates.** -/
theorem ofJson?_toJson (d : Document) : ofJson? d.toJson = d.reread? := by
  have hversion : d.fields.required? "version" Json.toText? = some d.version := by
    simp [Fields.required?, fields]
  have hnodes : d.fields.required? "nodes" (Json.toList? Node.ofJson?) =
      d.nodes.mapM Node.reread? := by
    have hread : Node.ofJson? ∘ Node.toJson = Node.reread? := funext Node.ofJson?_toJson
    simp [Fields.required?, fields, Json.toList?, List.mapM_map, hread]
  have hedges : d.fields.required? "edges" (Json.toList? Edge.ofJson?) = some d.edges := by
    have hread : (d.edges.map Edge.toJson).mapM Edge.ofJson? = some d.edges :=
      Json.mapM_map_eq_some fun edge _ => edge.ofJson?_toJson
    simp [Fields.required?, fields, Json.toList?, hread]
  have hcode : d.fields.textOrNone? "generatedCode" = some d.generatedCode :=
    Json.textOrNone?_of_get? (by simp [fields])
  rw [toJson_eq_ofFields, ofJson?, Json.record?_ofFields _ d.names_nodup]
  simp only [Option.bind_eq_bind, Option.bind_some, hversion, hnodes, hedges, hcode, reread?]
  cases d.nodes.mapM Node.reread? <;> rfl

theorem wellFormed_toJson (d : Document) : d.toJson.WellFormed := by
  have hnodes := Json.wellFormed_array fun node (_ : node ∈ d.nodes) => node.wellFormed_toJson
  have hedges := Json.wellFormed_array fun edge (_ : edge ∈ d.edges) => edge.wellFormed_toJson
  refine Json.wellFormed_ofFields (Json.wellFormed_append ?_
    (Json.wellFormed_optionalField fun text _ => Json.wellFormed_ofText text))
  exact Json.wellFormed_cons (Json.wellFormed_ofText _)
    (Json.wellFormed_cons hnodes (Json.wellFormed_cons hedges Json.wellFormed_nil))

/-- **A document is read back from its text up to its coordinates.** -/
theorem ofText?_toText (d : Document) : ofText? d.toText = d.reread? := by
  rw [ofText?, toText, Json.parse?_pretty d.wellFormed_toJson]
  exact d.ofJson?_toJson

theorem reread?_eq_some_iff (d : Document) : d.reread? = some d ↔ d.ReadsBack := by
  have hnodes : d.reread? = some d ↔ d.nodes.mapM Node.reread? = some d.nodes := by
    rw [reread?, Option.map_eq_some_iff]
    constructor
    · rintro ⟨nodes, hread, hd⟩
      rw [hread]
      exact congrArg some (congrArg Document.nodes hd)
    · exact fun h => ⟨d.nodes, h, rfl⟩
  rw [hnodes, Json.mapM_eq_some_iff, List.forall₂_same]
  exact forall₂_congr fun node _ => node.reread?_eq_some_iff

/-- **A document is read** exactly if all its coordinates are finite. -/
theorem isSome_reread? (d : Document) : d.reread?.isSome = true ↔ d.IsFinite := by
  rw [reread?, Option.isSome_map, Json.isSome_mapM_iff]
  exact forall₂_congr fun node _ => by rw [Node.reread?, Option.isSome_map, Position.isSome_reread?]

/-- The ids are those that were written. -/
theorem ids_of_reread? {d d' : Document} (h : d.reread? = some d') :
    d'.nodes.map Node.id = d.nodes.map Node.id := by
  obtain ⟨nodes, hread, rfl⟩ := Option.map_eq_some_iff.mp h
  have hids : List.Forall₂ (· = ·) (d.nodes.map Node.id) (nodes.map Node.id) := by
    rw [List.forall₂_map_left_iff, List.forall₂_map_right_iff]
    refine (Json.mapM_eq_some_iff.mp hread).imp fun node node' hnode => ?_
    obtain ⟨position, -, rfl⟩ := Option.map_eq_some_iff.mp hnode
    rfl
  rw [List.forall₂_eq_eq_eq] at hids
  exact hids.symm

/-- **Opening does not look at coordinates**: a document that is read back is opened exactly if the
one that was written is, with the nodes that were read. -/
theorem toGraph_of_reread? {d d' : Document} (h : d.reread? = some d') :
    d'.toGraph = d.toGraph.map fun _ => .ofParts d'.nodes d.edges := by
  have hids := ids_of_reread? h
  obtain ⟨nodes, -, rfl⟩ := Option.map_eq_some_iff.mp h
  rw [toGraph, toGraph, hids]
  -- each check looks at the version, the ids or the arrows only
  by_cases hversion : d.version = currentVersion
  · simp only [hversion, ne_eq, not_true_eq_false, if_false]
    cases checkIds [] (d.nodes.map Node.id) with
    | error error => rfl
    | ok => cases checkEdges (d.nodes.map Node.id) d.edges <;> rfl
  · simp only [hversion, ne_eq, not_false_eq_true, if_true]
    rfl

/-- **A document that is read has finite coordinates.** -/
theorem isFinite_of_ofText? {text : String} {d : Document} (h : ofText? text = some d) :
    d.IsFinite := by
  obtain ⟨json, -, hjson⟩ := Option.bind_eq_some_iff.mp h
  simp only [ofJson?, Option.bind_eq_bind, Option.bind_eq_some_iff, Option.pure_def,
    Option.some.injEq, Fields.required?] at hjson
  obtain ⟨fields, -, version, -, nodes, ⟨value, -, hnodes⟩, edges, -, code, -, rfl⟩ := hjson
  intro node hnode
  cases value with
  | array items =>
    obtain ⟨item, -, hitem⟩ := Json.exists_of_mem_mapM hnodes hnode
    exact Node.isFinite_of_ofJson? hitem
  | _ => exact nomatch hnodes

/-- **A document is read back from its text exactly if all its coordinates are read back.** -/
theorem ofText?_toText_eq_some_iff (d : Document) :
    ofText? d.toText = some d ↔ d.ReadsBack := by
  rw [ofText?_toText, reread?_eq_some_iff]

end Document

end Flowchart
