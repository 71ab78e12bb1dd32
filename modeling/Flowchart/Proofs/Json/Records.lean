import Flowchart.Document.Format
import Flowchart.Proofs.Json.Leaves

/-!
# Written records are read back

A record is written as an object with its fields in their order, and a field with nothing in it is
left out. When the object is read, each field is looked up by its name. Here are the facts about
this for records of any sort: that the names in an object are distinct, what is found for each of
them, and that what is found is read as what was written.
-/

namespace Flowchart.Json

variable {α : Type} {name key : String} {toJson : α → Json} {fields fields' : Fields}

/-! ### Lists -/

/-- **A list is read** exactly if each of its items is. -/
theorem mapM_eq_some_iff {β : Type} {read? : α → Option β} {items : List α} {values : List β} :
    items.mapM read? = some values ↔
      List.Forall₂ (fun item value => read? item = some value) items values := by
  induction items generalizing values with
  | nil => simp [eq_comm]
  | cons item items ih =>
    simp only [List.mapM_cons, Option.bind_eq_bind, Option.bind_eq_some_iff, Option.pure_def,
      Option.some.injEq, ih, List.forall₂_cons_left_iff]
    constructor
    · rintro ⟨value, hvalue, values, hvalues, rfl⟩
      exact ⟨value, values, hvalue, hvalues, rfl⟩
    · rintro ⟨value, values, hvalue, hvalues, rfl⟩
      exact ⟨value, hvalue, values, hvalues, rfl⟩

theorem isSome_mapM_iff {β : Type} {read? : α → Option β} {items : List α} :
    (items.mapM read?).isSome = true ↔ ∀ item ∈ items, (read? item).isSome = true := by
  induction items with
  | nil => simp
  | cons item items ih =>
    rw [List.forall_mem_cons, ← ih, List.mapM_cons]
    cases read? item <;> cases items.mapM read? <;> simp

theorem mapM_map_eq_some {β : Type} {write : α → β} {read? : β → Option α} {values : List α}
    (h : ∀ value ∈ values, read? (write value) = some value) :
    (values.map write).mapM read? = some values := by
  rw [mapM_eq_some_iff, List.forall₂_map_left_iff, List.forall₂_same]
  exact h

/-- What is read from a list is read from its items. -/
theorem exists_of_mem_mapM {β : Type} {read? : β → Option α} {items : List β} {values : List α}
    {value : α} (h : items.mapM read? = some values) (hvalue : value ∈ values) :
    ∃ item ∈ items, read? item = some value := by
  rw [mapM_eq_some_iff] at h
  induction h with
  | nil => exact nomatch hvalue
  | @cons item _ _ _ hread _ ih =>
    rcases List.mem_cons.mp hvalue with rfl | hvalue
    · exact ⟨item, List.mem_cons_self, hread⟩
    · obtain ⟨other, hother, hread⟩ := ih hvalue
      exact ⟨other, List.mem_cons_of_mem _ hother, hread⟩

/-! ### Names -/

theorem fieldsOf?_map (fields : Fields) :
    fieldsOf? (fields.map fun (name, value) => (escape name.toList, value)) = some fields := by
  refine mapM_map_eq_some fun field _ => ?_
  simp [unescape?_escape]

theorem names_optionalField_sublist (name : String) (toJson : α → Json) (value : Option α) :
    ((optionalField name toJson value).map Prod.fst).Sublist [name] := by
  cases value with
  | none => exact List.nil_sublist _
  | some value => exact List.Sublist.refl _

theorem names_listField_sublist (name : String) (toJson : α → Json) (values : List α) :
    ((listField name toJson values).map Prod.fst).Sublist [name] := by
  cases values with
  | nil => exact List.nil_sublist _
  | cons value values => exact List.Sublist.refl _

theorem names_append_sublist {names names' : List String}
    (h : (fields.map Prod.fst).Sublist names) (h' : (fields'.map Prod.fst).Sublist names') :
    ((fields ++ fields').map Prod.fst).Sublist (names ++ names') := by
  rw [List.map_append]
  exact h.append h'

/-- **Fields whose names are different are distinct.** -/
theorem distinct_of_nodup (names : List String) (h : (fields.map Prod.fst).Nodup) :
    fields.distinct names = true := by
  rw [Fields.distinct, List.all_eq_true]
  intro name _
  rw [decide_eq_true_eq]
  have hcount : (fields.filter (·.1 = name)).length = (fields.map Prod.fst).count name := by
    rw [List.count, List.countP_map, List.countP_eq_length_filter]
    congr 1
  rw [hcount]
  exact List.nodup_iff_count_le_one.mp h name

theorem record?_ofFields (names : List String) (h : (fields.map Prod.fst).Nodup) :
    (ofFields fields).record? names = some fields := by
  rw [ofFields, record?, fieldsOf?_map]
  simp [distinct_of_nodup names h]

/-! ### What is found for a name -/

@[simp] theorem get?_nil (key : String) : Fields.get? [] key = none := rfl

@[simp] theorem get?_cons (name key : String) (value : Json) (fields : Fields) :
    Fields.get? ((name, value) :: fields) key =
      if key = name then some value else fields.get? key := by
  rw [Fields.get?, List.lookup_cons]
  by_cases h : key = name
  · simp [h]
  · have hbeq : (key == name) = false := by simpa using h
    rw [hbeq, if_neg h]
    rfl

@[simp] theorem get?_append (fields fields' : Fields) (key : String) :
    Fields.get? (fields ++ fields') key = (fields.get? key).or (fields'.get? key) := by
  induction fields with
  | nil => rfl
  | cons field fields ih =>
    obtain ⟨name, value⟩ := field
    rw [List.cons_append, get?_cons, get?_cons, ih]
    split <;> rfl

@[simp] theorem get?_optionalField (name key : String) (toJson : α → Json) (value : Option α) :
    Fields.get? (optionalField name toJson value) key =
      if key = name then value.map toJson else none := by
  cases value <;> simp [optionalField]

@[simp] theorem get?_listField (name key : String) (toJson : α → Json) (values : List α) :
    Fields.get? (listField name toJson values) key =
      if key = name ∧ values ≠ [] then some (.array (values.map toJson)) else none := by
  cases values <;> simp [listField]

/-! ### What is read -/

/-- **An optional text is read back.** -/
theorem textOrNone?_of_get? {text : Option String} (h : fields.get? name = text.map ofText) :
    fields.textOrNone? name = some text := by
  rw [Fields.textOrNone?, Fields.getD?, h]
  cases text with
  | none => rfl
  | some text =>
    have htext : toTextOrNull? (ofText text) = (toText? (ofText text)).map some := rfl
    rw [Option.map_some]
    dsimp only
    rw [htext, toText?_ofText]
    rfl

/-- **A list is read back** if its items are. -/
theorem getD?_of_get? {read? : Json → Option α} {values : List α}
    (h : fields.get? name = if values ≠ [] then some (.array (values.map toJson)) else none)
    (hread : ∀ value ∈ values, read? (toJson value) = some value) :
    fields.getD? name [] (toList? read?) = some values := by
  rw [Fields.getD?, h]
  by_cases hvalues : values = []
  · simp [hvalues]
  · simp [hvalues, toList?, mapM_map_eq_some hread]

/-! ### Well-formed fields -/

/-- All values of a record can be written. -/
def Fields.WellFormed (fields : Fields) : Prop :=
  ∀ field ∈ fields, Json.WellFormed field.2

theorem wellFormed_cons {value : Json} (h : Json.WellFormed value) (h' : fields.WellFormed) :
    Fields.WellFormed ((name, value) :: fields) := by
  rintro field hfield
  rcases List.mem_cons.mp hfield with rfl | hfield
  · exact h
  · exact h' field hfield

theorem wellFormed_nil : Fields.WellFormed [] :=
  fun _ h => nomatch h

theorem wellFormed_append (h : fields.WellFormed) (h' : fields'.WellFormed) :
    Fields.WellFormed (fields ++ fields') := by
  rintro field hfield
  rcases List.mem_append.mp hfield with hfield | hfield
  · exact h field hfield
  · exact h' field hfield

theorem wellFormed_optionalField {value : Option α}
    (h : ∀ v, value = some v → Json.WellFormed (toJson v)) :
    Fields.WellFormed (optionalField name toJson value) := by
  cases value with
  | none => exact wellFormed_nil
  | some value => exact wellFormed_cons (h value rfl) wellFormed_nil

theorem wellFormed_array {values : List α} (h : ∀ value ∈ values, Json.WellFormed (toJson value)) :
    Json.WellFormed (.array (values.map toJson)) := by
  rw [WellFormed, wellFormedItems_iff]
  rintro item hitem
  obtain ⟨value, hvalue, rfl⟩ := List.mem_map.mp hitem
  exact h value hvalue

theorem wellFormed_listField {values : List α}
    (h : ∀ value ∈ values, Json.WellFormed (toJson value)) :
    Fields.WellFormed (listField name toJson values) := by
  cases values with
  | nil => exact wellFormed_nil
  | cons value values => exact wellFormed_cons (wellFormed_array h) wellFormed_nil

/-- **A record can be written** if its values can. -/
theorem wellFormed_ofFields (h : fields.WellFormed) : Json.WellFormed (ofFields fields) := by
  rw [ofFields, Json.WellFormed, wellFormedMembers_iff]
  rintro member hmember
  obtain ⟨field, hfield, rfl⟩ := List.mem_map.mp hmember
  exact ⟨isStringLiteral_escape _, h field hfield⟩

end Flowchart.Json
