import Flowchart.Json.Reader
import Flowchart.Predicate.Value

/-!
# Contexts

The names of a predicate are looked up in a context, which binds each name at most once. A name
without a binding has the value `undefined`.

A context is usually written as a JSON object. Reading it never fails: a text that is no JSON
object, or that nests too deep or has a leaf without a meaning anywhere in it, is an empty context.
-/

namespace Flowchart.Predicate

/-- Bindings of names to values. -/
structure Context where
  bindings : List (String × Value)
  /-- No name is bound twice. -/
  nodup : (bindings.map Prod.fst).Nodup

namespace Context

/-- The context that binds nothing. -/
def empty : Context := ⟨[], .nil⟩

instance : Inhabited Context := ⟨empty⟩

/-- Binds a name, in place of what it was bound to before. -/
def insert (context : Context) (name : String) (value : Value) : Context where
  bindings := (name, value) :: context.bindings.filter (·.1 ≠ name)
  nodup := by
    have h := context.nodup
    rw [List.map_cons, List.nodup_cons]
    refine ⟨?_, ?_⟩
    -- the earlier binding of the name is gone, and no other name came in
    · simp
    · exact (List.filter_sublist.map Prod.fst).nodup h

/-- **The value of a name.** -/
def get (context : Context) (name : String) : Value :=
  (context.bindings.lookup name).getD .undefined

/-- Whether a name is bound. -/
def contains (context : Context) (name : String) : Bool :=
  (context.bindings.lookup name).isSome

@[simp] theorem get_empty (name : String) : empty.get name = .undefined := rfl

@[simp] theorem get_insert_self (context : Context) (name : String) (value : Value) :
    (context.insert name value).get name = value := by
  simp [insert, get]

/-- A binding of one name does not change the value of another. -/
theorem get_insert_of_ne (context : Context) {name other : String} (value : Value)
    (h : other ≠ name) : (context.insert name value).get other = context.get other := by
  have hb : (other == name) = false := by simpa using h
  simp only [insert, get, List.lookup_cons, hb]
  congr 1
  induction context.bindings with
  | nil => rfl
  | cons binding bindings ih =>
    obtain ⟨bound, v⟩ := binding
    by_cases hbound : bound = name
    · subst hbound
      simpa [List.lookup_cons, hb] using ih
    · simp only [ne_eq, hbound, not_false_eq_true, decide_true, List.filter_cons_of_pos,
        List.lookup_cons]
      split
      · rfl
      · exact ih

/-- The number of names that are bound. -/
def size (context : Context) : Nat :=
  context.bindings.length

/-- Whether nothing is bound. -/
def isEmpty (context : Context) : Bool :=
  context.bindings.isEmpty

/-- Binds names one after the other; of several bindings of a name the last one stays. -/
def ofList (bindings : List (String × Value)) : Context :=
  bindings.foldl (fun context binding => context.insert binding.1 binding.2) empty

/-- The bindings of a JSON value: those of an object that can be read in full, none otherwise. -/
def ofJson (json : Json) : Context :=
  match json with
  | .object members =>
    if Json.readable 0 json then
      match Json.fieldsOf? members with
      | some fields => ofList (fields.map fun (name, value) => (name, .ofJson value))
      | none => empty
    else empty
  | _ => empty

/-- **The context that a text describes.** -/
def ofText (text : String) : Context :=
  match Json.parse? text with
  | some json => ofJson json
  | none => empty

end Context

end Flowchart.Predicate
