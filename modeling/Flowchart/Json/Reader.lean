import Flowchart.Json.Literal
import Flowchart.Json.Token

/-!
# Reading JSON

The tokens of a text are read from the left, with a list of the arrays and objects that are open
around the place of reading, the innermost first. At each place one of five things is due, and the
next token decides how to go on:

* a value, or, right behind an opening bracket, a value or the closing bracket;
* a key, or, right behind an opening brace, a key or the closing brace;
* a colon behind a key;
* behind a complete value, a comma or the end of the innermost array or object.

The reading succeeds if at the end of the text a value is complete and nothing is open.

A record is a value with a fixed list of named fields, such as an arrow or a configuration. It may
be given as an object, with its fields in any order and others among them that are passed over, or
as an array of its fields in their order, from which fields at the end may be missing. A field that
is given twice is an error; so is an array with too many items.

`record?` brings both forms to one list of names with values, in which fields are then looked up.
-/

namespace Flowchart.Json

/-! ### Values -/

/-- An array or object that is open, with what has been read of it, the last part first; of an
object also the key whose value comes next. -/
inductive Open where
  | array (items : List Json)
  | object (members : List (List Char × Json)) (key : List Char)
  deriving Repr

/-- What is due at a place in the text. -/
inductive Due where
  /-- A value. -/
  | value
  /-- A value or the end of the array just opened. -/
  | firstItem
  /-- A key or the end of the object just opened. -/
  | firstKey
  /-- A key, after the members read so far. -/
  | key (members : List (List Char × Json))
  /-- The colon behind a key. -/
  | colon (members : List (List Char × Json)) (key : List Char)
  /-- Whatever may follow a complete value. -/
  | after (value : Json)
  deriving Repr

/-- Reads a token where a value is due. -/
def beginValue (opened : List Open) : Token → Option (List Open × Due)
  | .openArray => some (.array [] :: opened, .firstItem)
  | .openObject => some (opened, .firstKey)
  | .null => some (opened, .after .null)
  | .bool value => some (opened, .after (.bool value))
  | .number literal => some (opened, .after (.number literal))
  | .string literal => some (opened, .after (.string literal))
  | _ => none

/-- Reads a token behind a complete value. -/
def endValue (value : Json) : List Open → Token → Option (List Open × Due)
  | .array items :: opened, .comma => some (.array (value :: items) :: opened, .value)
  | .array items :: opened, .closeArray => some (opened, .after (.array (value :: items).reverse))
  | .object members key :: opened, .comma => some (opened, .key ((key, value) :: members))
  | .object members key :: opened, .closeObject =>
    some (opened, .after (.object ((key, value) :: members).reverse))
  | _, _ => none

/-- **One token read.** -/
def readToken : List Open × Due → Token → Option (List Open × Due)
  | (opened, .value), token => beginValue opened token
  | (.array [] :: opened, .firstItem), .closeArray => some (opened, .after (.array []))
  | (opened, .firstItem), token => beginValue opened token
  | (opened, .firstKey), .closeObject => some (opened, .after (.object []))
  | (opened, .firstKey), .string key => some (opened, .colon [] key)
  | (opened, .key members), .string key => some (opened, .colon members key)
  | (opened, .colon members key), .colon => some (.object members key :: opened, .value)
  | (opened, .after value), token => endValue value opened token
  | _, _ => none

/-- Reads a row of tokens. -/
def readTokens (place : List Open × Due) (tokens : List Token) : Option (List Open × Due) :=
  tokens.foldlM readToken place

/-- The value that a row of tokens spells. -/
def ofTokens? (tokens : List Token) : Option Json :=
  match readTokens ([], .value) tokens with
  | some ([], .after value) => some value
  | _ => none

/-- **The JSON value of a text**, or `none` if the text is no JSON. -/
def parse? (text : String) : Option Json :=
  (Token.tokens? text.toList).bind ofTokens?

/-! ### Records -/

/-- The named parts of a value. -/
abbrev Fields := List (String × Json)

/-- The members of an object, with the texts of their keys. -/
def fieldsOf? (members : List (List Char × Json)) : Option Fields :=
  members.mapM fun (key, value) => do return (String.ofList (← unescape? key), value)

/-- Whether none of the names is given more than once. -/
def Fields.distinct (names : List String) (fields : Fields) : Bool :=
  names.all fun name => (fields.filter (·.1 = name)).length ≤ 1

/-- The value of a field that may be absent. -/
def Fields.get? (fields : Fields) (name : String) : Option Json :=
  fields.lookup name

/-- **The fields of a record** with the given field names. -/
def record? (names : List String) : Json → Option Fields
  | .object members => do
    let fields ← fieldsOf? members
    if fields.distinct names then some fields else none
  | .array items => if items.length ≤ names.length then some (names.zip items) else none
  | _ => none

/-- The field `name`, which has to be there, read by `read?`. -/
def Fields.required? {α : Type} (fields : Fields) (name : String) (read? : Json → Option α) :
    Option α :=
  (fields.get? name).bind read?

/-- The field `name` read by `read?`, or a default if it is absent. -/
def Fields.getD? {α : Type} (fields : Fields) (name : String) (default : α)
    (read? : Json → Option α) : Option α :=
  match fields.get? name with
  | none => some default
  | some value => read? value

/-- A text or `null`, where `null` means that there is none. -/
def toTextOrNull? : Json → Option (Option String)
  | .null => some none
  | value => (toText? value).map some

/-- The items of an array, each read by `read?`. -/
def toList? {α : Type} (read? : Json → Option α) : Json → Option (List α)
  | .array items => items.mapM read?
  | _ => none

/-- The object with the given fields. -/
def ofFields (fields : Fields) : Json :=
  .object (fields.map fun (name, value) => (escape name.toList, value))

end Flowchart.Json
