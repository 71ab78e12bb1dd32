/-!
# JSON values

A JSON text is a tree of objects and arrays with null, booleans, numbers and strings at its leaves.
`Json` is that tree with every number, string and key **as it is written**: a leaf keeps its
characters, between the quotes if it has any.

So there are two layers. A text can be *well formed*, and then it is a `Json`; and a leaf of a
`Json` can have a *meaning*, which is found when somebody asks for it. The two differ. A number may
be too large for any double, and a string may contain one half of a surrogate pair: such a leaf is
well formed and means nothing. A reader of documents passes over the members it does not know, and
there it matters that they need not mean anything.

One function writes a value, with the blanks left open: what stands in front of an item or a closing
bracket at a given depth, and what follows a colon. `pretty` puts every item on a line of its own,
two columns further in than the bracket around it; `compact` puts no blanks at all. An empty array
or object is its two brackets in either case.
-/

namespace Flowchart

/-- A JSON value whose leaves are kept as they are written. A key is kept in the same way as a
string, without its quotes. -/
inductive Json where
  | null
  | bool (value : Bool)
  | number (literal : List Char)
  | string (literal : List Char)
  | array (items : List Json)
  | object (members : List (List Char × Json))
  deriving Repr, Inhabited

namespace Json

mutual

/-- **The nesting depth**: how many arrays and objects lie around the innermost leaf, an empty one
counting as well. -/
def depth : Json → Nat
  | .null => 0
  | .bool _ => 0
  | .number _ => 0
  | .string _ => 0
  | .array items => 1 + depthOfItems items
  | .object members => 1 + depthOfMembers members

/-- The depth of the deepest value of a list. -/
def depthOfItems : List Json → Nat
  | [] => 0
  | item :: items => max (depth item) (depthOfItems items)

/-- The depth of the deepest value among members. -/
def depthOfMembers : List (List Char × Json) → Nat
  | [] => 0
  | (_, value) :: members => max (depth value) (depthOfMembers members)

end

/-! ### Writing -/

/-- The blanks of a written value. -/
structure Spacing where
  /-- What stands before an item or a closing bracket that is inside so many brackets. -/
  lineBreak : Nat → List Char
  /-- What stands between a colon and the value behind it. -/
  afterColon : List Char

/-- No blanks. -/
def Spacing.compact : Spacing where
  lineBreak _ := []
  afterColon := []

/-- Every item on its own line, two columns in for each bracket around it. -/
def Spacing.pretty : Spacing where
  lineBreak depth := '\n' :: List.replicate (2 * depth) ' '
  afterColon := [' ']

/-- A literal between double quotes. -/
def quoted (literal : List Char) : List Char :=
  '"' :: literal ++ ['"']

mutual

/-- **The characters of a value** inside `depth` brackets. -/
def write (s : Spacing) (depth : Nat) : Json → List Char
  | .null => "null".toList
  | .bool true => "true".toList
  | .bool false => "false".toList
  | .number literal => literal
  | .string literal => quoted literal
  | .array [] => "[]".toList
  | .array (item :: items) =>
    '[' :: s.lineBreak (depth + 1) ++ write s (depth + 1) item ++
      writeItems s (depth + 1) items ++ s.lineBreak depth ++ [']']
  | .object [] => ['\x7b', '\x7d']
  | .object ((key, value) :: members) =>
    '\x7b' :: s.lineBreak (depth + 1) ++ quoted key ++ ':' :: s.afterColon ++
      write s (depth + 1) value ++ writeMembers s (depth + 1) members ++
      s.lineBreak depth ++ ['\x7d']

/-- The items of an array behind its first one, each with a comma before it. -/
def writeItems (s : Spacing) (depth : Nat) : List Json → List Char
  | [] => []
  | item :: items =>
    ',' :: s.lineBreak depth ++ write s depth item ++ writeItems s depth items

/-- The members of an object behind its first one, each with a comma before it. -/
def writeMembers (s : Spacing) (depth : Nat) : List (List Char × Json) → List Char
  | [] => []
  | (key, value) :: members =>
    ',' :: s.lineBreak depth ++ quoted key ++ ':' :: s.afterColon ++ write s depth value ++
      writeMembers s depth members

end

/-- The text of a value with every item on a line of its own. -/
def pretty (value : Json) : String :=
  String.ofList (write .pretty 0 value)

/-- The text of a value without blanks. -/
def compact (value : Json) : String :=
  String.ofList (write .compact 0 value)

end Json

end Flowchart
