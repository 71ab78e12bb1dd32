/-!
# Arguments

The words behind the name of a command are its positional arguments and its switches. A switch has
a long name behind two dashes and may have a letter behind one dash; some switches take a value.

* The value of a long switch follows an equals sign or is the next word; the value of a letter is
  the rest of its word, without an equals sign in front, or the next word.
* Letters without a value may be put together behind one dash, with a letter that takes a value at
  their end.
* A next word that starts with a dash is not taken for a value, a dash alone excepted.
* Behind a word of two dashes all words are positional.
* No switch may be given twice, and only the switches of the command may be given.
-/

namespace Flowchart

/-- A switch of a command. -/
structure Switch where
  name : String
  letter? : Option Char
  takesValue : Bool
  deriving DecidableEq

/-- The positional arguments, and the switches that are given, with their values; a switch that
takes no value has the empty one. -/
structure Arguments where
  positional : List String
  given : List (String × String)
  deriving DecidableEq

namespace Arguments

/-- Whether a word looks like a switch. -/
def looksLikeSwitch (word : String) : Bool :=
  word.toList.head? = some '-' && word ≠ "-"

/-- Adds a positional argument in front. -/
def addPositional (word : String) (arguments : Arguments) : Arguments :=
  { arguments with positional := word :: arguments.positional }

/-- Adds switches in front. -/
def addGiven (switches : List (String × String)) (arguments : Arguments) : Arguments :=
  { arguments with given := switches ++ arguments.given }

/-- The letters behind one dash: the switches they give, and the name of a switch whose value is
still to come. -/
def letters? (switches : List Switch) : List Char → Option (List (String × String) × Option String)
  | [] => some ([], none)
  | c :: rest =>
    match switches.find? (·.letter? = some c) with
    | none => none
    | some switch =>
      if switch.takesValue then
        match rest with
        | [] => some ([], some switch.name)
        | '=' :: value => some ([(switch.name, String.ofList value)], none)
        | value => some ([(switch.name, String.ofList value)], none)
      else (letters? switches rest).map fun (given, waiting?) =>
        ((switch.name, "") :: given, waiting?)

/-- A long switch: what it gives, and the name of the switch if its value is still to come. -/
def long? (switches : List Switch) (word : List Char) :
    Option (List (String × String) × Option String) :=
  let name := String.ofList (word.takeWhile (· ≠ '='))
  match switches.find? (·.name = name), word.dropWhile (· ≠ '=') with
  | none, _ => none
  | some switch, '=' :: value =>
    if switch.takesValue then some ([(name, String.ofList value)], none) else none
  | some switch, _ => if switch.takesValue then some ([], some name) else some ([(name, "")], none)

/-- **Reads words** with the switches of a command, repetitions not yet excluded. -/
def readAll? (switches : List Switch) : List String → Option Arguments
  | [] => some ⟨[], []⟩
  | word :: rest =>
    if word = "--" then some ⟨rest, []⟩
    else if looksLikeSwitch word then
      let read? := match word.toList with
        | '-' :: '-' :: long => long? switches long
        | short => letters? switches short.tail
      match read?, rest with
      | none, _ => none
      | some (given, none), rest => (readAll? switches rest).map (addGiven given)
      | some (_, some _), [] => none
      | some (given, some name), value :: rest =>
        if looksLikeSwitch value then none
        else (readAll? switches rest).map (addGiven (given ++ [(name, value)]))
    else (readAll? switches rest).map (addPositional word)

/-- **The arguments that words spell**, if they spell any. -/
def read? (switches : List Switch) (words : List String) : Option Arguments :=
  (readAll? switches words).filter fun arguments => (arguments.given.map Prod.fst).Nodup

/-- Whether a switch is given. -/
def has (arguments : Arguments) (name : String) : Bool :=
  (arguments.given.lookup name).isSome

/-- The value of a switch, if it is given. -/
def value? (arguments : Arguments) (name : String) : Option String :=
  arguments.given.lookup name

end Arguments

end Flowchart
