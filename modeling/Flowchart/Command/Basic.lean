import Flowchart.Command.Arguments
import Flowchart.Graph.Group
import Flowchart.Number.Decimal

/-!
# Commands

The commands of the command line, and how they are spelled. Everything but `eval` works on a
flowchart in a file, in a context that is given as JSON, with a configuration from another file if
one is named.
-/

namespace Flowchart

/-- The flowchart that a command works on. -/
structure Command.Input where
  flowchart : String
  context : String
  config? : Option String
  deriving DecidableEq

/-- A command. -/
inductive Command where
  /-- Evaluates a predicate. -/
  | eval (predicate context : String) (explain : Bool)
  /-- Steps through a flowchart until it halts. -/
  | run (input : Command.Input) (maxSteps : Nat)
  /-- Runs a flowchart on the ticks of a clock. -/
  | play (input : Command.Input) (maxMoves : Nat)
  /-- Suggests arrows, and adds them if there is a file to write to. -/
  | suggest (input : Command.Input) (strictTypes noNormalize : Bool) (applyTo? : Option String)
  /-- Prints the code of a flowchart. -/
  | code (input : Command.Input)
  /-- Prints the groups of a flowchart. -/
  | groups (input : Command.Input) (grouping : Grouping)
  deriving DecidableEq

namespace Command

/-! ### Switches -/

/-- The context as a JSON object. -/
def contextSwitch : Switch := ⟨"context", some 'c', true⟩

/-- The switches of every command that works on a flowchart. -/
def inputSwitches : List Switch := [contextSwitch, ⟨"config", none, true⟩]

/-- The context that is used if none is given. -/
def defaultContext : String := "\x7b\x7d"

/-! ### Values -/

/-- The path of a file is not empty. -/
def pathOf? (value : String) : Option String :=
  if value = "" then none else some value

/-- A path that need not be given. -/
def optionalPath? (arguments : Arguments) (name : String) : Option (Option String) :=
  match arguments.value? name with
  | none => some none
  | some value => (pathOf? value).map some

/-- A number of 64 bits, or a default if none is given. -/
def countOr? (arguments : Arguments) (name : String) (default : Nat) : Option Nat :=
  match arguments.value? name with
  | none => some default
  | some value => Number.word64? 10 value.toList

/-- The context that is given. -/
def contextOf (arguments : Arguments) : String :=
  (arguments.value? "context").getD defaultContext

/-- The flowchart that is named by the only positional argument, with its context and
configuration. -/
def inputOf? (arguments : Arguments) : Option Input :=
  match arguments.positional with
  | [flowchart] => do
    return {
      flowchart := ← pathOf? flowchart
      context := contextOf arguments
      config? := ← optionalPath? arguments "config" }
  | _ => none

/-! ### Spelling -/

/-- The command `eval`. -/
def evalOf? (words : List String) : Option Command := do
  let arguments ← Arguments.read? [contextSwitch, ⟨"explain", some 'e', false⟩] words
  match arguments.positional with
  | [predicate] => some (.eval predicate (contextOf arguments) (arguments.has "explain"))
  | _ => none

/-- The command `run`. -/
def runOf? (words : List String) : Option Command := do
  let arguments ← Arguments.read? (⟨"max-steps", none, true⟩ :: inputSwitches) words
  return .run (← inputOf? arguments) (← countOr? arguments "max-steps" 1000)

/-- The command `play`. -/
def playOf? (words : List String) : Option Command := do
  let arguments ← Arguments.read? (⟨"max-moves", none, true⟩ :: inputSwitches) words
  return .play (← inputOf? arguments) (← countOr? arguments "max-moves" 100)

/-- The command `suggest`. -/
def suggestOf? (words : List String) : Option Command := do
  let arguments ← Arguments.read?
    ([⟨"strict-types", none, false⟩, ⟨"no-normalize", none, false⟩, ⟨"apply-to", none, true⟩] ++
      inputSwitches) words
  return .suggest (← inputOf? arguments) (arguments.has "strict-types")
    (arguments.has "no-normalize") (← optionalPath? arguments "apply-to")

/-- The command `codegen`. -/
def codeOf? (words : List String) : Option Command := do
  let arguments ← Arguments.read? inputSwitches words
  return .code (← inputOf? arguments)

/-- The command `groups`. -/
def groupsOf? (words : List String) : Option Command := do
  let arguments ← Arguments.read? (⟨"by", none, true⟩ :: inputSwitches) words
  let grouping ← Grouping.ofName? ((arguments.value? "by").getD "group")
  return .groups (← inputOf? arguments) grouping

/-- **The command that the words of a command line spell**, if they spell one. -/
def ofWords? : List String → Option Command
  | "eval" :: words => evalOf? words
  | "run" :: words => runOf? words
  | "play" :: words => playOf? words
  | "suggest" :: words => suggestOf? words
  | "codegen" :: words => codeOf? words
  | "groups" :: words => groupsOf? words
  | _ => none

/-- The files that a command reads. -/
def Input.files (input : Input) : List String :=
  input.flowchart :: input.config?.toList

/-- The files that a command reads. -/
def files : Command → List String
  | eval .. => []
  | run input _ => input.files
  | play input _ => input.files
  | suggest input _ _ _ => input.files
  | code input => input.files
  | groups input _ => input.files

end Command

end Flowchart
