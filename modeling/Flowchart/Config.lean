import Flowchart.Json.Reader
import Flowchart.Wiring.Match

/-!
# Configuration

How long a run waits between two ticks, and how ports are compared. A configuration may be given as
a JSON record from which any field may be missing; the wait has to be at least one millisecond.
-/

namespace Flowchart

/-- The tunable parts of a session. -/
structure Config where
  /-- The time between two ticks of a run, in milliseconds. -/
  tickInterval : UInt64
  suggestions : Wiring.Options
  deriving DecidableEq

namespace Config

/-- What is used when nothing else is asked for. -/
def default : Config := ⟨700, .default⟩

/-- What is wrong with a configuration. -/
inductive Error where
  /-- The text is no JSON, or not a record of the right form. -/
  | malformed
  | zeroTickInterval
  deriving DecidableEq

/-- The message of an error. -/
def Error.message : Error → String
  | malformed => "Failed to parse engine configuration: "
  | zeroTickInterval => "Tick interval must be at least 1 ms"

end Config

namespace Wiring.Options

/-- The options that a JSON value describes. -/
def ofJson? (json : Json) : Option Options := do
  let fields ← json.record? ["normalize", "strictTypes"]
  return {
    normalize := ← fields.getD? "normalize" Options.default.normalize Json.toBool?
    strictTypes := ← fields.getD? "strictTypes" Options.default.strictTypes Json.toBool? }

/-- The JSON form of options. -/
def toJson (options : Options) : Json :=
  Json.ofFields [("normalize", .bool options.normalize), ("strictTypes", .bool options.strictTypes)]

end Wiring.Options

namespace Config

/-- The configuration that a JSON value describes. -/
def ofJson? (json : Json) : Option Config := do
  let fields ← json.record? ["tickIntervalMs", "suggestions"]
  return {
    tickInterval := ← fields.getD? "tickIntervalMs" Config.default.tickInterval Json.toWord?
    suggestions :=
      ← fields.getD? "suggestions" Config.default.suggestions Wiring.Options.ofJson? }

/-- The JSON form of a configuration. -/
def toJson (config : Config) : Json :=
  Json.ofFields [("tickIntervalMs", Json.ofNat config.tickInterval.toNat),
    ("suggestions", config.suggestions.toJson)]

/-- **The configuration in a text.** -/
def ofText (text : String) : Except Error Config :=
  match (Json.parse? text).bind ofJson? with
  | none => .error .malformed
  | some config => if config.tickInterval = 0 then .error .zeroTickInterval else .ok config

end Config

end Flowchart
