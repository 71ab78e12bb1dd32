import Flowchart.Command.Basic
import Flowchart.Document.Format
import Flowchart.Playback.Basic
import Flowchart.Predicate.Trace

/-!
# What a command reports

Given the texts of the files it reads, a command determines everything that is printed. A `Report`
holds the lines for the output, the reason if the command fails, and, for the one command that
writes a file, what is to be written and what is printed once that has succeeded.
-/

namespace Flowchart.Command

/-! ### Failures -/

/-- Why a command fails. -/
inductive Failure where
  | flowchartUnreadable (path : String)
  | flowchartMalformed (path : String)
  | flowchartInvalid (path : String) (error : Document.Error)
  | configUnreadable (path : String)
  | configInvalid (path : String) (error : Config.Error)
  | unwritable (path : String)
  deriving DecidableEq

/-- The message of a failure. -/
def Failure.message : Failure → String
  | flowchartUnreadable path =>
    s!"Failed to load flowchart '{path}': Failed to access flowchart file: it cannot be read"
  | flowchartMalformed path =>
    s!"Failed to load flowchart '{path}': Failed to parse flowchart JSON: it is no flowchart"
  | flowchartInvalid path error => s!"Failed to load flowchart '{path}': {error.message}"
  | configUnreadable path =>
    s!"Failed to load configuration '{path}': Failed to read engine configuration: " ++
      "it cannot be read"
  | configInvalid path error => s!"Failed to load configuration '{path}': {error.message}"
  | unwritable path =>
    s!"Failed to write '{path}': Failed to access flowchart file: it cannot be written"

/-- The texts of files, as far as they can be read. -/
abbrev Files := String → Option String

/-- The graph in a file. -/
def loadGraph (files : Files) (path : String) : Except Failure Graph :=
  match files path with
  | none => .error (.flowchartUnreadable path)
  | some text =>
    match Document.ofText? text with
    | none => .error (.flowchartMalformed path)
    | some document => document.toGraph.mapError (.flowchartInvalid path)

/-- The configuration in a file, or the default one if no file is named. -/
def loadConfig (files : Files) : Option String → Except Failure Config
  | none => .ok .default
  | some path =>
    match files path with
    | none => .error (.configUnreadable path)
    | some text => (Config.ofText text).mapError (.configInvalid path)

/-- **The session that a command works in**; the flowchart is loaded before the configuration. -/
def openSession (files : Files) (input : Input) : Except Failure Session := do
  let graph ← loadGraph files input.flowchart
  let config ← loadConfig files input.config?
  return .start graph config input.context

/-! ### Reports -/

/-- A file to be written, and the lines that follow if that succeeds. -/
structure Save where
  path : String
  text : String
  saved : List String
  deriving DecidableEq

/-- Everything that comes of a command. -/
structure Report where
  lines : List String
  /-- Whether the time that the evaluation took is reported behind the lines. -/
  timed : Bool
  failure? : Option Failure
  save? : Option Save
  deriving DecidableEq

/-- A report of some lines. -/
def Report.ofLines (lines : List String) : Report :=
  ⟨lines, false, none, none⟩

/-- The report of a failure. -/
def Report.ofFailure (failure : Failure) : Report :=
  ⟨[], false, some failure, none⟩

/-! ### Evaluating -/

/-- The report of `eval`. -/
def reportEval (predicate contextText : String) (explain : Bool) : Report :=
  let context := Predicate.Context.ofText contextText
  if !explain then .ofLines [Predicate.Value.truthText (Predicate.holds predicate context)]
  else
    match Predicate.compile predicate with
    | .ok e =>
      let x := e.explain context
      { Report.ofLines [
          s!"Result: {Predicate.Value.truthText x.result} (value {x.value.display})",
          "Reason: " ++ x.reason] with timed := true }
    | .error error =>
      .ofLines ["Result: false", "Reason: predicate does not parse: " ++ error.message]

/-! ### Running -/

/-- Fills a text with blanks up to a width. -/
def padRight (width : Nat) (text : String) : String :=
  text ++ String.ofList (List.replicate (width - text.length) ' ')

/-- A node in a report: its id, its shape and its predicate. -/
def describe (g : Graph) (id : NodeId) : String :=
  match g.node? id with
  | none => toString id.toNat
  | some node =>
    let title := s!"{id.toNat} [{node.shape.name}]"
    match node.predicate? with
    | some predicate => title ++ " " ++ predicate
    | none => title

/-- The reason for an arrow, as it is reported. -/
def reasonText : Run.Reason → String
  | .matchesResult result => s!"MatchesResult({Predicate.Value.truthText result})"
  | .unlabeledFallback => "UnlabeledFallback"
  | .defaultPath => "DefaultPath"

/-- The lines of a run of at most so many steps, behind the lines given in reverse. -/
def stepLines (maxSteps : Nat) : Nat → List String → Session → List String
  | 0, before, _ => (s!"Stopped after {maxSteps} steps without halting." :: before).reverse
  | count + 1, before, s =>
    match s.step with
    | (.entered id, s) => stepLines maxSteps count (("enter  " ++ describe s.graph id) :: before) s
    | (.advanced _ chosen, s) =>
      let line := s!"follow #{padRight 3 (toString chosen.index)} " ++
        s!"{padRight 22 (reasonText chosen.reason)} -> {describe s.graph chosen.target}"
      stepLines maxSteps count (line :: before) s
    | (.halted id, s) => (("halt   " ++ describe s.graph id) :: before).reverse
    | (.emptyGraph, _) => ("The flowchart has no nodes." :: before).reverse

/-- A cursor in a report. -/
def cursorLine (g : Graph) : Run.Cursor → String
  | ⟨some id, true⟩ => "at     " ++ describe g id
  | ⟨some id, false⟩ => "paused " ++ describe g id
  | ⟨none, _⟩ => "halted"

/-- The lines of a playback that is running, for at most `count` more ticks after the first `moves`
ones, behind the lines given in reverse. -/
def tickLines (g : Graph) : Nat → Nat → List String → Playback → List String
  | 0, moves, before, _ => (s!"Stopped after {moves} moves." :: before).reverse
  | count + 1, moves, before, p =>
    let p := p.tick
    let cursor := p.broadcast.published
    let before := cursorLine g cursor :: before
    if cursor.running then tickLines g count (moves + 1) before p else before.reverse

/-- The lines of `play`. -/
def playLines (maxMoves : Nat) (s : Session) : List String :=
  match (Playback.start s).toggle true with
  | (.ok .started, p) =>
    tickLines s.graph (max 1 maxMoves) 0 [cursorLine s.graph p.broadcast.published] p
  | _ => ["The flowchart has no nodes."]

/-! ### Suggesting -/

/-- A suggestion in a report. -/
def suggestionLine (s : Wiring.Suggestion) : String :=
  let typeText (type? : Option String) := type?.getD "any"
  s!"{padRight 6 s.id.display} {s.edge.source.toNat} -> {s.edge.target.toNat}  " ++
    s!"port '{s.edge.portName}' " ++
    s!"({typeText s.edge.sourceType?} -> {typeText s.edge.targetType?})"

/-- The options of `suggest`: the switches are stricter than the configuration. -/
def suggestOptions (config : Config) (strictTypes noNormalize : Bool) : Wiring.Options where
  normalize := !noNormalize && config.suggestions.normalize
  strictTypes := strictTypes || config.suggestions.strictTypes

/-- **The report of `suggest`.** Where nothing is suggested, nothing is written either. -/
def reportSuggest (s : Session) (options : Wiring.Options) (applyTo? : Option String) : Report :=
  let s := s.suggest options
  if s.board.isEmpty then .ofLines ["No suggestions."]
  else
    let report := Report.ofLines (s.board.pending.map suggestionLine)
    match applyTo? with
    | none => report
    | some path =>
      let (added, s) := s.apply .all
      { report with
        save? := some ⟨path, s.toDocument.toText, [s!"Added {added} edges, saved to {path}"]⟩ }

/-! ### Grouping -/

/-- Coordinates in a report: never with an exponent, and with nothing behind a whole number. -/
def coordinateLayout : Number.Layout where
  tie := .up
  positional _ := true
  afterWhole := ""
  zero negative := if negative then "-0" else "0"
  infinite negative := if negative then "-inf" else "inf"
  nan := "NaN"

/-- A group in a report. -/
def groupLine (group : Group) : String :=
  let members := ", ".intercalate (group.members.map fun id => toString id.toNat)
  let coordinate := coordinateLayout.write
  s!"{group.id} \"{group.key}\" nodes [{members}] " ++
    s!"at ({coordinate group.box.x}, {coordinate group.box.y}) " ++
    s!"size {coordinate group.box.width}x{coordinate group.box.height}"

/-! ### All commands -/

/-- The report of a command that works in a session. -/
def reportOn (files : Files) (input : Input) (report : Session → Report) : Report :=
  match openSession files input with
  | .ok s => report s
  | .error failure => .ofFailure failure

/-- **The report of a command.** -/
def report (files : Files) : Command → Report
  | eval predicate context explain => reportEval predicate context explain
  | run input maxSteps =>
    reportOn files input fun s => .ofLines (stepLines maxSteps maxSteps [] s)
  | play input maxMoves => reportOn files input fun s => .ofLines (playLines maxMoves s)
  | suggest input strictTypes noNormalize applyTo? =>
    reportOn files input fun s =>
      reportSuggest s (suggestOptions s.config strictTypes noNormalize) applyTo?
  | code input => reportOn files input fun s => .ofLines [s.code]
  | groups input grouping =>
    reportOn files input fun s => .ofLines ((s.groups grouping).map groupLine)

end Flowchart.Command
