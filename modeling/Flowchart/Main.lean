import Flowchart.Command.Report

/-!
# The command line

Reads the files that a command names, prints its report, and writes the file that it asks for. The
exit code is `2` for a line that spells no command and `1` for a command that fails.
-/

namespace Flowchart.Command

/-- How commands are spelled. -/
def usage : String :=
  "Usage: eval PREDICATE [-c JSON] [-e]\n" ++
  "       run FILE [-c JSON] [--config FILE] [--max-steps N]\n" ++
  "       play FILE [-c JSON] [--config FILE] [--max-moves N]\n" ++
  "       suggest FILE [-c JSON] [--config FILE] [--strict-types] [--no-normalize]\n" ++
  "               [--apply-to FILE]\n" ++
  "       codegen FILE [-c JSON] [--config FILE]\n" ++
  "       groups FILE [-c JSON] [--config FILE] [--by group|label|shape]"

/-- The text of a file, if it can be read. -/
def readText? (path : String) : IO (Option String) := do
  try return some (← IO.FS.readFile path)
  catch _ => return none

/-- Writes a file, and tells whether that succeeded. -/
def writeText (path text : String) : IO Bool := do
  try
    IO.FS.writeFile path text
    return true
  catch _ => return false

/-- Prints why a command fails, and returns its exit code. -/
def exitWith (failure : Failure) : IO UInt32 := do
  IO.eprintln s!"\nError: {failure.message}"
  return 1

/-- Carries out a command, and returns its exit code. -/
def execute (command : Command) : IO UInt32 := do
  let texts ← command.files.mapM fun path => return (path, ← readText? path)
  let started ← IO.monoNanosNow
  let report := command.report fun path => (texts.lookup path).join
  report.lines.forM IO.println
  if report.timed then
    let elapsed := (← IO.monoNanosNow) - started
    IO.println s!"Evaluated in {elapsed}ns"
  if let some failure := report.failure? then return ← exitWith failure
  if let some save := report.save? then
    if ← writeText save.path save.text then save.saved.forM IO.println
    else return ← exitWith (.unwritable save.path)
  return 0

end Flowchart.Command

/-- Carries out the command that the arguments spell. -/
def main (arguments : List String) : IO UInt32 :=
  match Flowchart.Command.ofWords? arguments with
  | some command => command.execute
  | none => do
    IO.eprintln Flowchart.Command.usage
    return 2
