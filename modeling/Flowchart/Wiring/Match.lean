import Flowchart.Graph.Basic

/-!
# Matching ports

Two nodes fit together where an output port of the one and an input port of the other have the same
name. A scan goes through all ordered pairs of different nodes and, for each of them, through all
pairs of an output and an input, in the order in which they are declared. It reports

* no port without a name;
* no pair for which there already is an arrow labeled with the name of the output; and
* each name of an output only once for two nodes, with the types of the first pair that fits.

How names and types are compared is the choice of whoever asks for the scan (`Wiring.Options`).
-/

namespace Flowchart.Wiring

/-- How ports are compared. -/
structure Options where
  /-- Whether names are put into lower case, and everything but letters of ASCII, digits and
  underscores is left out of them, before they are compared. -/
  normalize : Bool
  /-- Whether two declared types have to be equal, exactly as they are written. -/
  strictTypes : Bool
  deriving DecidableEq, Repr

/-- Names are normalized and types need not agree, unless somebody wants it otherwise. -/
def Options.default : Options := ⟨true, false⟩

/-- Whether a character is kept in a normalized name. -/
def isNameChar (c : Char) : Bool :=
  c.isLower || c.isDigit || c = '_'

/-- **A name in the form in which it is compared.** -/
def Options.comparedName (options : Options) (name : String) : List Char :=
  if options.normalize then (Text.lowercase name.toList).filter isNameChar else name.toList

/-- Whether the types of two ports may be connected: one is not declared, or types do not matter, or
they are equal. -/
def Options.typesFit (options : Options) (output input : Port) : Bool :=
  match output.type?, input.type? with
  | some s, some t => !options.strictTypes || s = t
  | _, _ => true

/-- **Whether an output port fits an input port.** -/
def Options.fits (options : Options) (output input : Port) : Bool :=
  output.name ≠ "" && input.name ≠ "" &&
    options.comparedName output.name = options.comparedName input.name &&
    options.typesFit output input

/-- An arrow that could be added between two nodes, labeled with the name of the output port. -/
structure Match where
  source : NodeId
  target : NodeId
  portName : String
  sourceType? : Option String
  targetType? : Option String
  deriving DecidableEq

/-- Whether two matches stand for the same arrow. -/
def Match.sameEdge (m n : Match) : Bool :=
  m.source = n.source && m.target = n.target && m.portName = n.portName

/-- The match of an output port of one node and an input port of another one. -/
def Match.ofPorts (a b : Node) (output input : Port) : Match :=
  ⟨a.id, b.id, output.name, output.type?, input.type?⟩

/-- The ports of two nodes that fit and are not connected yet, outputs first. -/
def matchesBetween (g : Graph) (options : Options) (a b : Node) : List Match :=
  a.details.outputs.flatMap fun output =>
    b.details.inputs.filterMap fun input =>
      let output := Port.ofText output
      let input := Port.ofText input
      if options.fits output input && !g.hasEdge a.id b.id output.name then
        some (.ofPorts a b output input)
      else none

/-- All matches of a graph, with repetitions. -/
def allMatches (g : Graph) (options : Options) : List Match :=
  g.nodes.flatMap fun a =>
    g.nodes.flatMap fun b =>
      if a.id = b.id then [] else matchesBetween g options a b

/-- **The matches of a graph**, the first one for each arrow that could be added. -/
def findMatches (g : Graph) (options : Options) : List Match :=
  (allMatches g options).eraseDupsBy Match.sameEdge

end Flowchart.Wiring
