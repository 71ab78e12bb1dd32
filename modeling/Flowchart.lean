import Flowchart.Main
import Flowchart.Proofs.Code.Coverage
import Flowchart.Proofs.Code.Declarations
import Flowchart.Proofs.Code.Nesting
import Flowchart.Proofs.Code.Visits
import Flowchart.Proofs.Command.Suggesting
import Flowchart.Proofs.Document.FirstFault
import Flowchart.Proofs.Document.Reopening
import Flowchart.Proofs.Graph.Editing
import Flowchart.Proofs.Graph.Grouping
import Flowchart.Proofs.Playback.Calls
import Flowchart.Proofs.Predicate.Announced
import Flowchart.Proofs.Predicate.Respelling
import Flowchart.Proofs.Predicate.Shortening
import Flowchart.Proofs.Predicate.Viable
import Flowchart.Proofs.Run.Dependence
import Flowchart.Proofs.Run.Halting
import Flowchart.Proofs.Session.ControlFlow
import Flowchart.Proofs.Session.Deletion
import Flowchart.Proofs.Session.Numbering
import Flowchart.Proofs.Session.Refusal
import Flowchart.Proofs.Session.SelfLoops
import Flowchart.Proofs.Wiring.Nameless
import Flowchart.Proofs.Wiring.Places
