import Flowchart.Wiring.Match

/-!
# The board of suggestions

Matches that wait for a decision are suggestions, and they hang on a board. Every suggestion has a
number of its own; the board counts them up and never gives a number twice. A new scan replaces
everything that hangs there, and to begin with every suggestion is selected.
-/

namespace Flowchart.Wiring

/-- The number of a suggestion. -/
structure SuggestionId where
  /-- One of those that the board counts up. -/
  number : Nat
  deriving DecidableEq, Repr

/-- The number as it is shown. -/
def SuggestionId.display (id : SuggestionId) : String :=
  "s-" ++ toString id.number

/-- A match that waits for a decision. -/
structure Suggestion where
  id : SuggestionId
  edge : Match
  selected : Bool
  deriving DecidableEq

/-- Whether a node is one of the two ends of a suggestion. -/
def Suggestion.touches (s : Suggestion) (id : NodeId) : Bool :=
  s.edge.source = id || s.edge.target = id

/-- Which suggestions are meant. -/
inductive Scope where
  | all
  | selected
  deriving DecidableEq, Repr

/-- Whether a suggestion is meant. -/
def Scope.includes : Scope → Suggestion → Bool
  | all, _ => true
  | selected, s => s.selected

/-- The suggestions that are pending, and how many numbers have been given out so far. -/
structure Board where
  pending : List Suggestion
  /-- The count of the suggestions that were ever created. It goes on without an end; 64 bits hold
  it for fewer than `2 ^ 64` suggestions. -/
  issued : Nat
  deriving DecidableEq

namespace Board

/-- A board on which nothing has hung yet. -/
def empty : Board := ⟨[], 0⟩

instance : Inhabited Board := ⟨empty⟩

/-- Numbers matches from `issued + 1` upwards. -/
def number (issued : Nat) (found : List Match) : List Suggestion :=
  found.zipIdx.map fun (edge, index) => ⟨⟨issued + index + 1⟩, edge, true⟩

/-- The numbers given to matches lie above those given before, and within the new count. -/
theorem number_bounds {issued : Nat} {found : List Match} {s : Suggestion}
    (h : s ∈ number issued found) :
    issued < s.id.number ∧ s.id.number ≤ issued + found.length := by
  obtain ⟨⟨edge, index⟩, hmem, rfl⟩ := List.mem_map.1 h
  have hindex : index < found.length :=
    (List.getElem?_eq_some_iff.1 (List.mem_zipIdx_iff_getElem?.1 hmem)).1
  constructor
  · show issued < issued + index + 1
    omega
  · show issued + index + 1 ≤ issued + found.length
    omega

/-- **Replaces what is pending by a new scan.** -/
def compute (board : Board) (g : Graph) (options : Options) : Board :=
  let found := findMatches g options
  { pending := number board.issued found, issued := board.issued + found.length }

/-- Whether nothing is pending. -/
def isEmpty (board : Board) : Bool :=
  board.pending.isEmpty

/-- The pending suggestion with a given number. -/
def find? (board : Board) (id : SuggestionId) : Option Suggestion :=
  board.pending.find? (·.id = id)

/-- **Turns the selection of a suggestion around**, and returns whether it is selected now, if it is
pending at all. -/
def toggle (board : Board) (id : SuggestionId) : Option Bool × Board :=
  ((board.find? id).map fun s => !s.selected,
    { board with
      pending := board.pending.modify (board.pending.findIdx (·.id = id)) fun s =>
        { s with selected := !s.selected } })

/-- **Takes the suggestions that are meant off the board.** -/
def take (board : Board) (scope : Scope) : List Suggestion × Board :=
  (board.pending.filter scope.includes,
    { board with pending := board.pending.filter (!scope.includes ·) })

/-- Drops the suggestions that touch a node. -/
def forget (board : Board) (id : NodeId) : Board :=
  { board with pending := board.pending.filter (!·.touches id) }

/-- Drops all suggestions. -/
def clear (board : Board) : Board :=
  { board with pending := [] }

end Board

end Flowchart.Wiring
