import Flowchart.Proofs.Run.Stepping
import Flowchart.Proofs.Session.Staleness

/-!
# Applied suggestions stay out of the way

The arrow of a suggestion stands for a value that goes from one node to another, but it is put into
the same row as the arrows that execution follows. So applying suggestions could lead a run astray.
It does not, for three reasons:

* a new arrow comes behind all others, so it is not the first one of a node that had any before
  (`Flowchart.Graph.exists_outgoing_append`);
* it is labeled with the name of a port, which is not empty, since a scan passes over ports without
  a name (`Flowchart.Session.portName_ne_empty_after_start`), so it is no fallback;
* and it is not taken for the result of a predicate, unless the port is called `true` or `false`.

An arrow of this kind is *inert* (`Flowchart.Edge.IsInert`). Inert arrows at the end of the row
change nothing about the candidates behind a node (`Flowchart.Run.candidates_append`).
-/

namespace Flowchart

open Predicate.Value (truthText)

/-- **Inert arrows** have a label, and it is neither of the two results. -/
def Edge.IsInert (edge : Edge) : Prop :=
  edge.isUnlabeled = false ∧ ∀ result, edge.isLabeled (truthText result) = false

/-- An arrow added at the end leaves its node behind all those that left it before. -/
theorem Graph.exists_outgoing_append (g : Graph) (added : List Edge) (id : NodeId) :
    ∃ behind, (∀ x ∈ behind, x.1 ∈ added) ∧
      ({ g with edges := g.edges ++ added } : Graph).outgoing id = g.outgoing id ++ behind := by
  refine ⟨(added.zipIdx (0 + g.edges.length)).filter (·.1.source = id), fun x hx => ?_, ?_⟩
  · exact List.fst_mem_of_mem_zipIdx (List.mem_of_mem_filter hx)
  · rw [outgoing, List.zipIdx_append, List.filter_append, outgoing]

namespace Run

/-! ### Candidates -/

/-- **Inert arrows behind others** are not considered. -/
theorem candidatesAmong_append {out behind : List (Edge × Nat)} (hout : out ≠ [])
    (hinert : ∀ x ∈ behind, x.1.IsInert) (predicate? : Option String)
    (context : Predicate.Context) :
    candidatesAmong (out ++ behind) predicate? context =
      candidatesAmong out predicate? context := by
  have hfirst : (out ++ behind).take 1 = out.take 1 :=
    List.take_append_of_le_length (List.length_pos_of_ne_nil hout)
  have hnone : ∀ p : Edge → Bool, (∀ x ∈ behind, p x.1 = false) →
      (out ++ behind).filter (p ·.1) = out.filter (p ·.1) := by
    intro p hp
    rw [List.filter_append, List.append_right_eq_self, List.filter_eq_nil_iff]
    exact fun x hx => Bool.eq_false_iff.mp (hp x hx)
  cases predicate? with
  | none => simp only [candidatesAmong, hfirst]
  | some predicate =>
    have hlabeled := hnone (Edge.isLabeled · (truthText (Predicate.holds predicate context)))
      fun x hx => (hinert x hx).2 _
    have hunlabeled := hnone Edge.isUnlabeled fun x hx => (hinert x hx).1
    simp only [candidatesAmong, hfirst, hlabeled, hunlabeled]

/-- **Inert arrows at the end of the row change nothing** about the candidates behind a node that
some arrow left before. -/
theorem candidates_append {g : Graph} {added : List Edge} {id : NodeId}
    (hleft : ∃ edge ∈ g.edges, edge.source = id) (hinert : ∀ edge ∈ added, edge.IsInert)
    (context : Predicate.Context) :
    candidates { g with edges := g.edges ++ added } id context = candidates g id context := by
  obtain ⟨behind, hmem, hout⟩ := g.exists_outgoing_append added id
  have hne : g.outgoing id ≠ [] := by
    rw [ne_eq, Graph.outgoing_eq_nil_iff]
    obtain ⟨edge, hedge, hsource⟩ := hleft
    exact fun hnone => hnone edge hedge hsource
  have hnode : ({ g with edges := g.edges ++ added } : Graph).node? id = g.node? id := rfl
  unfold candidates
  rw [hout, hnode]
  cases g.node? id with
  | none => rfl
  | some node => exact candidatesAmong_append hne (fun x hx => hinert x.1 (hmem x hx)) _ _

end Run

namespace Session

open Wiring

/-! ### Suggested arrows -/

/-- Suggested arrows are added at the end. -/
theorem foldl_addSuggested_eq_append (g : Graph) (ms : List Match) :
    ∃ added : List Edge, (∀ edge ∈ added, ∃ m ∈ ms, edge = m.arrow) ∧
      ms.foldl addSuggested g = { g with edges := g.edges ++ added } := by
  refine foldl_addSuggested_of
    (P := fun g' => ∃ added : List Edge, (∀ edge ∈ added, ∃ m ∈ ms, edge = m.arrow) ∧
      g' = { g with edges := g.edges ++ added })
    ⟨[], fun _ hnone => absurd hnone List.not_mem_nil, by rw [List.append_nil]⟩ ?_
  rintro _ ⟨added, hadded, rfl⟩ m hm - -
  refine ⟨added ++ [m.arrow], fun edge hedge => ?_, by rw [List.append_assoc]⟩
  rcases List.mem_append.mp hedge with hearlier | hnew
  · exact hadded edge hearlier
  · exact ⟨m, hm, List.mem_singleton.mp hnew⟩

/-- **A scan finds no port without a name.** -/
theorem portName_ne_empty_of_mem_findMatches {g : Graph} {options : Options} {m : Match}
    (h : m ∈ findMatches g options) : m.portName ≠ "" := by
  obtain ⟨a, -, b, -, -, output, -, input, -, hfits, -, rfl⟩ :=
    mem_allMatches_iff.mp ((eraseDupsBy_sublist _).subset h)
  exact (Options.fits_iff.mp hfits).1

/-- The port of a pending suggestion has a name, whatever was done. -/
theorem portName_ne_empty_after_start {g : Graph} {config : Config} {contextText : String}
    {actions : List Action} {m : Match}
    (h : m ∈ ((start g config contextText).after actions).board.edges) : m.portName ≠ "" := by
  rcases mem_edges_after h with ⟨hmem, -⟩ | ⟨earlier, options, later, -, -, hfound⟩
  · exact absurd hmem List.not_mem_nil
  · exact portName_ne_empty_of_mem_findMatches hfound

/-- The arrow of a match is inert if its port has a name other than the two results. -/
theorem isInert_arrow {m : Match} (hname : m.portName ≠ "")
    (hresult : ∀ result, Text.equalsIgnoringCase m.portName (truthText result) = false) :
    m.arrow.IsInert :=
  ⟨decide_eq_false hname, hresult⟩

/-- **Applying suggestions does not redirect execution.** After any operations, suggestions are
applied of which none is for a port called `true` or `false`, in small or in capital letters. Then
the candidates behind every node that some arrow left before are the same as before, in every
context, with their places, their targets and their reasons; and so is a step from there. -/
theorem candidates_apply_after_start (g : Graph) (config : Config) (contextText : String)
    (actions : List Action) (scope : Scope) :
    let s := (start g config contextText).after actions
    (∀ t ∈ s.board.pending, scope = .all ∨ t.selected →
      ∀ result, Text.equalsIgnoringCase t.edge.portName (truthText result) = false) →
    ∀ id context, (∃ edge ∈ s.graph.edges, edge.source = id) →
      Run.candidates (s.apply scope).2.graph id context = Run.candidates s.graph id context ∧
        ∀ e : Run.Execution, e.cursor.current = some id →
          e.step (s.apply scope).2.graph context = e.step s.graph context := by
  intro s hnames id context hleft
  obtain ⟨added, hadded, hgraph⟩ :=
    foldl_addSuggested_eq_append s.graph ((s.board.take scope).1.map (·.edge))
  have hinert : ∀ edge ∈ added, edge.IsInert := by
    intro edge hedge
    obtain ⟨m, hm, rfl⟩ := hadded edge hedge
    obtain ⟨t, ht, rfl⟩ := List.mem_map.mp hm
    obtain ⟨hpending, hincluded⟩ := List.mem_filter.mp ht
    refine isInert_arrow (portName_ne_empty_after_start (List.mem_map_of_mem hpending)) ?_
    refine hnames t hpending ?_
    cases scope with
    | all => exact .inl rfl
    | selected => exact .inr hincluded
  have hcandidates : Run.candidates (s.apply scope).2.graph id context =
      Run.candidates s.graph id context := by
    change Run.candidates (((s.board.take scope).1.map (·.edge)).foldl addSuggested s.graph) id
      context = _
    rw [hgraph]
    exact Run.candidates_append hleft hinert context
  refine ⟨hcandidates, fun e hcurrent => ?_⟩
  have hchosen : Run.choose? (s.apply scope).2.graph id context =
      Run.choose? s.graph id context := congrArg List.head? hcandidates
  cases hchoose : Run.choose? s.graph id context with
  | some chosen =>
    rw [Run.Execution.step_of_choose? hcurrent (hchosen.trans hchoose),
      Run.Execution.step_of_choose? hcurrent hchoose]
  | none =>
    rw [Run.Execution.step_of_choose?_eq_none hcurrent (hchosen.trans hchoose),
      Run.Execution.step_of_choose?_eq_none hcurrent hchoose]

/-- An arrow for the output `n` is added to a decision that two arrows leave already, and to another
node that one arrow leaves. A decision without an arrow labeled like its result still falls back on
the arrow without a label, and a step follows it; the other node takes its first one. -/
theorem candidates_apply_after_start_fallback :
    let d : Document := ⟨"1.0",
      [⟨1, ⟨0, 0⟩, .square, some "x", ⟨none, none, ["n"], ["n"]⟩⟩,
        ⟨2, ⟨0, 0⟩, .circle, none, ⟨none, none, ["n"], ["n"]⟩⟩],
      [⟨1, 2, some "TRUE"⟩, ⟨1, 2, none⟩, ⟨2, 1, some "back"⟩], none⟩
    let g := Graph.ofParts d.nodes d.edges
    let s := (start g .default "").after [.suggest .default]
    d.toGraph = .ok g ∧
      (∀ t ∈ s.board.pending, Scope.all = .all ∨ t.selected →
        ∀ result, Text.equalsIgnoringCase t.edge.portName (truthText result) = false) ∧
      (s.apply .all).1 = 2 ∧
      Run.candidates (s.apply .all).2.graph 1 .empty = [⟨1, 2, .unlabeledFallback⟩] ∧
      Run.candidates (s.apply .all).2.graph 2 .empty = [⟨2, 1, .defaultPath⟩] ∧
      ((Run.Execution.initial.moveTo 1).step (s.apply .all).2.graph .empty).1 =
        .advanced 1 ⟨1, 2, .unlabeledFallback⟩ := by
  intro d g s
  have hnames : ∀ t ∈ s.board.pending, Scope.all = .all ∨ t.selected →
      ∀ result, Text.equalsIgnoringCase t.edge.portName (truthText result) = false := by
    decide +kernel
  have hsame := candidates_apply_after_start g .default "" [.suggest .default] .all hnames
  have hdecision : Run.candidates s.graph 1 .empty = [⟨1, 2, .unlabeledFallback⟩] := by
    decide +kernel
  have hother : Run.candidates s.graph 2 .empty = [⟨2, 1, .defaultPath⟩] := by decide +kernel
  have hstep : ((Run.Execution.initial.moveTo 1).step s.graph .empty).1 =
      .advanced 1 ⟨1, 2, .unlabeledFallback⟩ := by decide +kernel
  obtain ⟨hfirst, hsteps⟩ := hsame 1 .empty ⟨⟨1, 2, none⟩, by decide +kernel, rfl⟩
  obtain ⟨hsecond, -⟩ := hsame 2 .empty ⟨⟨2, 1, some "back"⟩, by decide +kernel, rfl⟩
  exact ⟨rfl, hnames, by decide +kernel, hfirst.trans hdecision, hsecond.trans hother,
    (congrArg Prod.fst (hsteps (Run.Execution.initial.moveTo 1) rfl)).trans hstep⟩

end Session

end Flowchart
