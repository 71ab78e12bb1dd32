import Flowchart.Proofs.Graph.Soundness
import Flowchart.Proofs.Rows
import Flowchart.Wiring.Match

/-!
# What a scan reports

A scan goes through all pairs of ports and keeps the first match for each arrow. What it reports is
said here without going through anything: an arrow is reported (`Flowchart.Wiring.Reports`) exactly
if it leads between two different nodes, these declare an output of that name and an input that fits
it (`Flowchart.Wiring.Declares`), and it is not there yet (`Flowchart.Wiring.reports_iff`). And no
arrow is reported twice (`Flowchart.Wiring.pairwise_findMatches`).

The first of these is what a suggestion on the board is measured by, as long as it hangs there.

Arrows that are added silence their own matches and no others: a scan afterwards reports what it
reported before, less those matches, in the same order and with the same types
(`Flowchart.Wiring.findMatches_append`). The types are those of the first match for each arrow, and
they stay the same because all matches for one arrow go or stay together.
-/

namespace Flowchart.Wiring

/-! ### Matches -/

variable {g g' : Graph} {options : Options} {m n : Match}

theorem Match.sameEdge_iff :
    m.sameEdge n = true ↔
      m.source = n.source ∧ m.target = n.target ∧ m.portName = n.portName := by
  simp [sameEdge, and_assoc]

theorem Match.sameEdge_comm : m.sameEdge n = n.sameEdge m := by
  rw [Bool.eq_iff_iff, sameEdge_iff, sameEdge_iff]
  exact ⟨fun ⟨hs, ht, hn⟩ => ⟨hs.symm, ht.symm, hn.symm⟩,
    fun ⟨hs, ht, hn⟩ => ⟨hs.symm, ht.symm, hn.symm⟩⟩

/-- The arrow that a match stands for. -/
def Match.arrow (m : Match) : Edge :=
  ⟨m.source, m.target, some m.portName⟩

theorem Match.sameEdge_iff_arrow_eq : m.sameEdge n = true ↔ m.arrow = n.arrow := by
  rw [sameEdge_iff, arrow, arrow, Edge.mk.injEq, Option.some.injEq]

theorem Match.hasEdge_eq : g.hasEdge m.source m.target m.portName = decide (m.arrow ∈ g.edges) := by
  rw [Bool.eq_iff_iff, decide_eq_true_iff]
  simp [Graph.hasEdge, arrow]

theorem Match.hasEdge_eq_false_iff :
    g.hasEdge m.source m.target m.portName = false ↔ m.arrow ∉ g.edges := by
  rw [hasEdge_eq, decide_eq_false_iff_not]

/-- Two ports fit if both have a name, the names are the same in the form in which they are
compared, and the types fit. -/
theorem Options.fits_iff {output input : Port} :
    options.fits output input = true ↔
      output.name ≠ "" ∧ input.name ≠ "" ∧
        options.comparedName output.name = options.comparedName input.name ∧
        options.typesFit output input = true := by
  simp only [fits, Bool.and_eq_true, decide_eq_true_eq, and_assoc]

/-- An output of one node and an input of another one fit, and the output has a given name. -/
def PortsFit (options : Options) (a b : Node) (name : String) : Prop :=
  ∃ output ∈ a.details.outputs, ∃ input ∈ b.details.inputs,
    (Port.ofText output).name = name ∧
      options.fits (Port.ofText output) (Port.ofText input) = true

/-- **What a scan goes through**: pairs of different nodes with ports that fit, where the arrow is
not there yet. -/
theorem mem_allMatches_iff :
    m ∈ allMatches g options ↔
      ∃ a ∈ g.nodes, ∃ b ∈ g.nodes, a.id ≠ b.id ∧
        ∃ output ∈ a.details.outputs, ∃ input ∈ b.details.inputs,
          options.fits (Port.ofText output) (Port.ofText input) = true ∧
            g.hasEdge a.id b.id (Port.ofText output).name = false ∧
            m = .ofPorts a b (Port.ofText output) (Port.ofText input) := by
  have hbetween : ∀ a b : Node, m ∈ matchesBetween g options a b ↔
      ∃ output ∈ a.details.outputs, ∃ input ∈ b.details.inputs,
        options.fits (Port.ofText output) (Port.ofText input) = true ∧
          g.hasEdge a.id b.id (Port.ofText output).name = false ∧
          m = .ofPorts a b (Port.ofText output) (Port.ofText input) := by
    intro a b
    simp only [matchesBetween, List.mem_flatMap, List.mem_filterMap, Option.ite_none_right_eq_some,
      Bool.and_eq_true, Bool.not_eq_true', Option.some.injEq, and_assoc, eq_comm (b := m)]
  simp only [allMatches, List.mem_flatMap]
  refine exists_congr fun a => and_congr_right fun _ =>
    exists_congr fun b => and_congr_right fun _ => ?_
  by_cases hid : a.id = b.id
  · simp [hid]
  · rw [if_neg hid, hbetween]
    simp [hid]

theorem pairwise_findMatches (g : Graph) (options : Options) :
    (findMatches g options).Pairwise fun m n => m.sameEdge n = false :=
  (pairwise_eraseDupsBy _).imp fun h => Match.sameEdge_comm.trans h

/-- **A match joins two different nodes** of a graph. -/
def Match.Joins (m : Match) (g : Graph) : Prop :=
  m.source ∈ g.ids ∧ m.target ∈ g.ids ∧ m.source ≠ m.target

theorem Match.Joins.addEdge (h : m.Joins g) :
    g.addEdge m.source m.target (some m.portName) =
      .ok (g.edges.length, { g with edges := g.edges ++ [m.arrow] }) := by
  obtain ⟨hsource, htarget, hne⟩ := h
  exact Graph.addEdge_eq_ok_iff.mpr ⟨hne, Graph.contains_iff_mem_ids.mpr hsource,
    Graph.contains_iff_mem_ids.mpr htarget, rfl, rfl⟩

/-! ### What is reported -/

/-- **A scan reports the arrow of a match**, perhaps with other types. -/
def Reports (g : Graph) (options : Options) (m : Match) : Prop :=
  ∃ found ∈ findMatches g options, m.sameEdge found = true

instance : Decidable (Reports g options m) :=
  inferInstanceAs (Decidable (∃ found ∈ findMatches g options, m.sameEdge found = true))

/-- **The ports of a match are declared**: its source has an output of its name, and its target an
input that fits. -/
def Declares (g : Graph) (options : Options) (m : Match) : Prop :=
  ∃ a ∈ g.nodes, a.id = m.source ∧ ∃ b ∈ g.nodes, b.id = m.target ∧
    PortsFit options a b m.portName

theorem reports_of_mem_findMatches (h : m ∈ findMatches g options) : Reports g options m :=
  ⟨m, h, Match.sameEdge_iff.mpr ⟨rfl, rfl, rfl⟩⟩

/-- **What a scan reports**: the arrows between different nodes with ports that fit, unless they are
there already. -/
theorem reports_iff :
    Reports g options m ↔ m.source ≠ m.target ∧ Declares g options m ∧ m.arrow ∉ g.edges := by
  rw [← Match.hasEdge_eq_false_iff]
  constructor
  · rintro ⟨found, hfound, hsame⟩
    obtain ⟨hsource, htarget, hname⟩ := Match.sameEdge_iff.mp hsame
    obtain ⟨a, ha, b, hb, hne, output, houtput, input, hinput, hfits, hedge, rfl⟩ :=
      mem_allMatches_iff.mp ((eraseDupsBy_sublist _).subset hfound)
    rw [hsource, htarget, hname]
    exact ⟨hne, ⟨a, ha, hsource.symm, b, hb, htarget.symm, output, houtput, input, hinput,
      hname.symm, hfits⟩, hedge⟩
  · rintro ⟨hne, ⟨a, ha, hsource, b, hb, htarget, output, houtput, input, hinput, hname, hfits⟩,
      hedge⟩
    rw [← hsource, ← htarget] at hne
    rw [← hsource, ← htarget, ← hname] at hedge
    have hmem : Match.ofPorts a b (Port.ofText output) (Port.ofText input) ∈
        allMatches g options :=
      mem_allMatches_iff.mpr
        ⟨a, ha, b, hb, hne, output, houtput, input, hinput, hfits, hedge, rfl⟩
    -- the first match of this arrow is the one that is kept
    obtain ⟨found, hfound, hsame⟩ :=
      exists_mem_eraseDupsBy (fun m => Match.sameEdge_iff.mpr ⟨rfl, rfl, rfl⟩) hmem
    obtain ⟨hsource', htarget', hname'⟩ := Match.sameEdge_iff.mp hsame
    exact ⟨found, hfound, Match.sameEdge_iff.mpr
      ⟨hsource.symm.trans hsource', htarget.symm.trans htarget', hname.symm.trans hname'⟩⟩

theorem Reports.joins (h : Reports g options m) : m.Joins g := by
  obtain ⟨hne, ⟨a, ha, hsource, b, hb, htarget, -⟩, -⟩ := reports_iff.mp h
  exact ⟨Graph.mem_ids.mpr ⟨a, ha, hsource⟩, Graph.mem_ids.mpr ⟨b, hb, htarget⟩, hne⟩

theorem Reports.arrow_not_mem (h : Reports g options m) : m.arrow ∉ g.edges :=
  (reports_iff.mp h).2.2

/-- **A scan proposes nothing but arrows between two different nodes** of the graph. -/
theorem joins_of_mem_findMatches (h : m ∈ findMatches g options) : m.Joins g :=
  (reports_of_mem_findMatches h).joins

/-- Ports stay declared where the nodes keep their details. -/
theorem Declares.of_kept (h : Declares g options m)
    (hkept : ∀ node ∈ g.nodes, node.id = m.source ∨ node.id = m.target →
      ∃ node' ∈ g'.nodes, node'.id = node.id ∧ node'.details = node.details) :
    Declares g' options m := by
  obtain ⟨a, ha, hsource, b, hb, htarget, output, houtput, input, hinput, hfits⟩ := h
  obtain ⟨a', ha', haid, hadetails⟩ := hkept a ha (Or.inl hsource)
  obtain ⟨b', hb', hbid, hbdetails⟩ := hkept b hb (Or.inr htarget)
  exact ⟨a', ha', haid.trans hsource, b', hb', hbid.trans htarget,
    output, hadetails ▸ houtput, input, hbdetails ▸ hinput, hfits⟩

/-! ### Scanning after arrows were added -/

/-- Two nodes have the same matches after arrows were added, except for those arrows. -/
theorem matchesBetween_append (g : Graph) (options : Options) (added : List Edge) (a b : Node) :
    matchesBetween { g with edges := g.edges ++ added } options a b =
      (matchesBetween g options a b).filter fun m => m.arrow ∉ added := by
  simp only [matchesBetween, List.filter_flatMap, List.filter_filterMap]
  refine List.flatMap_congr fun output _ => List.filterMap_congr fun input _ => ?_
  have hedge : ∀ h : Graph, h.hasEdge a.id b.id (Port.ofText output).name =
      decide ((Match.ofPorts a b (Port.ofText output) (Port.ofText input)).arrow ∈ h.edges) :=
    fun h => Match.hasEdge_eq (g := h) (m := .ofPorts a b (Port.ofText output) (Port.ofText input))
  rw [hedge, hedge]
  generalize Match.ofPorts a b (Port.ofText output) (Port.ofText input) = m
  by_cases hold : m.arrow ∈ g.edges <;> by_cases hnew : m.arrow ∈ added <;>
    cases options.fits (Port.ofText output) (Port.ofText input) <;>
    simp [hold, hnew, Option.filter]

/-- A graph has the same matches after arrows were added, except for those arrows. -/
theorem allMatches_append (g : Graph) (options : Options) (added : List Edge) :
    allMatches { g with edges := g.edges ++ added } options =
      (allMatches g options).filter fun m => m.arrow ∉ added := by
  simp only [allMatches, List.filter_flatMap]
  refine List.flatMap_congr fun a _ => List.flatMap_congr fun b _ => ?_
  split
  · rfl
  · exact matchesBetween_append g options added a b

/-- **A scan after arrows were added** finds what it found before, in the same order and with the
same types, less the matches of those arrows. -/
theorem findMatches_append (g : Graph) (options : Options) (added : List Edge) :
    findMatches { g with edges := g.edges ++ added } options =
      (findMatches g options).filter fun m => m.arrow ∉ added := by
  rw [findMatches, allMatches_append]
  refine eraseDupsBy_filter (fun hsame => ?_) _
  rw [Match.sameEdge_iff_arrow_eq.mp hsame]

end Flowchart.Wiring
