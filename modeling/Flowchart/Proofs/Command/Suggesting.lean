import Flowchart.Command.Report
import Flowchart.Proofs.Session.Applying
import Flowchart.Proofs.Session.Export

/-!
# Suggesting on the command line

The command `suggest` loads a flowchart, prints what a scan finds, and, if it is given a path, adds
all the arrows that were found and saves the flowchart there. On the way it goes through a text
twice, where the flowchart is loaded and where it is saved. What was loaded has finite coordinates
and ids within range, and adding arrows between its nodes changes neither; so what is saved can be
loaded again (`Flowchart.Document.toGraph_ofCompleted`). It is the graph with the arrows if the
coordinates are read back. As every arrow that was found is there now, the same command finds
nothing in it (`Flowchart.Wiring.findMatches_completed`).

All this is about a command that finds something. One that finds nothing says so and ends before it
comes to saving. The path that it was given is then not written to, and where there was no file,
there is none (`Flowchart.Command.report_suggest_unsaved`).
-/

namespace Flowchart

open Wiring (Match Options findMatches)

variable {g : Graph} {options : Options}

/-! ### Adding everything that is found -/

/-- **A graph with all the arrows that a scan finds.** -/
def Wiring.completed (g : Graph) (options : Options) : Graph :=
  { g with edges := g.edges ++ (findMatches g options).map Match.arrow }

/-- **Nothing is found once everything has been added.** -/
theorem Wiring.findMatches_completed (g : Graph) (options : Options) :
    findMatches (completed g options) options = [] := by
  rw [completed, findMatches_append, List.filter_eq_nil_iff]
  intro m hm
  simpa using List.mem_map_of_mem hm

namespace Session

/-- Something hangs on the board after a scan exactly if the scan found something. -/
theorem isEmpty_board_suggest (s : Session) (options : Options) :
    (s.suggest options).board.isEmpty = (findMatches s.graph options).isEmpty := by
  rw [← s.board.edges_compute s.graph options, Wiring.Board.edges, List.isEmpty_map]
  rfl

/-- Applying everything that was found completes the graph. -/
theorem graph_apply_suggest (s : Session) (options : Options) :
    ((s.suggest options).apply .all).2.graph = Wiring.completed s.graph options := by
  have hall : (s.suggest options).board.pending.filter Wiring.Scope.all.includes =
      (s.suggest options).board.pending := List.filter_eq_self.mpr fun _ _ => rfl
  have htaken : ((s.suggest options).board.take .all).1.map (·.edge) =
      findMatches s.graph options := by
    rw [Wiring.Board.take, hall]
    exact s.board.edges_compute s.graph options
  have hreports : ∀ m ∈ findMatches s.graph options, Wiring.Reports s.graph options m :=
    fun m hm => Wiring.reports_of_mem_findMatches hm
  change (((s.suggest options).board.take .all).1.map (·.edge)).foldl addSuggested s.graph = _
  rw [htaken, foldl_addSuggested_eq (fun m hm => (hreports m hm).joins)
    (fun m hm => (hreports m hm).arrow_not_mem) (Wiring.pairwise_findMatches s.graph options)]
  rfl

end Session

namespace Document

variable {d : Document}

/-- **The document of a completed graph**, with its code. -/
def ofCompleted (g : Graph) (options : Options) : Document :=
  { ofGraph (Wiring.completed g options) with
    generatedCode := some (Code.generate (Wiring.completed g options)) }

/-- **A graph that was opened can be opened again** when everything that is found has been added. -/
theorem toGraph_ofCompleted (h : d.toGraph = .ok g) (options : Options) :
    (ofCompleted g options).toGraph = .ok (Wiring.completed g options) := by
  obtain ⟨-, hrange, hnodup, hends, rfl⟩ := toGraph_eq_ok_iff.mp h
  refine toGraph_eq_ok_iff.mpr ⟨rfl, hrange, hnodup, fun edge hedge => ?_, rfl⟩
  rcases List.mem_append.mp hedge with hold | hnew
  · exact hends edge hold
  · obtain ⟨m, hm, rfl⟩ := List.mem_map.mp hnew
    obtain ⟨hsource, htarget, -⟩ := Wiring.joins_of_mem_findMatches hm
    exact ⟨hsource, htarget⟩

theorem IsFinite.ofCompleted (hd : d.IsFinite) (h : d.toGraph = .ok g) (options : Options) :
    (ofCompleted g options).IsFinite := by
  obtain ⟨-, -, -, -, rfl⟩ := toGraph_eq_ok_iff.mp h
  exact hd

/-- **What could be loaded once can be saved and loaded again**, with the same ids and with all the
arrows that were found. -/
theorem exists_reread?_ofCompleted {text : String} (hread : ofText? text = some d)
    (hopen : d.toGraph = .ok g) (options : Options) :
    ∃ d', (ofCompleted g options).reread? = some d' ∧ d'.nodes.map Node.id = g.ids ∧
      d'.toGraph = .ok (.ofParts d'.nodes (Wiring.completed g options).edges) := by
  have hfinite := (isFinite_of_ofText? hread).ofCompleted hopen options
  obtain ⟨d', hread'⟩ := Option.isSome_iff_exists.mp ((isSome_reread? _).mpr hfinite)
  refine ⟨d', hread', ids_of_reread? hread', ?_⟩
  rw [toGraph_of_reread? hread', toGraph_ofCompleted hopen]
  rfl

end Document

namespace Command

variable {files : Files} {input : Input} {config : Config} {s : Session} {path : String}

/-! ### Loading -/

/-- **A graph is loaded** from a text with a document that is opened. -/
theorem loadGraph_eq_ok_iff :
    loadGraph files path = .ok g ↔
      ∃ text d, files path = some text ∧ Document.ofText? text = some d ∧ d.toGraph = .ok g := by
  rw [loadGraph]
  cases files path with
  | none => simp
  | some text =>
    cases hread : Document.ofText? text with
    | none => simp [hread]
    | some d => cases hopen : d.toGraph <;> simp [Except.mapError, hread, hopen]

theorem loadGraph_of_readsBack {d : Document} (hd : d.ReadsBack) (hopen : d.toGraph = .ok g)
    (hfile : files path = some d.toText) : loadGraph files path = .ok g :=
  loadGraph_eq_ok_iff.mpr ⟨d.toText, d, hfile, d.ofText?_toText_eq_some_iff.mpr hd, hopen⟩

/-- A command that can load its flowchart and its configuration begins with them. -/
theorem reportOn_eq (hgraph : loadGraph files input.flowchart = .ok g)
    (hconfig : loadConfig files input.config? = .ok config) (report : Session → Report) :
    reportOn files input report = report (.start g config input.context) := by
  rw [reportOn, openSession, hgraph, hconfig]
  rfl

/-! ### What is reported -/

/-- **Where nothing is found**, nothing but this is reported. -/
theorem reportSuggest_of_nil (h : findMatches s.graph options = []) (applyTo? : Option String) :
    reportSuggest s options applyTo? = .ofLines ["No suggestions."] := by
  rw [reportSuggest, if_pos]
  rw [s.isEmpty_board_suggest, h]
  rfl

/-- **Where something is found**, everything is added and saved. -/
theorem reportSuggest_of_ne_nil (h : findMatches s.graph options ≠ []) (path : String) :
    reportSuggest s options (some path) =
      { Report.ofLines ((s.suggest options).board.pending.map suggestionLine) with
        save? := some ⟨path, (Document.ofCompleted s.graph options).toText,
          [s!"Added {((s.suggest options).apply .all).1} edges, saved to {path}"]⟩ } := by
  have hboard : (s.suggest options).board.isEmpty ≠ true := by
    rw [s.isEmpty_board_suggest]
    simpa using h
  rw [reportSuggest, if_neg hboard, Document.ofCompleted, ← s.graph_apply_suggest options]
  rfl

/-- What `suggest` does is decided by what it finds in the flowchart. -/
theorem report_suggest_eq (hgraph : loadGraph files input.flowchart = .ok g)
    (hconfig : loadConfig files input.config? = .ok config) (strictTypes noNormalize : Bool)
    (applyTo? : Option String) :
    report files (.suggest input strictTypes noNormalize applyTo?) =
      reportSuggest (.start g config input.context)
        (suggestOptions config strictTypes noNormalize) applyTo? :=
  reportOn_eq hgraph hconfig _

/-- **What `suggest` leaves behind**, given a path. If nothing is found, it says so and writes
nothing. Otherwise it saves the flowchart with all the arrows that were found. What it saves can be
loaded again, with the same ids and the new arrows behind the old ones.

If the coordinates of the flowchart are read back, the nodes are the same, too, and the code that
was saved belongs to them; and when the command is given what was saved, with the same switches and
the same configuration, it finds nothing. -/
theorem report_suggest (hgraph : loadGraph files input.flowchart = .ok g)
    (hconfig : loadConfig files input.config? = .ok config) (strictTypes noNormalize : Bool)
    (path : String) :
    let found := findMatches g (suggestOptions config strictTypes noNormalize)
    let reported := report files (.suggest input strictTypes noNormalize (some path))
    reported.failure? = none ∧
      (found = [] → reported = .ofLines ["No suggestions."]) ∧
      (found ≠ [] → ∃ save d g', reported.save? = some save ∧ save.path = path ∧
        Document.ofText? save.text = some d ∧ d.toGraph = .ok g' ∧
        g'.ids = g.ids ∧ g'.edges = g.edges ++ found.map Match.arrow ∧
        ((∀ position ∈ g.positions, position.ReadsBack) →
          g'.nodes = g.nodes ∧ d.generatedCode = some (Code.generate g') ∧
          ∀ (files' : Files) (input' : Input) (applyTo? : Option String),
            files' input'.flowchart = some save.text →
            loadConfig files' input'.config? = .ok config →
              report files' (.suggest input' strictTypes noNormalize applyTo?) =
                .ofLines ["No suggestions."])) := by
  intro found reported
  have hreported : reported = reportSuggest (.start g config input.context)
      (suggestOptions config strictTypes noNormalize) (some path) :=
    report_suggest_eq hgraph hconfig strictTypes noNormalize (some path)
  clear_value reported
  subst hreported
  by_cases hfound : found = []
  · rw [reportSuggest_of_nil (s := .start g config input.context) hfound]
    exact ⟨rfl, fun _ => rfl, fun hne => absurd hfound hne⟩
  rw [reportSuggest_of_ne_nil (s := .start g config input.context) hfound]
  refine ⟨rfl, fun hnil => absurd hnil hfound, fun _ => ?_⟩
  obtain ⟨_, d, -, hread, hopen⟩ := loadGraph_eq_ok_iff.mp hgraph
  obtain ⟨d', hread', hids, hload⟩ := Document.exists_reread?_ofCompleted hread hopen
    (suggestOptions config strictTypes noNormalize)
  refine ⟨_, d', _, rfl, rfl, (Document.ofText?_toText _).trans hread', hload, hids, rfl,
    fun hpositions => ?_⟩
  -- with the coordinates read back, what is loaded is the completed graph
  have hreads : (Document.ofCompleted g
      (suggestOptions config strictTypes noNormalize)).ReadsBack :=
    fun node hnode => hpositions _ (List.mem_map_of_mem hnode)
  have hopen' := Document.toGraph_ofCompleted hopen (suggestOptions config strictTypes noNormalize)
  obtain rfl := Option.some.inj (hread'.symm.trans ((Document.reread?_eq_some_iff _).mpr hreads))
  rw [Except.ok.inj (hload.symm.trans hopen')]
  refine ⟨rfl, rfl, fun files' input' applyTo? hfile hconfig' => ?_⟩
  have hgraph' := loadGraph_of_readsBack hreads hopen' hfile
  -- the options of the second scan are those of the first one
  have hnone := Wiring.findMatches_completed g (suggestOptions config strictTypes noNormalize)
  rw [report_suggest_eq hgraph' hconfig']
  exact reportSuggest_of_nil (s := .start _ config input'.context) hnone applyTo?

/-- An output and an input have the same name, with different types. The arrow is added, and the
command finds nothing in the file that it has written. -/
theorem report_suggest_saved :
    let d : Document := ⟨"1.0",
      [⟨1, ⟨0, 0⟩, .circle, none, ⟨none, none, [], ["n:int"]⟩⟩,
        ⟨2, ⟨1, 0⟩, .square, none, ⟨none, none, [" N : text"], []⟩⟩], [], none⟩
    let files : Files := fun path => if path = "f.json" then some d.toText else none
    let input : Input := ⟨"f.json", defaultContext, none⟩
    loadGraph files "f.json" = .ok (.ofParts d.nodes d.edges) ∧
      loadConfig files none = .ok .default ∧
      ∃ save, (report files (.suggest input false false (some "out.json"))).save? = some save ∧
        save.path = "out.json" ∧
        report (Function.update files "out.json" (some save.text))
            (.suggest ⟨"out.json", defaultContext, none⟩ false false none) =
          .ofLines ["No suggestions."] := by
  intro d files input
  have hgraph : loadGraph files input.flowchart = .ok (.ofParts d.nodes d.edges) :=
    loadGraph_of_readsBack (d := d) (by decide +kernel) rfl (if_pos rfl)
  have hconfig : loadConfig files input.config? = .ok .default := rfl
  have hfound : findMatches (.ofParts d.nodes d.edges) (suggestOptions .default false false) ≠ [] :=
    by decide +kernel
  obtain ⟨-, -, hsaved⟩ := report_suggest hgraph hconfig false false "out.json"
  obtain ⟨save, _, _, hsave, hpath, -, -, -, -, hreread⟩ := hsaved hfound
  obtain ⟨-, -, hagain⟩ := hreread (by decide +kernel)
  have hfile : Function.update files "out.json" (some save.text) "out.json" = some save.text :=
    Function.update_self ..
  exact ⟨hgraph, hconfig, save, hsave, hpath,
    hagain _ ⟨"out.json", defaultContext, none⟩ none hfile rfl⟩

/-- **A path is given, the command does not fail, and nothing is saved**, because there is nothing
to suggest. -/
theorem report_suggest_unsaved :
    let d : Document := ⟨"1.0", [⟨1, ⟨0, 0⟩, .circle, none, .none⟩], [], none⟩
    let files : Files := fun path => if path = "f.json" then some d.toText else none
    let input : Input := ⟨"f.json", defaultContext, none⟩
    let reported := report files (.suggest input false false (some "out.json"))
    loadGraph files "f.json" = .ok (.ofParts d.nodes d.edges) ∧
      loadConfig files none = .ok .default ∧ files "out.json" = none ∧
      reported.failure? = none ∧ reported.save? = none := by
  intro d files input reported
  have hgraph : loadGraph files input.flowchart = .ok (.ofParts d.nodes d.edges) :=
    loadGraph_of_readsBack (d := d) (by decide +kernel) rfl (if_pos rfl)
  have hconfig : loadConfig files input.config? = .ok .default := rfl
  have hfound : findMatches (.ofParts d.nodes d.edges)
      (suggestOptions .default false false) = [] := rfl
  have hreported : reported = .ofLines ["No suggestions."] :=
    (report_suggest_eq hgraph hconfig false false (some "out.json")).trans
      (reportSuggest_of_nil (s := .start _ .default defaultContext) hfound _)
  rw [hreported]
  exact ⟨hgraph, hconfig, rfl, rfl, rfl⟩

end Command

end Flowchart
