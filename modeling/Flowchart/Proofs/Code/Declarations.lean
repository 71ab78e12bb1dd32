import Flowchart.Code.Generator
import Flowchart.Proofs.Rows

/-!
# Declarations

The code of a flowchart starts with a header that declares a variable for every input. Inputs are
specified by texts, and two readers take them apart. One is that of the ports
(`Flowchart.Port.ofText`), on which wiring depends: it splits a text at all its colons and trims the
parts. The other one is that of the header (`Flowchart.Code.nameIn`), which does not look beyond the
first colon. They find the same name (`Flowchart.Code.nameIn_eq_name_ofText`).

So what the header declares can be told without the reader of the header
(`Flowchart.Code.exists_lists_generate_eq`): the names of the ports, the empty one apart, each once
and in the order in which they first occur. The header takes no notice of arrows, and a node that is
never reached has its inputs declared all the same.
-/

namespace Flowchart.Code

variable {g : Graph} {names names' all : List String}

/-! ### The two readers -/

/-- The first part of a row that is split is what stands before the first separator. -/
theorem head?_splitOn {α : Type} [DecidableEq α] (separator : α) (as : List α) :
    (as.splitOn separator).head? = some (as.takeWhile (· ≠ separator)) := by
  induction as with
  | nil => rfl
  | cons a as ih =>
    rw [List.splitOn_eq_splitOnP] at ih ⊢
    by_cases ha : a = separator
    · simp [List.splitOnP_cons_eq_if_modifyHead, ha]
    · simp [List.splitOnP_cons_eq_if_modifyHead, ha, List.head?_modifyHead, ih]

/-- **Header and wiring read the same name** from a specification. -/
theorem nameIn_eq_name_ofText (spec : String) : nameIn spec = (Port.ofText spec).name := by
  have hhead : (Port.partsOf ':' spec).head? = some (nameIn spec) := by
    rw [Port.partsOf, List.head?_map, head?_splitOn, Option.map_some, nameIn, Text.trim,
      String.toList_ofList]
  rw [Port.ofText]
  cases hparts : Port.partsOf ':' spec with
  | nil => rw [hparts] at hhead; exact nomatch hhead
  | cons name parts =>
    rw [hparts, List.head?_cons, Option.some.injEq] at hhead
    cases parts <;> exact hhead.symm

/-! ### The names -/

/-- **A row of names lists another one**: the empty name apart, it has the same names, each once and
in the order in which they first occur. -/
structure Lists (names all : List String) : Prop where
  mem_iff : ∀ name, name ∈ names ↔ name ≠ "" ∧ name ∈ all
  nodup : names.Nodup
  order : names.Pairwise fun name name' => all.idxOf name < all.idxOf name'

theorem Lists.unique (h : Lists names all) (h' : Lists names' all) : names = names' := by
  have hperm : names.Perm names' :=
    (List.perm_ext_iff_of_nodup h.nodup h'.nodup).mpr fun name => by rw [h.mem_iff, h'.mem_iff]
  exact hperm.eq_of_pairwise (fun _ _ _ _ hlt hgt => absurd hgt (Nat.lt_asymm hlt)) h.order h'.order

/-- The names of all inputs, over the nodes and their specifications. -/
def inputNames (g : Graph) : List String :=
  (g.nodes.flatMap fun node => node.details.inputs).map fun spec => (Port.ofText spec).name

/-- The header lists the names of the inputs. -/
theorem lists_declaredNames (g : Graph) : Lists (declaredNames g) (inputNames g) := by
  have hnames : declaredNames g = (inputNames g).eraseDups.filter (· ≠ "") := by
    rw [declaredNames, inputNames, funext nameIn_eq_name_ofText]
    -- the empty name may as well be left out at the end
    exact eraseDupsBy_filter (fun h => by rw [eq_of_beq h]) _
  have horder : (declaredNames g).Pairwise fun name name' =>
      (inputNames g).idxOf name < (inputNames g).idxOf name' := by
    rw [hnames]
    exact (pairwise_idxOf_eraseDups (inputNames g)).filter _
  refine ⟨fun name => ?_, horder.imp fun hlt heq => ?_, horder⟩
  · rw [hnames, List.mem_filter, List.mem_eraseDups, decide_eq_true_eq, and_comm]
  · rw [heq] at hlt
    exact Nat.lt_irrefl _ hlt

/-! ### The lines of the code -/

/-- The lines of a text. -/
def linesOf (text : String) : List String :=
  (text.toList.splitOn '\n').map String.ofList

/-- Texts without line breaks are one line each. -/
theorem flatMap_linesOf {texts : List String} (h : ∀ text ∈ texts, '\n' ∉ text.toList) :
    texts.flatMap linesOf = texts := by
  have hone : ∀ text ∈ texts, linesOf text = [text] := by
    intro text htext
    have hsplit : (['\n'].intercalate [text.toList]).splitOn '\n' = [text.toList] :=
      List.splitOn_intercalate '\n' (List.forall_mem_singleton.mpr (h text htext))
        (List.cons_ne_nil _ _)
    rw [List.intercalate_singleton] at hsplit
    rw [linesOf, hsplit, List.map_singleton, String.ofList_toList]
  rw [List.flatMap_congr hone, List.flatMap_singleton']

/-- **What is put together from lines** has the lines of its lines. -/
theorem linesOf_intercalate {texts : List String} (hne : texts ≠ []) :
    linesOf ("\n".intercalate texts) = texts.flatMap linesOf := by
  have hlines : ∀ text rest, linesOf (text ++ "\n" ++ rest) = linesOf text ++ linesOf rest := by
    intro text rest
    have hsplit := List.splitOnP_append_cons (p := (· == '\n')) text.toList rest.toList
      (beq_self_eq_true '\n')
    rw [linesOf, String.toList_append, String.toList_append, List.append_assoc]
    exact (congrArg (List.map String.ofList) hsplit).trans List.map_append
  induction texts with
  | nil => exact absurd rfl hne
  | cons text texts ih =>
    cases texts with
    | nil => simp
    | cons next texts =>
      rw [String.intercalate_cons_cons, hlines, ih (List.cons_ne_nil _ _)]
      rfl

/-- **The header declares the inputs**, those of all nodes, and nothing else. It lists the names of
their ports, with a line for each, and everything that is written for a node stands behind it. Where
no name has a line break in it, this can be told from the lines of the text. -/
theorem exists_lists_generate_eq (hnodes : g.nodes ≠ []) :
    ∃ names, Lists names (inputNames g) ∧
      let header := ["# Auto-generated from flowchart", "", "# Variable initialization"] ++
        names.map (fun name => "let " ++ name ++ " = 0") ++ [""]
      generate g = "\n".intercalate (header ++ (body g).map Line.text) ∧
        ((∀ name ∈ names, '\n' ∉ name.toList) →
          linesOf (generate g) = header ++ (body g).flatMap fun line => linesOf line.text) := by
  refine ⟨declaredNames g, lists_declaredNames g, ?_⟩
  intro header
  have htext : generate g = "\n".intercalate (header ++ (body g).map Line.text) := by
    rw [generate, if_neg]
    · rfl
    · simpa [Graph.isEmpty] using hnodes
  refine ⟨htext, fun hnames => ?_⟩
  have hfixed : ∀ line ∈ ["# Auto-generated from flowchart", "", "# Variable initialization"],
      '\n' ∉ line.toList := by decide
  have hdeclaration : ∀ name ∈ declaredNames g, '\n' ∉ ("let " ++ name ++ " = 0").toList := by
    intro name hname
    simpa [String.toList_append] using hnames name hname
  have hheader : ∀ line ∈ header, '\n' ∉ line.toList := by
    simp only [header, List.forall_mem_append, List.forall_mem_map]
    exact ⟨⟨hfixed, hdeclaration⟩, by decide⟩
  rw [htext, linesOf_intercalate (by simp [header]), List.flatMap_append, flatMap_linesOf hheader,
    List.flatMap_map]

/-- Two nodes share a name, one name is empty, and no arrow leads to the second node. -/
theorem exists_lists_generate_eq_unreached :
    let g : Graph := ⟨[⟨1, ⟨0, 0⟩, .circle, none, ⟨none, none, ["b : int", ":x"], []⟩⟩,
      ⟨2, ⟨0, 0⟩, .square, none, ⟨none, none, ["a:", "\u3000b"], []⟩⟩], [], 3⟩
    g.nodes ≠ [] ∧ Lists ["b", "a"] (inputNames g) ∧
      generate g = "\n".intercalate (["# Auto-generated from flowchart", "",
        "# Variable initialization", "let b = 0", "let a = 0", ""] ++
          (body g).map Line.text) := by
  intro g
  have hnodes : g.nodes ≠ [] := List.cons_ne_nil _ _
  have hall : inputNames g = ["b", "", "a", "b"] := by decide +kernel
  have hlists : Lists ["b", "a"] (inputNames g) := by
    rw [hall]
    refine ⟨fun name => ?_, by decide, by decide⟩
    simp only [List.mem_cons, List.not_mem_nil, or_false]
    constructor
    · rintro (rfl | rfl) <;> decide
    · rintro ⟨hne, rfl | rfl | rfl | rfl⟩ <;> simp at hne ⊢
  obtain ⟨names, hnames, htext, -⟩ := exists_lists_generate_eq hnodes
  obtain rfl := hnames.unique hlists
  exact ⟨hnodes, hlists, htext⟩

end Flowchart.Code
