import Flowchart.Proofs.Wiring.Scan
import Mathlib

/-!
# Names of which nothing is left

A scan passes over ports without a name. It looks at the name as it is written, while two names are
compared in another form: they are put into lower case, and everything but letters of ASCII, digits
and underscores is left out. Of a name such as `!!!`, or one in another script, nothing is left.

Which names these are is said here character by character
(`Flowchart.Wiring.Options.comparedName_eq_nil_iff`). The matches of a scan have equal names in the
form in which they are compared, and in general this form is not empty. But all names of which
nothing is left are equal to each other, so ports with such names are proposed for each other,
whatever they are called (`Flowchart.Wiring.findMatches_comparedName`).
-/

namespace Flowchart.Wiring

variable {options : Options} {name : String} {output input : Port}

/-! ### What is left of a name -/

/-- **A character counts** in a normalized name: a letter of ASCII, a digit, an underscore, or one
of the two other characters whose lower case has a letter of ASCII in it. -/
def Counts (c : Char) : Prop :=
  c.isAlphanum = true ∨ c = '_' ∨ c = '\u212A' ∨ c = '\u0130'

/-- The lower case of a character is kept exactly for letters of ASCII, digits and underscores. -/
theorem isNameChar_toLower (c : Char) :
    isNameChar c.toLower = true ↔ c.isAlphanum = true ∨ c = '_' := by
  by_cases hupper : c.isUpper = true
  · have halpha : c.isAlpha = true := by rw [Char.isAlpha, hupper, Bool.true_or]
    have hkept : isNameChar c.toLower = true := by
      rw [isNameChar, Char.isLower_toLower_eq_isAlpha, halpha, Bool.true_or, Bool.true_or]
    have halphanum : c.isAlphanum = true := by rw [Char.isAlphanum, halpha, Bool.true_or]
    exact iff_of_true hkept (.inl halphanum)
  · rw [Char.toLower_eq_of_not_isUpper hupper]
    simp only [isNameChar, Char.isAlphanum, Char.isAlpha, Bool.eq_false_iff.mpr hupper,
      Bool.false_or, Bool.or_eq_true, decide_eq_true_eq]

/-- Something is left of a character exactly if it counts. -/
theorem filter_lowerChar_eq_nil_iff {c : Char} :
    (Text.lowerChar c).filter isNameChar = [] ↔ ¬ Counts c := by
  by_cases hkelvin : c = '\u212A'
  · subst hkelvin
    exact iff_of_false (by decide) (not_not.mpr (by simp [Counts]))
  by_cases hdotted : c = '\u0130'
  · subst hdotted
    exact iff_of_false (by decide) (not_not.mpr (by simp [Counts]))
  · rw [Text.lowerChar, if_neg hkelvin, if_neg hdotted, List.filter_eq_nil_iff,
      List.forall_mem_singleton, isNameChar_toLower, Counts]
    simp only [hkelvin, hdotted, or_false]

/-- **A name is lost** if there is one, but no character of it counts. -/
def IsLost (name : String) : Prop :=
  name ≠ "" ∧ ∀ c ∈ name.toList, ¬ Counts c

/-- **What is left of a name**: something, unless names are normalized and it is lost. -/
theorem Options.comparedName_eq_nil_iff (hnamed : name ≠ "") :
    options.comparedName name = [] ↔ options.normalize = true ∧ IsLost name := by
  rw [comparedName, IsLost]
  split
  · next hnormalize =>
    rw [Text.lowercase, List.filter_flatMap, List.flatMap_eq_nil_iff]
    simp only [filter_lowerChar_eq_nil_iff, hnormalize, hnamed, ne_eq, not_false_eq_true, true_and]
  · next hnormalize => simp [hnormalize, hnamed]

/-! ### Scanning -/

theorem Options.fits_of_isLost (hnormalize : options.normalize = true)
    (houtput : IsLost output.name) (hinput : IsLost input.name)
    (htypes : options.typesFit output input = true) : options.fits output input = true := by
  have hnothing := (comparedName_eq_nil_iff houtput.1).mpr ⟨hnormalize, houtput⟩
  have hnothing' := (comparedName_eq_nil_iff hinput.1).mpr ⟨hnormalize, hinput⟩
  exact fits_iff.mpr ⟨houtput.1, hinput.1, hnothing.trans hnothing'.symm, htypes⟩

/-- **The names of ports that are matched.** A match of a scan pairs an output and an input of
different nodes. Both have a name as it is written, and in the form in which they are compared their
names are equal. Nothing is left of them in that form exactly if names are normalized and these are
lost. And then any two ports of different nodes are matched whose names are lost, if their types fit
and their arrow is not there yet. -/
theorem findMatches_comparedName (g : Graph) (options : Options) :
    (∀ m ∈ findMatches g options, ∃ a ∈ g.nodes, ∃ b ∈ g.nodes, a.id ≠ b.id ∧
      ∃ output ∈ a.details.outputs.map Port.ofText, ∃ input ∈ b.details.inputs.map Port.ofText,
        m = .ofPorts a b output input ∧ output.name ≠ "" ∧ input.name ≠ "" ∧
          options.comparedName output.name = options.comparedName input.name ∧
          (options.comparedName output.name = [] ↔
            options.normalize = true ∧ IsLost output.name ∧ IsLost input.name)) ∧
    (options.normalize = true → ∀ a ∈ g.nodes, ∀ b ∈ g.nodes, a.id ≠ b.id →
      ∀ output ∈ a.details.outputs.map Port.ofText, ∀ input ∈ b.details.inputs.map Port.ofText,
        IsLost output.name → IsLost input.name → options.typesFit output input = true →
          (Match.ofPorts a b output input).arrow ∉ g.edges →
            Reports g options (.ofPorts a b output input)) := by
  constructor
  · intro m hm
    obtain ⟨a, ha, b, hb, hne, output, houtput, input, hinput, hfits, -, rfl⟩ :=
      mem_allMatches_iff.mp ((eraseDupsBy_sublist _).subset hm)
    obtain ⟨hnamed, hnamed', hcompared, -⟩ := Options.fits_iff.mp hfits
    refine ⟨a, ha, b, hb, hne, _, List.mem_map_of_mem houtput, _, List.mem_map_of_mem hinput, rfl,
      hnamed, hnamed', hcompared, fun hnothing => ?_, fun ⟨hnormalize, hlost, _⟩ => ?_⟩
    · obtain ⟨hnormalize, hlost⟩ := (Options.comparedName_eq_nil_iff hnamed).mp hnothing
      rw [hcompared] at hnothing
      exact ⟨hnormalize, hlost, ((Options.comparedName_eq_nil_iff hnamed').mp hnothing).2⟩
    · exact (Options.comparedName_eq_nil_iff hnamed).mpr ⟨hnormalize, hlost⟩
  · intro hnormalize a ha b hb hne _ hmem _ hmem' hlost hlost' htypes hmissing
    obtain ⟨output, houtput, rfl⟩ := List.mem_map.mp hmem
    obtain ⟨input, hinput, rfl⟩ := List.mem_map.mp hmem'
    exact reports_iff.mpr ⟨hne, ⟨a, ha, rfl, b, hb, rfl, output, houtput, input, hinput, rfl,
      Options.fits_of_isLost hnormalize hlost hlost' htypes⟩, hmissing⟩

/-- An output in another script and an input of punctuation, which have the same type. They are
matched, and in the form in which they are compared their names are equal. -/
theorem findMatches_comparedName_scripts :
    let a : Node := ⟨1, ⟨0, 0⟩, .circle, none, ⟨none, none, [], ["n", "数:int"]⟩⟩
    let b : Node := ⟨2, ⟨0, 0⟩, .square, none, ⟨none, none, ["?!: int"], []⟩⟩
    let g := Graph.ofParts [a, b] [⟨1, 2, none⟩]
    let options : Options := ⟨true, true⟩
    let m : Match := ⟨1, 2, "数", some "int", some "int"⟩
    IsLost "数" ∧ IsLost "?!" ∧ Reports g options m ∧ m ∈ findMatches g options ∧
      ∃ a ∈ g.nodes, ∃ b ∈ g.nodes,
        ∃ output ∈ a.details.outputs.map Port.ofText, ∃ input ∈ b.details.inputs.map Port.ofText,
          m = .ofPorts a b output input ∧
            options.comparedName output.name = options.comparedName input.name := by
  intro a b g options m
  have hlost : IsLost "数" ∧ IsLost "?!" := by simp [IsLost, Counts]
  have hm : m ∈ findMatches g options := by decide +kernel
  obtain ⟨hfound, hlosts⟩ := findMatches_comparedName g options
  have hreports : Reports g options m :=
    hlosts rfl a (by decide) b (by decide) (by decide) ⟨"数", some "int"⟩ (by decide)
      ⟨"?!", some "int"⟩ (by decide) hlost.1 hlost.2 (by decide) (by decide)
  obtain ⟨a', ha, b', hb, -, output, houtput, input, hinput, hports, -, -, hcompared, -⟩ :=
    hfound m hm
  exact ⟨hlost.1, hlost.2, hreports, hm, a', ha, b', hb, output, houtput, input, hinput, hports,
    hcompared⟩

/-- **Not every match has a name of which something is left.** Two ports are matched that have
nothing in common but that their names are lost. -/
theorem findMatches_isLost :
    let a : Node := ⟨1, ⟨0, 0⟩, .circle, none, ⟨none, none, [], ["!!!"]⟩⟩
    let b : Node := ⟨2, ⟨0, 0⟩, .square, none, ⟨none, none, ["数"], []⟩⟩
    findMatches (.ofParts [a, b] []) .default = [⟨1, 2, "!!!", none, none⟩] ∧
      (∀ output ∈ a.details.outputs.map Port.ofText,
        Options.default.comparedName output.name = []) ∧
      ∀ input ∈ b.details.inputs.map Port.ofText,
        Options.default.comparedName input.name = [] := by
  decide +kernel

end Flowchart.Wiring
