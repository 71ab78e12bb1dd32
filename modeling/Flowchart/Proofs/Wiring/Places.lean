import Flowchart.Proofs.Wiring.Scan

/-!
# The order in which a scan reports

A scan goes through pairs of ports, and every pair has a place
(`Flowchart.Wiring.Place`): where the two nodes stand in the row of nodes, and where the two ports
stand among those that the nodes declare. This file says what a scan reports in terms of places
alone, without going through anything.

* At some places there is a match (`Flowchart.Wiring.MatchAt`): the nodes are different, the ports
  may be connected, and the arrow is not there yet.
* Of the places with matches for one arrow only the first one counts
  (`Flowchart.Wiring.FirstAt`). A place where the types do not fit, or where a port has no name, has
  no match and takes nothing away from a later one.
* What is reported are the matches at these places, in the order of the places
  (`Flowchart.Wiring.findMatches_eq_map_firstAt`).

That is all there is to say about a scan: the places that count are known, each of them has one
match, and there is one way to put them in order. The way from the scan to the places is to keep
the places while scanning (`Flowchart.Wiring.placedMatches`) and to forget them afterwards.
-/

namespace Flowchart.Wiring

variable {g : Graph} {options : Options} {p q : Place} {m n : Match} {a b : Node}
  {output input : Port}

/-! ### Places -/

/-- The place of a pair of ports: the places of the two nodes in the graph, and the places of the
output and of the input among those of their nodes. -/
structure Place where
  source : Nat
  target : Nat
  output : Nat
  input : Nat
  deriving DecidableEq

/-- **The order of a scan**: the source changes last, then the target, then the output, and the
input changes first. -/
def Place.Before (p q : Place) : Prop :=
  p.source < q.source ∨ p.source = q.source ∧
    (p.target < q.target ∨ p.target = q.target ∧
      (p.output < q.output ∨ p.output = q.output ∧ p.input < q.input))

theorem Place.Before.asymm (h : p.Before q) : ¬ q.Before p := by
  unfold Before at h ⊢
  omega

/-! ### Matches at places -/

/-- **Two ports may be connected** by a new arrow, from an output of one node to an input of another
one. -/
structure Connectable (g : Graph) (options : Options) (a b : Node) (output input : Port) :
    Prop where
  /-- The nodes are different. -/
  ne : a.id ≠ b.id
  /-- The output has a name. -/
  output_ne : output.name ≠ ""
  /-- The input has a name. -/
  input_ne : input.name ≠ ""
  /-- The arrow is not there yet. -/
  not_mem : Edge.mk a.id b.id (some output.name) ∉ g.edges
  /-- The names are the same in the form in which they are compared. -/
  comparedName_eq : options.comparedName output.name = options.comparedName input.name
  /-- The types are the same if that is asked for and both are declared. -/
  type_eq : options.strictTypes = true →
    ∀ s t, output.type? = some s → input.type? = some t → s = t

/-- **The match at a place**: it joins the nodes that stand there, carries the name of the output,
and has the types of the two ports. -/
def MatchAt (g : Graph) (options : Options) (p : Place) (m : Match) : Prop :=
  ∃ a b outputSpec inputSpec, g.nodes[p.source]? = some a ∧ g.nodes[p.target]? = some b ∧
    a.details.outputs[p.output]? = some outputSpec ∧
    b.details.inputs[p.input]? = some inputSpec ∧
    Connectable g options a b (Port.ofText outputSpec) (Port.ofText inputSpec) ∧
    m = ⟨a.id, b.id, (Port.ofText outputSpec).name, (Port.ofText outputSpec).type?,
      (Port.ofText inputSpec).type?⟩

/-- **The first match for an arrow**: none at an earlier place has the same ends and the same
name. -/
def FirstAt (g : Graph) (options : Options) (p : Place) (m : Match) : Prop :=
  MatchAt g options p m ∧ ∀ q n, MatchAt g options q n → q.Before p →
    ¬ (n.source = m.source ∧ n.target = m.target ∧ n.portName = m.portName)

/-- Types may be connected if they are the same, unless nobody asks or one is not declared. -/
theorem typesFit_iff :
    options.typesFit output input = true ↔
      (options.strictTypes = true → ∀ s t, output.type? = some s → input.type? = some t →
        s = t) := by
  unfold Options.typesFit
  cases output.type? <;> cases input.type? <;> cases options.strictTypes <;> simp

/-- Two ports may be connected if they fit, and their arrow is missing between different nodes. -/
theorem connectable_iff :
    Connectable g options a b output input ↔
      a.id ≠ b.id ∧ options.fits output input = true ∧
        g.hasEdge a.id b.id output.name = false := by
  have hmissing : g.hasEdge a.id b.id output.name = false ↔
      Edge.mk a.id b.id (some output.name) ∉ g.edges :=
    Match.hasEdge_eq_false_iff (m := .ofPorts a b output input)
  simp only [Options.fits, Bool.and_eq_true, decide_eq_true_eq, typesFit_iff, hmissing]
  constructor
  · intro h
    exact ⟨h.ne, ⟨⟨⟨h.output_ne, h.input_ne⟩, h.comparedName_eq⟩, h.type_eq⟩, h.not_mem⟩
  · rintro ⟨hne, ⟨⟨⟨houtput, hinput⟩, hname⟩, htype⟩, hnot⟩
    exact ⟨hne, houtput, hinput, hnot, hname, htype⟩

/-! ### Scanning with places -/

/-- The matches of two nodes at given places, each with its own place. -/
def placedBetween (g : Graph) (options : Options) (a b : Node × Nat) : List (Place × Match) :=
  a.1.details.outputs.zipIdx.flatMap fun output =>
    b.1.details.inputs.zipIdx.filterMap fun input =>
      if options.fits (.ofText output.1) (.ofText input.1) &&
          !g.hasEdge a.1.id b.1.id (Port.ofText output.1).name then
        some (⟨a.2, b.2, output.2, input.2⟩,
          .ofPorts a.1 b.1 (.ofText output.1) (.ofText input.1))
      else none

/-- **All matches of a graph, each with its place.** -/
def placedMatches (g : Graph) (options : Options) : List (Place × Match) :=
  g.nodes.zipIdx.flatMap fun a =>
    g.nodes.zipIdx.flatMap fun b =>
      if a.1.id = b.1.id then [] else placedBetween g options a b

/-- Without their places, the matches of two nodes are those that a scan goes through. -/
theorem map_snd_placedBetween (g : Graph) (options : Options) (a b : Node × Nat) :
    (placedBetween g options a b).map Prod.snd = matchesBetween g options a.1 b.1 := by
  rw [placedBetween, List.map_flatMap, matchesBetween]
  refine Eq.trans (List.flatMap_congr fun output _ => ?_) (flatMap_fst_zipIdx _ _)
  rw [List.map_filterMap]
  refine Eq.trans (List.filterMap_congr fun input _ => ?_) (filterMap_fst_zipIdx _ _)
  split <;> simp_all

/-- Without their places, they are the matches of the graph. -/
theorem map_snd_placedMatches (g : Graph) (options : Options) :
    (placedMatches g options).map Prod.snd = allMatches g options := by
  rw [placedMatches, List.map_flatMap, allMatches]
  refine Eq.trans (List.flatMap_congr fun a _ => ?_) (flatMap_fst_zipIdx _ _)
  rw [List.map_flatMap]
  refine Eq.trans (List.flatMap_congr fun b _ => ?_) (flatMap_fst_zipIdx _ _)
  split
  · rfl
  · exact map_snd_placedBetween g options a b

/-- What is scanned between two nodes: the matches at the places of their ports. -/
theorem mem_placedBetween_iff {a b : Node × Nat} :
    (p, m) ∈ placedBetween g options a b ↔
      p.source = a.2 ∧ p.target = b.2 ∧ ∃ outputSpec inputSpec,
        a.1.details.outputs[p.output]? = some outputSpec ∧
        b.1.details.inputs[p.input]? = some inputSpec ∧
        options.fits (Port.ofText outputSpec) (Port.ofText inputSpec) = true ∧
        g.hasEdge a.1.id b.1.id (Port.ofText outputSpec).name = false ∧
        m = .ofPorts a.1 b.1 (Port.ofText outputSpec) (Port.ofText inputSpec) := by
  obtain ⟨i, j, k, l⟩ := p
  simp only [placedBetween, List.mem_flatMap, List.mem_filterMap, Prod.exists,
    List.mem_zipIdx_iff_getElem?, Option.ite_none_right_eq_some, Bool.and_eq_true,
    Bool.not_eq_true', Option.some.injEq, Prod.mk.injEq, Place.mk.injEq]
  constructor
  · rintro ⟨outputSpec, k, houtput, inputSpec, l, hinput, ⟨hfits, hedge⟩, ⟨rfl, rfl, rfl, rfl⟩, rfl⟩
    exact ⟨rfl, rfl, outputSpec, inputSpec, houtput, hinput, hfits, hedge, rfl⟩
  · rintro ⟨rfl, rfl, outputSpec, inputSpec, houtput, hinput, hfits, hedge, rfl⟩
    exact ⟨outputSpec, k, houtput, inputSpec, l, hinput, ⟨hfits, hedge⟩, ⟨rfl, rfl, rfl, rfl⟩, rfl⟩

/-- **What is scanned with places**: the matches at all places that have one. -/
theorem mem_placedMatches_iff : (p, m) ∈ placedMatches g options ↔ MatchAt g options p m := by
  simp only [placedMatches, List.mem_flatMap, Prod.exists, List.mem_zipIdx_iff_getElem?]
  constructor
  · rintro ⟨a, i, ha, b, j, hb, hmem⟩
    split at hmem
    · exact absurd hmem List.not_mem_nil
    · next hne =>
      obtain ⟨rfl, rfl, outputSpec, inputSpec, houtput, hinput, hfits, hedge, hm⟩ :=
        mem_placedBetween_iff.mp hmem
      exact ⟨a, b, outputSpec, inputSpec, ha, hb, houtput, hinput,
        connectable_iff.mpr ⟨hne, hfits, hedge⟩, hm⟩
  · rintro ⟨a, b, outputSpec, inputSpec, ha, hb, houtput, hinput, hconnectable, hm⟩
    obtain ⟨hne, hfits, hedge⟩ := connectable_iff.mp hconnectable
    refine ⟨a, p.source, ha, b, p.target, hb, ?_⟩
    rw [if_neg hne]
    exact mem_placedBetween_iff.mpr
      ⟨rfl, rfl, outputSpec, inputSpec, houtput, hinput, hfits, hedge, hm⟩

/-- Between two nodes, the places are gone through in order: for each output all inputs. -/
theorem pairwise_placedBetween (g : Graph) (options : Options) (a b : Node × Nat) :
    (placedBetween g options a b).Pairwise fun x y => x.1.Before y.1 := by
  refine List.pairwise_flatMap.mpr ⟨fun output _ => List.pairwise_filterMap.mpr ?_, ?_⟩
  -- two inputs for one output, then two outputs
  · refine (pairwise_snd_zipIdx _).imp fun hlt x hx y hy => ?_
    obtain ⟨-, ⟨⟩⟩ := Option.ite_none_right_eq_some.mp hx
    obtain ⟨-, ⟨⟩⟩ := Option.ite_none_right_eq_some.mp hy
    exact .inr ⟨rfl, .inr ⟨rfl, .inr ⟨rfl, hlt⟩⟩⟩
  · refine (pairwise_snd_zipIdx _).imp fun hlt x hx y hy => ?_
    obtain ⟨_, -, hx⟩ := List.mem_filterMap.mp hx
    obtain ⟨_, -, hy⟩ := List.mem_filterMap.mp hy
    obtain ⟨-, ⟨⟩⟩ := Option.ite_none_right_eq_some.mp hx
    obtain ⟨-, ⟨⟩⟩ := Option.ite_none_right_eq_some.mp hy
    exact .inr ⟨rfl, .inr ⟨rfl, .inl hlt⟩⟩

/-- **The places are gone through in order**: for each node all nodes. -/
theorem pairwise_placedMatches (g : Graph) (options : Options) :
    (placedMatches g options).Pairwise fun x y => x.1.Before y.1 := by
  have hnodes : ∀ {a b : Node × Nat} {x : Place × Match},
      x ∈ (if a.1.id = b.1.id then [] else placedBetween g options a b) →
        x.1.source = a.2 ∧ x.1.target = b.2 := by
    intro a b x hx
    split at hx
    · exact absurd hx List.not_mem_nil
    · obtain ⟨hsource, htarget, -⟩ := mem_placedBetween_iff.mp hx
      exact ⟨hsource, htarget⟩
  refine List.pairwise_flatMap.mpr ⟨fun a _ => List.pairwise_flatMap.mpr ⟨fun b _ => ?_, ?_⟩, ?_⟩
  -- the same two nodes, then two targets of one source, then two sources
  · split
    · exact .nil
    · exact pairwise_placedBetween g options a b
  · refine (pairwise_snd_zipIdx _).imp fun hlt x hx y hy => ?_
    obtain ⟨hxs, hxt⟩ := hnodes hx
    obtain ⟨hys, hyt⟩ := hnodes hy
    rw [Place.Before, hxs, hxt, hys, hyt]
    exact .inr ⟨rfl, .inl hlt⟩
  · refine (pairwise_snd_zipIdx _).imp fun hlt x hx y hy => ?_
    obtain ⟨_, -, hx⟩ := List.mem_flatMap.mp hx
    obtain ⟨_, -, hy⟩ := List.mem_flatMap.mp hy
    rw [Place.Before, (hnodes hx).1, (hnodes hy).1]
    exact .inl hlt

/-! ### The first places -/

/-- **A scan reports the first match for every arrow**, in the order of the places. The places are
those with a match and without an earlier match for the same arrow; each of them occurs once, and
what is reported is the match there, with the types of the ports there. -/
theorem findMatches_eq_map_firstAt (g : Graph) (options : Options) :
    ∃ found : List (Place × Match),
      found.Pairwise (fun x y => x.1.Before y.1) ∧
      (∀ p m, (p, m) ∈ found ↔ FirstAt g options p m) ∧
      findMatches g options = found.map Prod.snd := by
  refine ⟨(placedMatches g options).eraseDupsBy fun x y => x.2.sameEdge y.2,
    (pairwise_placedMatches g options).sublist (eraseDupsBy_sublist _), fun p m => ?_, ?_⟩
  · have hsame : ∀ {k l n : Match}, n.sameEdge l = true → l.sameEdge k = true →
        n.sameEdge k = true := by
      simp only [Match.sameEdge_iff_arrow_eq]
      exact fun h h' => h.trans h'
    have hkept := mem_eraseDupsBy_iff (r := fun x y => x.2.sameEdge y.2) (z := (p, m))
      (fun h => h.asymm) hsame (pairwise_placedMatches g options)
    refine hkept.trans (and_congr mem_placedMatches_iff ?_)
    simp only [Prod.forall, mem_placedMatches_iff]
    refine forall_congr' fun q => forall_congr' fun n => forall_congr' fun _ =>
      forall_congr' fun _ => ?_
    rw [Match.sameEdge_comm, ← Match.sameEdge_iff, Bool.not_eq_true]
  · rw [findMatches, ← map_snd_placedMatches, eraseDupsBy_map]

/-- An input of another type and an input without a name come first, and stand in nobody's way; of
the two that fit, the first one is reported. -/
example :
    let a : Node := ⟨1, ⟨0, 0⟩, .circle, none, ⟨none, none, [], ["Sum:int", "sum"]⟩⟩
    let b : Node := ⟨2, ⟨0, 0⟩, .square, none,
      ⟨none, none, ["sum:text", " :int", "SUM:int", "sum"], []⟩⟩
    findMatches ⟨[a, b], [], 3⟩ ⟨true, true⟩ =
      [⟨1, 2, "Sum", some "int", some "int"⟩, ⟨1, 2, "sum", none, some "text"⟩] := by
  decide +kernel

end Flowchart.Wiring
