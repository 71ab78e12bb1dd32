import Flowchart.Proofs.Rows
import Flowchart.Run.Execution
import Mathlib.Data.List.Sort

/-!
# Which arrows are considered

Which of the arrows that leave a node are considered is decided by looking through them for one
reason after the other. Here it is said without looking through anything: an arrow is *considered*
(`Flowchart.Run.Considered`) if a reason applies to it, and each reason speaks of the arrows that
leave the node, of their labels and of the result of the predicate.

| reason | it applies to |
|---|---|
| the result | the arrows labeled like it |
| no label | the arrows without a label, if none is labeled like the result |
| no choice | the first arrow, if the node has no predicate or the others apply to none |

The candidates are the arrows that are considered, and they stand in the order of the arrows. As an
ordered row is determined by its entries, nothing more has to be said about them
(`Flowchart.Run.candidates_eq_iff`).
-/

namespace Flowchart

open Predicate.Value (truthText)

variable {g : Graph} {id : NodeId} {index : Nat} {edge : Edge} {context : Predicate.Context}
  {result : Bool}

/-! ### The arrows that leave a node -/

namespace Graph

/-- **An arrow leaves a node**, and has this place in the row of all arrows. -/
def Leaves (g : Graph) (id : NodeId) (index : Nat) (edge : Edge) : Prop :=
  g.edges[index]? = some edge ∧ edge.source = id

/-- An arrow is the first one of a kind that leaves a node. -/
structure LeavesFirst (g : Graph) (id : NodeId) (kind : Edge → Prop) (index : Nat) (edge : Edge) :
    Prop where
  leaves : g.Leaves id index edge
  of_kind : kind edge
  le : ∀ i other, g.Leaves id i other → kind other → index ≤ i

theorem pairwise_outgoing (g : Graph) (id : NodeId) :
    (g.outgoing id).Pairwise fun x y => x.2 < y.2 :=
  (pairwise_snd_zipIdx g.edges).filter _

/-- Nothing is found if no arrow leaves the node. -/
theorem outgoing_eq_nil_iff : g.outgoing id = [] ↔ ∀ edge ∈ g.edges, edge.source ≠ id := by
  constructor
  · intro hnil edge hedge hsource
    obtain ⟨index, hindex⟩ := List.mem_iff_getElem?.mp hedge
    have hmem := mem_outgoing_iff.mpr ⟨hindex, hsource⟩
    rw [hnil] at hmem
    exact absurd hmem List.not_mem_nil
  · intro hnone
    refine List.eq_nil_iff_forall_not_mem.mpr fun ⟨edge, index⟩ hmem => ?_
    obtain ⟨hindex, hsource⟩ := mem_outgoing_iff.mp hmem
    exact hnone edge (List.mem_of_getElem? hindex) hsource

/-- **The first arrow of a kind** that is found. -/
theorem find?_outgoing_eq_some_iff {p : Edge → Bool} :
    (g.outgoing id).find? (p ·.1) = some (edge, index) ↔
      g.LeavesFirst id (p · = true) index edge := by
  rw [find?_eq_some_iff_of_pairwise (fun h => Nat.lt_asymm h) (g.pairwise_outgoing id),
    mem_outgoing_iff]
  simp only [Prod.forall, mem_outgoing_iff, Nat.not_lt]
  exact ⟨fun ⟨hleaves, hkind, hle⟩ => ⟨hleaves, hkind, fun i other => hle other i⟩,
    fun ⟨hleaves, hkind, hle⟩ => ⟨hleaves, hkind, fun other i => hle i other⟩⟩

end Graph

/-! ### The labels of arrows -/

namespace Edge

/-- **The label of an arrow is a result**, in small or in capital letters. -/
def Answers (edge : Edge) (result : Bool) : Prop :=
  ∃ label, edge.label = some label ∧ label.toList.map Char.toLower = (truthText result).toList

/-- An arrow has no label, or an empty one. -/
def Unlabeled (edge : Edge) : Prop :=
  edge.label = none ∨ edge.label = some ""

theorem isLabeled_truthText_iff :
    edge.isLabeled (truthText result) = true ↔ edge.Answers result := by
  have hlower : (truthText result).toList.map Char.toLower = (truthText result).toList := by
    cases result <;> decide
  rw [isLabeled, Text.equalsIgnoringCase_iff, hlower, Answers]
  cases edge.label with
  | none => cases result <;> simp [truthText]
  | some label => simp

theorem isUnlabeled_iff : edge.isUnlabeled = true ↔ edge.Unlabeled := by
  rw [isUnlabeled, Unlabeled]
  cases edge.label <;> simp

end Edge

namespace Run

/-! ### Decisions -/

/-- **A decision is taken at a node**: something is left of its label without the blanks around it,
and as a predicate this has a result. -/
def Decides (g : Graph) (id : NodeId) (context : Predicate.Context) (result : Bool) : Prop :=
  ∃ node label, g.node? id = some node ∧ node.label = some label ∧ Text.trim label ≠ "" ∧
    Predicate.holds (Text.trim label) context = result

/-- **No decision is taken at a node**: it has no label, or nothing but blanks in it. -/
def PassesThrough (g : Graph) (id : NodeId) : Prop :=
  ∃ node, g.node? id = some node ∧ ∀ label, node.label = some label → Text.trim label = ""

/-- A decision is taken where there is a predicate. -/
theorem decides_iff {node : Node} (hnode : g.node? id = some node) :
    Decides g id context result ↔
      ∃ predicate, node.predicate? = some predicate ∧
        Predicate.holds predicate context = result := by
  simp only [Decides, Node.predicate?, Option.filter_eq_some_iff, Option.map_eq_some_iff]
  constructor
  · rintro ⟨other, label, hother, hlabel, hne, hresult⟩
    obtain rfl := Option.some.inj (hnode.symm.trans hother)
    exact ⟨Text.trim label, ⟨⟨label, hlabel, rfl⟩, decide_eq_true hne⟩, hresult⟩
  · rintro ⟨_, ⟨⟨label, hlabel, rfl⟩, hne⟩, hresult⟩
    exact ⟨node, label, hnode, hlabel, of_decide_eq_true hne, hresult⟩

/-- No decision is taken where there is none. -/
theorem passesThrough_iff {node : Node} (hnode : g.node? id = some node) :
    PassesThrough g id ↔ node.predicate? = none := by
  simp only [PassesThrough, hnode, Option.some.injEq, exists_eq_left', Node.predicate?]
  cases node.label <;> simp [Option.filter]

/-! ### Reasons -/

/-- None of the arrows that leave a node is of some kind. -/
def NoneLeaves (g : Graph) (id : NodeId) (kind : Edge → Prop) : Prop :=
  ∀ i other, g.Leaves id i other → ¬ kind other

/-- **When a reason applies to an arrow** that leaves a node at some place. -/
def Reason.Applies (g : Graph) (id : NodeId) (context : Predicate.Context) (index : Nat)
    (edge : Edge) : Reason → Prop
  | .matchesResult result => Decides g id context result ∧ edge.Answers result
  | .unlabeledFallback =>
    (∃ result, Decides g id context result ∧ NoneLeaves g id (Edge.Answers · result)) ∧
      edge.Unlabeled
  | .defaultPath =>
    (PassesThrough g id ∨ ∃ result, Decides g id context result ∧
      NoneLeaves g id (Edge.Answers · result) ∧ NoneLeaves g id Edge.Unlabeled) ∧
      ∀ i other, g.Leaves id i other → index ≤ i

/-- **A candidate is considered**: it stands for an arrow that leaves the node, and its reason
applies to this arrow. -/
def Considered (g : Graph) (id : NodeId) (context : Predicate.Context) (c : Candidate) : Prop :=
  ∃ edge, g.Leaves id c.index edge ∧ edge.target = c.target ∧
    c.reason.Applies g id context c.index edge

/-! ### Candidates -/

theorem firstNonempty_eq_nil_iff {α : Type} {xs ys : List α} :
    firstNonempty xs ys = [] ↔ xs = [] ∧ ys = [] := by
  cases xs <;> simp [firstNonempty]

theorem mem_firstNonempty_iff {α : Type} {xs ys : List α} {x : α} :
    x ∈ firstNonempty xs ys ↔ x ∈ xs ∨ xs = [] ∧ x ∈ ys := by
  cases xs <;> simp [firstNonempty]

/-- A candidate for one of some arrows has the place and the target of that arrow. -/
theorem mem_candidatesOf {reason : Reason} {edges : List (Edge × Nat)} {c : Candidate} :
    c ∈ candidatesOf reason edges ↔
      ∃ edge, (edge, c.index) ∈ edges ∧ edge.target = c.target ∧ c.reason = reason := by
  constructor
  · intro h
    obtain ⟨⟨edge, index⟩, hmem, rfl⟩ := List.mem_map.mp h
    exact ⟨edge, hmem, rfl, rfl⟩
  · rintro ⟨edge, hmem, htarget, hreason⟩
    obtain ⟨index, target, _⟩ := c
    subst htarget hreason
    exact List.mem_map.mpr ⟨(edge, index), hmem, rfl⟩

/-- The candidates for the arrows of one kind. -/
theorem mem_candidatesOf_filter {reason : Reason} {p : Edge → Bool} {c : Candidate} :
    c ∈ candidatesOf reason ((g.outgoing id).filter (p ·.1)) ↔
      ∃ edge, g.Leaves id c.index edge ∧ edge.target = c.target ∧ c.reason = reason ∧
        p edge = true := by
  simp only [mem_candidatesOf, List.mem_filter, Graph.mem_outgoing_iff, Graph.Leaves]
  exact exists_congr fun edge => by tauto

theorem candidatesOf_filter_eq_nil_iff {reason : Reason} {p : Edge → Bool} :
    candidatesOf reason ((g.outgoing id).filter (p ·.1)) = [] ↔ NoneLeaves g id (p · = true) := by
  simp only [candidatesOf, List.map_eq_nil_iff, List.filter_eq_nil_iff, Prod.forall,
    Graph.mem_outgoing_iff]
  exact forall_comm

/-- The candidate by default is the first arrow. -/
theorem mem_candidatesOf_take_one {c : Candidate} :
    c ∈ candidatesOf .defaultPath ((g.outgoing id).take 1) ↔
      ∃ edge, g.Leaves id c.index edge ∧ edge.target = c.target ∧ c.reason = .defaultPath ∧
        ∀ i other, g.Leaves id i other → c.index ≤ i := by
  have hfirst : ∀ edge, (edge, c.index) ∈ (g.outgoing id).take 1 ↔
      g.LeavesFirst id (fun _ => true = true) c.index edge := by
    intro edge
    rw [← Graph.find?_outgoing_eq_some_iff (p := fun _ => true)]
    cases g.outgoing id <;> simp [eq_comm]
  rw [mem_candidatesOf]
  refine exists_congr fun edge => ?_
  rw [hfirst]
  constructor
  · rintro ⟨hfirst, htarget, hreason⟩
    exact ⟨hfirst.leaves, htarget, hreason, fun i other hother => hfirst.le i other hother rfl⟩
  · rintro ⟨hleaves, htarget, hreason, hle⟩
    exact ⟨⟨hleaves, rfl, fun i other hother _ => hle i other hother⟩, htarget, hreason⟩

/-- A reason applies only where there is a node. -/
theorem Reason.Applies.exists_node {reason : Reason}
    (h : reason.Applies g id context index edge) : ∃ node, g.node? id = some node := by
  cases reason with
  | matchesResult result =>
    obtain ⟨node, -, hnode, -⟩ := h.1
    exact ⟨node, hnode⟩
  | unlabeledFallback =>
    obtain ⟨-, ⟨node, -, hnode, -⟩, -⟩ := h.1
    exact ⟨node, hnode⟩
  | defaultPath =>
    rcases h.1 with ⟨node, hnode, -⟩ | ⟨-, ⟨node, -, hnode, -⟩, -⟩
    · exact ⟨node, hnode⟩
    · exact ⟨node, hnode⟩

/-- **The candidates are the arrows that are considered.** -/
theorem mem_candidates_iff {c : Candidate} :
    c ∈ candidates g id context ↔ Considered g id context c := by
  unfold candidates Considered
  cases hnode : g.node? id with
  | none =>
    refine iff_of_false List.not_mem_nil ?_
    rintro ⟨edge, -, -, happlies⟩
    obtain ⟨node, hsome⟩ := happlies.exists_node
    exact absurd (hnode.symm.trans hsome) (Option.some_ne_none node).symm
  | some node =>
    cases hpredicate : node.predicate? with
    | none =>
      have hpasses : PassesThrough g id := (passesThrough_iff hnode).mpr hpredicate
      have hdecides : ∀ result, ¬ Decides g id context result := by
        simp [decides_iff hnode, hpredicate]
      simp only [candidatesAmong, hpredicate, mem_candidatesOf_take_one]
      refine exists_congr fun edge => and_congr_right fun _ => and_congr_right fun _ => ?_
      cases c.reason <;> simp [Reason.Applies, hpasses, hdecides]
    | some predicate =>
      have hpasses : ¬ PassesThrough g id := by
        simp [passesThrough_iff hnode, hpredicate]
      have hdecides : ∀ result, Decides g id context result ↔
          Predicate.holds predicate context = result := by
        simp [decides_iff hnode, hpredicate]
      generalize hresult : Predicate.holds predicate context = result at hdecides
      simp only [candidatesAmong, hpredicate, hresult, mem_firstNonempty_iff,
        mem_candidatesOf_filter (p := (Edge.isLabeled · (truthText result))),
        mem_candidatesOf_filter (p := Edge.isUnlabeled),
        candidatesOf_filter_eq_nil_iff (p := (Edge.isLabeled · (truthText result))),
        candidatesOf_filter_eq_nil_iff (p := Edge.isUnlabeled), mem_candidatesOf_take_one,
        Edge.isLabeled_truthText_iff, Edge.isUnlabeled_iff]
      -- the reason of a candidate leaves one of the three
      cases c.reason with
      | matchesResult other =>
        simp only [Reason.Applies, hdecides, Reason.matchesResult.injEq, reduceCtorEq, false_and,
          and_false, exists_false, or_false]
        exact exists_congr fun edge => by grind
      | unlabeledFallback =>
        simp only [Reason.Applies, hdecides, reduceCtorEq, false_and, and_false, exists_false,
          or_false, false_or, true_and, exists_eq_left']
        exact
          ⟨fun ⟨hnone, edge, hleaves, htarget, hlabel⟩ => ⟨edge, hleaves, htarget, hnone, hlabel⟩,
          fun ⟨edge, hleaves, htarget, hnone, hlabel⟩ => ⟨hnone, edge, hleaves, htarget, hlabel⟩⟩
      | defaultPath =>
        simp only [Reason.Applies, hpasses, hdecides, reduceCtorEq, false_and, and_false,
          exists_false, false_or, true_and, exists_eq_left']
        exact ⟨fun ⟨h, h', edge, hleaves, htarget, hle⟩ => ⟨edge, hleaves, htarget, ⟨h, h'⟩, hle⟩,
          fun ⟨edge, hleaves, htarget, ⟨h, h'⟩, hle⟩ => ⟨h, h', edge, hleaves, htarget, hle⟩⟩

/-- **All candidates have one reason**: they are the candidates for some of the arrows that leave
the node, in their order, and by default for a single one. -/
theorem exists_candidatesOf (g : Graph) (id : NodeId) (context : Predicate.Context) :
    ∃ reason edges, edges.Sublist (g.outgoing id) ∧
      (reason = .defaultPath → edges.length ≤ 1) ∧
      candidates g id context = candidatesOf reason edges := by
  have hdefault : Reason.defaultPath = .defaultPath → ((g.outgoing id).take 1).length ≤ 1 :=
    fun _ => List.length_take_le 1 _
  unfold candidates
  split
  · exact ⟨.defaultPath, [], List.nil_sublist _, fun _ => Nat.zero_le 1, rfl⟩
  · unfold candidatesAmong
    split
    · exact ⟨.defaultPath, _, List.take_sublist 1 _, hdefault, rfl⟩
    · -- the first list that is not empty is one of the three
      simp only [firstNonempty]
      split
      · split
        · exact ⟨.defaultPath, _, List.take_sublist 1 _, hdefault, rfl⟩
        · exact ⟨.unlabeledFallback, _, List.filter_sublist, nofun, rfl⟩
      · exact ⟨.matchesResult _, _, List.filter_sublist, nofun, rfl⟩

theorem pairwise_candidates (g : Graph) (id : NodeId) (context : Predicate.Context) :
    (candidates g id context).Pairwise fun c d => c.index < d.index := by
  obtain ⟨reason, edges, hsub, -, heq⟩ := exists_candidatesOf g id context
  rw [heq]
  exact List.pairwise_map.mpr ((g.pairwise_outgoing id).sublist hsub)

/-- There are no candidates exactly where there is no node, or where no arrow leaves it. -/
theorem candidates_eq_nil_iff :
    candidates g id context = [] ↔ g.node? id = none ∨ ∀ edge ∈ g.edges, edge.source ≠ id := by
  rw [← Graph.outgoing_eq_nil_iff]
  have hdefault : candidatesOf .defaultPath ((g.outgoing id).take 1) = [] ↔ g.outgoing id = [] := by
    simp [candidatesOf]
  unfold candidates
  split
  · next hnode => exact iff_of_true rfl (.inl hnode)
  · next node hnode =>
    rw [hnode, or_iff_right (Option.some_ne_none node)]
    unfold candidatesAmong
    split
    · exact hdefault
    · rw [firstNonempty_eq_nil_iff, firstNonempty_eq_nil_iff, hdefault]
      refine ⟨fun h => h.2.2, fun h => ?_⟩
      rw [h]
      exact ⟨rfl, rfl, rfl⟩

/-- The candidates are the only row in which everything that is considered stands in the order of
the arrows. -/
theorem candidates_eq_iff {cs : List Candidate} :
    candidates g id context = cs ↔ (cs.Pairwise fun c d => c.index < d.index) ∧
      ∀ c, c ∈ cs ↔ Considered g id context c := by
  constructor
  · rintro rfl
    exact ⟨pairwise_candidates g id context, fun c => mem_candidates_iff⟩
  · rintro ⟨hsorted, hmem⟩
    have : Std.Irrefl fun c d : Candidate => c.index < d.index := ⟨fun c => Nat.lt_irrefl _⟩
    have : Std.Antisymm fun c d : Candidate => c.index < d.index :=
      ⟨fun c d hcd hdc => absurd hcd (Nat.lt_asymm hdc)⟩
    exact (pairwise_candidates g id context).eq_of_mem_iff hsorted fun c =>
      mem_candidates_iff.trans (hmem c).symm

/-- **The priority of the arrows.** There are no candidates exactly where there is no node or no
arrow leaves it. The candidates are the row in which everything that is considered stands in the
order of the arrows. They are all considered for the same reason, and by default there is only one.
A step goes along the first of them; if there is none, it halts, and the execution is idle. -/
theorem candidates_follow_priority (g : Graph) (id : NodeId) (context : Predicate.Context) :
    (candidates g id context = [] ↔ g.node? id = none ∨ ∀ edge ∈ g.edges, edge.source ≠ id) ∧
      (∀ cs, candidates g id context = cs ↔ (cs.Pairwise fun c d => c.index < d.index) ∧
        ∀ c, c ∈ cs ↔ Considered g id context c) ∧
      (∃ reason, (∀ c ∈ candidates g id context, c.reason = reason) ∧
        (reason = .defaultPath → (candidates g id context).length ≤ 1)) ∧
      ∀ running generation,
        (⟨⟨some id, running⟩, generation⟩ : Execution).step g context =
          match candidates g id context with
          | chosen :: _ => (.advanced id chosen, ⟨⟨some chosen.target, running⟩, generation⟩)
          | [] => (.halted id, ⟨⟨none, false⟩, generation + 1⟩) := by
  refine ⟨candidates_eq_nil_iff, fun cs => candidates_eq_iff, ?_, fun running generation => ?_⟩
  · obtain ⟨reason, edges, -, hlength, heq⟩ := exists_candidatesOf g id context
    rw [heq]
    refine ⟨reason, fun c hc => ?_, fun hreason => ?_⟩
    · obtain ⟨-, -, -, hreason⟩ := mem_candidatesOf.mp hc
      exact hreason
    · rw [candidatesOf, List.length_map]
      exact hlength hreason
  · cases h : candidates g id context with
    | nil => simp only [Execution.step, choose?, h, List.head?_nil, Execution.reset, Cursor.idle]
    | cons chosen others =>
      simp only [Execution.step, choose?, h, List.head?_cons, Execution.moveTo]

/-- No arrow is labeled like the result, so those without a label are considered, and the first of
them is followed. -/
theorem candidates_follow_priority_unlabeled :
    let g := Graph.ofParts
      [⟨1, ⟨0, 0⟩, .square, some " x ", .none⟩, ⟨2, ⟨0, 0⟩, .circle, none, .none⟩]
      [⟨1, 2, some "TRUE"⟩, ⟨2, 1, none⟩, ⟨1, 2, none⟩, ⟨1, 2, some ""⟩]
    Considered g 1 .empty ⟨2, 2, .unlabeledFallback⟩ ∧
      (⟨⟨some 1, true⟩, 7⟩ : Execution).step g .empty =
        (.advanced 1 ⟨2, 2, .unlabeledFallback⟩, ⟨⟨some 2, true⟩, 7⟩) := by
  intro g
  have hcandidates : candidates g 1 .empty =
      [⟨2, 2, .unlabeledFallback⟩, ⟨3, 2, .unlabeledFallback⟩] := by decide +kernel
  obtain ⟨-, hconsidered, -, hstep⟩ := candidates_follow_priority g 1 .empty
  refine ⟨(((hconsidered _).mp hcandidates).2 _).mp List.mem_cons_self, ?_⟩
  rw [hstep, hcandidates]

end Run

end Flowchart
