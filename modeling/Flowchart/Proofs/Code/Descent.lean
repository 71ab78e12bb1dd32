import Flowchart.Proofs.Code.Walk
import Mathlib.Logic.Function.Iterate

/-!
# The walk is a depth-first descent

The walk keeps what is still to be done on a stack, where visits and closing lines of many nodes
stand above each other. What it writes is easier to say without a stack, by recursion
(`Flowchart.Code.descend`): a node that was visited before contributes nothing; a new one writes the
lines that open it and then carries out the steps that follow, one after the other, where a step
that visits another node writes everything behind that node before the next step begins. The nodes
that were visited are handed from one step to the next, so the recursion ends: either a new node was
visited, or there are fewer steps left.

## The stack and the recursion

The loop is taken turn by turn (`Flowchart.Code.Progress.turn`): a turn takes one step off the stack
and does it. What a turn can do is said once (`Flowchart.Code.Progress.turn_cases`), and whatever
all turns keep holds in the end (`Flowchart.Code.Progress.Leads.keeps`). Two facts carry the
comparison.

* **The recursion is a run of the loop.** The steps on top of the stack are done before anything
  below them is touched, so what the recursion does for some steps is what the loop does until the
  rest of the stack comes to light again. The induction follows the recursion, and the rest of the
  stack is arbitrary (`Flowchart.Code.leads_descend_carryOut`).
* **A turn does not change what comes out** (`Flowchart.Code.Progress.outcome_turn`), if this is
  what is written already together with what the walk writes from there.

As the stack is empty in the end, both together say that the loop comes to an end, and that the
lines of the code are those of the recursion (`Flowchart.Code.generate_eq_descend`).
-/

namespace Flowchart.Code

variable {g : Graph} {visited : List NodeId} {id : NodeId} {node : Node} {depth : Nat}

/-! ### The descent -/

/-- A stretch of the code: its lines, and the nodes that were visited when it was over, among them
those that were visited before. -/
structure Stretch (before : List NodeId) where
  lines : List Line
  visited : List NodeId
  subset : before ⊆ visited

/-- The stretch without lines. -/
def Stretch.nothing (before : List NodeId) : Stretch before :=
  ⟨[], before, List.Subset.refl _⟩

theorem length_unvisited_le {later : List NodeId} (h : visited ⊆ later) :
    (unvisited g later).length ≤ (unvisited g visited).length := by
  refine (List.monotone_filter_right g.nodes fun node hnode => ?_).length_le
  simp only [Bool.not_eq_true', List.contains_eq_mem, decide_eq_false_iff_not] at hnode ⊢
  exact fun hmem => hnode (h hmem)

mutual

/-- **The code of a node and of everything behind it.** -/
def descend (g : Graph) (visited : List NodeId) (id : NodeId) (depth : Nat) : Stretch visited :=
  if _hnew : id ∈ visited then .nothing visited
  else
    match _hnode : g.node? id with
    | none => .nothing visited
    | some node =>
      let emission := emit g node depth
      let behind := carryOut g (id :: visited) emission.follow
      ⟨emission.lines ++ behind.lines, behind.visited,
        fun _ h => behind.subset (List.mem_cons_of_mem id h)⟩
termination_by ((unvisited g visited).length, 0)
decreasing_by exact Prod.Lex.left _ _ (length_unvisited_lt _hnew _hnode)

/-- The code of some steps, each of which is finished before the next one begins. -/
def carryOut (g : Graph) (visited : List NodeId) : List Step → Stretch visited
  | [] => .nothing visited
  | .line line :: steps =>
    let rest := carryOut g visited steps
    ⟨line :: rest.lines, rest.visited, rest.subset⟩
  | .visit id depth :: steps =>
    let subtree := descend g visited id depth
    let rest := carryOut g subtree.visited steps
    ⟨subtree.lines ++ rest.lines, rest.visited, fun _ h => rest.subset (subtree.subset h)⟩
termination_by steps => ((unvisited g visited).length, steps.length)
decreasing_by
  · exact Prod.Lex.right _ (Nat.lt_succ_self _)
  · exact Prod.Lex.right _ (Nat.succ_pos _)
  · -- the subtree may have visited nothing, but then its step is gone
    rcases Nat.lt_or_eq_of_le (length_unvisited_le (g := g) subtree.subset) with hlt | heq
    · exact Prod.Lex.left _ _ hlt
    · rw [heq]
      exact Prod.Lex.right _ (Nat.lt_succ_self _)

end

theorem descend_of_mem (h : id ∈ visited) : descend g visited id depth = .nothing visited := by
  rw [descend, dif_pos h]

theorem descend_of_missing (h : g.node? id = none) :
    descend g visited id depth = .nothing visited := by
  rw [descend]
  split
  · rfl
  · split
    · rfl
    · next node hnode => exact absurd (hnode.symm.trans h) (Option.some_ne_none node)

/-- **A new node** writes the lines that open it, and then everything that follows. -/
theorem descend_of_new (depth : Nat) (hnew : id ∉ visited) (hnode : g.node? id = some node) :
    let behind := carryOut g (id :: visited) (emit g node depth).follow
    (descend g visited id depth).lines = (emit g node depth).lines ++ behind.lines ∧
      (descend g visited id depth).visited = behind.visited := by
  rw [descend, dif_neg hnew]
  split
  · next hnone => exact absurd (hnode.symm.trans hnone) (Option.some_ne_none node)
  · next other hother =>
    obtain rfl := Option.some.inj (hnode.symm.trans hother)
    exact ⟨rfl, rfl⟩

/-! ### The loop, turn by turn -/

/-- How far the walk has come: the nodes that were visited, the steps on the stack, the top first,
and the lines that are written already. -/
structure Progress where
  visited : List NodeId
  pending : List Step
  lines : List Line
  deriving DecidableEq

namespace Progress

/-- **One turn of the loop**: the step on top of the stack is taken off and done. With an empty
stack nothing is left to do. -/
def turn (g : Graph) (p : Progress) : Progress :=
  match p.pending with
  | [] => p
  | .line line :: steps => { p with pending := steps, lines := p.lines ++ [line] }
  | .visit id depth :: steps =>
    if id ∈ p.visited then { p with pending := steps }
    else
      match g.node? id with
      | none => { p with pending := steps }
      | some node =>
        let emission := emit g node depth
        ⟨id :: p.visited, emission.follow ++ steps, p.lines ++ emission.lines⟩

/-- **What a turn can do.** -/
theorem turn_cases (g : Graph) (p : Progress) :
    (p.pending = [] ∧ p.turn g = p) ∨
    (∃ line steps, p.pending = .line line :: steps ∧
      p.turn g = ⟨p.visited, steps, p.lines ++ [line]⟩) ∨
    (∃ id depth steps, p.pending = .visit id depth :: steps ∧
      (id ∈ p.visited ∨ g.node? id = none) ∧ p.turn g = ⟨p.visited, steps, p.lines⟩) ∨
    (∃ id depth steps node, p.pending = .visit id depth :: steps ∧ id ∉ p.visited ∧
      g.node? id = some node ∧
      p.turn g = ⟨id :: p.visited, (emit g node depth).follow ++ steps,
        p.lines ++ (emit g node depth).lines⟩) := by
  obtain ⟨visited, pending, lines⟩ := p
  cases pending with
  | nil => exact .inl ⟨rfl, rfl⟩
  | cons step steps =>
    cases step with
    | line line => exact .inr (.inl ⟨line, steps, rfl, rfl⟩)
    | visit id depth =>
      by_cases hmem : id ∈ visited
      · exact .inr (.inr (.inl ⟨id, depth, steps, rfl, .inl hmem, by simp [turn, hmem]⟩))
      · cases hnode : g.node? id with
        | none =>
          exact .inr (.inr (.inl ⟨id, depth, steps, rfl, .inr hnode, by simp [turn, hnode]⟩))
        | some node =>
          exact .inr (.inr (.inr
            ⟨id, depth, steps, node, rfl, hmem, hnode, by simp [turn, hmem, hnode]⟩))

/-- What comes out in the end: the lines that are written already, and those of the walk from
there. -/
def outcome (g : Graph) (p : Progress) : List Line :=
  p.lines ++ (walk g p.visited p.pending).flatMap Piece.lines

/-- **A turn does not change what comes out.** -/
theorem outcome_turn (g : Graph) (p : Progress) : (p.turn g).outcome g = p.outcome g := by
  rcases turn_cases g p with ⟨-, hturn⟩ | ⟨line, steps, hpending, hturn⟩ |
    ⟨id, depth, steps, hpending, hskip, hturn⟩ |
    ⟨id, depth, steps, node, hpending, hnew, hnode, hturn⟩
  all_goals rw [hturn]
  · rw [outcome, outcome, hpending, walk_line, List.flatMap_cons, Piece.lines, List.append_assoc]
  · rw [outcome, outcome, hpending, hskip.elim walk_of_mem walk_of_missing]
  · rw [outcome, outcome, hpending, walk_of_new hnew hnode, List.flatMap_cons, Piece.lines,
      List.append_assoc]

/-- Some turns lead from one point of the loop to another one. -/
def Leads (g : Graph) (p q : Progress) : Prop :=
  ∃ turns, (turn g)^[turns] p = q

theorem Leads.refl (p : Progress) : Leads g p p := ⟨0, rfl⟩

theorem Leads.trans {p q r : Progress} (h : Leads g p q) (h' : Leads g q r) : Leads g p r := by
  obtain ⟨m, rfl⟩ := h
  obtain ⟨n, rfl⟩ := h'
  exact ⟨n + m, Function.iterate_add_apply _ n m p⟩

theorem Leads.head {p q : Progress} (h : Leads g (p.turn g) q) : Leads g p q :=
  Leads.trans ⟨1, rfl⟩ h

/-- **What every turn keeps, holds all the way.** -/
theorem Leads.keeps {motive : Progress → Prop} (hturn : ∀ p, motive p → motive (p.turn g))
    {p q : Progress} (h : Leads g p q) (hp : motive p) : motive q := by
  obtain ⟨turns, rfl⟩ := h
  induction turns with
  | zero => exact hp
  | succ turns ih =>
    rw [Function.iterate_succ_apply']
    exact hturn _ ih

/-- What no turn changes is the same all the way. -/
theorem Leads.eq_of_turn {α : Type} {f : Progress → α} (hturn : ∀ p, f (p.turn g) = f p)
    {p q : Progress} (h : Leads g p q) : f q = f p :=
  h.keeps (fun r hr => (hturn r).trans hr) rfl

end Progress

open Progress (Leads turn)

/-! ### The recursion is a run of the loop -/

/-- **What the recursion does, the loop does** before it comes back to the rest of the stack. -/
theorem leads_descend_carryOut (g : Graph) :
    (∀ visited id depth later lines,
        Leads g ⟨visited, .visit id depth :: later, lines⟩
          ⟨(descend g visited id depth).visited, later,
            lines ++ (descend g visited id depth).lines⟩) ∧
      ∀ visited steps later lines,
        Leads g ⟨visited, steps ++ later, lines⟩
          ⟨(carryOut g visited steps).visited, later,
            lines ++ (carryOut g visited steps).lines⟩ := by
  refine descend.mutual_induct g _ _ ?visited ?missing ?new ?nil ?line ?visit
  case visited =>
    intro visited id depth hmem later lines
    rw [descend_of_mem hmem, Stretch.nothing, List.append_nil]
    exact ⟨1, by simp only [Function.iterate_one, turn, hmem, if_true]⟩
  case missing =>
    intro visited id depth hnew hnode later lines
    rw [descend_of_missing hnode, Stretch.nothing, List.append_nil]
    exact ⟨1, by simp only [Function.iterate_one, turn, hnew, if_false, hnode]⟩
  case new =>
    intro visited id depth hnew node hnode emission ih _ later lines
    obtain ⟨hlines, hvisited⟩ := descend_of_new depth hnew hnode
    -- the first turn opens the node and puts its steps above the rest
    have hturn : turn g ⟨visited, .visit id depth :: later, lines⟩ =
        ⟨id :: visited, emission.follow ++ later, lines ++ emission.lines⟩ := by
      simp only [turn, hnew, if_false, hnode]
      rfl
    rw [hlines, hvisited, ← List.append_assoc]
    exact .head (hturn ▸ ih later (lines ++ emission.lines))
  case nil =>
    intro visited later lines
    rw [carryOut, Stretch.nothing, List.append_nil]
    exact .refl _
  case line =>
    intro visited line steps ih later lines
    rw [carryOut, List.append_cons]
    exact .head (ih later (lines ++ [line]))
  case visit =>
    intro visited id depth steps subtree hsubtree hrest _ later lines
    rw [carryOut, ← List.append_assoc]
    exact (hsubtree (steps ++ later) lines).trans (hrest later (lines ++ subtree.lines))

/-- The loop does the descent from a node, and nothing is left on its stack. -/
theorem leads_descend (g : Graph) (id : NodeId) :
    let code := descend g [] id 0
    Leads g ⟨[], [.visit id 0], []⟩ ⟨code.visited, [], code.lines⟩ :=
  (leads_descend_carryOut g).1 [] id 0 [] []

/-- The lines behind the header are those of the descent from the first node. -/
theorem body_eq_descend {first : Node} (h : g.first? = some first) :
    body g = (descend g [] first.id 0).lines := by
  have hout := (leads_descend g first.id).eq_of_turn (Progress.outcome_turn g)
  simp only [Progress.outcome, walk_nil, List.flatMap_nil, List.append_nil,
    List.nil_append] at hout
  rw [hout, body, pieces, h]

/-- **The code is the depth-first descent** from the first node. The lines behind the header are
those of the recursion. The loop that finds them with a stack comes to an end, whatever cycles the
flowchart has: after some turns nothing is left on the stack, the same nodes were visited as in the
recursion, and the same lines are written. -/
theorem generate_eq_descend (g : Graph) :
    match g.first? with
    | none => generate g = "# No flowchart nodes defined"
    | some first =>
      let code := descend g [] first.id 0
      generate g = "\n".intercalate (header g ++ code.lines.map Line.text) ∧
        body g = code.lines ∧
        ∃ turns, (turn g)^[turns] ⟨[], [.visit first.id 0], []⟩ =
          ⟨code.visited, [], code.lines⟩ := by
  split
  · next h =>
    rw [generate, Graph.isEmpty_eq, h]
    rfl
  · next first h =>
    intro code
    refine ⟨?_, body_eq_descend h, leads_descend g first.id⟩
    rw [generate, Graph.isEmpty_eq, h, body_eq_descend h]
    rfl

end Flowchart.Code
