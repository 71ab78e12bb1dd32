import Flowchart.Code.Generator
import Flowchart.Proofs.Graph.Soundness
import Mathlib.Logic.Relation

/-!
# The nodes that the walk writes

The walk goes through the flowchart with a stack of steps, and writes a node when it visits it for
the first time. What it has written in the end does not depend on the stack: it is what can be
reached from the first node, going from each node to its *successors*
(`Flowchart.Code.mem_writtenNodes_iff`), and no node is written twice
(`Flowchart.Code.nodup_writtenNodes`).

The successors of a node are the nodes that are visited behind it in the code
(`Flowchart.Code.successors`). They are not always all the nodes that arrows lead to: a circle or a
square without a label has none, and a square with a label has at most two.

That the walk forgets nothing takes two lemmas. Whatever is waiting on the stack has been visited
when the walk is over (`Flowchart.Code.mem_written_of_waiting`), and a node that is written puts its
successors on the stack, so they are visited as well (`Flowchart.Code.mem_written_of_continues`).
-/

namespace Flowchart.Code

open Relation (ReflTransGen)

variable {g : Graph} {visited : List NodeId} {steps : List Step} {id target : NodeId} {node : Node}
  {depth : Nat}

/-! ### Successors -/

/-- The node that a step visits. -/
def Step.visited? : Step → Option NodeId
  | .visit id _ => some id
  | .line _ => none

/-- Where the arrows from a node lead. -/
def targets (g : Graph) (id : NodeId) : List NodeId :=
  (g.outgoing id).map fun (edge, _) => edge.target

/-- **The successors of a node** in the code, in the order of their visits. -/
def successors (g : Graph) (node : Node) : List NodeId :=
  match node.shape, labelOf? node with
  | .circle, none => []
  | .square, none => []
  | .square, some _ => (branch? g node.id "true").toList ++ (branch? g node.id "false").toList
  | _, _ => targets g node.id

/-- The nodes that are waiting for a visit. -/
def waiting (steps : List Step) : List NodeId :=
  steps.filterMap Step.visited?

@[simp] theorem waiting_nil : waiting [] = [] := rfl

@[simp] theorem waiting_line (line : Line) (steps : List Step) :
    waiting (.line line :: steps) = waiting steps := rfl

@[simp] theorem waiting_visit (id : NodeId) (depth : Nat) (steps : List Step) :
    waiting (.visit id depth :: steps) = id :: waiting steps := rfl

@[simp] theorem waiting_append (steps later : List Step) :
    waiting (steps ++ later) = waiting steps ++ waiting later :=
  List.filterMap_append

@[simp] theorem waiting_visitAll (g : Graph) (id : NodeId) (depth : Nat) :
    waiting (visitAll g id depth) = targets g id := by
  rw [waiting, visitAll, List.filterMap_map]
  exact congrFun List.filterMap_eq_map _

theorem waiting_emitCondition (g : Graph) (id : NodeId) (depth : Nat) (condition : String) :
    waiting (emitCondition g id depth (some condition)).follow =
      (branch? g id "true").toList ++ (branch? g id "false").toList := by
  cases htrue : branch? g id "true" <;> cases hfalse : branch? g id "false" <;>
    simp [emitCondition, htrue, hfalse]

/-- **What is visited behind a node** does not depend on the depth. -/
theorem waiting_emit (g : Graph) (node : Node) (depth : Nat) :
    waiting (emit g node depth).follow = successors g node := by
  cases hshape : node.shape with
  | circle => cases hlabel : labelOf? node <;> simp [emit, successors, hshape, hlabel, emitLoop]
  | square =>
    cases hlabel : labelOf? node with
    | none => simp [emit, successors, hshape, hlabel, emitCondition]
    | some condition => simp [emit, successors, hshape, hlabel, waiting_emitCondition]
  | _ => simp [emit, successors, hshape, emitStatement]

/-- **The code continues** from a node to another one of the graph. -/
def Continues (g : Graph) (source target : NodeId) : Prop :=
  ∃ node, g.node? source = some node ∧ target ∈ successors g node ∧ target ∈ g.ids

/-! ### One step of the walk -/

theorem walk_nil : walk g visited [] = [] := by
  rw [walk]

theorem walk_line {line : Line} :
    walk g visited (.line line :: steps) = .line line :: walk g visited steps := by
  rw [walk]

theorem walk_of_mem (h : id ∈ visited) :
    walk g visited (.visit id depth :: steps) = walk g visited steps := by
  rw [walk, dif_pos h]

theorem walk_of_missing (h : g.node? id = none) :
    walk g visited (.visit id depth :: steps) = walk g visited steps := by
  rw [walk]
  split
  · rfl
  · split
    · rfl
    · next node hnode => exact absurd (hnode.symm.trans h) (Option.some_ne_none node)

/-- **A new node** writes the lines that open it, and puts the steps that follow on the stack. -/
theorem walk_of_new (hnew : id ∉ visited) (hnode : g.node? id = some node) :
    walk g visited (.visit id depth :: steps) =
      .node id (emit g node depth).lines ::
        walk g (id :: visited) ((emit g node depth).follow ++ steps) := by
  rw [walk, dif_neg hnew]
  split
  · next hnone => exact absurd (hnode.symm.trans hnone) (Option.some_ne_none node)
  · next other hother =>
    obtain rfl := Option.some.inj (hnode.symm.trans hother)
    rfl

/-! ### What one walk writes -/

/-- The nodes that a walk writes. -/
def written (g : Graph) (visited : List NodeId) (steps : List Step) : List NodeId :=
  (walk g visited steps).filterMap Piece.node?

theorem written_nil : written g visited [] = [] := by
  rw [written, walk_nil]
  rfl

theorem written_line {line : Line} :
    written g visited (.line line :: steps) = written g visited steps := by
  rw [written, walk_line]
  rfl

theorem written_of_mem (h : id ∈ visited) :
    written g visited (.visit id depth :: steps) = written g visited steps := by
  rw [written, walk_of_mem h]
  rfl

theorem written_of_missing (h : g.node? id = none) :
    written g visited (.visit id depth :: steps) = written g visited steps := by
  rw [written, walk_of_missing h]
  rfl

theorem written_of_new (hnew : id ∉ visited) (hnode : g.node? id = some node) :
    written g visited (.visit id depth :: steps) =
      id :: written g (id :: visited) ((emit g node depth).follow ++ steps) := by
  rw [written, walk_of_new hnew hnode]
  rfl

/-- It does not matter for what has been visited in the end when a node is visited. -/
theorem mem_or_mem_cons_comm {α : Type} {x y : α} {xs ys : List α} :
    x ∈ y :: xs ∨ x ∈ ys ↔ x ∈ xs ∨ x ∈ y :: ys := by
  rw [List.mem_cons, List.mem_cons, or_assoc, or_left_comm]

/-- A node is written once, and none is that was visited before. -/
theorem nodup_written (g : Graph) (visited : List NodeId) (steps : List Step) :
    (written g visited steps).Nodup ∧ ∀ id ∈ written g visited steps, id ∉ visited := by
  induction visited, steps using walk.induct g with
  | case1 visited =>
    rw [written_nil]
    exact ⟨.nil, fun _ h => absurd h List.not_mem_nil⟩
  | case2 visited line steps ih => rwa [written_line]
  | case3 visited id depth steps hmem ih => rwa [written_of_mem hmem]
  | case4 visited id depth steps hnew hnone ih => rwa [written_of_missing hnone]
  | case5 visited id depth steps hnew node hnode emission ih =>
    rw [written_of_new hnew hnode]
    obtain ⟨hnodup, hfresh⟩ := ih
    refine ⟨List.nodup_cons.mpr ⟨fun h => hfresh id h List.mem_cons_self, hnodup⟩, ?_⟩
    intro other hother
    rcases List.mem_cons.mp hother with rfl | hother
    · exact hnew
    · exact fun hmem => hfresh other hother (List.mem_cons_of_mem id hmem)

/-- **Whatever is waiting is visited**: when the walk is over, it is written, unless it was visited
before. -/
theorem mem_written_of_waiting (hwaiting : id ∈ waiting steps) (hid : id ∈ g.ids) :
    id ∈ visited ∨ id ∈ written g visited steps := by
  induction visited, steps using walk.induct g with
  | case1 visited => exact absurd hwaiting List.not_mem_nil
  | case2 visited line steps ih =>
    rw [written_line]
    exact ih hwaiting
  | case3 visited other depth steps hmem ih =>
    rw [written_of_mem hmem]
    rcases List.mem_cons.mp hwaiting with rfl | hwaiting
    · exact .inl hmem
    · exact ih hwaiting
  | case4 visited other depth steps hnew hnone ih =>
    rw [written_of_missing hnone]
    rcases List.mem_cons.mp hwaiting with rfl | hwaiting
    · -- a node of the graph is found
      have hsome := Graph.isSome_node?_iff.mpr hid
      rw [hnone] at hsome
      exact nomatch hsome
    · exact ih hwaiting
  | case5 visited other depth steps hnew node hnode emission ih =>
    rw [written_of_new hnew hnode]
    rcases List.mem_cons.mp hwaiting with rfl | hwaiting
    · exact .inr List.mem_cons_self
    · have hlater : id ∈ waiting (emission.follow ++ steps) := by
        rw [waiting_append]
        exact List.mem_append_right _ hwaiting
      exact mem_or_mem_cons_comm.mp (ih hlater)

/-- **The successors of a node that is written are visited** as well. -/
theorem mem_written_of_continues (hid : id ∈ written g visited steps)
    (hcontinues : Continues g id target) : target ∈ visited ∨ target ∈ written g visited steps := by
  induction visited, steps using walk.induct g with
  | case1 visited =>
    rw [written_nil] at hid
    exact absurd hid List.not_mem_nil
  | case2 visited line steps ih =>
    rw [written_line] at hid ⊢
    exact ih hid
  | case3 visited other depth steps hmem ih =>
    rw [written_of_mem hmem] at hid ⊢
    exact ih hid
  | case4 visited other depth steps hnew hnone ih =>
    rw [written_of_missing hnone] at hid ⊢
    exact ih hid
  | case5 visited other depth steps hnew node hnode emission ih =>
    rw [written_of_new hnew hnode] at hid ⊢
    refine mem_or_mem_cons_comm.mp ?_
    rcases List.mem_cons.mp hid with rfl | hid
    · -- the node has just put its successors on the stack
      obtain ⟨_, hnode', hsuccessor, htarget⟩ := hcontinues
      obtain rfl := Option.some.inj (hnode.symm.trans hnode')
      refine mem_written_of_waiting ?_ htarget
      rw [waiting_append, waiting_emit]
      exact List.mem_append_left _ hsuccessor
    · exact ih hid

/-- **Nothing else is written**: the code continues to a node that is written from one that was
waiting. -/
theorem exists_waiting_of_mem_written (hid : id ∈ written g visited steps) :
    ∃ start ∈ waiting steps, start ∈ g.ids ∧ ReflTransGen (Continues g) start id := by
  induction visited, steps using walk.induct g with
  | case1 visited =>
    rw [written_nil] at hid
    exact absurd hid List.not_mem_nil
  | case2 visited line steps ih =>
    rw [written_line] at hid
    exact ih hid
  | case3 visited other depth steps hmem ih =>
    rw [written_of_mem hmem] at hid
    obtain ⟨start, hstart, hreach⟩ := ih hid
    exact ⟨start, List.mem_cons_of_mem other hstart, hreach⟩
  | case4 visited other depth steps hnew hnone ih =>
    rw [written_of_missing hnone] at hid
    obtain ⟨start, hstart, hreach⟩ := ih hid
    exact ⟨start, List.mem_cons_of_mem other hstart, hreach⟩
  | case5 visited other depth steps hnew node hnode emission ih =>
    rw [written_of_new hnew hnode] at hid
    have hother : other ∈ g.ids := Graph.isSome_node?_iff.mp (hnode ▸ rfl)
    rcases List.mem_cons.mp hid with rfl | hid
    · exact ⟨id, List.mem_cons_self, hother, .refl⟩
    · obtain ⟨start, hstart, hmem, hreach⟩ := ih hid
      -- what waits behind the node are its successors and what waited before
      rw [waiting_append, waiting_emit] at hstart
      rcases List.mem_append.mp hstart with hsuccessor | hstart
      · exact ⟨other, List.mem_cons_self, hother, .head ⟨node, hnode, hsuccessor, hmem⟩ hreach⟩
      · exact ⟨start, List.mem_cons_of_mem other hstart, hmem, hreach⟩

/-! ### What is written for a flowchart -/

/-- What is written is what one walk writes from the first node. -/
theorem writtenNodes_eq {first : Node} (h : g.first? = some first) :
    writtenNodes g = written g [] [.visit first.id 0] := by
  rw [writtenNodes, pieces, h]
  rfl

theorem writtenNodes_of_first?_eq_none (h : g.first? = none) : writtenNodes g = [] := by
  rw [writtenNodes, pieces, h]
  rfl

/-- **No node is written twice.** -/
theorem nodup_writtenNodes (g : Graph) : (writtenNodes g).Nodup := by
  cases h : g.first? with
  | none =>
    rw [writtenNodes_of_first?_eq_none h]
    exact .nil
  | some first =>
    rw [writtenNodes_eq h]
    exact (nodup_written g [] _).1

/-- **What is written**: the nodes to which the code continues from the first one. -/
theorem mem_writtenNodes_iff :
    id ∈ writtenNodes g ↔
      ∃ first, g.first? = some first ∧ ReflTransGen (Continues g) first.id id := by
  constructor
  · intro hid
    cases h : g.first? with
    | none =>
      rw [writtenNodes_of_first?_eq_none h] at hid
      exact absurd hid List.not_mem_nil
    | some first =>
      rw [writtenNodes_eq h] at hid
      obtain ⟨start, hstart, -, hreach⟩ := exists_waiting_of_mem_written hid
      obtain rfl := List.mem_singleton.mp hstart
      exact ⟨first, rfl, hreach⟩
  · rintro ⟨first, h, hreach⟩
    rw [writtenNodes_eq h]
    induction hreach with
    | refl =>
      have hwaiting : first.id ∈ waiting [.visit first.id 0] := List.mem_cons_self
      exact (mem_written_of_waiting hwaiting (Graph.mem_ids_of_first? h)).resolve_left
        List.not_mem_nil
    | tail _ hcontinues ih =>
      exact (mem_written_of_continues ih hcontinues).resolve_left List.not_mem_nil

end Flowchart.Code
