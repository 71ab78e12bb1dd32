import Flowchart.Proofs.Code.Descent

/-!
# The code is well nested

Two statements of the code open a block, one stands between the two branches of a condition, and one
closes a block. Read from the top, the lines therefore have some blocks open at every place, the
innermost of which is the one that is closed next (`Flowchart.Code.openBlocks`). A line fits there
(`Flowchart.Code.Line.FitsIn`) if it is as deep as there are blocks around it, if it stands as deep
as the opener of its block in case it ends a branch, and if it opens a second branch only in a
condition that has none yet.

A block is opened as soon as its node is written, but the line that closes it waits on the stack
until everything in between is done, and it is not known before how much that is. So what is kept
from turn to turn is not said of the lines alone. The lines that are written already and the steps
on the stack together are a *plan* of the code (`Flowchart.Code.Progress.plan`), in which a visit
stands for lines that are still unknown. A plan fits if its lines do and every visit is as deep as
there are blocks around it. Two things make this an invariant.

* **What a node contributes leaves the open blocks as they were**: put in the place of the visit, it
  fits where the visit did (`Flowchart.Code.fits_emit`).
* **A turn replaces a visit**, by nothing or by what its node contributes, or it does not change the
  plan (`Flowchart.Code.Progress.fits_plan_turn`).

In the end the plan is the code.
-/

namespace Flowchart.Code

variable {g : Graph} {id : NodeId} {depth : Nat}

/-! ### Blocks -/

namespace Statement

/-- Whether a block is opened. -/
def opens : Statement → Bool
  | openWhile _ | openIf _ => true
  | _ => false

/-- Whether a block is closed. -/
def closes : Statement → Bool
  | close => true
  | _ => false

/-- Whether a branch or a loop ends. -/
def endsBranch : Statement → Bool
  | otherwise | close => true
  | _ => false

end Statement

/-- A block that is open: the line that opened it, and whether its second branch has begun. -/
structure Block where
  opener : Line
  divided : Bool
  deriving DecidableEq

/-- **The open blocks behind a line**, the innermost one first. -/
def enter (blocks : List Block) (line : Line) : List Block :=
  match line.statement, blocks with
  | .openWhile _, _ | .openIf _, _ => ⟨line, false⟩ :: blocks
  | .otherwise, block :: outer => { block with divided := true } :: outer
  | .close, _ :: outer => outer
  | _, _ => blocks

/-- **The blocks that are open** when some lines are read. -/
def openBlocks (lines : List Line) : List Block :=
  lines.foldl enter []

namespace Line

/-- The blocks around a line. A line that ends a branch is not in the block that it belongs to. -/
def around (line : Line) (blocks : List Block) : List Block :=
  if line.statement.endsBranch then blocks.tail else blocks

/-- **A line fits** where some blocks are open. -/
structure FitsIn (line : Line) (blocks : List Block) : Prop where
  /-- It is as deep as there are blocks around it. -/
  depth_eq : line.depth = (line.around blocks).length
  /-- If it ends a branch, it stands as deep as the opener of its block. -/
  aligned : line.statement.endsBranch →
    ∃ block, blocks.head? = some block ∧ block.opener.depth = line.depth
  /-- A second branch begins in a condition that has only one. -/
  divides : line.statement = .otherwise →
    ∃ block condition, blocks.head? = some block ∧ block.opener.statement = .openIf condition ∧
      block.divided = false

end Line

/-! ### Plans -/

/-- **Some steps fit** where some blocks are open, and leave other blocks open. A visit is as deep
as there are blocks around it, and leaves them as they are. -/
def Fits (blocks : List Block) : List Step → List Block → Prop
  | [], final => blocks = final
  | .visit _ depth :: steps, final => depth = blocks.length ∧ Fits blocks steps final
  | .line line :: steps, final => line.FitsIn blocks ∧ Fits (enter blocks line) steps final

variable {blocks final : List Block}

theorem fits_append {steps later : List Step} :
    Fits blocks (steps ++ later) final ↔
      ∃ between, Fits blocks steps between ∧ Fits between later final := by
  induction steps generalizing blocks with
  | nil => simp [Fits]
  | cons step steps ih => cases step <;> simp [Fits, ih, and_assoc]

theorem fits_visitAll (g : Graph) (id : NodeId) (blocks : List Block) :
    Fits blocks (visitAll g id blocks.length) blocks := by
  rw [visitAll]
  induction g.outgoing id with
  | nil => rfl
  | cons edge edges ih => exact ⟨rfl, ih⟩

/-! ### What a node contributes -/

namespace Emission

/-- The steps that take the place of the visit of a node. -/
def steps (e : Emission) : List Step :=
  e.lines.map .line ++ e.follow

end Emission

theorem fitsIn_of_endsBranch_eq_false {statement : Statement} (h : statement.endsBranch = false)
    (blocks : List Block) : (⟨blocks.length, statement⟩ : Line).FitsIn blocks := by
  cases statement with
  | plain | openWhile | openIf => exact ⟨rfl, nofun, nofun⟩
  | otherwise | close => exact nomatch h

theorem fits_close (statement : Statement) (divided : Bool) (blocks : List Block) :
    Fits (⟨⟨blocks.length, statement⟩, divided⟩ :: blocks) [.line ⟨blocks.length, .close⟩] blocks :=
  ⟨⟨rfl, fun _ => ⟨_, rfl, rfl⟩, nofun⟩, rfl⟩

/-- A loop closes what it opens. -/
theorem fits_emitLoop (g : Graph) (id : NodeId) (label? : Option String) (blocks : List Block) :
    Fits blocks (emitLoop g id blocks.length label?).steps blocks := by
  cases label? with
  | none => exact ⟨fitsIn_of_endsBranch_eq_false rfl blocks, rfl⟩
  | some condition =>
    have hbehind : Fits (⟨⟨blocks.length, .openWhile condition⟩, false⟩ :: blocks)
        (visitAll g id (blocks.length + 1) ++ [.line ⟨blocks.length, .close⟩]) blocks :=
      fits_append.mpr ⟨_, fits_visitAll g id (_ :: blocks), fits_close _ _ blocks⟩
    exact ⟨fitsIn_of_endsBranch_eq_false rfl blocks, fitsIn_of_endsBranch_eq_false rfl blocks,
      hbehind⟩

/-- A condition closes what it opens, and its second branch is in the same block. -/
theorem fits_emitCondition (g : Graph) (id : NodeId) (label? : Option String)
    (blocks : List Block) :
    Fits blocks (emitCondition g id blocks.length label?).steps blocks := by
  cases label? with
  | none => exact ⟨fitsIn_of_endsBranch_eq_false rfl blocks, rfl⟩
  | some condition =>
    let block : Block := ⟨⟨blocks.length, .openIf condition⟩, false⟩
    have hopen : ∀ follow, Fits (block :: blocks) follow blocks →
        Fits blocks (.line ⟨blocks.length, .plain "# Conditional node"⟩ ::
          .line ⟨blocks.length, .openIf condition⟩ :: follow) blocks :=
      fun _ hfollow => ⟨fitsIn_of_endsBranch_eq_false rfl blocks,
        fitsIn_of_endsBranch_eq_false rfl blocks, hfollow⟩
    -- the block has not been divided when the second branch begins
    have hsecond : ∀ target, Fits (block :: blocks) [.line ⟨blocks.length, .otherwise⟩,
        .visit target (blocks.length + 1), .line ⟨blocks.length, .close⟩] blocks :=
      fun target => ⟨⟨rfl, fun _ => ⟨_, rfl, rfl⟩, fun _ => ⟨_, condition, rfl, rfl, rfl⟩⟩, rfl,
        fits_close _ true blocks⟩
    cases htrue : branch? g id "true" <;> cases hfalse : branch? g id "false" <;>
      simp only [emitCondition, htrue, hfalse, Emission.steps]
    · exact hopen _ (fits_close _ false blocks)
    · exact hopen _ (hsecond _)
    · exact hopen _ ⟨rfl, fits_close _ false blocks⟩
    · exact hopen _ ⟨rfl, hsecond _⟩

theorem fits_emitStatement (g : Graph) (id : NodeId) (title : String) (body? : Option String)
    (blocks : List Block) :
    Fits blocks (emitStatement g id blocks.length title body?).steps blocks := by
  refine ⟨fitsIn_of_endsBranch_eq_false rfl blocks, ?_⟩
  cases body? with
  | none => exact fits_visitAll g id blocks
  | some body => exact ⟨fitsIn_of_endsBranch_eq_false rfl blocks, fits_visitAll g id blocks⟩

/-- **What a node contributes leaves the open blocks as they were.** -/
theorem fits_emit (g : Graph) (node : Node) (blocks : List Block) :
    Fits blocks (emit g node blocks.length).steps blocks := by
  cases hshape : node.shape with
  | circle => simpa only [emit, hshape] using fits_emitLoop g node.id (labelOf? node) blocks
  | square => simpa only [emit, hshape] using fits_emitCondition g node.id (labelOf? node) blocks
  | hexagon =>
    simpa only [emit, hshape, Emission.steps, List.map_nil, List.nil_append]
      using fits_visitAll g node.id blocks
  | _ => simpa only [emit, hshape] using fits_emitStatement g node.id _ _ blocks

/-! ### The plan, turn by turn -/

/-- In the place of a visit there may be anything that fits there and leaves the blocks as they
are. -/
theorem Fits.replace {before after : List Step} (steps : List Step)
    (h : Fits blocks (before ++ .visit id depth :: after) final)
    (hsteps : ∀ inner : List Block, depth = inner.length → Fits inner steps inner) :
    Fits blocks (before ++ (steps ++ after)) final := by
  obtain ⟨between, hbefore, hdepth, hafter⟩ := fits_append.mp h
  exact fits_append.mpr
    ⟨between, hbefore, fits_append.mpr ⟨between, hsteps between hdepth, hafter⟩⟩

namespace Progress

/-- **The plan of the code**: the lines that are written already, and the steps on the stack. -/
def plan (p : Progress) : List Step :=
  p.lines.map .line ++ p.pending

/-- **A turn keeps a plan that fits.** -/
theorem fits_plan_turn (p : Progress) (h : Fits [] p.plan []) : Fits [] (p.turn g).plan [] := by
  rcases turn_cases g p with ⟨-, hturn⟩ | ⟨line, steps, hpending, hturn⟩ |
    ⟨id, depth, steps, hpending, -, hturn⟩ | ⟨id, depth, steps, node, hpending, -, -, hturn⟩
  · rwa [hturn]
  all_goals
    rw [plan, hpending] at h
    rw [hturn, plan]
  · -- the line only changes sides
    rwa [List.map_append, List.append_assoc]
  · exact h.replace [] fun _ _ => rfl
  · have hemission := h.replace (emit g node depth).steps
      fun inner hdepth => hdepth ▸ fits_emit g node inner
    simpa only [Emission.steps, List.map_append, List.append_assoc] using hemission

end Progress

/-- **The code fits**, and it leaves no block open. -/
theorem fits_body (g : Graph) : Fits [] ((body g).map .line) [] := by
  cases h : g.first? with
  | none =>
    rw [body, pieces, h]
    rfl
  | some first =>
    rw [body_eq_descend h]
    have hplan := (leads_descend g first.id).keeps Progress.fits_plan_turn ⟨rfl, rfl⟩
    simpa only [Progress.plan, List.append_nil] using hplan

/-! ### What it means for lines to fit -/

theorem Fits.foldl_enter {lines : List Line} (h : Fits blocks (lines.map .line) final) :
    lines.foldl enter blocks = final := by
  induction lines generalizing blocks with
  | nil => exact h
  | cons line lines ih => exact ih h.2

/-- What lines that fit begin with fits as well. -/
theorem Fits.beginning {lines before : List Line} (h : Fits [] (lines.map .line) final)
    (hbefore : before <+: lines) : Fits [] (before.map .line) (openBlocks before) := by
  obtain ⟨after, rfl⟩ := hbefore
  rw [List.map_append] at h
  obtain ⟨between, hbetween, -⟩ := fits_append.mp h
  rwa [openBlocks, hbetween.foldl_enter]

/-- Every line fits into the blocks that those in front of it leave open. -/
theorem Fits.fitsIn {lines before : List Line} {line : Line}
    (h : Fits [] (lines.map .line) final) (hbefore : before ++ [line] <+: lines) :
    line.FitsIn (openBlocks before) := by
  have hline := h.beginning hbefore
  rw [List.map_append] at hline
  obtain ⟨between, hbetween, hfits, -⟩ := fits_append.mp hline
  rwa [openBlocks, hbetween.foldl_enter]

/-- A line that opens a block adds it, and a line that closes one takes it away. -/
theorem Line.FitsIn.length_enter {line : Line} (h : line.FitsIn blocks) :
    (enter blocks line).length + (if line.statement.closes then 1 else 0) =
      blocks.length + if line.statement.opens then 1 else 0 := by
  obtain ⟨depth, statement⟩ := line
  cases statement with
  | plain | openWhile | openIf => rfl
  | otherwise | close =>
    -- there is a block that ends a branch here
    obtain ⟨block, hblock, -⟩ := h.aligned rfl
    obtain ⟨outer, rfl⟩ := List.head?_eq_some_iff.mp hblock
    rfl

/-- **Blocks are counted**: what lines open and do not close is left open. -/
theorem Fits.length_add_countP {lines : List Line} (h : Fits blocks (lines.map .line) final) :
    final.length + lines.countP (·.statement.closes) =
      blocks.length + lines.countP (·.statement.opens) := by
  induction lines generalizing blocks with
  | nil => exact congrArg List.length (Eq.symm h)
  | cons line lines ih =>
    obtain ⟨hline, hlines⟩ := h
    have hstep := hline.length_enter
    have hrest := ih hlines
    rw [List.countP_cons, List.countP_cons]
    omega

/-! ### Nesting -/

/-- **Lines are well nested.** -/
structure IsNested (lines : List Line) : Prop where
  /-- Nothing is closed that was not opened. -/
  closes_le : ∀ before, before <+: lines →
    before.countP (·.statement.closes) ≤ before.countP (·.statement.opens)
  /-- Everything that was opened is closed. -/
  closes_eq : lines.countP (·.statement.closes) = lines.countP (·.statement.opens)
  /-- Every line fits into the blocks that are open in front of it. -/
  fits : ∀ before line, before ++ [line] <+: lines → line.FitsIn (openBlocks before)
  /-- Every line is indented by two spaces for each block around it. -/
  indented : ∀ before line, before ++ [line] <+: lines →
    line.text = String.ofList (List.replicate (2 * (line.around (openBlocks before)).length) ' ') ++
      line.statement.text

/-- **The code is well nested**, whatever the flowchart is. -/
theorem isNested_body (g : Graph) : IsNested (body g) where
  closes_le before hbefore := by
    have hcount := ((fits_body g).beginning hbefore).length_add_countP
    rw [List.length_nil, Nat.zero_add] at hcount
    exact hcount ▸ Nat.le_add_left _ _
  closes_eq := by simpa using (fits_body g).length_add_countP
  fits before line hline := (fits_body g).fitsIn hline
  indented before line hline := by rw [Line.text, ((fits_body g).fitsIn hline).depth_eq]

end Flowchart.Code
