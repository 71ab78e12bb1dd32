import Flowchart.Proofs.Fallible
import Flowchart.Proofs.Predicate.Grammar

/-!
# The parser recognizes the grammar

The parser keeps a stack instead of following the grammar, so that the two agree is not to be seen
at a glance. It is shown in both directions.

* **What is spelled is read** (`Flowchart.Predicate.Parser.isRead_of_spells`), by induction on the
  spelling, for every stack on which it may stand (`Flowchart.Predicate.Parser.IsRead`). The left
  operands that a row of tokens leaves on the stack are not joined at its end, but only when
  something looser comes. What is known about them is that they bind at least as tightly as the
  level of the row, and that joining them gives the expression that is spelled
  (`Flowchart.Predicate.Parser.unwind`).
* **What is read is spelled**, by an invariant of the parser. Everything on the stack was put there
  by the tokens read so far, each item by its part of them (`Flowchart.Predicate.Parser.Stacked`),
  and a finished operand is spelled by the tokens behind these
  (`Flowchart.Predicate.Parser.Stands`).

In both directions it matters which operands may stand behind a stack
(`Flowchart.Predicate.Parser.Admits`): behind a left operand one that binds tighter than the
operator there, and behind a negation one that binds at least as tightly as a negation.

The result is that the parser reads a row of tokens exactly as the grammar does. That a row of
tokens has at most one meaning comes out of it, since the parser has only one answer.
-/

namespace Flowchart.Predicate.Parser

open Grammar (Level Leaf Spells Derives missing)

variable {stack rest : List Pending} {token : Token} {place : Place} {e : Expr}

/-! ### What one token does -/

theorem isOperator_iff {symbol : String} :
    token.isOperator symbol = true ↔ token.kind = .operator ∧ token.text = symbol := by
  rw [Token.isOperator, Bool.and_eq_true, decide_eq_true_eq, decide_eq_true_eq]

theorem openNested_eq_ok_iff {item : Pending} :
    openNested stack item = .ok place ↔
      depth stack < maxNesting ∧ place = ⟨item :: stack, .operand⟩ := by
  unfold openNested
  split
  · next h => exact ⟨fun heq => ⟨h, (Except.ok.inj heq).symm⟩, fun heq => heq.2 ▸ rfl⟩
  · next h => exact ⟨(nomatch ·), fun heq => absurd heq.1 h⟩

/-- **A token where an operand is due** is one, or opens a negation or a parenthesis. -/
theorem readOperand_eq_ok_iff :
    readOperand stack token = .ok place ↔
      (∃ e, Leaf token e ∧ place = finish stack e) ∨
      (token.isOperator "!" ∧ depth stack < maxNesting ∧ place = ⟨.not :: stack, .operand⟩) ∨
      (token.isOperator "(" ∧ depth stack < maxNesting ∧ place = ⟨.paren :: stack, .operand⟩) := by
  constructor
  · intro h
    unfold readOperand at h
    split at h
    · next hkind =>
      split at h
      · next x hnumber => exact Or.inl ⟨_, .number hkind hnumber, (Except.ok.inj h).symm⟩
      · exact nomatch h
    · next hkind => exact Or.inl ⟨_, .text hkind, (Except.ok.inj h).symm⟩
    · next hkind => exact Or.inl ⟨_, .truth hkind, (Except.ok.inj h).symm⟩
    · next hkind => exact Or.inl ⟨_, .name hkind, (Except.ok.inj h).symm⟩
    · next hkind =>
      split at h
      · next htext =>
        exact Or.inr (Or.inl ⟨isOperator_iff.mpr ⟨hkind, htext⟩, openNested_eq_ok_iff.mp h⟩)
      · split at h
        · next htext =>
          exact Or.inr (Or.inr ⟨isOperator_iff.mpr ⟨hkind, htext⟩, openNested_eq_ok_iff.mp h⟩)
        · exact nomatch h
  · rintro (⟨e, hleaf, rfl⟩ | ⟨htoken, hdepth, rfl⟩ | ⟨htoken, hdepth, rfl⟩)
    · cases hleaf with
      | number hkind hnumber => simp only [readOperand, hkind, hnumber]
      | text hkind => simp only [readOperand, hkind]
      | truth hkind => simp only [readOperand, hkind]
      | name hkind => simp only [readOperand, hkind]
    · obtain ⟨hkind, htext⟩ := isOperator_iff.mp htoken
      simp only [readOperand, hkind, htext, ↓reduceIte]
      exact openNested_eq_ok_iff.mpr ⟨hdepth, rfl⟩
    · obtain ⟨hkind, htext⟩ := isOperator_iff.mp htoken
      simp only [readOperand, hkind, htext, ↓reduceIte, String.reduceEq]
      exact openNested_eq_ok_iff.mpr ⟨hdepth, rfl⟩

theorem binaryOperator?_eq_some_iff {op : Operator} :
    binaryOperator? token = some op ↔
      token.kind = .operator ∧ Operator.ofSymbol? token.text = some op := by
  unfold binaryOperator?
  split
  · next hkind => exact ⟨fun h => ⟨hkind, h⟩, fun h => h.2⟩
  · next hkind => exact ⟨(nomatch ·), fun h => absurd h.1 hkind⟩

/-- What closes a parenthesis is no binary operator. -/
theorem binaryOperator?_of_closing (h : token.isOperator ")" = true) :
    binaryOperator? token = none := by
  obtain ⟨hkind, htext⟩ := isOperator_iff.mp h
  rw [binaryOperator?, if_pos hkind, htext]
  decide

/-- **A token behind a finished operand** is a binary operator, or closes a parenthesis. -/
theorem readOperator_eq_ok_iff :
    readOperator stack e token = .ok place ↔
      (∃ op, binaryOperator? token = some op ∧
        place = ⟨.left (join op.precedence stack e).2 op :: (join op.precedence stack e).1,
          .operand⟩) ∨
      (∃ rest inner, token.isOperator ")" ∧ join 0 stack e = (.paren :: rest, inner) ∧
        place = finish rest inner) := by
  constructor
  · intro h
    unfold readOperator at h
    split at h
    · next op hop => exact Or.inl ⟨op, hop, (Except.ok.inj h).symm⟩
    · split at h
      · next rest inner hjoin =>
        split at h
        · next hclosing => exact Or.inr ⟨rest, inner, hclosing, hjoin, (Except.ok.inj h).symm⟩
        · exact nomatch h
      · exact nomatch h
  · rintro (⟨op, hop, rfl⟩ | ⟨rest, inner, hclosing, hjoin, rfl⟩)
    · rw [readOperator, hop]
    · simp only [readOperator, binaryOperator?_of_closing hclosing, hjoin, if_pos hclosing]

/-! ### The left operands on a stack -/

/-- Some left operands with their operators, the last one first, as they lie on a stack. -/
def lefts (operands : List (Expr × Operator)) : List Pending :=
  operands.map fun (l, op) => .left l op

/-- **What left operands and a right one come to** in the end. -/
def unwind (operands : List (Expr × Operator)) (e : Expr) : Expr :=
  operands.foldl (fun e (l, op) => .binary op l e) e

theorem unwind_concat (operands : List (Expr × Operator)) (l : Expr) (op : Operator) (e : Expr) :
    unwind (operands ++ [(l, op)]) e = .binary op l (unwind operands e) :=
  List.foldl_concat _ e (l, op) operands

theorem lefts_concat (operands : List (Expr × Operator)) (l : Expr) (op : Operator)
    (stack : List Pending) :
    lefts (operands ++ [(l, op)]) ++ stack = lefts operands ++ .left l op :: stack := by
  simp [lefts]

/-- **Which operands may stand behind a stack**, as far as their strength goes. -/
def Admits (strength : Nat) : List Pending → Prop
  | .left _ op :: _ => op.precedence < strength
  | .not :: _ => notPrecedence ≤ strength
  | _ => True

theorem Admits.mono {weak strong : Nat} (h : Admits weak stack) (hle : weak ≤ strong) :
    Admits strong stack := by
  unfold Admits at h ⊢
  split
  · next op _ => exact Nat.lt_of_lt_of_le h hle
  · exact Nat.le_trans h hle
  · trivial

theorem admits_notPrecedence (stack : List Pending) : Admits notPrecedence stack := by
  unfold Admits
  split
  · next op _ => exact Grammar.precedence_lt_notPrecedence op
  · exact Nat.le_refl _
  · trivial

/-- Where something looser than a negation may stand, no negation is waiting. -/
theorem head?_ne_not {strength : Nat} (h : Admits strength stack) (hlt : strength < notPrecedence) :
    stack.head? ≠ some .not := by
  intro hhead
  obtain ⟨rest, rfl⟩ := List.head?_eq_some_iff.mp hhead
  exact absurd h (Nat.not_le_of_gt hlt)

/-- An operand behind which no negation is waiting is left as it is. -/
theorem finish_of_head?_ne_not (h : stack.head? ≠ some .not) (e : Expr) :
    finish stack e = ⟨stack, .operator e⟩ := by
  unfold finish
  split
  · exact absurd rfl h
  · rfl

theorem finish_lefts {strength : Nat} (operands : List (Expr × Operator))
    (h : Admits strength stack) (hlt : strength < notPrecedence) (e : Expr) :
    finish (lefts operands ++ stack) e = ⟨lefts operands ++ stack, .operator e⟩ := by
  refine finish_of_head?_ne_not ?_ e
  cases operands with
  | nil => exact head?_ne_not h hlt
  | cons item operands => exact fun hhead => nomatch hhead

/-- **Joining takes exactly the left operands that bind tightly enough**, if what lies below them
does not. -/
theorem join_lefts {strength : Nat} {operands : List (Expr × Operator)}
    (hoperands : ∀ item ∈ operands, strength ≤ item.2.precedence) (hstack : Admits strength stack)
    (e : Expr) : join strength (lefts operands ++ stack) e = (stack, unwind operands e) := by
  induction operands generalizing e with
  | nil =>
    change join strength stack e = (stack, e)
    unfold join
    split
    · exact if_neg (Nat.not_le_of_gt hstack)
    · rfl
  | cons item operands ih =>
    obtain ⟨l, op⟩ := item
    have hop : strength ≤ op.precedence := hoperands (l, op) List.mem_cons_self
    change join strength (.left l op :: (lefts operands ++ stack)) e = _
    rw [join, if_pos hop]
    exact ih (fun item hitem => hoperands item (List.mem_cons_of_mem _ hitem)) _

theorem close_lefts (operands : List (Expr × Operator)) (e : Expr) :
    close (lefts operands) e = .ok (unwind operands e) := by
  induction operands generalizing e with
  | nil => rfl
  | cons item operands ih => exact ih _

/-- At the end of the input a finished operand is as good as one that is to be finished. -/
theorem atEnd_finish (stack : List Pending) (e : Expr) :
    atEnd (finish stack e) = close stack e := by
  induction stack generalizing e with
  | nil => rfl
  | cons item stack ih =>
    cases item with
    | not => exact ih (.not e)
    | _ => rfl

/-! ### What is spelled is read -/

theorem depth_cons_not (stack : List Pending) : depth (.not :: stack) = depth stack + 1 :=
  List.countP_cons_of_pos rfl

theorem depth_cons_paren (stack : List Pending) : depth (.paren :: stack) = depth stack + 1 :=
  List.countP_cons_of_pos rfl

theorem depth_cons_left (l : Expr) (op : Operator) (stack : List Pending) :
    depth (.left l op :: stack) = depth stack :=
  List.countP_cons_of_neg Bool.false_ne_true

/-- **A row of tokens is read as an expression**: from any stack behind which an expression of the
level may stand, it leads to left operands of the level or stronger ones and a finished operand,
which together come to the expression. -/
def IsRead (level : Level) (d : Nat) (tokens : List Token) (e : Expr) : Prop :=
  ∀ stack, depth stack = d → Admits level.strength stack →
    ∃ operands last, (∀ item ∈ operands, level.strength ≤ item.2.precedence) ∧
      unwind operands last = e ∧
      tokens.foldlM readToken ⟨stack, .operand⟩ = .ok (finish (lefts operands ++ stack) last)

section Spelled

variable {level strong : Level} {d : Nat} {tokens tokens' : List Token} {l r : Expr}

theorem isRead_leaf (h : Leaf token e) : IsRead .primary d [token] e := by
  refine fun stack _ _ => ⟨[], e, fun _ h => absurd h List.not_mem_nil, rfl, ?_⟩
  exact foldlM_cons_eq_ok_iff.mpr ⟨_, readOperand_eq_ok_iff.mpr (Or.inl ⟨e, h, rfl⟩), rfl⟩

theorem IsRead.loosen (h : IsRead strong d tokens e) (hnext : level.next? = some strong) :
    IsRead level d tokens e := by
  have hstrength := Level.strength_of_next? hnext
  intro stack hdepth hstack
  obtain ⟨operands, last, hoperands, hunwind, hread⟩ := h stack hdepth (hstack.mono (by omega))
  refine ⟨operands, last, fun item hitem => ?_, hunwind, hread⟩
  have := hoperands item hitem
  omega

/-- An operator joins just the left operand that was read before it, and then waits on the stack for
the right one. -/
theorem IsRead.binary {op : Operator} (hleft : IsRead level d tokens l)
    (hright : IsRead strong d tokens' r) (hnext : level.next? = some strong)
    (hkind : token.kind = .operator) (hop : (token.text, op) ∈ level.operators) :
    IsRead level d (tokens ++ token :: tokens') (.binary op l r) := by
  have hnextstrength := Level.strength_of_next? hnext
  obtain ⟨hsymbol, hprecedence⟩ := Grammar.mem_operators_iff.mp hop
  have hlt := Grammar.precedence_lt_notPrecedence op
  intro stack hdepth hstack
  obtain ⟨operands, last, hoperands, hunwind, hread⟩ := hleft stack hdepth hstack
  rw [finish_lefts operands hstack (by omega)] at hread
  -- what was pending of the left operand binds at least as tightly, so all of it is joined
  have hjoin : join op.precedence (lefts operands ++ stack) last = (stack, l) := by
    rw [hprecedence, join_lefts hoperands hstack, hunwind]
  have htoken : readToken ⟨lefts operands ++ stack, .operator last⟩ token =
      .ok ⟨.left l op :: stack, .operand⟩ := by
    refine readOperator_eq_ok_iff.mpr (Or.inl ⟨op, ?_, ?_⟩)
    · exact binaryOperator?_eq_some_iff.mpr ⟨hkind, hsymbol⟩
    · rw [hjoin]
  have hadmits : Admits strong.strength (.left l op :: stack) := by
    change op.precedence < strong.strength
    omega
  obtain ⟨operands', last', hoperands', hunwind', hread'⟩ :=
    hright (.left l op :: stack) hdepth hadmits
  refine ⟨operands' ++ [(l, op)], last', ?_, ?_, ?_⟩
  · intro item hitem
    rcases List.mem_append.mp hitem with hmem | hmem
    · have := hoperands' item hmem
      omega
    · rw [List.mem_singleton.mp hmem]
      exact Nat.le_of_eq hprecedence.symm
  · rw [unwind_concat, hunwind']
  · rw [lefts_concat]
    exact foldlM_append_eq_ok_iff.mpr ⟨_, hread, foldlM_cons_eq_ok_iff.mpr ⟨_, htoken, hread'⟩⟩

/-- Behind a negation no left operand is pending, as none binds so tightly. -/
theorem IsRead.not (h : IsRead .unary (d + 1) tokens e) (htoken : token.isOperator "!" = true)
    (hnesting : d < maxNesting) : IsRead .unary d (token :: tokens) (.not e) := by
  intro stack hdepth _
  have hopen : readToken ⟨stack, .operand⟩ token = .ok ⟨.not :: stack, .operand⟩ :=
    readOperand_eq_ok_iff.mpr (Or.inr (Or.inl ⟨htoken, hdepth ▸ hnesting, rfl⟩))
  obtain ⟨operands, last, hoperands, hunwind, hread⟩ :=
    h (.not :: stack) (hdepth ▸ depth_cons_not stack) (Nat.le_refl _)
  obtain rfl : operands = [] := by
    refine List.eq_nil_iff_forall_not_mem.mpr fun item hitem => ?_
    exact absurd (hoperands item hitem)
      (Nat.not_le_of_gt (Grammar.precedence_lt_notPrecedence item.2))
  obtain rfl : last = e := hunwind
  exact ⟨[], .not last, fun _ h => absurd h List.not_mem_nil, rfl,
    foldlM_cons_eq_ok_iff.mpr ⟨_, hopen, hread⟩⟩

/-- At a closing parenthesis joining goes on until the one that was opened, which is then taken off
the stack. -/
theorem IsRead.paren {opening closing : Token} (h : IsRead .or (d + 1) tokens e)
    (hopening : opening.isOperator "(" = true) (hclosing : closing.isOperator ")" = true)
    (hnesting : d < maxNesting) : IsRead .primary d (opening :: tokens ++ [closing]) e := by
  intro stack hdepth _
  have hopen : readToken ⟨stack, .operand⟩ opening = .ok ⟨.paren :: stack, .operand⟩ :=
    readOperand_eq_ok_iff.mpr (Or.inr (Or.inr ⟨hopening, hdepth ▸ hnesting, rfl⟩))
  have hadmits : Admits 0 (.paren :: stack) := trivial
  obtain ⟨operands, last, -, hunwind, hread⟩ :=
    h (.paren :: stack) (hdepth ▸ depth_cons_paren stack) trivial
  rw [finish_lefts operands hadmits (by decide)] at hread
  -- the parenthesis on the stack is what stops the joining
  have hjoin : join 0 (lefts operands ++ .paren :: stack) last = (.paren :: stack, e) := by
    rw [join_lefts (fun _ _ => Nat.zero_le _) hadmits, hunwind]
  have hclose : readToken ⟨lefts operands ++ .paren :: stack, .operator last⟩ closing =
      .ok (finish stack e) :=
    readOperator_eq_ok_iff.mpr (Or.inr ⟨stack, e, hclosing, hjoin, rfl⟩)
  refine ⟨[], e, fun _ h => absurd h List.not_mem_nil, rfl, ?_⟩
  exact foldlM_cons_eq_ok_iff.mpr ⟨_, hopen, foldlM_append_eq_ok_iff.mpr
    ⟨_, hread, foldlM_cons_eq_ok_iff.mpr ⟨_, hclose, rfl⟩⟩⟩

/-- **What is spelled is read.** -/
theorem isRead_of_spells (h : Spells level d tokens e) : IsRead level d tokens e := by
  induction h with
  | next hnext _ ih => exact IsRead.loosen ih hnext
  | binary hnext hkind hop _ _ ihleft ihright => exact IsRead.binary ihleft ihright hnext hkind hop
  | not htoken hnesting _ ih => exact IsRead.not ih htoken hnesting
  | paren hopening hclosing hnesting _ ih => exact IsRead.paren ih hopening hclosing hnesting
  | leaf hleaf => exact isRead_leaf hleaf

end Spelled

/-! ### What is read is spelled -/

/-- **What is on the stack was put there by tokens.** From the bottom, each item stands for a part
of them: a left operand for those that spell it and the operator behind them, and a negation or a
parenthesis for the one that opens it. -/
inductive Stacked : List Pending → List Token → Prop where
  | nil : Stacked [] []
  | left {stack : List Pending} {before tokens : List Token} {token : Token} {level : Level}
      {l : Expr} {op : Operator} (h : Stacked stack before)
      (hleft : Spells level (depth stack) tokens l) (hkind : token.kind = .operator)
      (hop : (token.text, op) ∈ level.operators) (hstack : Admits op.precedence stack) :
      Stacked (.left l op :: stack) (before ++ (tokens ++ [token]))
  | not {stack : List Pending} {before : List Token} {token : Token} (h : Stacked stack before)
      (htoken : token.isOperator "!") (hdepth : depth stack < maxNesting) :
      Stacked (.not :: stack) (before ++ [token])
  | paren {stack : List Pending} {before : List Token} {token : Token} (h : Stacked stack before)
      (htoken : token.isOperator "(") (hdepth : depth stack < maxNesting) :
      Stacked (.paren :: stack) (before ++ [token])

/-- **An operand stands behind a stack**: the tokens are those of the stack, followed by those that
spell the operand, on a level that may stand there. -/
def Stands (stack : List Pending) (level : Level) (tokens : List Token) (e : Expr) : Prop :=
  Admits level.strength stack ∧ ∃ before own, Stacked stack before ∧
    Spells level (depth stack) own e ∧ tokens = before ++ own

/-- **What holds at a place** after some tokens. -/
def Explains (tokens : List Token) (place : Place) : Prop :=
  match place.due with
  | .operand => Stacked place.stack tokens
  | .operator e => place.stack.head? ≠ some .not ∧ Stands place.stack .unary tokens e

/-- A left operand that is joined stands where it was. -/
theorem Stands.join {l : Expr} {op : Operator} {level : Level} {tokens : List Token}
    (h : Stands (.left l op :: stack) level tokens e) :
    ∃ own : Level, own.strength = op.precedence ∧ Stands stack own tokens (.binary op l e) := by
  obtain ⟨hlt, _, own, hstacked, hspells, rfl⟩ := h
  cases hstacked with
  | @left _ before lefts token level' _ _ hstacked hleft hkind hop hstack =>
    obtain ⟨-, hprecedence⟩ := Grammar.mem_operators_iff.mp hop
    -- the operand on the right is stronger than the operator, so it is of the level behind it
    have hlt' : level'.strength < level.strength := hprecedence ▸ hlt
    obtain ⟨next, hnext⟩ := Level.exists_next?_of_lt hlt'
    have hnextstrength := Level.strength_of_next? hnext
    rw [depth_cons_left] at hspells
    have hright : Spells next (depth stack) own e := hspells.loosen (by omega)
    refine ⟨level', hprecedence.symm, hprecedence ▸ hstack, before, _, hstacked,
      .binary hnext hkind hop hleft hright, ?_⟩
    simp

/-- A negation whose operand is finished stands where it was. -/
theorem Stands.not {level : Level} {tokens : List Token}
    (h : Stands (.not :: stack) level tokens e) : Stands stack .unary tokens (.not e) := by
  obtain ⟨hle, _, own, hstacked, hspells, rfl⟩ := h
  cases hstacked with
  | @not _ before token hstacked htoken hdepth =>
    rw [depth_cons_not] at hspells
    refine ⟨admits_notPrecedence stack, before, token :: own, hstacked,
      .not htoken hdepth (hspells.loosen hle), ?_⟩
    simp

/-- What finishes an operand in parentheses makes it one that stands behind what is below them. -/
theorem Stands.paren {level : Level} {tokens : List Token}
    (h : Stands (.paren :: rest) level tokens e) (hclosing : token.isOperator ")" = true) :
    Stands rest .unary (tokens ++ [token]) e := by
  obtain ⟨-, _, own, hstacked, hspells, rfl⟩ := h
  cases hstacked with
  | @paren _ before opening hstacked hopening hdepth =>
    rw [depth_cons_paren] at hspells
    refine ⟨admits_notPrecedence rest, before, opening :: own ++ [token], hstacked,
      .next rfl (.paren hopening hclosing hdepth (hspells.loosen level.one_le_strength)), ?_⟩
    simp

/-- A finished operand explains the place to which it leads. -/
theorem explains_finish {tokens : List Token} (h : Stands stack .unary tokens e) :
    Explains tokens (finish stack e) := by
  induction stack generalizing e with
  | nil => exact ⟨(nomatch ·), h⟩
  | cons item stack ih =>
    cases item with
    | not => exact ih h.not
    | left l op => exact ⟨(nomatch ·), h⟩
    | paren => exact ⟨(nomatch ·), h⟩

/-- **What is joined stands where the joining stops**, and something as strong as was asked for may
stand there. -/
theorem stands_join {strength : Nat} {level : Level} {tokens : List Token}
    (h : Stands stack level tokens e) (hhead : stack.head? ≠ some .not)
    (hle : strength ≤ level.strength) :
    Admits strength (join strength stack e).1 ∧
      ∃ own : Level, strength ≤ own.strength ∧
        Stands (join strength stack e).1 own tokens (join strength stack e).2 := by
  induction stack generalizing e level with
  | nil => exact ⟨trivial, level, hle, h⟩
  | cons item stack ih =>
    cases item with
    | not => exact absurd rfl hhead
    | paren => exact ⟨trivial, level, hle, h⟩
    | left l op =>
      rw [Parser.join]
      split
      · next hop =>
        obtain ⟨own, hown, hstands⟩ := h.join
        have hlt := Grammar.precedence_lt_notPrecedence op
        exact ih hstands (head?_ne_not hstands.1 (by omega)) (by omega)
      · next hop => exact ⟨Nat.lt_of_not_le hop, level, hle, h⟩

/-- The missing operand stands behind a stack on which an operand is due. -/
theorem Stacked.stands_missing {tokens : List Token} (h : Stacked stack tokens) :
    Stands stack .unary (tokens ++ [missing]) (.const (.bool false)) :=
  ⟨admits_notPrecedence stack, tokens, [missing], h, .next rfl (.leaf Grammar.leaf_missing), rfl⟩

/-- **A token read explains the next place.** -/
theorem Explains.readToken {tokens : List Token} {place' : Place} (h : Explains tokens place)
    (hread : readToken place token = .ok place') : Explains (tokens ++ [token]) place' := by
  obtain ⟨stack, due⟩ := place
  cases due with
  | operand =>
    rcases readOperand_eq_ok_iff.mp hread with
      ⟨e, hleaf, rfl⟩ | ⟨htoken, hdepth, rfl⟩ | ⟨htoken, hdepth, rfl⟩
    · exact explains_finish
        ⟨admits_notPrecedence stack, tokens, [token], h, .next rfl (.leaf hleaf), rfl⟩
    · exact Stacked.not h htoken hdepth
    · exact Stacked.paren h htoken hdepth
  | operator e =>
    obtain ⟨hhead, hstands⟩ := h
    rcases readOperator_eq_ok_iff.mp hread with
      ⟨op, hop, rfl⟩ | ⟨rest, inner, hclosing, hjoin, rfl⟩
    · obtain ⟨hkind, hsymbol⟩ := binaryOperator?_eq_some_iff.mp hop
      obtain ⟨level, -, hlevel⟩ := Grammar.exists_level op
      have hmem := Grammar.mem_operators_iff.mpr ⟨hsymbol, hlevel.symm⟩
      have hlt := Grammar.precedence_lt_notPrecedence op
      obtain ⟨hadmits, own, hown, -, before, left, hstacked, hspells, rfl⟩ :=
        stands_join hstands hhead (Nat.le_of_lt hlt)
      have hleft : Spells level _ left _ := hspells.loosen (by omega)
      rw [List.append_assoc]
      exact Stacked.left hstacked hleft hkind hmem hadmits
    · obtain ⟨-, own, -, hjoined⟩ := stands_join hstands hhead (Nat.zero_le _)
      rw [hjoin] at hjoined
      exact explains_finish (hjoined.paren hclosing)

/-- The tokens read so far explain the place that they lead to. -/
theorem Explains.foldlM {before tokens : List Token} {place' : Place} (h : Explains before place)
    (hread : tokens.foldlM Parser.readToken place = .ok place') :
    Explains (before ++ tokens) place' := by
  induction tokens generalizing before place with
  | nil =>
    obtain rfl := pure_eq_ok_iff.mp hread
    rwa [List.append_nil]
  | cons token tokens ih =>
    obtain ⟨middle, htoken, hrest⟩ := foldlM_cons_eq_ok_iff.mp hread
    rw [← List.singleton_append, ← List.append_assoc]
    exact ih (h.readToken htoken) hrest

/-- **An operand at the end of the input** makes everything that is pending into what all the tokens
spell. -/
theorem Stands.spells_of_close {level : Level} {tokens : List Token} {e' : Expr}
    (h : Stands stack level tokens e) (hclose : close stack e = .ok e') :
    Spells .or 0 tokens e' := by
  induction stack generalizing e level with
  | nil =>
    obtain ⟨-, _, own, ⟨⟩, hspells, rfl⟩ := h
    obtain rfl := Except.ok.inj hclose
    exact hspells.loosen level.one_le_strength
  | cons item stack ih =>
    cases item with
    | left l op =>
      obtain ⟨own, -, hstands⟩ := h.join
      exact ih hstands hclose
    | not => exact ih h.not hclose
    | paren => exact nomatch hclose

/-! ### The parser recognizes the grammar -/

/-- A place that is left by the missing operand is one where an operand is due. -/
theorem atEnd_of_readToken_missing {place' : Place}
    (h : Parser.readToken place missing = .ok place') : atEnd place = atEnd place' := by
  obtain ⟨stack, due⟩ := place
  cases due with
  | operand =>
    obtain rfl := Except.ok.inj h
    exact (atEnd_finish stack _).symm
  | operator e =>
    have hread : readOperator stack e missing = .ok place' := h
    rcases readOperator_eq_ok_iff.mp hread with ⟨op, hop, -⟩ | ⟨rest, inner, hclosing, -⟩
    · exact absurd (binaryOperator?_eq_some_iff.mp hop).1 (by decide)
    · exact absurd hclosing (by decide)

/-- **The parser comes to an expression** exactly if the tokens derive it. -/
theorem exists_place_iff_derives {tokens : List Token} :
    (∃ place, tokens.foldlM Parser.readToken start = .ok place ∧ atEnd place = .ok e) ↔
      Derives tokens e := by
  have hread : ∀ {tokens e}, Spells .or 0 tokens e →
      ∃ place, tokens.foldlM Parser.readToken start = .ok place ∧ atEnd place = .ok e := by
    intro tokens e hspells
    obtain ⟨operands, last, -, hunwind, hread⟩ := isRead_of_spells hspells [] rfl trivial
    refine ⟨_, hread, ?_⟩
    rw [atEnd_finish, List.append_nil, close_lefts, hunwind]
  constructor
  · rintro ⟨⟨stack, due⟩, hplace, hend⟩
    have hexplains := (show Explains [] start from .nil).foldlM hplace
    cases due with
    | operand =>
      -- the operand that is due is read as if its token were there
      exact Or.inr ((Stacked.stands_missing hexplains).spells_of_close hend)
    | operator e => exact Or.inl (hexplains.2.spells_of_close hend)
  · rintro (hspells | hspells)
    · exact hread hspells
    · obtain ⟨place, hplace, hend⟩ := hread hspells
      obtain ⟨middle, hmiddle, hmissing⟩ := foldlM_append_eq_ok_iff.mp hplace
      obtain ⟨place', htoken, hpure⟩ := foldlM_cons_eq_ok_iff.mp hmissing
      obtain rfl := pure_eq_ok_iff.mp hpure
      exact ⟨middle, hmiddle, (atEnd_of_readToken_missing htoken).trans hend⟩

end Flowchart.Predicate.Parser

namespace Flowchart.Predicate

open Grammar (Derives)

/-- A row of tokens that is not too long is read up to its end. -/
theorem parse_eq_ok_iff {tokens : List Token} {e : Expr} (hlength : tokens.length ≤ maxTokens) :
    parse tokens = .ok e ↔
      ∃ place, tokens.foldlM Parser.readToken Parser.start = .ok place ∧
        Parser.atEnd place = .ok e := by
  rw [parse, if_neg (Nat.not_lt_of_le hlength), bind_eq_ok_iff]

theorem length_le_of_parse_eq_ok {tokens : List Token} {e : Expr} (h : parse tokens = .ok e) :
    tokens.length ≤ maxTokens := by
  refine Nat.le_of_not_lt fun hlt => ?_
  rw [parse, if_pos hlt] at h
  exact nomatch h

/-- **The parser recognizes the grammar.** A row of tokens that is not too long is parsed to exactly
those expressions that it derives, of which there is at most one; a longer row is refused as too
long. -/
theorem parse_eq_ok_iff_derives (tokens : List Token) :
    (tokens.length ≤ maxTokens → ∀ e, parse tokens = .ok e ↔ Derives tokens e) ∧
      (∀ e e', Derives tokens e → Derives tokens e' → e = e') ∧
      (maxTokens < tokens.length → parse tokens = .error (.tooLong tokens.length)) := by
  refine ⟨fun hlength e => ?_, fun e e' h h' => ?_, fun hlength => if_pos hlength⟩
  · exact (parse_eq_ok_iff hlength).trans Parser.exists_place_iff_derives
  · obtain ⟨place, hplace, hend⟩ := Parser.exists_place_iff_derives.mpr h
    obtain ⟨place', hplace', hend'⟩ := Parser.exists_place_iff_derives.mpr h'
    obtain rfl := Except.ok.inj (hplace.symm.trans hplace')
    exact Except.ok.inj (hend.symm.trans hend')

/-- Two disjunctions are read from the left, a conjunction binds tighter, and its right operand is
missing. -/
theorem parse_eq_ok_iff_derives_missing :
    let tokens : List Token := [⟨.name, "a", 0⟩, ⟨.operator, "||", 1⟩, ⟨.name, "b", 3⟩,
      ⟨.operator, "||", 4⟩, ⟨.operator, "!", 6⟩, ⟨.name, "c", 7⟩, ⟨.operator, "&&", 8⟩]
    let e : Expr := .binary .or (.binary .or (.name "a") (.name "b"))
      (.binary .and (.not (.name "c")) (.const (.bool false)))
    tokens.length ≤ maxTokens ∧ parse tokens = .ok e ∧ Derives tokens e := by
  intro tokens e
  have hlength : tokens.length ≤ maxTokens := by decide
  have hparse : parse tokens = .ok e := by decide
  exact ⟨hlength, hparse, ((parse_eq_ok_iff_derives tokens).1 hlength e).mp hparse⟩

end Flowchart.Predicate
