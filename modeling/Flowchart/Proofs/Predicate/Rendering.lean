import Flowchart.Proofs.Predicate.Lexical
import Flowchart.Proofs.Predicate.Recognition
import Flowchart.Proofs.Predicate.Tracing

/-!
# The text of a trace is a predicate

An explanation shows the predicate again, without the operands that were skipped and with
parentheses where an operation is looser than the one around it. With the names left bare, this text
is a predicate itself, and it parses to the expression without the skipped operands
(`Flowchart.Predicate.Expr.prune`).

Two things could go wrong here. The text could be cut into other tokens than it was put together
from, and the tokens could be grouped in another way. Both are taken care of by one notion: a text
*reads as* an expression, on a level of the grammar and at a depth
(`Flowchart.Predicate.ReadsAs`). It says that the text has a certain row of lexemes, also in front
of anything that parts it from the rest, and that these lexemes spell the expression. There is one
lemma for each way of putting texts together, which mirrors one rule of the grammar.

The text is then compared with the source, along the derivation of the source
(`Flowchart.Predicate.Expr.fits_of_spells`). Nothing is parenthesized in the text that is not in
parentheses in the source too, because each level of the grammar asks for at least the strength that
the text asks for at that place. So the text has no more tokens and no more nesting than the source,
an operand apart that the source leaves out at its end.
-/

namespace Flowchart.Predicate

open Token (Lexeme Parts IsWord)
open Grammar (Level Leaf Spells Derives missing)

variable {context : Context} {e l r : Expr} {op : Operator} {depth size : Nat}

/-! ### Pruning -/

instance (op : Operator) (v : Value) : Decidable (op.Decides v) :=
  inferInstanceAs (Decidable (_ ∨ _))

/-- **The expression without the operands that are skipped**: where the left operand decides, the
operation is replaced by it. -/
def Expr.prune (context : Context) : Expr → Expr
  | const v => const v
  | name n => name n
  | not e => not (e.prune context)
  | binary op l r =>
    if op.Decides (l.eval context) then l.prune context
    else binary op (l.prune context) (r.prune context)

/-- The constants in an expression, from left to right. -/
def Expr.constants : Expr → List Value
  | const v => [v]
  | name _ => []
  | not e => e.constants
  | binary _ l r => l.constants ++ r.constants

/-! ### Bare text -/

/-- A leaf in a text without values for names. -/
def Source.bareText (value : Value) : Source → String
  | literal => Expr.quotedValue value
  | name n => n

/-- **The text of a trace without the values that names had.** -/
def Trace.bareText (t : Trace) : String :=
  t.write Source.bareText 0

/-- A text is put into parentheses where something tighter is asked for than it is. -/
theorem Trace.write_eq_parenthesize (leafText : Value → Source → String) (outer : Nat) (t : Trace) :
    t.write leafText outer = parenthesize (t.precedence < outer) (t.write leafText 0) := by
  have hzero : ∀ p : Nat, decide (p < 0) = false := fun p => decide_eq_false (Nat.not_lt_zero p)
  cases t <;> simp only [write, precedence, hzero] <;> rfl

/-- A trace of an expression is never skipped as a whole. -/
theorem Expr.isEvaluated_trace (context : Context) (e : Expr) :
    (e.trace context).isEvaluated = true := by
  cases e with
  | const v => rfl
  | name n => rfl
  | not e => rfl
  | binary op l r =>
    by_cases h : op.Decides (l.eval context)
    · rw [trace_binary_of_decides h]
      rfl
    · rw [trace_binary_of_not_decides h]
      rfl

/-! ### Texts that read as expressions -/

/-- **A text reads as an expression** on a level of the grammar and at a depth: wherever it is
parted from the rest it has a row of lexemes of its own, at most so many, and every row of tokens
with these lexemes spells the expression. No such text begins with an equality sign, which would be
drawn to a negation in front of it. -/
def ReadsAs (text : List Char) (level : Level) (depth size : Nat) (e : Expr) : Prop :=
  text.head? ≠ some '=' ∧ ∃ own : List Lexeme, own.length ≤ size ∧
    (∀ rest, Parts rest → Token.lexemes (text ++ rest) = own ++ Token.lexemes rest) ∧
    ∀ tokens : List Token, tokens.map Token.lexeme = own → Spells level depth tokens e

variable {text left right : List Char} {level next : Level} {m n : Nat}

/-- What is spelled in some depth is spelled in a smaller one. -/
theorem Grammar.Spells.lift {depth' : Nat} {tokens : List Token} (h : Spells level depth' tokens e)
    (hle : depth ≤ depth') : Spells level depth tokens e := by
  induction h generalizing depth with
  | next hnext _ ih => exact .next hnext (ih hle)
  | binary hnext hkind hop _ _ ihleft ihright =>
    exact .binary hnext hkind hop (ihleft hle) (ihright hle)
  | not htoken hdepth _ ih => exact .not htoken (by omega) (ih (by omega))
  | paren hopening hclosing hdepth _ ih => exact .paren hopening hclosing (by omega) (ih (by omega))
  | leaf h => exact .leaf h

theorem ReadsAs.mono {depth' : Nat} {weak : Level} (h : ReadsAs text level depth' m e)
    (hlevel : weak.strength ≤ level.strength) (hdepth : depth ≤ depth') (hsize : m ≤ n) :
    ReadsAs text weak depth n e := by
  obtain ⟨hhead, own, hlength, hlexemes, hspells⟩ := h
  exact ⟨hhead, own, Nat.le_trans hlength hsize, hlexemes,
    fun tokens htokens => ((hspells tokens htokens).loosen hlevel).lift hdepth⟩

/-- **Two texts around an operator** read as the operation, on the level of the operator. -/
theorem ReadsAs.binary (hleft : ReadsAs left level depth m l)
    (hright : ReadsAs right next depth n r) (hnext : level.next? = some next)
    (hop : op.precedence = level.strength) :
    ReadsAs (left ++ ' ' :: op.symbol.toList ++ ' ' :: right) level depth (m + 1 + n)
      (.binary op l r) := by
  obtain ⟨hheadLeft, ownLeft, hlengthLeft, hlexemesLeft, hspellsLeft⟩ := hleft
  obtain ⟨-, ownRight, hlengthRight, hlexemesRight, hspellsRight⟩ := hright
  refine ⟨?_, ownLeft ++ (.operator, op.symbol) :: ownRight, ?_, fun rest hrest => ?_,
    fun tokens htokens => ?_⟩
  · cases left with
    | nil => simp
    | cons c left => simpa using hheadLeft
  · simp only [List.length_append, List.length_cons]
    omega
  · have hassoc : left ++ ' ' :: op.symbol.toList ++ ' ' :: right ++ rest =
        left ++ ' ' :: (op.symbol.toList ++ ' ' :: (right ++ rest)) := by
      simp
    rw [hassoc, hlexemesLeft _ (Token.parts_blank _), Token.lexemes_cons_blank,
      Token.lexemes_symbol_append, hlexemesRight rest hrest]
    simp
  · obtain ⟨lefts, others, rfl, hlefts, hothers⟩ := List.map_eq_append_iff.mp htokens
    obtain ⟨token, rights, rfl, htoken, hrights⟩ := List.map_eq_cons_iff.mp hothers
    obtain ⟨hkind, htext⟩ := Prod.mk.inj htoken
    refine .binary hnext hkind ?_ (hspellsLeft lefts hlefts) (hspellsRight rights hrights)
    rw [Grammar.mem_operators_iff, htext]
    exact ⟨Operator.ofSymbol?_symbol op, hop⟩

/-- **A text behind a negation** reads as the negation. -/
theorem ReadsAs.not (h : ReadsAs text .unary (depth + 1) n e) (hdepth : depth < maxNesting) :
    ReadsAs ('!' :: text) .unary depth (n + 1) (.not e) := by
  obtain ⟨hhead, own, hlength, hlexemes, hspells⟩ := h
  refine ⟨by simp, (.operator, "!") :: own, Nat.succ_le_succ hlength, fun rest hrest => ?_,
    fun tokens htokens => ?_⟩
  · have hne : (text ++ rest).head? ≠ some '=' := by
      cases text with
      | nil =>
        intro heq
        rcases hrest _ heq with h | h <;> exact absurd h (by decide)
      | cons c text => simpa using hhead
    rw [List.cons_append, Token.lexemes_negation_cons hne, hlexemes rest hrest]
    rfl
  · obtain ⟨token, others, rfl, htoken, hothers⟩ := List.map_eq_cons_iff.mp htokens
    obtain ⟨hkind, htext⟩ := Prod.mk.inj htoken
    exact .not (Parser.isOperator_iff.mpr ⟨hkind, htext⟩) hdepth (hspells others hothers)

/-- **A text in parentheses** reads as what it reads as without them, on the strongest level. -/
theorem ReadsAs.paren (h : ReadsAs text .or (depth + 1) n e) (hdepth : depth < maxNesting) :
    ReadsAs ('(' :: text ++ [')']) .primary depth (n + 2) e := by
  obtain ⟨-, own, hlength, hlexemes, hspells⟩ := h
  refine ⟨by simp, (.operator, "(") :: own ++ [(.operator, ")")], ?_, fun rest hrest => ?_,
    fun tokens htokens => ?_⟩
  · simp only [List.cons_append, List.length_cons, List.length_append, List.length_nil]
    omega
  · have hassoc : '(' :: text ++ [')'] ++ rest = '(' :: (text ++ ')' :: rest) := by simp
    rw [hassoc, Token.lexemes_opening_cons, hlexemes _ (Token.parts_closing rest),
      Token.lexemes_closing_cons]
    simp
  · obtain ⟨opening, others, rfl, hopening, hothers⟩ := List.map_eq_cons_iff.mp htokens
    obtain ⟨inner, closings, rfl, hinner, hclosings⟩ := List.map_eq_append_iff.mp hothers
    obtain ⟨closing, nothing, rfl, hclosing, hnothing⟩ := List.map_eq_cons_iff.mp hclosings
    obtain rfl := List.map_eq_nil_iff.mp hnothing
    obtain ⟨hkind, htext⟩ := Prod.mk.inj hopening
    obtain ⟨hkind', htext'⟩ := Prod.mk.inj hclosing
    exact .paren (Parser.isOperator_iff.mpr ⟨hkind, htext⟩)
      (Parser.isOperator_iff.mpr ⟨hkind', htext'⟩) hdepth (hspells inner hinner)

/-- **A text that is one lexeme** reads as the leaf that every token with this lexeme is. -/
theorem readsAs_leaf {kind : Token.Kind} (hhead : text.head? ≠ some '=')
    (hlexemes : ∀ rest, Parts rest →
      Token.lexemes (text ++ rest) = (kind, String.ofList text) :: Token.lexemes rest)
    (hleaf : ∀ token : Token, token.kind = kind → token.text = String.ofList text → Leaf token e) :
    ReadsAs text .primary depth 1 e := by
  refine ⟨hhead, [(kind, String.ofList text)], Nat.le_refl _, hlexemes, fun tokens htokens => ?_⟩
  obtain ⟨token, others, rfl, htoken, hothers⟩ := List.map_eq_cons_iff.mp htokens
  obtain rfl := List.map_eq_nil_iff.mp hothers
  obtain ⟨hkind, htext⟩ := Prod.mk.inj htoken
  exact .leaf (hleaf token hkind htext)

/-- A source compiles to what its text reads as, if that does not take too many tokens. -/
theorem ReadsAs.compile {source : String} (h : ReadsAs source.toList level 0 n e)
    (hsize : n ≤ maxTokens) : compile source = .ok e := by
  obtain ⟨-, own, hlength, hlexemes, hspells⟩ := h
  have htokens : (tokenize source).map Token.lexeme = own := by
    have hall := hlexemes [] Token.parts_nil
    rwa [List.append_nil, Token.lexemes_nil, List.append_nil] at hall
  have hcount : (tokenize source).length ≤ maxTokens := by
    rw [← List.length_map (f := Token.lexeme), htokens]
    exact Nat.le_trans hlength hsize
  rw [Predicate.compile, parse_eq_ok_iff hcount, Parser.exists_place_iff_derives]
  exact Or.inl ((hspells _ htokens).loosen level.one_le_strength)

/-! ### Leaves -/

/-- **A number is plain** if its text is a row of digits with at most a fraction behind it, and
reads back as the number. -/
def IsPlainNumber (x : Float) : Prop :=
  Number.Decimal.ofExtended? (Value.numberText x).toList = some x ∧
    ∃ whole fraction : List Char, whole ≠ [] ∧ (∀ c ∈ whole, c.isDigit = true) ∧
      (∀ c ∈ fraction, c.isDigit = true) ∧
      (Value.numberText x).toList = whole ++ if fraction = [] then [] else '.' :: fraction

theorem isPlainNumber_zero : IsPlainNumber 0 :=
  ⟨by decide +kernel, ['0'], [], by simp, by simp, by simp, by decide +kernel⟩

theorem isPlainNumber_one : IsPlainNumber 1 :=
  ⟨by decide +kernel, ['1'], [], by simp, by simp, by simp, by decide +kernel⟩

/-- **A text is plain** if each of its characters is written as it is, or is one of the two that
carry a backslash. -/
def IsPlainText (s : String) : Prop :=
  ∀ c ∈ s.toList, c = '"' ∨ c = '\\' ∨ Text.quoteChar c = [c]

instance (s : String) : Decidable (IsPlainText s) :=
  List.decidableBAll _ _

/-- A constant is plain if it is a plain number, a plain text or something else. -/
def Value.IsPlain : Value → Prop
  | .number x => IsPlainNumber x
  | .text s => IsPlainText s
  | _ => True

/-- A plain number reads as itself. -/
theorem readsAs_number {x : Float} (h : IsPlainNumber x) :
    ReadsAs (Value.numberText x).toList .primary depth 1 (.const (.number x)) := by
  obtain ⟨hreads, whole, fraction, hne, hwhole, hfraction, htext⟩ := h
  refine readsAs_leaf ?_ (fun rest hrest => ?_)
    (fun token (hkind : token.kind = .number) htoken => ?_)
  · obtain ⟨c, whole, rfl⟩ := List.exists_cons_of_ne_nil hne
    rw [htext, List.cons_append, List.head?_cons]
    intro heq
    have hc := hwhole c List.mem_cons_self
    rw [Option.some.inj heq] at hc
    exact absurd hc (by decide)
  · rw [htext]
    split
    · rw [List.append_nil]
      exact Token.lexemes_digits_append hne hwhole hrest
    · next hfr => exact Token.lexemes_fraction_append hne hwhole hfr hfraction hrest
  · refine .number hkind ?_
    rw [htoken, String.ofList_toList]
    exact hreads

/-- Between its quotes a plain text is escaped. -/
theorem escapes_quoteChar {s : List Char}
    (h : ∀ c ∈ s, c = '"' ∨ c = '\\' ∨ Text.quoteChar c = [c]) :
    Token.Escapes '"' s (s.flatMap Text.quoteChar) := by
  induction s with
  | nil => exact .nil
  | cons c s ih =>
    have hs := ih fun d hd => h d (List.mem_cons_of_mem _ hd)
    rw [List.flatMap_cons]
    by_cases hquote : c = '"' ∨ c = '\\'
    · have hc : Text.quoteChar c = ['\\', c] := if_pos hquote
      rw [hc]
      refine .escaped ?_ hs
      rcases hquote with rfl | rfl <;> decide
    · rw [not_or] at hquote
      have hc : Text.quoteChar c = [c] := by
        rcases h c List.mem_cons_self with hc | hc | hc
        · exact absurd hc hquote.1
        · exact absurd hc hquote.2
        · exact hc
      rw [hc]
      exact .plain hquote.1 hquote.2 hs

/-- A plain text reads as itself. -/
theorem readsAs_text {s : String} (h : IsPlainText s) :
    ReadsAs (Text.quote s).toList .primary depth 1 (.const (.text s)) := by
  have hescapes := escapes_quoteChar h
  have hquote : (Text.quote s).toList = '"' :: s.toList.flatMap Text.quoteChar ++ ['"'] := by
    rw [Text.quote, String.toList_ofList]
  refine readsAs_leaf ?_ (fun rest _ => ?_)
    (fun token (hkind : token.kind = .text) htoken => ?_)
  · rw [hquote]
    simp
  · rw [hquote]
    exact hescapes.lexemes_append (Or.inl rfl) rest
  · have hcontent : Token.contentOf token.text = s := by
      rw [htoken, hquote, hescapes.contentOf, String.ofList_toList]
    rw [← hcontent]
    exact .text hkind

/-- A word reads as the truth value or the name that it is. -/
theorem readsAs_word {word : String} (hword : IsWord word.toList)
    (hleaf : ∀ token : Token, token.kind = Token.wordKind word.toList → token.text = word →
      Leaf token e) :
    ReadsAs word.toList .primary depth 1 e := by
  refine readsAs_leaf ?_ (fun rest hrest => Token.lexemes_word_append hword hrest)
    (fun token hkind htoken => hleaf token hkind ?_)
  · obtain ⟨⟨c, hc, hstarts⟩, -⟩ := hword
    rw [hc]
    intro heq
    rw [Option.some.inj heq] at hstarts
    exact absurd hstarts (by decide)
  · rw [htoken, String.ofList_toList]

/-- A truth value reads as itself. -/
theorem readsAs_truth (b : Bool) :
    ReadsAs (Value.truthText b).toList .primary depth 1 (.const (.bool b)) := by
  have hword : IsWord (Value.truthText b).toList ∧
      Token.wordKind (Value.truthText b).toList = .truth := by
    cases b
    · exact ⟨⟨⟨'f', rfl, rfl⟩, List.all_eq_true.mp rfl⟩, rfl⟩
    · exact ⟨⟨⟨'t', rfl, rfl⟩, List.all_eq_true.mp rfl⟩, rfl⟩
  refine readsAs_word hword.1 fun token hkind htext => ?_
  rw [hword.2] at hkind
  have hb : decide (token.text = "true") = b := by
    rw [htext]
    cases b <;> rfl
  have hleaf := Leaf.truth hkind
  rwa [hb] at hleaf

/-- **A leaf of a source reads as itself** if it is plain. -/
theorem readsAs_of_leaf {token : Token} (h : Leaf token e) (hplain : ∀ v ∈ e.constants, v.IsPlain)
    (hname : token.kind = .name →
      IsWord token.text.toList ∧ Token.wordKind token.text.toList = .name) :
    ReadsAs (((e.trace context).write Source.bareText 0).toList) .primary depth 1
      (e.prune context) := by
  cases h with
  | number hkind hnumber => exact readsAs_number (hplain _ List.mem_cons_self)
  | text hkind => exact readsAs_text (hplain _ List.mem_cons_self)
  | truth hkind => exact readsAs_truth _
  | name hkind =>
    obtain ⟨hword, hwordKind⟩ := hname hkind
    refine readsAs_word hword fun other hkind' htext => ?_
    have hleaf := Leaf.name (hkind'.trans hwordKind)
    have htext' : other.text = token.text := htext
    rwa [htext'] at hleaf

/-! ### The text of a trace -/

/-- **The text of a trace fits a place** that asks for some strength: it reads as what is left of
the expression, on a level that is strong enough for the place and for the operation at its top. -/
def Expr.Fits (context : Context) (outer depth size : Nat) (e : Expr) : Prop :=
  ∃ own : Level, outer ≤ own.strength ∧ (e.trace context).precedence ≤ own.strength ∧
    ReadsAs ((e.trace context).write Source.bareText outer).toList own depth size (e.prune context)

namespace Expr

variable {outer : Nat}

/-- Where the right operand is skipped, the left one is written for the strength of the operator. -/
theorem Fits.skipped (h : l.Fits context op.precedence depth m)
    (hdecides : op.Decides (l.eval context)) (houter : outer ≤ op.precedence) (hsize : m ≤ n) :
    (binary op l r).Fits context outer depth n := by
  obtain ⟨own, hown, -, hreads⟩ := h
  have hopen : ¬ op.precedence < outer := Nat.not_lt_of_le houter
  refine ⟨own, Nat.le_trans houter hown, ?_, ?_⟩
  · rw [trace_binary_of_decides hdecides]
    exact hown
  · rw [trace_binary_of_decides hdecides, prune, if_pos hdecides]
    simp only [Trace.write, Trace.isEvaluated, parenthesize, hopen, decide_false,
      Bool.false_eq_true, if_false, String.append_empty]
    exact hreads.mono (Nat.le_refl _) (Nat.le_refl _) hsize

/-- Two operands that are both written fit around their operator, if the place asks for no more
than its strength. The right one has to be stronger. -/
theorem Fits.binary (hleft : l.Fits context op.precedence depth m)
    (hright : r.Fits context (op.precedence + 1) depth n)
    (hdecides : ¬ op.Decides (l.eval context)) (hnext : level.next? = some next)
    (hop : op.precedence = level.strength) (houter : outer ≤ level.strength) :
    (binary op l r).Fits context outer depth (m + 1 + n) := by
  obtain ⟨ownLeft, hownLeft, -, hreadsLeft⟩ := hleft
  obtain ⟨ownRight, hownRight, -, hreadsRight⟩ := hright
  have hstrength := Level.strength_of_next? hnext
  have hopen : ¬ op.precedence < outer := by omega
  refine ⟨level, houter, ?_, ?_⟩
  · rw [trace_binary_of_not_decides hdecides]
    exact Nat.le_of_eq hop
  · have hlevel : level.strength ≤ ownLeft.strength := by omega
    have hnextLevel : next.strength ≤ ownRight.strength := by omega
    have hoperands := ReadsAs.binary
      (hreadsLeft.mono hlevel (Nat.le_refl depth) (Nat.le_refl m))
      (hreadsRight.mono hnextLevel (Nat.le_refl depth) (Nat.le_refl n)) hnext hop
    have htext : ((Trace.binary op (l.trace context) (r.trace context)
          ((Expr.binary op l r).eval context)).write Source.bareText outer).toList =
        ((l.trace context).write Source.bareText op.precedence).toList ++
          ' ' :: op.symbol.toList ++
          ' ' :: ((r.trace context).write Source.bareText (op.precedence + 1)).toList := by
      simp [Trace.write, isEvaluated_trace, parenthesize, hopen]
    rw [trace_binary_of_not_decides hdecides, prune, if_neg hdecides, htext]
    exact hoperands

/-- A negation fits where no more than its strength is asked for. -/
theorem Fits.not (h : e.Fits context notPrecedence (depth + 1) n) (hdepth : depth < maxNesting)
    (houter : outer ≤ notPrecedence) : (not e).Fits context outer depth (n + 1) := by
  obtain ⟨own, hown, -, hreads⟩ := h
  have hopen : ¬ notPrecedence < outer := Nat.not_lt_of_le houter
  refine ⟨.unary, houter, Nat.le_refl _, ?_⟩
  have hunary : Level.unary.strength ≤ own.strength := hown
  have hnegation := (hreads.mono hunary (Nat.le_refl _) (Nat.le_refl _)).not hdepth
  have htext : (((Expr.not e).trace context).write Source.bareText outer).toList =
      '!' :: ((e.trace context).write Source.bareText notPrecedence).toList := by
    simp [trace, Trace.write, parenthesize, hopen]
  rw [htext]
  exact hnegation

/-- What fits anywhere inside parentheses fits in their place too: either it is put into parentheses
again, or it can do without those of the source. -/
theorem Fits.paren (h : e.Fits context 0 (depth + 1) n) (hdepth : depth < maxNesting)
    (houter : outer ≤ Level.primary.strength) : e.Fits context outer depth (n + 2) := by
  obtain ⟨own, -, hown, hreads⟩ := h
  rw [Fits, Trace.write_eq_parenthesize]
  by_cases hneeded : (e.trace context).precedence < outer
  · have hstrongest : own.strength ≤ Level.primary.strength := by
      cases own <;> decide
    refine ⟨.primary, houter, Nat.le_trans hown hstrongest, ?_⟩
    have hweakest : Level.or.strength ≤ own.strength := own.one_le_strength
    have hloose := hreads.mono hweakest (Nat.le_refl _) (Nat.le_refl _)
    have htext : (parenthesize (decide ((e.trace context).precedence < outer))
          ((e.trace context).write Source.bareText 0)).toList =
        '(' :: ((e.trace context).write Source.bareText 0).toList ++ [')'] := by
      simp [parenthesize, hneeded]
    rw [htext]
    exact hloose.paren hdepth
  · refine ⟨own, by omega, hown, ?_⟩
    rw [parenthesize, if_neg (by simpa using hneeded)]
    exact hreads.mono (Nat.le_refl _) (Nat.le_succ _) (by omega)

/-- A leaf fits everywhere, if it is plain. -/
theorem fits_of_leaf {token : Token} (h : Leaf token e) (hplain : ∀ v ∈ e.constants, v.IsPlain)
    (hname : token.kind = .name →
      IsWord token.text.toList ∧ Token.wordKind token.text.toList = .name)
    (houter : outer ≤ Level.primary.strength) : e.Fits context outer depth 1 := by
  have hbare : ¬ (e.trace context).precedence < outer := by
    have hle : outer ≤ leafPrecedence := houter
    cases h <;> exact Nat.not_lt_of_le hle
  refine ⟨.primary, houter, ?_, ?_⟩
  · cases h <;> exact Nat.le_refl _
  · rw [Trace.write_eq_parenthesize, parenthesize, if_neg (by simpa using hbare)]
    exact readsAs_of_leaf h hplain hname

/-- **The text of a trace fits wherever the source stands**, and it takes no more tokens than the
source. -/
theorem fits_of_spells {tokens : List Token} (h : Spells level depth tokens e) (context : Context)
    (hplain : ∀ v ∈ e.constants, v.IsPlain)
    (hnames : ∀ token ∈ tokens, token.kind = .name →
      IsWord token.text.toList ∧ Token.wordKind token.text.toList = .name)
    (houter : outer ≤ level.strength) : e.Fits context outer depth tokens.length := by
  induction h generalizing outer with
  | next hnext _ ih =>
    have hstrength := Level.strength_of_next? hnext
    exact ih hplain hnames (by omega)
  | @binary level next depth lefts rights token op l r hnext hkind hop _ _ ihleft ihright =>
    obtain ⟨-, hprecedence⟩ := Grammar.mem_operators_iff.mp hop
    have hstrength := Level.strength_of_next? hnext
    have hleft : l.Fits context op.precedence depth lefts.length :=
      ihleft (fun v hv => hplain v (List.mem_append_left _ hv))
        (fun t ht => hnames t (List.mem_append_left _ ht)) (Nat.le_of_eq hprecedence)
    by_cases hdecides : op.Decides (l.eval context)
    · refine hleft.skipped hdecides (by omega) ?_
      rw [List.length_append]
      exact Nat.le_add_right _ _
    · have hright : r.Fits context (op.precedence + 1) depth rights.length :=
        ihright (fun v hv => hplain v (List.mem_append_right _ hv))
          (fun t ht => hnames t (List.mem_append_right _ (List.mem_cons_of_mem _ ht))) (by omega)
      have hlength : (lefts ++ token :: rights).length = lefts.length + 1 + rights.length := by
        rw [List.length_append, List.length_cons]
        omega
      rw [hlength]
      exact hleft.binary hright hdecides hnext hprecedence houter
  | not htoken hdepth _ ih =>
    exact (ih hplain (fun t ht => hnames t (List.mem_cons_of_mem _ ht)) (Nat.le_refl _)).not hdepth
      houter
  | @paren depth tokens opening closing e hopening hclosing hdepth _ ih =>
    have hlength : (opening :: tokens ++ [closing]).length = tokens.length + 2 := by simp
    rw [hlength]
    exact (ih hplain (fun t ht => hnames t (by simp [ht])) (Nat.zero_le _)).paren hdepth houter
  | leaf h => exact fits_of_leaf h hplain (hnames _ List.mem_cons_self) houter

/-- **The text of a trace fits at the top**, where its source compiles and its constants are plain.
The source may be one token short of the limit, since the text shows an operand that the source
leaves out at its end. -/
theorem fits_of_compile {source : String} (hlength : (tokenize source).length ≤ maxTokens - 1)
    (hcompile : compile source = .ok e) (hplain : ∀ v ∈ e.constants, v.IsPlain)
    (context : Context) : e.Fits context 0 0 maxTokens := by
  have hpositive : 0 < maxTokens := by decide
  have hderives : Derives (tokenize source) e := by
    rw [compile, parse_eq_ok_iff (by omega)] at hcompile
    exact Parser.exists_place_iff_derives.mp hcompile
  have hnames : ∀ token ∈ tokenize source ++ [missing], token.kind = .name →
      IsWord token.text.toList ∧ Token.wordKind token.text.toList = .name := by
    intro token htoken hkind
    rcases List.mem_append.mp htoken with hmem | hmem
    · exact Token.isWord_of_mem_tokenize hmem hkind
    · obtain rfl := List.mem_singleton.mp hmem
      exact absurd hkind (by decide)
  obtain ⟨tokens, hspells, hsub, hsize⟩ : ∃ tokens, Spells .or 0 tokens e ∧
      tokens ⊆ tokenize source ++ [missing] ∧ tokens.length ≤ maxTokens := by
    rcases hderives with hspells | hspells
    · exact ⟨_, hspells, List.subset_append_left _ _, by omega⟩
    · refine ⟨_, hspells, List.Subset.refl _, ?_⟩
      rw [List.length_append, List.length_singleton]
      omega
  obtain ⟨own, houter, hown, hreads⟩ := fits_of_spells hspells context hplain
    (fun token htoken => hnames token (hsub htoken)) (Nat.zero_le _)
  exact ⟨own, houter, hown, hreads.mono (Nat.le_refl _) (Nat.le_refl _) hsize⟩

end Expr

/-- **The text of a trace has the parentheses that it needs.** Where a source compiles and its
constants are plain, the text of the trace with bare names compiles too, to the expression without
the operands that were skipped. The source has to be one token short of the limit, since the text
shows an operand that the source leaves out at its end. -/
theorem compile_bareText_trace {source : String} {e : Expr}
    (hlength : (tokenize source).length ≤ maxTokens - 1) (hcompile : compile source = .ok e)
    (hplain : ∀ v ∈ e.constants, v.IsPlain) (context : Context) :
    compile (e.trace context).bareText = .ok (e.prune context) := by
  obtain ⟨own, -, -, hreads⟩ := Expr.fits_of_compile hlength hcompile hplain context
  exact hreads.compile (Nat.le_refl _)

/-- A name whose alternative was skipped keeps the parentheses that were around both, and a
difference on the right of a difference keeps its own. -/
theorem compile_bareText_trace_skipped :
    let source := "(a || \"x\\\"\") && !(1.5 - (n - 2) > 0)"
    let kept : Expr := .not (.binary .greater (.binary .subtract (.const (.number 1.5))
      (.binary .subtract (.name "n") (.const (.number 2)))) (.const (.number 0)))
    let e : Expr := .binary .and (.binary .or (.name "a") (.const (.text "x\""))) kept
    let context := Context.empty.insert "a" (.bool true)
    (e.trace context).bareText = "(a) && !(1.5 - (n - 2) > 0)" ∧
      (tokenize source).length ≤ maxTokens - 1 ∧ compile source = .ok e ∧
      (∀ v ∈ e.constants, v.IsPlain) ∧
      compile (e.trace context).bareText = .ok (.binary .and (.name "a") kept) := by
  intro source kept e context
  have hlength : (tokenize source).length ≤ maxTokens - 1 := by decide +kernel
  have hcompile : compile source = .ok e := by decide +kernel
  have hplain : ∀ v ∈ e.constants, v.IsPlain := by
    have hquoted : IsPlainText "x\"" := by decide +kernel
    have hfraction : IsPlainNumber 1.5 :=
      ⟨by decide +kernel, ['1'], ['5'], by simp, by simp, by simp, by decide +kernel⟩
    have htwo : IsPlainNumber 2 :=
      ⟨by decide +kernel, ['2'], [], by simp, by simp, by simp, by decide +kernel⟩
    have hconstants : e.constants = [.text "x\"", .number 1.5, .number 2, .number 0] := rfl
    rw [hconstants]
    simp only [List.forall_mem_cons]
    exact ⟨hquoted, hfraction, htwo, isPlainNumber_zero, by simp⟩
  have htext : (e.trace context).bareText = "(a) && !(1.5 - (n - 2) > 0)" := by decide +kernel
  have hprune : e.prune context = .binary .and (.name "a") kept := by decide +kernel
  exact ⟨htext, hlength, hcompile, hplain,
    hprune ▸ compile_bareText_trace hlength hcompile hplain context⟩

end Flowchart.Predicate
