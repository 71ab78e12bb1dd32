import Flowchart.Proofs.Predicate.Bytes
import Flowchart.Proofs.Predicate.Recognition

/-!
# Syntax errors name the first token that is impossible

A row of tokens is *viable* if something can be put behind it so that all of it is parsed
(`Flowchart.Predicate.Viable`). The parser reads a row of tokens up to its end exactly if the row is
viable, as far as there is room for what has to be put behind it.

* **What is read can be completed** (`Flowchart.Predicate.Parser.Explains.exists_completion`). An
  operand is put behind it if one is due, and then one closing parenthesis for each open one. All
  that is known about the place is that the tokens explain it, and the completion is found along the
  stack: each pending item is joined with the operand that stands behind it, by the same three
  lemmas as at the end of the input.
* **What can be completed is read**, since the parser does not look ahead
  (`Flowchart.Predicate.Viable.exists_place`).

An error that names a token is therefore about the first token with which the row is not viable any
more, and the end of the input is only named if the row is viable.

The room that is needed is one token for an operand, and `Flowchart.Predicate.maxNesting` of them
for parentheses, as no more can be open.
-/

namespace Flowchart.Predicate

open Grammar (Level Spells missing)

/-- **The token that an error names.** None is named at the end of the input, or where a limit is
passed. -/
def ParseError.named? : ParseError → Option Token
  | unexpected token => some token
  | unclosed found => found
  | trailing token => some token
  | tooDeep => none
  | tooLong _ => none

/-- **A row of tokens that can be completed** to one that is parsed. -/
def Viable (tokens : List Token) : Prop :=
  ∃ more e, parse (tokens ++ more) = .ok e

namespace Parser

variable {stack : List Pending} {place : Place} {token : Token} {tokens : List Token} {e : Expr}
  {error : ParseError}

/-! ### Where the parser fails -/

/-- **A token that is not read is named**, unless it is one too many to be open. -/
theorem named?_of_readToken_eq_error (h : readToken place token = .error error) :
    error.named? = some token ∨ error = .tooDeep := by
  have hopen : ∀ {item}, openNested place.stack item = .error error → error = .tooDeep := by
    intro item h
    unfold openNested at h
    split at h
    · exact nomatch h
    · exact (Except.error.inj h).symm
  unfold readToken at h
  split at h
  · unfold readOperand at h
    split at h
    · split at h
      · exact nomatch h
      · exact Or.inl (Except.error.inj h ▸ rfl)
    · exact nomatch h
    · exact nomatch h
    · exact nomatch h
    · split at h
      · exact Or.inr (hopen h)
      · split at h
        · exact Or.inr (hopen h)
        · exact Or.inl (Except.error.inj h ▸ rfl)
  · unfold readOperator at h
    split at h
    · exact nomatch h
    · split at h
      · split at h
        · exact nomatch h
        · exact Or.inl (Except.error.inj h ▸ rfl)
      · exact Or.inl (Except.error.inj h ▸ rfl)

/-- All that can be wrong at the end of the input is an open parenthesis. -/
theorem eq_unclosed_of_close_eq_error (h : close stack e = .error error) :
    error = .unclosed none := by
  induction stack generalizing e with
  | nil => exact nomatch h
  | cons item stack ih =>
    cases item with
    | left l op => exact ih h
    | not => exact ih h
    | paren => exact (Except.error.inj h).symm

theorem eq_unclosed_of_atEnd_eq_error (h : atEnd place = .error error) :
    error = .unclosed none := by
  unfold atEnd at h
  split at h <;> exact eq_unclosed_of_close_eq_error h

/-! ### What is read can be completed -/

/-- No more negations and parentheses are open than may be. -/
theorem Stacked.depth_le (h : Stacked stack tokens) : depth stack ≤ maxNesting := by
  induction h with
  | nil => exact Nat.zero_le _
  | left _ _ _ _ _ ih => exact ih
  | not _ _ hdepth => exact depth_cons_not _ ▸ hdepth
  | paren _ _ hdepth => exact depth_cons_paren _ ▸ hdepth

/-- The token that closes a parenthesis. -/
def closing : Token := ⟨.operator, ")", 0⟩

/-- **Behind an operand it is enough to close the open parentheses.** -/
theorem Stands.exists_completion {level : Level} (h : Stands stack level tokens e) :
    ∃ more e', more.length ≤ depth stack ∧ Spells .or 0 (tokens ++ more) e' := by
  induction stack generalizing level tokens e with
  | nil =>
    obtain ⟨-, _, own, ⟨⟩, hspells, rfl⟩ := h
    refine ⟨[], e, Nat.le_refl _, ?_⟩
    rw [List.append_nil]
    exact hspells.loosen level.one_le_strength
  | cons item stack ih =>
    cases item with
    | left l op =>
      obtain ⟨own, -, hstands⟩ := h.join
      exact ih hstands
    | not =>
      obtain ⟨more, e', hlength, hspells⟩ := ih h.not
      exact ⟨more, e', depth_cons_not stack ▸ Nat.le_succ_of_le hlength, hspells⟩
    | paren =>
      have hclosed : Stands stack .unary (tokens ++ [closing]) e := h.paren (by decide)
      obtain ⟨more, e', hlength, hspells⟩ := ih hclosed
      refine ⟨closing :: more, e', depth_cons_paren stack ▸ Nat.succ_le_succ hlength, ?_⟩
      rwa [List.append_assoc] at hspells

/-- **What is read can be completed** by an operand, if one is due, and closing parentheses. -/
theorem Explains.exists_completion (h : Explains tokens place) :
    ∃ more e, more.length ≤ maxNesting + 1 ∧ Spells .or 0 (tokens ++ more) e := by
  obtain ⟨stack, due⟩ := place
  cases due with
  | operand =>
    have hstacked : Stacked stack tokens := h
    obtain ⟨more, e, hlength, hspells⟩ := hstacked.stands_missing.exists_completion
    refine ⟨missing :: more, e, ?_, by rwa [List.append_assoc] at hspells⟩
    exact Nat.succ_le_succ (Nat.le_trans hlength hstacked.depth_le)
  | operator e =>
    obtain ⟨-, hstands⟩ := h
    obtain ⟨more, e', hlength, hspells⟩ := hstands.exists_completion
    obtain ⟨-, _, _, hstacked, -⟩ := hstands
    exact ⟨more, e', Nat.le_succ_of_le (Nat.le_trans hlength hstacked.depth_le), hspells⟩

end Parser

variable {tokens before behind : List Token} {token : Token} {error : ParseError}
  {place : Parser.Place}

/-- **What is read is viable**, if there is room for what completes it. -/
theorem viable_of_foldlM_readToken (hlength : tokens.length + (maxNesting + 1) ≤ maxTokens)
    (h : tokens.foldlM Parser.readToken Parser.start = .ok place) : Viable tokens := by
  have hexplains := (show Parser.Explains [] Parser.start from .nil).foldlM h
  obtain ⟨more, e, hmore, hspells⟩ := hexplains.exists_completion
  have hroom : (tokens ++ more).length ≤ maxTokens := by
    rw [List.length_append]
    omega
  exact ⟨more, e, (parse_eq_ok_iff hroom).mpr
    (Parser.exists_place_iff_derives.mpr (Or.inl hspells))⟩

/-- **What is viable is read.** -/
theorem Viable.exists_place (h : Viable tokens) :
    ∃ place, tokens.foldlM Parser.readToken Parser.start = .ok place := by
  obtain ⟨more, e, hparse⟩ := h
  obtain ⟨place, hread, -⟩ := (parse_eq_ok_iff (length_le_of_parse_eq_ok hparse)).mp hparse
  obtain ⟨middle, hmiddle, -⟩ := foldlM_append_eq_ok_iff.mp hread
  exact ⟨middle, hmiddle⟩

/-- With a token that is not read, nothing is viable. -/
theorem not_viable_of_readToken_eq_error
    (hbefore : before.foldlM Parser.readToken Parser.start = .ok place)
    (h : Parser.readToken place token = .error error) : ¬ Viable (before ++ [token]) := by
  intro hviable
  obtain ⟨_, hread⟩ := hviable.exists_place
  obtain ⟨place', hplace', hlast⟩ := foldlM_append_eq_ok_iff.mp hread
  obtain rfl := Except.ok.inj (hbefore.symm.trans hplace')
  obtain ⟨_, htoken, -⟩ := foldlM_cons_eq_ok_iff.mp hlast
  rw [h] at htoken
  exact nomatch htoken

/-! ### Where a row of tokens is refused -/

/-- **A row of tokens is refused** for its length, at a token that is not read, or at its end. -/
theorem parse_eq_error_cases (h : parse tokens = .error error) :
    error = .tooLong tokens.length ∨
      (∃ before token behind place, tokens = before ++ token :: behind ∧
        before.foldlM Parser.readToken Parser.start = .ok place ∧
        Parser.readToken place token = .error error) ∨
      ∃ place, tokens.foldlM Parser.readToken Parser.start = .ok place ∧
        error = .unclosed none := by
  unfold parse at h
  split at h
  · exact Or.inl (Except.error.inj h).symm
  · cases hread : tokens.foldlM Parser.readToken Parser.start with
    | error e =>
      rw [hread] at h
      obtain rfl : e = error := Except.error.inj h
      exact Or.inr (Or.inl (foldlM_eq_error_iff.mp hread))
    | ok place =>
      rw [hread] at h
      exact Or.inr (Or.inr ⟨place, rfl, Parser.eq_unclosed_of_atEnd_eq_error h⟩)

/-- **A token that is named is one that is not read**, behind others that are. -/
theorem exists_of_named? (h : parse tokens = .error error) (hnamed : error.named? = some token) :
    ∃ before behind place, tokens = before ++ token :: behind ∧
      before.foldlM Parser.readToken Parser.start = .ok place ∧
      Parser.readToken place token = .error error := by
  rcases parse_eq_error_cases h with rfl | ⟨before, other, behind, place, hsplit, hbefore, hother⟩ |
    ⟨_, _, rfl⟩
  · exact nomatch hnamed
  · rcases Parser.named?_of_readToken_eq_error hother with hname | rfl
    · obtain rfl := Option.some.inj (hname.symm.trans hnamed)
      exact ⟨before, behind, place, hsplit, hbefore, hother⟩
    · exact nomatch hnamed
  · exact nomatch hnamed

/-- **Syntax errors name the first token that is impossible.** If a row of tokens is refused and a
token is named, then the tokens in front of it can be completed to a row that is parsed, and with it
they cannot. If the end of the input is named, all the tokens can be completed. In the error for a
source, the bytes at the place of the named token are its text. -/
theorem parse_error_names_first_impossible :
    (∀ tokens error, tokens.length ≤ maxTokens - (maxNesting + 1) → parse tokens = .error error →
      (∀ token, error.named? = some token →
        ∃ i, tokens[i]? = some token ∧ Viable (tokens.take i) ∧ ¬ Viable (tokens.take (i + 1))) ∧
      (error = .unclosed none → Viable tokens)) ∧
    ∀ source error token, compile source = .error error → error.named? = some token →
      Bytes.slice source token.position token.stop = .ok token.text := by
  constructor
  · intro tokens error hlength h
    constructor
    · intro token hnamed
      obtain ⟨before, behind, place, rfl, hbefore, htoken⟩ := exists_of_named? h hnamed
      have hroom : before.length + (maxNesting + 1) ≤ maxTokens := by
        rw [List.length_append, List.length_cons] at hlength
        omega
      refine ⟨before.length, by simp, ?_, ?_⟩
      · rw [List.take_left]
        exact viable_of_foldlM_readToken hroom hbefore
      · rw [List.append_cons, List.take_left' (by simp)]
        exact not_viable_of_readToken_eq_error hbefore htoken
    · rintro rfl
      have hroom : tokens.length + (maxNesting + 1) ≤ maxTokens :=
        Nat.add_le_of_le_sub (by decide) hlength
      rcases parse_eq_error_cases h with hlong | ⟨_, _, _, _, _, _, htoken⟩ | ⟨place, hread, -⟩
      · exact nomatch hlong
      · rcases Parser.named?_of_readToken_eq_error htoken with hname | hdeep
        · exact nomatch hname
        · exact nomatch hdeep
      · exact viable_of_foldlM_readToken hroom hread
  · intro source error token h hnamed
    obtain ⟨before, behind, _, hsplit, -⟩ := exists_of_named? h hnamed
    have hmem : token ∈ tokenize source := hsplit ▸ by simp
    exact Bytes.slice_of_mem_tokenize hmem

/-- Where the right operand of a disjunction is due, a parenthesis is closed instead. -/
theorem parse_error_names_first_impossible_operand :
    let source := "(a || )"
    let tokens := tokenize source
    let token : Token := ⟨.operator, ")", 6⟩
    compile source = .error (.unexpected token) ∧
      (∃ i, tokens[i]? = some token ∧ Viable (tokens.take i) ∧ ¬ Viable (tokens.take (i + 1))) ∧
      Bytes.slice source 6 7 = .ok ")" := by
  intro source tokens token
  have hlength : tokens.length ≤ maxTokens - (maxNesting + 1) := by decide
  have herror : compile source = .error (.unexpected token) := by decide
  obtain ⟨hparse, hcompile⟩ := parse_error_names_first_impossible
  exact ⟨herror, (hparse tokens _ hlength herror).1 token rfl,
    hcompile source _ token herror rfl⟩

end Flowchart.Predicate
