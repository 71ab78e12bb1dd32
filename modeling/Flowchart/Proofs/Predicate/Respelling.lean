import Flowchart.Proofs.Predicate.Lexical
import Flowchart.Proofs.Predicate.Recognition

/-!
# Writing predicates anew

Tokens can be written down again, and are then cut into the same tokens.

* **Any text has a quoted form.** Between quotes of one sort, with a backslash in front of each
  backslash and of each such quote, it is one token, and its content is the text
  (`Flowchart.Predicate.compile_quotedWith`). No backslash is in front of a line end in this form,
  other than one that has a backslash of its own.
* **Blanks between the tokens of a source** are as good as what was between them
  (`Flowchart.Predicate.compile_spaced`). What was stepped over may have parted two tokens, or
  may have been the beginning of a token that did not come to an end; but a lexeme with a blank
  behind it is recognised as a whole, whatever comes then
  (`Flowchart.Predicate.Token.IsLexeme.lexemes_append`).

What a row of tokens is parsed to depends on their lexemes only, and not on their places
(`Flowchart.Predicate.parse_eq_ok_of_lexemes`). Their places are in the errors, though, so that this
is about predicates that can be parsed.
-/

namespace Flowchart.Predicate.Token

variable {kind : Kind} {word rest : List Char} {source : String} {tokens : List Token}

/-- **A lexeme by itself is one token.** -/
theorem tokenize_of_isLexeme (h : IsLexeme kind source.toList) :
    tokenize source = [⟨kind, source, 0⟩] := by
  have hlongest : IsLongest kind source.toList (source.toList ++ []) :=
    ⟨h, List.prefix_append _ _, fun _ hother => by simpa using hother.length_le⟩
  have hat := at?_eq_some_iff.mpr ⟨_, hlongest, rfl⟩
  have hscan : scan 0 0 (source.toList ++ []) = _ := scan_append_of_at? h.ne_nil hat
  rwa [List.append_nil, String.ofList_toList] at hscan

/-! ### Quoting -/

/-- The content of a quoted text: a backslash stands in front of each backslash, and of each
quote. -/
def escape (quote : Char) (text : List Char) : List Char :=
  text.flatMap fun c => if c = '\\' ∨ c = quote then ['\\', c] else [c]

/-- **A text between quotes.** -/
def quotedWith (quote : Char) (text : String) : String :=
  String.ofList (quote :: escape quote text.toList ++ [quote])

/-- The content of a quoted text stands for the text. -/
theorem escapes_escape {quote : Char} (hquote : quote = '"' ∨ quote = '\'') (text : List Char) :
    Escapes quote text (escape quote text) := by
  induction text with
  | nil => exact .nil
  | cons c text ih =>
    rw [escape, List.flatMap_cons]
    split
    · next hc =>
      refine .escaped ?_ ih
      rcases hc with rfl | rfl
      · decide
      · rcases hquote with rfl | rfl <;> decide
    · next hc => exact .plain (fun h => hc (Or.inr h)) (fun h => hc (Or.inl h)) ih

/-! ### Blanks between tokens -/

/-- No operator goes on with what parts tokens. -/
theorem not_append_prefix_of_mem_operators : ∀ op ∈ operators, ∀ longer ∈ operators,
    ∀ c, c = ' ' ∨ c = ')' → ¬ op ++ [c] <+: longer := by
  have hall : ∀ op ∈ operators, ∀ longer ∈ operators,
      ¬ op ++ [' '] <+: longer ∧ ¬ op ++ [')'] <+: longer := by decide
  rintro op hop longer hlonger c (rfl | rfl)
  · exact (hall op hop longer hlonger).1
  · exact (hall op hop longer hlonger).2

/-- **An operator is one lexeme.** -/
theorem lexemes_operator_append (h : word ∈ operators) (hrest : Parts rest) :
    lexemes (word ++ rest) = (.operator, String.ofList word) :: lexemes rest := by
  obtain ⟨length, hlength, hle⟩ := exists_operatorLength? h (List.prefix_append word rest)
  obtain ⟨longer, hlonger, hstarts, rfl⟩ := operatorLength?_eq_some hlength
  have heq : longer.length = word.length := by
    refine Nat.le_antisymm (Nat.le_of_not_lt fun hlt => ?_) hle
    cases rest with
    | nil => exact absurd hstarts.length_le (by simpa using hlt)
    | cons c rest =>
      have hnext : word ++ [c] <+: word ++ c :: rest := ⟨rest, by simp⟩
      exact not_append_prefix_of_mem_operators word h longer hlonger c (hrest c rfl)
        (List.prefix_of_prefix_length_le hnext hstarts (by simpa [Nat.succ_le_iff] using hlt))
  have hne := (IsLexeme.operator h).ne_nil
  refine lexemes_append_of_at? hne ?_
  obtain ⟨c, word, rfl⟩ := List.exists_cons_of_ne_nil hne
  rw [List.cons_append, at?_of_operator h rfl, ← List.cons_append, hlength, heq]
  rfl

/-- **A lexeme that is parted from the rest is recognised as a whole.** -/
theorem IsLexeme.lexemes_append (h : IsLexeme kind word) (hrest : Parts rest) :
    lexemes (word ++ rest) = (kind, String.ofList word) :: lexemes rest := by
  cases h with
  | whole hne hdigits => exact lexemes_digits_append hne hdigits hrest
  | fraction hne hdigits hfraction hfractionDigits =>
    exact lexemes_fraction_append hne hdigits hfraction hfractionDigits hrest
  | operator hop => exact lexemes_operator_append hop hrest
  | text hquote hescapes => exact hescapes.lexemes_append hquote rest
  | truth htruth =>
    have hkind : wordKind word = .truth := if_pos htruth
    exact hkind ▸ lexemes_word_append (isWord_of_truth htruth) hrest
  | name hword hne =>
    have hkind : wordKind word = .name := if_neg hne
    exact hkind ▸ lexemes_word_append hword hrest

/-- The texts of tokens, with a blank between each two. -/
def spaced (tokens : List Token) : String :=
  " ".intercalate (tokens.map text)

/-- **Lexemes with blanks between them are the lexemes of what is written.** -/
theorem lexemes_spaced (h : ∀ token ∈ tokens, IsLexeme token.kind token.text.toList) :
    lexemes (spaced tokens).toList = tokens.map lexeme := by
  induction tokens with
  | nil => rfl
  | cons token tokens ih =>
    obtain ⟨hlexeme, htokens⟩ := List.forall_mem_cons.mp h
    cases tokens with
    | nil =>
      have hone := hlexeme.lexemes_append parts_nil
      rw [List.append_nil, String.ofList_toList] at hone
      rw [spaced, List.map_singleton, String.intercalate_singleton]
      exact hone
    | cons next tokens =>
      have hsplit : (spaced (token :: next :: tokens)).toList =
          token.text.toList ++ ' ' :: (spaced (next :: tokens)).toList := by
        rw [spaced, List.map_cons, List.map_cons, String.intercalate_cons_cons]
        simp [spaced]
      rw [hsplit, hlexeme.lexemes_append (parts_blank _), lexemes_cons_blank, ih htokens,
        String.ofList_toList]
      rfl

end Flowchart.Predicate.Token

namespace Flowchart.Predicate

open Token (quotedWith spaced)

variable {tokens tokens' : List Token} {e : Expr}

/-! ### Places do not matter to the parser -/

/-- What a token is read as does not depend on its place. -/
theorem Parser.readToken_eq_ok_of_lexeme {token token' : Token} {place place' : Parser.Place}
    (h : token.lexeme = token'.lexeme) (hread : Parser.readToken place token = .ok place') :
    Parser.readToken place token' = .ok place' := by
  obtain ⟨kind, text, position⟩ := token
  obtain ⟨kind', text', position'⟩ := token'
  obtain ⟨rfl, rfl⟩ := Prod.mk.inj h
  obtain ⟨stack, due⟩ := place
  cases due with
  | operand =>
    rcases Parser.readOperand_eq_ok_iff.mp hread with ⟨e, hleaf, hplace⟩ | hopen
    · refine Parser.readOperand_eq_ok_iff.mpr (Or.inl ⟨e, ?_, hplace⟩)
      cases hleaf with
      | number hkind hnumber => exact .number hkind hnumber
      | text hkind => exact .text hkind
      | truth hkind => exact .truth hkind
      | name hkind => exact .name hkind
    · exact Parser.readOperand_eq_ok_iff.mpr (Or.inr hopen)
  | operator e =>
    have hread' : Parser.readOperator stack e ⟨kind, text, position⟩ = .ok place' := hread
    rcases Parser.readOperator_eq_ok_iff.mp hread' with hbinary | hclosing
    · exact Parser.readOperator_eq_ok_iff.mpr (Or.inl hbinary)
    · exact Parser.readOperator_eq_ok_iff.mpr (Or.inr hclosing)

/-- A row of tokens leads to the same place as another one with its lexemes. -/
theorem Parser.foldlM_readToken_eq_ok_of_lexemes {place place' : Parser.Place}
    (h : tokens.map Token.lexeme = tokens'.map Token.lexeme)
    (hread : tokens.foldlM Parser.readToken place = .ok place') :
    tokens'.foldlM Parser.readToken place = .ok place' := by
  induction tokens generalizing tokens' place with
  | nil =>
    obtain rfl := List.map_eq_nil_iff.mp h.symm
    exact hread
  | cons token tokens ih =>
    obtain ⟨token', tokens', rfl, htoken, htokens⟩ := List.map_eq_cons_iff.mp h.symm
    obtain ⟨middle, hfirst, hrest⟩ := foldlM_cons_eq_ok_iff.mp hread
    exact foldlM_cons_eq_ok_iff.mpr
      ⟨middle, Parser.readToken_eq_ok_of_lexeme htoken.symm hfirst, ih htokens.symm hrest⟩

/-- **Only the lexemes matter to what is parsed.** -/
theorem parse_eq_ok_of_lexemes (h : tokens.map Token.lexeme = tokens'.map Token.lexeme)
    (hparse : parse tokens = .ok e) : parse tokens' = .ok e := by
  have hlength := length_le_of_parse_eq_ok hparse
  have hsame : tokens.length = tokens'.length := by
    simpa using congrArg List.length h
  obtain ⟨place, hread, hend⟩ := (parse_eq_ok_iff hlength).mp hparse
  exact (parse_eq_ok_iff (hsame ▸ hlength)).mpr
    ⟨place, Parser.foldlM_readToken_eq_ok_of_lexemes h hread, hend⟩

/-! ### Written anew -/

/-- **Any text can be written between quotes of either sort.** What is written is a single token,
its content is the text, and it is parsed to the text as a constant. -/
theorem compile_quotedWith {quote : Char} (hquote : quote = '"' ∨ quote = '\'') (text : String) :
    tokenize (quotedWith quote text) = [⟨.text, quotedWith quote text, 0⟩] ∧
      Token.contentOf (quotedWith quote text) = text ∧
      compile (quotedWith quote text) = .ok (.const (.text text)) := by
  have hescapes := Token.escapes_escape hquote text.toList
  have htokens : tokenize (quotedWith quote text) = [⟨.text, quotedWith quote text, 0⟩] := by
    refine Token.tokenize_of_isLexeme ?_
    rw [quotedWith, String.toList_ofList]
    exact .text hquote hescapes
  have hcontent : Token.contentOf (quotedWith quote text) = text := by
    rw [quotedWith, hescapes.contentOf, String.ofList_toList]
  refine ⟨htokens, hcontent, ?_⟩
  rw [compile, htokens]
  exact congrArg (fun content => Except.ok (Expr.const (.text content))) hcontent

/-- Quotes at both ends, a backslash in front of a line end, and a character of two bytes. -/
theorem compile_quotedWith_mixed :
    quotedWith '\'' "'a\\\né'" = "'\\'a\\\\\né\\''" ∧
      tokenize "'\\'a\\\\\né\\''" = [⟨.text, "'\\'a\\\\\né\\''", 0⟩] ∧
      compile "'\\'a\\\\\né\\''" = .ok (.const (.text "'a\\\né'")) := by
  have hquoted : quotedWith '\'' "'a\\\né'" = "'\\'a\\\\\né\\''" := by decide
  obtain ⟨htokens, -, hcompile⟩ := compile_quotedWith (Or.inr rfl) "'a\\\né'"
  rw [hquoted] at htokens hcompile
  exact ⟨hquoted, htokens, hcompile⟩

/-- **A predicate can be written with blanks between its tokens.** What is written is cut into the
same lexemes again, and is parsed to an expression exactly if the source is parsed to it. -/
theorem compile_spaced (source : String) :
    (tokenize (spaced (tokenize source))).map Token.lexeme =
        (tokenize source).map Token.lexeme ∧
      ∀ e, compile (spaced (tokenize source)) = .ok e ↔ compile source = .ok e := by
  have hlexemes : (tokenize (spaced (tokenize source))).map Token.lexeme =
      (tokenize source).map Token.lexeme :=
    Token.lexemes_spaced fun _ htoken => Token.isLexeme_of_mem_tokenize htoken
  exact ⟨hlexemes, fun _ =>
    ⟨parse_eq_ok_of_lexemes hlexemes, parse_eq_ok_of_lexemes hlexemes.symm⟩⟩

end Flowchart.Predicate
