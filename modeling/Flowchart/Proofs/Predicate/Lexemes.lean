import Flowchart.Predicate.Expr
import Flowchart.Predicate.Lexer

/-!
# The lexemes of a text

A token without its place is a *lexeme*: a kind and some characters. What a predicate means depends
on its lexemes only, so this is the level on which a text that is put together from pieces is cut
into tokens again.

Each kind of token has its lemma below: a piece of the right form is cut off as one lexeme, as long
as what comes behind it does not prolong it. Since texts are put together with blanks around their
operators and parentheses around their parts, one condition is enough for all kinds
(`Flowchart.Predicate.Token.Parts`): behind the piece the text ends, or a blank or a closing
parenthesis comes.

A quoted text is the one kind with a content of its own. `Flowchart.Predicate.Token.Escapes` says
which characters between two quotes stand for which text. Whatever is between the quotes in this
sense is stepped over up to the closing quote, and is resolved into the text.
-/

namespace Flowchart.Predicate.Token

/-- A token without its place. -/
abbrev Lexeme := Kind × String

/-- The lexeme of a token. -/
def lexeme (token : Token) : Lexeme :=
  (token.kind, token.text)

/-- **The lexemes of a text.** -/
def lexemes (cs : List Char) : List Lexeme :=
  (scan 0 0 cs).map lexeme

variable {c : Char} {cs word rest : List Char} {kind : Kind}

/-! ### The bytes of a piece -/

theorem size_append (cs ds : List Char) : (String.ofList (cs ++ ds)).utf8ByteSize =
    (String.ofList cs).utf8ByteSize + (String.ofList ds).utf8ByteSize := by
  rw [String.ofList_append, String.utf8ByteSize_append]

theorem size_cons (c : Char) (cs : List Char) :
    (String.ofList (c :: cs)).utf8ByteSize = c.utf8Size + (String.ofList cs).utf8ByteSize := by
  rw [String.ofList_cons, String.utf8ByteSize_append, String.utf8ByteSize_singleton]

/-- The place behind a piece, counted one character at a time. -/
theorem foldl_size (position : Nat) (cs : List Char) :
    cs.foldl (fun position c => position + c.utf8Size) position =
      position + (String.ofList cs).utf8ByteSize := by
  induction cs generalizing position with
  | nil => simp
  | cons c cs ih => rw [List.foldl_cons, ih, size_cons, Nat.add_assoc]

/-! ### Lexemes do not depend on places -/

/-- The place where a text begins does not matter for its lexemes. -/
theorem map_lexeme_scan (position skip : Nat) (cs : List Char) :
    (scan position skip cs).map lexeme = (scan 0 skip cs).map lexeme := by
  have hplace : ∀ (p q skip : Nat) (cs : List Char),
      (scan p skip cs).map lexeme = (scan q skip cs).map lexeme := by
    intro p q skip cs
    induction cs generalizing p q skip with
    | nil => simp [scan]
    | cons c rest ih =>
      cases skip with
      | succ skip => exact ih _ _ _
      | zero =>
        rw [scan, scan]
        cases at? (c :: rest) with
        | none => exact ih _ _ _
        | some found =>
          obtain ⟨kind, length⟩ := found
          rw [List.map_cons, List.map_cons]
          exact congrArg _ (ih _ _ _)
  exact hplace position 0 skip cs

@[simp] theorem lexemes_nil : lexemes [] = [] := rfl

theorem lexemes_cons_of_at?_eq_none (h : at? (c :: rest) = none) :
    lexemes (c :: rest) = lexemes rest := by
  rw [lexemes, scan_of_at?_eq_none h, map_lexeme_scan]
  rfl

@[simp] theorem lexemes_cons_blank (rest : List Char) : lexemes (' ' :: rest) = lexemes rest :=
  lexemes_cons_of_at?_eq_none rfl

/-- **A piece that is recognised as a whole is the first token.** -/
theorem scan_append_of_at? {position : Nat} (hword : word ≠ [])
    (h : at? (word ++ rest) = some (kind, word.length)) :
    scan position 0 (word ++ rest) = ⟨kind, String.ofList word, position⟩ ::
      scan (position + (String.ofList word).utf8ByteSize) 0 rest := by
  obtain ⟨c, word, rfl⟩ := List.exists_cons_of_ne_nil hword
  rw [List.cons_append, scan, ← List.cons_append, h]
  simp only [List.length_cons, Nat.add_sub_cancel]
  rw [← List.length_cons (a := c), List.take_left, scan_skip, List.take_left, List.drop_left,
    foldl_size, size_cons, Nat.add_assoc]

/-- **A piece that is recognised as a whole is the first lexeme.** -/
theorem lexemes_append_of_at? (hword : word ≠ [])
    (h : at? (word ++ rest) = some (kind, word.length)) :
    lexemes (word ++ rest) = (kind, String.ofList word) :: lexemes rest := by
  rw [lexemes, scan_append_of_at? hword h, List.map_cons, map_lexeme_scan]
  rfl

/-! ### What comes behind a piece -/

/-- **What parts a piece from the rest**: the text ends, or a blank or a closing parenthesis
comes. -/
def Parts (rest : List Char) : Prop :=
  ∀ c ∈ rest.head?, c = ' ' ∨ c = ')'

theorem parts_nil : Parts [] := by
  simp [Parts]

theorem parts_blank (rest : List Char) : Parts (' ' :: rest) := by
  simp [Parts]

theorem parts_closing (rest : List Char) : Parts (')' :: rest) := by
  simp [Parts]

/-- A row of characters of one sort goes no further than to what parts it from the rest. -/
theorem Parts.takeWhile_append {p : Char → Bool} (hrest : Parts rest) (hblank : p ' ' = false)
    (hclosing : p ')' = false) (hall : ∀ c ∈ word, p c = true) :
    (word ++ rest).takeWhile p = word := by
  rw [List.takeWhile_append_of_pos hall]
  cases rest with
  | nil => simp
  | cons c rest =>
    have hc : p c = false := by
      rcases hrest c rfl with rfl | rfl
      · exact hblank
      · exact hclosing
    simp [hc]

/-! ### Which sort of lexeme starts with a character -/

/-- No word starts with a digit or a quote. -/
theorem not_isDigit_of_startsName (h : startsName c = true) :
    c.isDigit = false ∧ c ≠ '"' ∧ c ≠ '\'' := by
  refine ⟨?_, ?_, ?_⟩
  · rw [Bool.eq_false_iff]
    intro hdigit
    have hletter : (decide ('A'.val ≤ c.val ∧ c.val ≤ 'Z'.val) ||
        ('a'.val ≤ c.val && c.val ≤ 'z'.val) || decide (c = '_')) = true := h
    have hnumber : ('0'.val ≤ c.val && c.val ≤ '9'.val) = true := hdigit
    simp only [Bool.or_eq_true, Bool.and_eq_true, decide_eq_true_eq,
      UInt32.le_iff_toNat_le] at hletter hnumber
    have hA : 'A'.val.toNat = 65 := rfl
    have ha : 'a'.val.toNat = 97 := rfl
    have h9 : '9'.val.toNat = 57 := rfl
    rcases hletter with (hupper | hlower) | rfl
    · omega
    · omega
    · exact absurd hnumber.2 (by decide)
  · rintro rfl
    exact absurd h (by decide)
  · rintro rfl
    exact absurd h (by decide)

theorem at?_of_isDigit (h : c.isDigit = true) :
    at? (c :: rest) = some (.number, numberLength (c :: rest)) := by
  rw [at?, if_pos h]

theorem at?_of_quote (h : c = '"' ∨ c = '\'') :
    at? (c :: rest) = (quotedLength? c rest).map fun length => (.text, length + 1) := by
  have hdigit : ¬ c.isDigit = true := by
    rcases h with rfl | rfl <;> decide
  rw [at?, if_neg hdigit, if_pos h]

theorem at?_of_startsName (h : startsName c = true) :
    at? (c :: rest) = some (wordKind ((c :: rest).takeWhile continuesName),
      ((c :: rest).takeWhile continuesName).length) := by
  obtain ⟨hdigit, hdouble, hsingle⟩ := not_isDigit_of_startsName h
  rw [at?, hdigit, if_neg Bool.false_ne_true, if_neg (not_or.mpr ⟨hdouble, hsingle⟩), if_pos h]

/-! ### Numbers -/

/-- **How far a number goes** if a point stands behind its digits. -/
theorem numberLength_append_point {digits : List Char}
    (h : (digits ++ '.' :: rest).takeWhile Char.isDigit = digits) :
    numberLength (digits ++ '.' :: rest) =
      if (rest.takeWhile Char.isDigit).length = 0 then digits.length
      else digits.length + 1 + (rest.takeWhile Char.isDigit).length := by
  unfold numberLength
  simp only [h, List.drop_left]

/-- Without a point behind its digits a number ends there. -/
theorem numberLength_append_of_head?_ne {digits : List Char}
    (h : (digits ++ rest).takeWhile Char.isDigit = digits) (hpoint : rest.head? ≠ some '.') :
    numberLength (digits ++ rest) = digits.length := by
  unfold numberLength
  simp only [h, List.drop_left]
  split
  · exact absurd rfl hpoint
  · rfl

/-- A number without a fraction is one lexeme. -/
theorem lexemes_digits_append (hword : word ≠ []) (hdigits : ∀ c ∈ word, c.isDigit = true)
    (hrest : Parts rest) :
    lexemes (word ++ rest) = (.number, String.ofList word) :: lexemes rest := by
  refine lexemes_append_of_at? hword ?_
  have hwhole : (word ++ rest).takeWhile Char.isDigit = word :=
    hrest.takeWhile_append rfl rfl hdigits
  have hpoint : rest.head? ≠ some '.' := by
    intro h
    rcases hrest _ h with h | h <;> exact absurd h (by decide)
  have hlength := numberLength_append_of_head?_ne hwhole hpoint
  obtain ⟨c, word, rfl⟩ := List.exists_cons_of_ne_nil hword
  rw [List.cons_append, at?_of_isDigit (hdigits c List.mem_cons_self), ← List.cons_append, hlength]

/-- A number with a fraction is one lexeme. -/
theorem lexemes_fraction_append {fraction : List Char} (hword : word ≠ [])
    (hdigits : ∀ c ∈ word, c.isDigit = true) (hfraction : fraction ≠ [])
    (hfractionDigits : ∀ c ∈ fraction, c.isDigit = true) (hrest : Parts rest) :
    lexemes (word ++ '.' :: fraction ++ rest) =
      (.number, String.ofList (word ++ '.' :: fraction)) :: lexemes rest := by
  refine lexemes_append_of_at? (by simp [hword]) ?_
  have hwhole : (word ++ '.' :: (fraction ++ rest)).takeWhile Char.isDigit = word := by
    rw [List.takeWhile_append_of_pos hdigits]
    simp
  have hpart : (fraction ++ rest).takeWhile Char.isDigit = fraction :=
    hrest.takeWhile_append rfl rfl hfractionDigits
  have hne : fraction.length ≠ 0 := by simpa using hfraction
  have hlength : numberLength (word ++ '.' :: (fraction ++ rest)) =
      (word ++ '.' :: fraction).length := by
    rw [numberLength_append_point hwhole, hpart, if_neg hne, List.length_append, List.length_cons]
    omega
  rw [List.append_assoc, List.cons_append]
  obtain ⟨c, word, rfl⟩ := List.exists_cons_of_ne_nil hword
  rw [List.cons_append, at?_of_isDigit (hdigits c List.mem_cons_self), ← List.cons_append, hlength]

/-! ### Words -/

/-- **A word**: a row of letters, digits and underscores that does not start with a digit. -/
def IsWord (word : List Char) : Prop :=
  (∃ c ∈ word.head?, startsName c = true) ∧ ∀ c ∈ word, continuesName c = true

/-- **A word is one lexeme**: a truth value or a name. -/
theorem lexemes_word_append (hword : IsWord word) (hrest : Parts rest) :
    lexemes (word ++ rest) = (wordKind word, String.ofList word) :: lexemes rest := by
  obtain ⟨⟨c, hc, hstarts⟩, hall⟩ := hword
  obtain ⟨word, rfl⟩ := List.head?_eq_some_iff.mp hc
  refine lexemes_append_of_at? (List.cons_ne_nil _ _) ?_
  have htake : (c :: (word ++ rest)).takeWhile continuesName = c :: word :=
    hrest.takeWhile_append rfl rfl hall
  rw [List.cons_append, at?_of_startsName hstarts, htake]

/-! ### Operators -/

theorem lexemes_symbol_append (op : Operator) (rest : List Char) :
    lexemes (op.symbol.toList ++ ' ' :: rest) = (.operator, op.symbol) :: lexemes rest := by
  have hat : at? (op.symbol.toList ++ ' ' :: rest) = some (.operator, op.symbol.toList.length) := by
    cases op <;> rfl
  have hne : op.symbol.toList ≠ [] := by
    cases op <;> decide
  rw [lexemes_append_of_at? hne hat, lexemes_cons_blank, String.ofList_toList]

theorem lexemes_opening_cons (rest : List Char) :
    lexemes ('(' :: rest) = (.operator, "(") :: lexemes rest :=
  lexemes_append_of_at? (List.cons_ne_nil '(' []) rfl

theorem lexemes_closing_cons (rest : List Char) :
    lexemes (')' :: rest) = (.operator, ")") :: lexemes rest :=
  lexemes_append_of_at? (List.cons_ne_nil ')' []) rfl

/-- A negation is one lexeme, unless an equality sign comes behind it. -/
theorem lexemes_negation_cons (h : rest.head? ≠ some '=') :
    lexemes ('!' :: rest) = (.operator, "!") :: lexemes rest := by
  refine lexemes_append_of_at? (List.cons_ne_nil '!' []) ?_
  cases rest with
  | nil => rfl
  | cons c rest =>
    have hc : ('=' == c) = false := by
      rw [beq_eq_false_iff_ne]
      rintro rfl
      exact h rfl
    -- of the operators that begin like a negation, the longer ones go on with an equality sign
    have hlength : operatorLength? ('!' :: c :: rest) = some 1 := by
      simp [operatorLength?, operators, List.isPrefixOf, hc]
    change (operatorLength? ('!' :: c :: rest)).map (fun length => (Kind.operator, length)) = _
    rw [hlength]
    rfl

/-! ### Quoted texts -/

/-- **What stands between quotes for a text**: each character for itself, unless it is the quote or
a backslash, or behind a backslash, unless it is a line end. -/
inductive Escapes (quote : Char) : List Char → List Char → Prop where
  | nil : Escapes quote [] []
  | plain {c : Char} {text content : List Char} (hquote : c ≠ quote) (hbackslash : c ≠ '\\')
      (h : Escapes quote text content) : Escapes quote (c :: text) (c :: content)
  | escaped {c : Char} {text content : List Char} (hend : c ≠ '\n')
      (h : Escapes quote text content) : Escapes quote (c :: text) ('\\' :: c :: content)

variable {quote : Char} {text content : List Char}

/-- A character that is in none of the cases of a backslash is no backslash. -/
theorem ne_backslash (hlast : c = '\\' → rest = [] → False)
    (hnext : ∀ d behind, c = '\\' → rest = d :: behind → False) : c ≠ '\\' := by
  intro hc
  cases rest with
  | nil => exact hlast hc rfl
  | cons d behind => exact hnext d behind hc rfl

/-- Any character but a backslash is the quote that ends the text, or is stepped over. -/
theorem quotedLength?_cons_of_ne (h : c ≠ '\\') :
    quotedLength? quote (c :: rest) =
      if c = quote then some 1 else (quotedLength? quote rest).map (· + 1) :=
  quotedLength?.eq_4 _ _ _ (fun hc _ => h hc) (fun _ _ hc _ => h hc)

/-- **The content of a quoted text is stepped over** up to the closing quote. -/
theorem Escapes.quotedLength? (h : Escapes quote text content) (hquote : quote ≠ '\\') :
    quotedLength? quote (content ++ quote :: rest) = some (content.length + 1) := by
  induction h with
  | nil =>
    rw [List.nil_append, quotedLength?_cons_of_ne hquote, if_pos rfl]
    rfl
  | @plain c text content hne hbackslash h ih =>
    rw [List.cons_append, quotedLength?_cons_of_ne hbackslash, if_neg hne, ih]
    rfl
  | @escaped c text content hend h ih =>
    rw [List.cons_append, List.cons_append, Token.quotedLength?, if_neg hend, ih]
    simp

/-- The content of a quoted text is resolved into the text. -/
theorem Escapes.resolve (h : Escapes quote text content) : resolve content = text := by
  induction h with
  | nil => rfl
  | @plain c text content hne hbackslash h ih =>
    rw [Token.resolve, ih]
    · rintro _ _ h
      exact absurd h hbackslash
    · rintro h -
      exact hbackslash h
  | @escaped c text content hend h ih => rw [Token.resolve, ih]

/-- **A quoted text is one lexeme.** -/
theorem Escapes.lexemes_append (h : Escapes quote text content)
    (hquote : quote = '"' ∨ quote = '\'') (rest : List Char) :
    lexemes (quote :: content ++ [quote] ++ rest) =
      (.text, String.ofList (quote :: content ++ [quote])) :: lexemes rest := by
  refine lexemes_append_of_at? (by simp) ?_
  have hne : quote ≠ '\\' := by
    rcases hquote with rfl | rfl <;> decide
  have hlength : Token.quotedLength? quote (content ++ quote :: rest) =
      some (content.length + 1) := h.quotedLength? hne
  have hassoc : quote :: content ++ [quote] ++ rest = quote :: (content ++ quote :: rest) := by
    simp
  rw [hassoc, at?_of_quote hquote, hlength]
  simp

theorem Escapes.contentOf (h : Escapes quote text content) :
    contentOf (String.ofList (quote :: content ++ [quote])) = String.ofList text := by
  rw [Token.contentOf, String.toList_ofList, List.cons_append, List.tail_cons,
    List.dropLast_concat, h.resolve]

end Flowchart.Predicate.Token
