import Flowchart.Proofs.Predicate.Lexemes

/-!
# The lexical grammar of predicates

What a token is, on its own: which rows of characters are lexemes, and of which kind
(`Flowchart.Predicate.Token.IsLexeme`). At each place of a text the longest lexeme counts
(`Flowchart.Predicate.Token.IsLongest`), and a character with which no lexeme starts is left out.
This determines how a text falls into tokens (`Flowchart.Predicate.Token.Cuts`), without a word on
how the places of the text are visited.

That the cut into tokens is this one comes down to a single place, where two things have to be
shown for every kind of lexeme.

* **What is recognised is a lexeme** (`Flowchart.Predicate.Token.isLexeme_of_at?`), and the text
  starts with it.
* **What is a lexeme is reached** (`Flowchart.Predicate.Token.IsLexeme.reaches`): in front of
  whatever the lexeme stands, something is recognised that is at least as long.

So what is recognised is the longest lexeme, and nothing is recognised exactly if there is none. A
longer lexeme might be of another kind, as `true` is no truth value in `truest`; but lexemes of
equal length at one place are of one kind.
-/

namespace Flowchart.Predicate.Token

variable {c : Char} {cs word rest : List Char} {kind : Kind} {length : Nat}

/-! ### Lexemes -/

/-- **The lexical grammar**: the rows of characters that are tokens, and of which kind. -/
inductive IsLexeme : Kind → List Char → Prop where
  /-- A number without a fraction. -/
  | whole {whole : List Char} (hne : whole ≠ []) (hdigits : ∀ c ∈ whole, c.isDigit = true) :
      IsLexeme .number whole
  /-- A number with a fraction. -/
  | fraction {whole fraction : List Char} (hne : whole ≠ [])
      (hdigits : ∀ c ∈ whole, c.isDigit = true) (hfraction : fraction ≠ [])
      (hfractionDigits : ∀ c ∈ fraction, c.isDigit = true) :
      IsLexeme .number (whole ++ '.' :: fraction)
  /-- An operator or a parenthesis. -/
  | operator {word : List Char} (h : word ∈ operators) : IsLexeme .operator word
  /-- A text between two quotes of one sort. The second one is the first that is neither escaped
  nor different, and no backslash stands in front of a line end. -/
  | text {quote : Char} {text content : List Char} (hquote : quote = '"' ∨ quote = '\'')
      (h : Escapes quote text content) : IsLexeme .text (quote :: content ++ [quote])
  | truth {word : List Char} (h : word = "true".toList ∨ word = "false".toList) :
      IsLexeme .truth word
  | name {word : List Char} (h : IsWord word)
      (hne : ¬ (word = "true".toList ∨ word = "false".toList)) : IsLexeme .name word

/-- **The longest lexeme** with which a text starts. -/
structure IsLongest (kind : Kind) (word cs : List Char) : Prop where
  isLexeme : IsLexeme kind word
  isPrefix : word <+: cs
  length_le : ∀ {other : Kind} {word' : List Char}, IsLexeme other word' → word' <+: cs →
    word'.length ≤ word.length

/-- No lexeme is empty. -/
theorem IsLexeme.ne_nil (h : IsLexeme kind word) : word ≠ [] := by
  cases h with
  | whole hne => exact hne
  | fraction => simp
  | operator h =>
    rintro rfl
    exact absurd h (by decide)
  | text => simp
  | truth h => rcases h with rfl | rfl <;> decide
  | name h =>
    rintro rfl
    obtain ⟨⟨c, hc, -⟩, -⟩ := h
    exact nomatch hc

theorem isLexeme_wordKind (h : IsWord word) : IsLexeme (wordKind word) word := by
  unfold wordKind
  split
  · next htruth => exact .truth htruth
  · next hname => exact .name h hname

theorem isWord_of_truth (h : word = "true".toList ∨ word = "false".toList) : IsWord word := by
  rcases h with rfl | rfl
  · exact ⟨⟨'t', rfl, rfl⟩, List.all_eq_true.mp rfl⟩
  · exact ⟨⟨'f', rfl, rfl⟩, List.all_eq_true.mp rfl⟩

theorem continuesName_of_startsName (h : startsName c = true) : continuesName c = true := by
  simp only [startsName, continuesName, Char.isAlphanum, Bool.or_eq_true] at h ⊢
  rcases h with h | h
  · exact Or.inl (Or.inl h)
  · exact Or.inr h

/-! ### Operators and the other sorts of lexemes -/

/-- No operator starts like another sort of lexeme. -/
theorem head_of_mem_operators {op : List Char} (hop : op ∈ operators) (hhead : op.head? = some c) :
    c.isDigit = false ∧ ¬ (c = '"' ∨ c = '\'') ∧ startsName c = false := by
  have hall : ∀ op ∈ operators, op.head?.all fun c =>
      !c.isDigit && !(c = '"' || c = '\'') && !startsName c := by decide
  have hc := hall op hop
  rw [hhead] at hc
  simpa [and_assoc] using hc

theorem at?_of_operator {op : List Char} (hop : op ∈ operators) (hhead : op.head? = some c) :
    at? (c :: rest) = (operatorLength? (c :: rest)).map fun length => (.operator, length) := by
  obtain ⟨hdigit, hquote, hname⟩ := head_of_mem_operators hop hhead
  rw [at?, hdigit, if_neg Bool.false_ne_true, if_neg hquote, hname, if_neg Bool.false_ne_true]

/-! ### Numbers -/

theorem exists_digits (cs : List Char) :
    ∃ digits rest, cs = digits ++ rest ∧ (digits ++ rest).takeWhile Char.isDigit = digits := by
  refine ⟨cs.takeWhile Char.isDigit, cs.dropWhile Char.isDigit, ?_, ?_⟩
  · exact List.takeWhile_append_dropWhile.symm
  · rw [List.takeWhile_append_dropWhile]

/-- **A text that starts with a digit starts with a number** of the recognised length. -/
theorem exists_number (h : c.isDigit = true) (rest : List Char) :
    ∃ word behind, c :: rest = word ++ behind ∧ IsLexeme .number word ∧
      numberLength (c :: rest) = word.length := by
  obtain ⟨digits, behind, hsplit, htake⟩ := exists_digits (c :: rest)
  have hdigits : ∀ d ∈ digits, d.isDigit = true := htake ▸ List.all_eq_true.mp List.all_takeWhile
  have hne : digits ≠ [] := by
    rw [← htake, ← hsplit, List.takeWhile_cons_of_pos h]
    exact List.cons_ne_nil _ _
  rw [hsplit]
  by_cases hpoint : behind.head? = some '.'
  · obtain ⟨behind, rfl⟩ := List.head?_eq_some_iff.mp hpoint
    rw [numberLength_append_point htake]
    split
    · exact ⟨digits, _, rfl, .whole hne hdigits, rfl⟩
    · next hlength =>
      refine ⟨digits ++ '.' :: behind.takeWhile Char.isDigit, behind.dropWhile Char.isDigit, ?_,
        .fraction hne hdigits ?_ (List.all_eq_true.mp List.all_takeWhile), ?_⟩
      · rw [List.append_assoc, List.cons_append, List.takeWhile_append_dropWhile]
      · exact fun hnil => hlength (congrArg List.length hnil)
      · simp only [List.length_append, List.length_cons]
        omega
  · exact ⟨digits, _, rfl, .whole hne hdigits, numberLength_append_of_head?_ne htake hpoint⟩

/-- **No number in front of a text is longer** than the one that is recognised. -/
theorem IsLexeme.le_numberLength (h : IsLexeme .number word) :
    word.length ≤ numberLength (word ++ rest) := by
  cases h with
  | whole hne hdigits =>
    obtain ⟨digits, behind, hsplit, htake⟩ := exists_digits (word ++ rest)
    have hle : word.length ≤ digits.length := by
      rw [← htake, ← hsplit, List.takeWhile_append_of_pos hdigits]
      simp
    rw [hsplit]
    refine Nat.le_trans hle ?_
    by_cases hpoint : behind.head? = some '.'
    · obtain ⟨behind, rfl⟩ := List.head?_eq_some_iff.mp hpoint
      rw [numberLength_append_point htake]
      split <;> omega
    · exact Nat.le_of_eq (numberLength_append_of_head?_ne htake hpoint).symm
  | @fraction whole fraction hne hdigits hfraction hfractionDigits =>
    have hassoc : whole ++ '.' :: fraction ++ rest = whole ++ '.' :: (fraction ++ rest) := by simp
    have htake : (whole ++ '.' :: (fraction ++ rest)).takeWhile Char.isDigit = whole := by
      rw [List.takeWhile_append_of_pos hdigits]
      simp
    have hlength : 0 < fraction.length := List.length_pos_iff.mpr hfraction
    rw [hassoc, numberLength_append_point htake]
    simp only [List.takeWhile_append_of_pos hfractionDigits, List.length_append, List.length_cons]
    rw [if_neg (by omega)]
    omega

/-! ### Quoted texts -/

/-- **A text that is found to end has a content** that stands for something, up to the closing
quote. -/
theorem exists_escapes {quote : Char} (h : quotedLength? quote cs = some length) :
    ∃ text content behind, cs = content ++ quote :: behind ∧ Escapes quote text content ∧
      length = content.length + 1 := by
  induction cs using quotedLength?.induct quote generalizing length with
  | case1 => simp [quotedLength?] at h
  | case2 => simp [quotedLength?] at h
  | case3 rest => simp [quotedLength?] at h
  | case4 c rest hend ih =>
    rw [quotedLength?, if_neg hend] at h
    obtain ⟨length, hlength, rfl⟩ := Option.map_eq_some_iff.mp h
    obtain ⟨text, content, behind, rfl, hescapes, rfl⟩ := ih hlength
    exact ⟨c :: text, '\\' :: c :: content, behind, rfl, .escaped hend hescapes, rfl⟩
  | case5 rest hlast hnext =>
    rw [quotedLength?_cons_of_ne (ne_backslash hlast hnext), if_pos rfl] at h
    obtain rfl := Option.some.inj h
    exact ⟨[], [], rest, rfl, .nil, rfl⟩
  | case6 c rest hlast hnext hquote ih =>
    have hbackslash := ne_backslash hlast hnext
    rw [quotedLength?_cons_of_ne hbackslash, if_neg hquote] at h
    obtain ⟨length, hlength, rfl⟩ := Option.map_eq_some_iff.mp h
    obtain ⟨text, content, behind, rfl, hescapes, rfl⟩ := ih hlength
    exact ⟨c :: text, c :: content, behind, rfl, .plain hquote hbackslash hescapes, rfl⟩

/-! ### Operators -/

/-- Every operator stands in front of those that it starts with. -/
theorem pairwise_operators : operators.Pairwise fun op longer => ¬ op <+: longer := by
  decide

/-- **The recognised operator** is one with which the text starts. -/
theorem operatorLength?_eq_some (h : operatorLength? cs = some length) :
    ∃ op ∈ operators, op <+: cs ∧ length = op.length := by
  obtain ⟨op, hop, rfl⟩ := Option.map_eq_some_iff.mp h
  have hstarts : op.isPrefixOf cs = true := List.find?_some (p := (List.isPrefixOf · cs)) hop
  exact ⟨op, List.mem_of_find?_eq_some hop, List.isPrefixOf_iff_prefix.mp hstarts, rfl⟩

/-- **An operator in front of a text is reached**, as it is not recognised behind a shorter one. -/
theorem exists_operatorLength? {op : List Char} (hop : op ∈ operators) (hcs : op <+: cs) :
    ∃ length, operatorLength? cs = some length ∧ op.length ≤ length := by
  have hsome : (operators.find? (·.isPrefixOf cs)).isSome :=
    List.find?_isSome.mpr ⟨op, hop, List.isPrefixOf_iff_prefix.mpr hcs⟩
  obtain ⟨found, hfound⟩ := Option.isSome_iff_exists.mp hsome
  refine ⟨found.length, congrArg (Option.map List.length) hfound, ?_⟩
  obtain ⟨hstarts, before, behind, hsplit, hbefore⟩ := List.find?_eq_some_iff_append.mp hfound
  have horder := pairwise_operators
  rw [hsplit] at hop horder
  rcases List.mem_append.mp hop with hmem | hmem
  · have hnot := hbefore op hmem
    rw [List.isPrefixOf_iff_prefix.mpr hcs] at hnot
    exact nomatch hnot
  · rcases List.mem_cons.mp hmem with rfl | hmem
    · exact Nat.le_refl _
    · -- an operator behind the recognised one that is longer would start with it
      have hnot := (List.pairwise_cons.mp (List.pairwise_append.mp horder).2.1).1 op hmem
      refine Nat.le_of_not_lt fun hlt => hnot ?_
      exact List.prefix_of_prefix_length_le (List.isPrefixOf_iff_prefix.mp hstarts) hcs
        (Nat.le_of_lt hlt)

/-! ### The lexeme at a place -/

/-- **What is recognised is a lexeme**, with which the text starts. -/
theorem isLexeme_of_at? (h : at? cs = some (kind, length)) :
    ∃ word rest, cs = word ++ rest ∧ IsLexeme kind word ∧ length = word.length := by
  cases cs with
  | nil => exact nomatch h
  | cons c cs =>
    by_cases hdigit : c.isDigit = true
    · rw [at?_of_isDigit hdigit] at h
      obtain ⟨word, behind, hsplit, hlexeme, hlength⟩ := exists_number hdigit cs
      obtain ⟨rfl, rfl⟩ := Prod.mk.inj (Option.some.inj h)
      exact ⟨word, behind, hsplit, hlexeme, hlength⟩
    -- what is no digit, no quote and starts no name can only start an operator
    by_cases hquote : c = '"' ∨ c = '\''
    · rw [at?_of_quote hquote] at h
      obtain ⟨length, hlength, hpair⟩ := Option.map_eq_some_iff.mp h
      obtain ⟨rfl, rfl⟩ := Prod.mk.inj hpair
      obtain ⟨text, content, behind, rfl, hescapes, rfl⟩ := exists_escapes hlength
      exact ⟨c :: content ++ [c], behind, by simp, .text hquote hescapes, by simp⟩
    by_cases hname : startsName c = true
    · rw [at?_of_startsName hname] at h
      obtain ⟨rfl, rfl⟩ := Prod.mk.inj (Option.some.inj h)
      refine ⟨_, (c :: cs).dropWhile continuesName, List.takeWhile_append_dropWhile.symm,
        isLexeme_wordKind ⟨⟨c, ?_, hname⟩, List.all_eq_true.mp List.all_takeWhile⟩, rfl⟩
      rw [List.takeWhile_cons_of_pos (continuesName_of_startsName hname)]
      rfl
    rw [at?, if_neg hdigit, if_neg hquote, if_neg hname] at h
    obtain ⟨length, hlength, hpair⟩ := Option.map_eq_some_iff.mp h
    obtain ⟨rfl, rfl⟩ := Prod.mk.inj hpair
    obtain ⟨op, hop, ⟨behind, hsplit⟩, rfl⟩ := operatorLength?_eq_some hlength
    exact ⟨op, behind, hsplit.symm, .operator hop, rfl⟩

/-- **A lexeme is reached** in front of whatever it stands: something is recognised there that is
at least as long, and is of the same kind if it is no longer. -/
def Reaches (kind : Kind) (word cs : List Char) : Prop :=
  ∃ other length, at? cs = some (other, length) ∧ word.length ≤ length ∧
    (length = word.length → other = kind)

/-- A word is reached as one of its kind. -/
theorem IsWord.reaches (h : IsWord word) (rest : List Char) :
    Reaches (wordKind word) word (word ++ rest) := by
  obtain ⟨⟨c, hc, hstarts⟩, hall⟩ := h
  obtain ⟨word, rfl⟩ := List.head?_eq_some_iff.mp hc
  have htake : (c :: (word ++ rest)).takeWhile continuesName =
      c :: word ++ rest.takeWhile continuesName := List.takeWhile_append_of_pos hall
  refine ⟨_, _, at?_of_startsName hstarts, ?_, fun hlength => ?_⟩
  · change (c :: word).length ≤ ((c :: (word ++ rest)).takeWhile continuesName).length
    rw [htake, List.length_append]
    exact Nat.le_add_right _ _
  · change ((c :: (word ++ rest)).takeWhile continuesName).length = _ at hlength
    rw [htake, List.length_append] at hlength
    have hnil : rest.takeWhile continuesName = [] := List.length_eq_zero_iff.mp (by omega)
    change wordKind ((c :: (word ++ rest)).takeWhile continuesName) = _
    rw [htake, hnil, List.append_nil]

/-- A number is reached. -/
theorem IsLexeme.reaches_number (h : IsLexeme .number word) (rest : List Char) :
    Reaches .number word (word ++ rest) := by
  obtain ⟨c, hc, hdigit⟩ : ∃ c ∈ word.head?, c.isDigit = true := by
    cases h with
    | @whole whole hne hdigits =>
      obtain ⟨c, whole, rfl⟩ := List.exists_cons_of_ne_nil hne
      exact ⟨c, rfl, hdigits c List.mem_cons_self⟩
    | @fraction whole fraction hne hdigits =>
      obtain ⟨c, whole, rfl⟩ := List.exists_cons_of_ne_nil hne
      exact ⟨c, rfl, hdigits c List.mem_cons_self⟩
  obtain ⟨word, rfl⟩ := List.head?_eq_some_iff.mp hc
  exact ⟨_, _, at?_of_isDigit hdigit, h.le_numberLength, fun _ => rfl⟩

/-- **What is a lexeme is reached.** -/
theorem IsLexeme.reaches (h : IsLexeme kind word) (rest : List Char) :
    Reaches kind word (word ++ rest) := by
  cases h with
  | whole hne hdigits => exact (IsLexeme.whole hne hdigits).reaches_number rest
  | fraction hne hdigits hfraction hfractionDigits =>
    exact (IsLexeme.fraction hne hdigits hfraction hfractionDigits).reaches_number rest
  | operator hop =>
    obtain ⟨length, hlength, hle⟩ := exists_operatorLength? hop (List.prefix_append word rest)
    obtain ⟨c, word, rfl⟩ := List.exists_cons_of_ne_nil (IsLexeme.operator hop).ne_nil
    refine ⟨.operator, length, ?_, hle, fun _ => rfl⟩
    rw [List.cons_append, at?_of_operator hop rfl, ← List.cons_append, hlength]
    rfl
  | @text quote text content hquote hescapes =>
    have hne : quote ≠ '\\' := by
      rcases hquote with rfl | rfl <;> decide
    have hlength : quotedLength? quote (content ++ quote :: rest) = some (content.length + 1) :=
      hescapes.quotedLength? hne
    have hassoc : quote :: content ++ [quote] ++ rest = quote :: (content ++ quote :: rest) := by
      simp
    refine ⟨.text, content.length + 2, ?_, by simp, fun _ => rfl⟩
    rw [hassoc, at?_of_quote hquote, hlength]
    rfl
  | truth htruth =>
    have hkind : wordKind word = .truth := if_pos htruth
    exact hkind ▸ (isWord_of_truth htruth).reaches rest
  | name hword hne =>
    have hkind : wordKind word = .name := if_neg hne
    exact hkind ▸ hword.reaches rest

/-- **The longest lexeme is what is recognised.** -/
theorem at?_eq_some_iff :
    at? cs = some (kind, length) ↔ ∃ word, IsLongest kind word cs ∧ length = word.length := by
  constructor
  · intro h
    obtain ⟨word, rest, rfl, hlexeme, rfl⟩ := isLexeme_of_at? h
    refine ⟨word, ⟨hlexeme, List.prefix_append word rest, ?_⟩, rfl⟩
    rintro other word' hother ⟨rest', hsplit⟩
    obtain ⟨other', length', hat, hle, -⟩ := hother.reaches rest'
    rw [hsplit, h] at hat
    obtain ⟨-, rfl⟩ := Prod.mk.inj (Option.some.inj hat)
    exact hle
  · rintro ⟨word, ⟨hlexeme, ⟨rest, rfl⟩, hlongest⟩, rfl⟩
    obtain ⟨other, length, hat, hle, hkind⟩ := hlexeme.reaches rest
    obtain ⟨word', rest', hsplit, hlexeme', rfl⟩ := isLexeme_of_at? hat
    have hge := hlongest hlexeme' ⟨rest', hsplit.symm⟩
    have hlength : word'.length = word.length := Nat.le_antisymm hge hle
    rw [hat, hkind hlength, hlength]

/-- **Nothing is recognised** exactly if no lexeme starts the text. -/
theorem at?_eq_none_iff :
    at? cs = none ↔ ∀ kind word, IsLexeme kind word → ¬ word <+: cs := by
  constructor
  · rintro h kind word hlexeme ⟨rest, rfl⟩
    obtain ⟨other, length, hat, -⟩ := hlexeme.reaches rest
    rw [h] at hat
    exact nomatch hat
  · intro h
    cases hat : at? cs with
    | none => rfl
    | some found =>
      obtain ⟨word, hlongest, -⟩ := at?_eq_some_iff.mp hat
      exact absurd hlongest.isPrefix (h _ word hlongest.isLexeme)

/-- **What starts no lexeme** is no letter, digit or underscore and no operator of one character,
does not double to an operator, and opens no quoted text. -/
theorem of_startsNone (h : ∀ kind word, IsLexeme kind word → ¬ word <+: c :: rest) :
    c.isAlpha = false ∧ c.isDigit = false ∧ c ≠ '_' ∧ c ∉ "()!<>+-*/%".toList ∧
      (c ∈ "=&|".toList → rest.head? ≠ some c) ∧
      ∀ word, IsLexeme .text word → ¬ word <+: c :: rest := by
  have hone : ∀ kind, ¬ IsLexeme kind [c] := fun kind hlexeme => h kind [c] hlexeme (by simp)
  have hname : startsName c = false := by
    rw [Bool.eq_false_iff]
    intro hstarts
    refine hone _ (isLexeme_wordKind ⟨⟨c, rfl, hstarts⟩, fun d hd => ?_⟩)
    rw [List.mem_singleton.mp hd]
    exact continuesName_of_startsName hstarts
  rw [startsName, Bool.or_eq_false_iff, decide_eq_false_iff_not] at hname
  refine ⟨hname.1, ?_, hname.2, fun hmem => hone _ (.operator ?_), fun hmem hhead => ?_,
    fun word hword => h .text word hword⟩
  · rw [Bool.eq_false_iff]
    intro hdigit
    exact hone _ (.whole (List.cons_ne_nil _ _) fun d hd => List.mem_singleton.mp hd ▸ hdigit)
  · have hall : ("()!<>+-*/%".toList.map fun d => [d]) ⊆ operators := by decide
    exact hall (List.mem_map_of_mem hmem)
  · have hall : ("=&|".toList.map fun d => [d, d]) ⊆ operators := by decide
    obtain ⟨rest, rfl⟩ := List.head?_eq_some_iff.mp hhead
    exact h _ [c, c] (.operator (hall (List.mem_map_of_mem hmem))) (by simp)

/-! ### The cut -/

/-- **How a text falls into tokens**, from the byte on at which it starts: at each place the longest
lexeme is a token, and a character with which no lexeme starts is left out. -/
inductive Cuts : Nat → List Char → List Token → Prop where
  | nil {position : Nat} : Cuts position [] []
  | skip {position : Nat} {c : Char} {rest : List Char} {tokens : List Token}
      (hnone : ∀ kind word, IsLexeme kind word → ¬ word <+: c :: rest)
      (h : Cuts (position + c.utf8Size) rest tokens) : Cuts position (c :: rest) tokens
  | token {position : Nat} {kind : Kind} {word rest : List Char} {tokens : List Token}
      (hlongest : IsLongest kind word (word ++ rest))
      (h : Cuts (position + (String.ofList word).utf8ByteSize) rest tokens) :
      Cuts position (word ++ rest) (⟨kind, String.ofList word, position⟩ :: tokens)

variable {position : Nat} {tokens : List Token} {token : Token}

/-- **The cut of a text is the one that the lexical grammar determines.** -/
theorem cuts_scan (position : Nat) (cs : List Char) : Cuts position cs (scan position 0 cs) := by
  induction hlength : cs.length using Nat.strongRecOn generalizing position cs with
  | ind length ih =>
    subst hlength
    cases hat : at? cs with
    | none =>
      cases cs with
      | nil => exact .nil
      | cons c rest =>
        rw [scan_of_at?_eq_none hat]
        exact .skip (at?_eq_none_iff.mp hat) (ih rest.length (by simp) _ rest rfl)
    | some found =>
      obtain ⟨word, hlongest, hlength⟩ := at?_eq_some_iff.mp hat
      obtain ⟨rest, rfl⟩ := hlongest.isPrefix
      have hne := hlongest.isLexeme.ne_nil
      rw [scan_append_of_at? hne (hat.trans (congrArg some (Prod.ext rfl hlength)))]
      refine .token hlongest (ih rest.length ?_ _ rest rfl)
      rw [List.length_append]
      have := List.length_pos_iff.mpr hne
      omega

/-- **Every token is the longest lexeme where it stands.** -/
theorem Cuts.exists_of_mem (h : Cuts position cs tokens) (hmem : token ∈ tokens) :
    ∃ before rest, cs = before ++ (token.text.toList ++ rest) ∧
      token.position = position + (String.ofList before).utf8ByteSize ∧
      IsLongest token.kind token.text.toList (token.text.toList ++ rest) := by
  induction h with
  | nil => exact nomatch hmem
  | @skip position c rest tokens hnone h ih =>
    obtain ⟨before, rest', rfl, hposition, hlongest⟩ := ih hmem
    refine ⟨c :: before, rest', rfl, ?_, hlongest⟩
    rw [hposition, size_cons]
    omega
  | @token position kind word rest tokens hlongest h ih =>
    rcases List.mem_cons.mp hmem with rfl | hmem
    · refine ⟨[], rest, ?_, ?_, ?_⟩ <;> simp [hlongest]
    · obtain ⟨before, rest', rfl, hposition, hlongest'⟩ := ih hmem
      refine ⟨word ++ before, rest', by simp, ?_, hlongest'⟩
      rw [hposition, size_append]
      omega

theorem isLexeme_of_mem_tokenize {source : String} (h : token ∈ tokenize source) :
    IsLexeme token.kind token.text.toList := by
  obtain ⟨_, _, -, -, hlongest⟩ := (cuts_scan 0 source.toList).exists_of_mem h
  exact hlongest.isLexeme

/-- A name that was cut from a source is a word, and neither of the two truth values. -/
theorem isWord_of_mem_tokenize {source : String} (h : token ∈ tokenize source)
    (hkind : token.kind = .name) :
    IsWord token.text.toList ∧ wordKind token.text.toList = .name := by
  have hlexeme : IsLexeme .name token.text.toList := hkind ▸ isLexeme_of_mem_tokenize h
  cases hlexeme with
  | name hword hne => exact ⟨hword, if_neg hne⟩

/-- The byte behind a token. -/
def stop (token : Token) : Nat :=
  token.position + token.text.utf8ByteSize

theorem IsLexeme.size_pos (h : IsLexeme kind word) : 0 < (String.ofList word).utf8ByteSize := by
  obtain ⟨c, word, rfl⟩ := List.exists_cons_of_ne_nil h.ne_nil
  have := c.utf8Size_pos
  rw [size_cons]
  omega

theorem Cuts.le_position (h : Cuts position cs tokens) (hmem : token ∈ tokens) :
    position ≤ token.position := by
  obtain ⟨before, _, -, hposition, -⟩ := h.exists_of_mem hmem
  omega

/-- **Every token ends behind its place, and before the next one starts.** -/
theorem Cuts.pairwise (h : Cuts position cs tokens) :
    tokens.Pairwise fun token next => token.position < next.position ∧
      token.stop ≤ next.position := by
  induction h with
  | nil => exact .nil
  | skip _ _ ih => exact ih
  | token hlongest h ih =>
    refine List.pairwise_cons.mpr ⟨fun next hnext => ?_, ih⟩
    have hle := h.le_position hnext
    have hpos := hlongest.isLexeme.size_pos
    simp only [stop]
    omega

/-- **A character that is outside of all tokens starts no lexeme.** -/
theorem Cuts.startsNone {before : List Char} (h : Cuts position cs tokens)
    (hsplit : cs = before ++ c :: rest)
    (houtside : ∀ token ∈ tokens,
      ¬ (token.position ≤ position + (String.ofList before).utf8ByteSize ∧
        position + (String.ofList before).utf8ByteSize < token.stop)) :
    ∀ kind word, IsLexeme kind word → ¬ word <+: c :: rest := by
  induction h generalizing before with
  | nil => simp at hsplit
  | @skip position d rest' tokens hnone h ih =>
    cases before with
    | nil =>
      obtain ⟨rfl, rfl⟩ := List.cons.inj hsplit
      exact hnone
    | cons d before =>
      obtain ⟨rfl, rfl⟩ := List.cons.inj hsplit
      refine ih rfl fun token htoken => ?_
      have := houtside token htoken
      rw [size_cons] at this
      rwa [Nat.add_assoc]
  | @token position kind word rest' tokens hlongest h ih =>
    rcases List.append_eq_append_iff.mp hsplit with ⟨middle, rfl, hrest⟩ | ⟨middle, rfl, hrest⟩
    · refine ih hrest fun token htoken => ?_
      have := houtside token (List.mem_cons_of_mem _ htoken)
      rw [size_append] at this
      rwa [Nat.add_assoc]
    · cases middle with
      | nil =>
        have hsame : rest' = [] ++ c :: rest := hrest.symm
        refine ih hsame fun token htoken => ?_
        have := houtside token (List.mem_cons_of_mem _ htoken)
        simpa using this
      | cons d middle =>
        -- the character is inside of the token that is cut off here
        refine absurd ⟨?_, ?_⟩ (houtside _ List.mem_cons_self)
        · exact Nat.le_add_right _ _
        · have := d.utf8Size_pos
          simp only [stop, size_append, size_cons]
          omega

end Flowchart.Predicate.Token
