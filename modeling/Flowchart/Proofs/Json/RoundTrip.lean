import Flowchart.Json.Reader

/-!
# Written JSON is read back

A value that is written is read back (`Flowchart.Json.parse?_pretty`), as long as its leaves are
written as JSON demands (`Flowchart.Json.WellFormed`). There are two steps, with the tokens of the
value between them (`Flowchart.Json.spelling`).

* The text is cut into these tokens. What counts is that no token runs into what is written behind
  it: behind a value there are blanks, a comma, a closing bracket or nothing at all
  (`Flowchart.Json.Follows`).
* The tokens are read as the value. Whatever is open around the value stays as it is, which is the
  invariant of the reading.

Both steps are inductions along the value, with the items of an array and the members of an object
as cases of their own.
-/

namespace Flowchart.Json

open Token (isBlank scan? at?)

variable {rest word literal blanks : List Char} {token : Token}

/-! ### Well-formed leaves -/

/-- **What may follow a value** in a text: nothing, a blank, a comma or a closing bracket. -/
def Follows (rest : List Char) : Prop :=
  ∀ c ∈ rest.head?, isBlank c = true ∨ c = ',' ∨ c = ']' ∨ c = '\x7d'

/-- **The literal of a number**: it is cut off as a whole in front of whatever may follow it. -/
def IsNumberLiteral (literal : List Char) : Prop :=
  (∃ c ∈ literal.head?, isBlank c = false) ∧
    ∀ rest, Follows rest → at? (literal ++ rest) = some (.number literal, literal.length)

/-- **The literal of a string**: it ends at the first quote behind it. -/
def IsStringLiteral (literal : List Char) : Prop :=
  ∀ rest, Token.stringLiteral? (literal ++ '"' :: rest) = some literal

mutual

/-- **A value that can be written**: the literals of its numbers, strings and keys are as they
should be. -/
def WellFormed : Json → Prop
  | .null => True
  | .bool _ => True
  | .number literal => IsNumberLiteral literal
  | .string literal => IsStringLiteral literal
  | .array items => WellFormedItems items
  | .object members => WellFormedMembers members

/-- All values of a list can be written. -/
def WellFormedItems : List Json → Prop
  | [] => True
  | item :: items => WellFormed item ∧ WellFormedItems items

/-- All keys and values of an object can be written. -/
def WellFormedMembers : List (List Char × Json) → Prop
  | [] => True
  | (key, value) :: members => IsStringLiteral key ∧ WellFormed value ∧ WellFormedMembers members

end

theorem wellFormedItems_iff {items : List Json} :
    WellFormedItems items ↔ ∀ item ∈ items, WellFormed item := by
  induction items with
  | nil => simp [WellFormedItems]
  | cons item items ih => simp [WellFormedItems, ih]

theorem wellFormedMembers_iff {members : List (List Char × Json)} :
    WellFormedMembers members ↔
      ∀ member ∈ members, IsStringLiteral member.1 ∧ WellFormed member.2 := by
  induction members with
  | nil => simp [WellFormedMembers]
  | cons member members ih => simp [WellFormedMembers, ih, and_assoc]

/-! ### The tokens of a value -/

mutual

/-- **The tokens of a value.** -/
def spelling : Json → List Token
  | .null => [.null]
  | .bool value => [.bool value]
  | .number literal => [.number literal]
  | .string literal => [.string literal]
  | .array [] => [.openArray, .closeArray]
  | .array (item :: items) =>
    .openArray :: (spelling item ++ (spellingOfItems items ++ [.closeArray]))
  | .object [] => [.openObject, .closeObject]
  | .object ((key, value) :: members) =>
    .openObject :: .string key :: .colon ::
      (spelling value ++ (spellingOfMembers members ++ [.closeObject]))

/-- The tokens of the items behind the first one. -/
def spellingOfItems : List Json → List Token
  | [] => []
  | item :: items => .comma :: (spelling item ++ spellingOfItems items)

/-- The tokens of the members behind the first one. -/
def spellingOfMembers : List (List Char × Json) → List Token
  | [] => []
  | (key, value) :: members =>
    .comma :: .string key :: .colon :: (spelling value ++ spellingOfMembers members)

end

/-! ### Cutting a text into tokens -/

/-- A piece that is recognised as a whole is the first token. -/
theorem scan?_append_of_at? (hblank : ∃ c ∈ word.head?, isBlank c = false)
    (hat : at? (word ++ rest) = some (token, word.length)) :
    scan? 0 (word ++ rest) = (scan? 0 rest).map (token :: ·) := by
  obtain ⟨c, hc, hblank⟩ := hblank
  obtain ⟨tail, rfl⟩ : ∃ tail, word = c :: tail := by
    cases word with
    | nil => exact nomatch hc
    | cons d tail => exact ⟨tail, congrArg (· :: tail) (Option.some.inj hc)⟩
  rw [List.cons_append] at hat ⊢
  rw [scan?, if_neg (by rw [hblank]; exact Bool.false_ne_true), hat, List.length_cons]
  simp only [Option.bind_eq_bind, Option.bind_some, Nat.add_sub_cancel]
  rw [Token.scan?_skip, List.drop_left]
  cases scan? 0 rest <;> rfl

theorem scan?_quoted_append (h : IsStringLiteral literal) (rest : List Char) :
    scan? 0 (quoted literal ++ rest) = (scan? 0 rest).map (.string literal :: ·) := by
  refine scan?_append_of_at? ⟨'"', rfl, rfl⟩ ?_
  have hassoc : quoted literal ++ rest = '"' :: (literal ++ '"' :: rest) := by
    simp [quoted]
  have hlength : (quoted literal).length = literal.length + 2 := by
    simp [quoted]
  rw [hassoc, at?, h rest, hlength]
  rfl

theorem scan?_cons {c : Char} (hblank : isBlank c = false)
    (hat : at? (c :: rest) = some (token, 1)) :
    scan? 0 (c :: rest) = (scan? 0 rest).map (token :: ·) := by
  show scan? 0 ([c] ++ rest) = _
  exact scan?_append_of_at? ⟨c, rfl, hblank⟩ hat

/-- The blanks of a written value are blanks. -/
structure Spacing.IsBlank (s : Spacing) : Prop where
  lineBreak : ∀ depth, (s.lineBreak depth).all Token.isBlank = true
  afterColon : s.afterColon.all Token.isBlank = true

theorem isBlank_pretty : Spacing.pretty.IsBlank := by
  refine ⟨fun depth => ?_, rfl⟩
  rw [List.all_eq_true]
  rintro c hc
  rcases List.mem_cons.mp hc with rfl | hc
  · rfl
  · rw [List.eq_of_mem_replicate hc]
    rfl

theorem isBlank_compact : Spacing.compact.IsBlank :=
  ⟨fun _ => rfl, rfl⟩

/-- Blanks may follow a value if what is behind them may. -/
theorem Follows.blanks_append (h : Follows rest) (hblanks : blanks.all isBlank = true) :
    Follows (blanks ++ rest) := by
  cases blanks with
  | nil => exact h
  | cons c blanks =>
    rintro _ ⟨⟩
    exact Or.inl (List.all_eq_true.mp hblanks c List.mem_cons_self)

theorem follows_closeArray (rest : List Char) : Follows (']' :: rest) := by
  rintro _ ⟨⟩
  exact Or.inr (Or.inr (Or.inl rfl))

theorem follows_closeObject (rest : List Char) : Follows ('\x7d' :: rest) := by
  rintro _ ⟨⟩
  exact Or.inr (Or.inr (Or.inr rfl))

theorem follows_comma (rest : List Char) : Follows (',' :: rest) := by
  rintro _ ⟨⟩
  exact Or.inr (Or.inl rfl)

theorem follows_writeItems_append (s : Spacing) (depth : Nat) (items : List Json)
    (h : Follows rest) : Follows (writeItems s depth items ++ rest) := by
  cases items with
  | nil => exact h
  | cons item items =>
    rw [writeItems]
    exact follows_comma _

theorem follows_writeMembers_append (s : Spacing) (depth : Nat)
    (members : List (List Char × Json)) (h : Follows rest) :
    Follows (writeMembers s depth members ++ rest) := by
  cases members with
  | nil => exact h
  | cons member members =>
    obtain ⟨key, value⟩ := member
    rw [writeMembers]
    exact follows_comma _

section Cutting

variable {s : Spacing} (hs : s.IsBlank)
include hs

mutual

/-- **The text of a value is cut into the tokens of the value.** -/
theorem scan?_write_append (depth : Nat) (rest : List Char) (hrest : Follows rest) :
    ∀ json : Json, WellFormed json →
      scan? 0 (write s depth json ++ rest) = (scan? 0 rest).map (spelling json ++ ·)
  | .null, _ => scan?_append_of_at? ⟨'n', rfl, rfl⟩ rfl
  | .bool true, _ => scan?_append_of_at? ⟨'t', rfl, rfl⟩ rfl
  | .bool false, _ => scan?_append_of_at? ⟨'f', rfl, rfl⟩ rfl
  | .number literal, h => by
    rw [WellFormed] at h
    exact scan?_append_of_at? h.1 (h.2 rest hrest)
  | .string literal, h => by
    rw [WellFormed] at h
    exact scan?_quoted_append h rest
  | .array [], _ => by
    show scan? 0 ('[' :: ']' :: rest) = _
    rw [scan?_cons rfl rfl, scan?_cons rfl rfl, Option.map_map]
    rfl
  | .array (item :: items), h => by
    rw [WellFormed, WellFormedItems] at h
    obtain ⟨hitem, hitems⟩ := h
    have hclose := (follows_closeArray rest).blanks_append (hs.lineBreak depth)
    rw [write, spelling]
    simp only [List.append_assoc, List.cons_append, List.nil_append]
    rw [scan?_cons rfl rfl, Token.scan?_append_of_isBlank (hs.lineBreak _),
      scan?_write_append (depth + 1) _ (follows_writeItems_append s _ items hclose) item hitem,
      scan?_writeItems_append (depth + 1) _ hclose items hitems,
      Token.scan?_append_of_isBlank (hs.lineBreak _), scan?_cons rfl rfl]
    simp only [Option.map_map, Function.comp_def]
  | .object [], _ => by
    show scan? 0 ('\x7b' :: '\x7d' :: rest) = _
    rw [scan?_cons rfl rfl, scan?_cons rfl rfl, Option.map_map]
    rfl
  | .object ((key, value) :: members), h => by
    rw [WellFormed, WellFormedMembers] at h
    obtain ⟨hkey, hvalue, hmembers⟩ := h
    have hclose := (follows_closeObject rest).blanks_append (hs.lineBreak depth)
    rw [write, spelling]
    simp only [List.append_assoc, List.cons_append, List.nil_append]
    rw [scan?_cons rfl rfl, Token.scan?_append_of_isBlank (hs.lineBreak _),
      scan?_quoted_append hkey, scan?_cons rfl rfl, Token.scan?_append_of_isBlank hs.afterColon,
      scan?_write_append (depth + 1) _ (follows_writeMembers_append s _ members hclose) value
        hvalue,
      scan?_writeMembers_append (depth + 1) _ hclose members hmembers,
      Token.scan?_append_of_isBlank (hs.lineBreak _), scan?_cons rfl rfl]
    simp only [Option.map_map, Function.comp_def]

/-- The items behind the first one are cut into their tokens. -/
theorem scan?_writeItems_append (depth : Nat) (rest : List Char) (hrest : Follows rest) :
    ∀ items : List Json, WellFormedItems items →
      scan? 0 (writeItems s depth items ++ rest) = (scan? 0 rest).map (spellingOfItems items ++ ·)
  | [], _ => by
    rw [writeItems, spellingOfItems]
    exact Option.map_id'.symm
  | item :: items, h => by
    rw [WellFormedItems] at h
    obtain ⟨hitem, hitems⟩ := h
    rw [writeItems, spellingOfItems]
    simp only [List.append_assoc, List.cons_append]
    rw [scan?_cons rfl rfl, Token.scan?_append_of_isBlank (hs.lineBreak _),
      scan?_write_append depth _ (follows_writeItems_append s _ items hrest) item hitem,
      scan?_writeItems_append depth rest hrest items hitems]
    simp only [Option.map_map, Function.comp_def]

/-- The members behind the first one are cut into their tokens. -/
theorem scan?_writeMembers_append (depth : Nat) (rest : List Char) (hrest : Follows rest) :
    ∀ members : List (List Char × Json), WellFormedMembers members →
      scan? 0 (writeMembers s depth members ++ rest) =
        (scan? 0 rest).map (spellingOfMembers members ++ ·)
  | [], _ => by
    rw [writeMembers, spellingOfMembers]
    exact Option.map_id'.symm
  | (key, value) :: members, h => by
    rw [WellFormedMembers] at h
    obtain ⟨hkey, hvalue, hmembers⟩ := h
    rw [writeMembers, spellingOfMembers]
    simp only [List.append_assoc, List.cons_append]
    rw [scan?_cons rfl rfl, Token.scan?_append_of_isBlank (hs.lineBreak _),
      scan?_quoted_append hkey, scan?_cons rfl rfl, Token.scan?_append_of_isBlank hs.afterColon,
      scan?_write_append depth _ (follows_writeMembers_append s _ members hrest) value hvalue,
      scan?_writeMembers_append depth rest hrest members hmembers]
    simp only [Option.map_map, Function.comp_def]

end

end Cutting

/-! ### Reading the tokens -/

variable {opened : List Open} {place : List Open × Due}

theorem readTokens_cons (token : Token) (tokens : List Token) :
    readTokens place (token :: tokens) = (readToken place token).bind (readTokens · tokens) :=
  rfl

/-- Where the first item is due, anything but the closing bracket is read like a value. -/
theorem readToken_firstItem (h : token ≠ .closeArray) :
    readToken (opened, .firstItem) token = beginValue opened token := by
  rcases opened with _ | ⟨⟨items⟩ | ⟨members, key⟩, opened⟩
  · cases token <;> rfl
  · cases items <;> cases token <;> first | rfl | exact absurd rfl h
  · cases token <;> rfl

/-- The tokens of a value begin with a token that begins a value. -/
theorem exists_spelling_eq_cons (json : Json) :
    ∃ token tokens, spelling json = token :: tokens ∧ token ≠ .closeArray := by
  cases json with
  | null => exact ⟨_, _, rfl, nofun⟩
  | bool value => exact ⟨_, _, rfl, nofun⟩
  | number literal => exact ⟨_, _, rfl, nofun⟩
  | string literal => exact ⟨_, _, rfl, nofun⟩
  | array items => cases items <;> exact ⟨_, _, rfl, nofun⟩
  | object members => cases members <;> exact ⟨_, _, rfl, nofun⟩

theorem readTokens_firstItem (json : Json) (tokens : List Token) :
    readTokens (opened, .firstItem) (spelling json ++ tokens) =
      readTokens (opened, .value) (spelling json ++ tokens) := by
  obtain ⟨token, others, hspelling, hne⟩ := exists_spelling_eq_cons json
  rw [hspelling, List.cons_append, readTokens_cons, readTokens_cons, readToken_firstItem hne]
  rfl

mutual

/-- **The tokens of a value are read as the value**, and what is open around it stays open. -/
theorem readTokens_spelling_append (opened : List Open) (tokens : List Token) : ∀ json : Json,
    readTokens (opened, .value) (spelling json ++ tokens) =
      readTokens (opened, .after json) tokens
  | .null => rfl
  | .bool _ => rfl
  | .number _ => rfl
  | .string _ => rfl
  | .array [] => rfl
  | .array (item :: items) => by
    have hopen : readTokens (opened, .value) (spelling (.array (item :: items)) ++ tokens) =
        readTokens (.array [] :: opened, .firstItem)
          (spelling item ++ (spellingOfItems items ++ .closeArray :: tokens)) := by
      rw [spelling]
      simp only [List.append_assoc, List.cons_append, List.nil_append]
      rfl
    rw [hopen, readTokens_firstItem, readTokens_spelling_append,
      readTokens_spellingOfItems_append]
    rfl
  | .object [] => rfl
  | .object ((key, value) :: members) => by
    have hopen :
        readTokens (opened, .value) (spelling (.object ((key, value) :: members)) ++ tokens) =
          readTokens (.object [] key :: opened, .value)
            (spelling value ++ (spellingOfMembers members ++ .closeObject :: tokens)) := by
      rw [spelling]
      simp only [List.append_assoc, List.cons_append, List.nil_append]
      rfl
    rw [hopen, readTokens_spelling_append, readTokens_spellingOfMembers_append]
    rfl

/-- The tokens of the items behind the last one that was read, up to the closing bracket. -/
theorem readTokens_spellingOfItems_append (opened : List Open) (tokens : List Token) :
    ∀ (items before : List Json) (last : Json),
      readTokens (.array before :: opened, .after last)
          (spellingOfItems items ++ .closeArray :: tokens) =
        readTokens (opened, .after (.array ((last :: before).reverse ++ items))) tokens
  | [], before, last => by
    rw [List.append_nil]
    rfl
  | item :: items, before, last => by
    have hcomma : readTokens (.array before :: opened, .after last)
        (spellingOfItems (item :: items) ++ .closeArray :: tokens) =
        readTokens (.array (last :: before) :: opened, .value)
          (spelling item ++ (spellingOfItems items ++ .closeArray :: tokens)) := by
      rw [spellingOfItems, List.cons_append, List.append_assoc]
      rfl
    rw [hcomma, readTokens_spelling_append, readTokens_spellingOfItems_append]
    simp

/-- The tokens of the members behind the last one that was read, up to the closing brace. -/
theorem readTokens_spellingOfMembers_append (opened : List Open) (tokens : List Token) :
    ∀ (members before : List (List Char × Json)) (key : List Char) (last : Json),
      readTokens (.object before key :: opened, .after last)
          (spellingOfMembers members ++ .closeObject :: tokens) =
        readTokens (opened, .after (.object (((key, last) :: before).reverse ++ members))) tokens
  | [], before, key, last => by
    rw [List.append_nil]
    rfl
  | (key', value) :: members, before, key, last => by
    have hcomma : readTokens (.object before key :: opened, .after last)
        (spellingOfMembers ((key', value) :: members) ++ .closeObject :: tokens) =
        readTokens (.object ((key, last) :: before) key' :: opened, .value)
          (spelling value ++ (spellingOfMembers members ++ .closeObject :: tokens)) := by
      rw [spellingOfMembers, List.cons_append, List.cons_append, List.cons_append,
        List.append_assoc]
      rfl
    rw [hcomma, readTokens_spelling_append, readTokens_spellingOfMembers_append]
    simp

end

/-- **A value is read from its tokens.** -/
theorem ofTokens?_spelling (json : Json) : ofTokens? (spelling json) = some json := by
  have h := readTokens_spelling_append [] [] json
  rw [List.append_nil] at h
  rw [ofTokens?, h]
  rfl

/-- **Written JSON is read back**, whatever its blanks are. -/
theorem bind_ofTokens?_write {s : Spacing} (hs : s.IsBlank) {json : Json} (h : WellFormed json) :
    (Token.tokens? (write s 0 json)).bind ofTokens? = some json := by
  have hscan := scan?_write_append hs 0 [] (fun _ hc => nomatch hc) json h
  rw [List.append_nil] at hscan
  rw [Token.tokens?, hscan]
  simp [scan?, ofTokens?_spelling]

/-- **The pretty text of a value is read back.** -/
theorem parse?_pretty {json : Json} (h : WellFormed json) : parse? json.pretty = some json := by
  rw [parse?, pretty, String.toList_ofList]
  exact bind_ofTokens?_write isBlank_pretty h

/-- **The compact text of a value is read back.** -/
theorem parse?_compact {json : Json} (h : WellFormed json) : parse? json.compact = some json := by
  rw [parse?, compact, String.toList_ofList]
  exact bind_ofTokens?_write isBlank_compact h

end Flowchart.Json
