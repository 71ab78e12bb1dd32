import Flowchart.Proofs.Fallible
import Flowchart.Proofs.Predicate.Lexical

/-!
# Cutting a predicate byte by byte

A text is stored as bytes in UTF-8, and a token is cut from it as a slice between two bytes. This
can go wrong: a byte may lie behind the end, and a slice may begin or end inside of a character. The
cut is therefore done once more here on bytes, as a loop that moves a position, with every byte and
every slice checked when it is taken (`Flowchart.Predicate.Bytes.Ends`).

The loop never fails, comes to an end, and finds the tokens of the lexical grammar
(`Flowchart.Predicate.Bytes.ends_of_cuts`). The step behind it is that at each place the bytes show
the same lexeme as the characters (`Flowchart.Predicate.Bytes.GoesOn.tokenAt`). Almost all tests on
bytes are about characters of ASCII, which are single bytes below 128, while all bytes of other
characters are above. The one place where bytes are passed over unseen is a backslash: it takes one
byte along, which may be only the first of a character. The others are then looked at one by one,
but none of them is a quote or a backslash, so that the end of the character is reached as well
(`Flowchart.Predicate.Bytes.quotedEnd?_encode`).
-/

namespace Flowchart.Predicate.Bytes

open Token (Kind Cuts IsLexeme IsLongest at? numberLength quotedLength? operatorLength? size_cons
  size_append)

/-! ### Bytes and slices -/

/-- What stops a program that addresses a text by its bytes. -/
inductive Fault where
  /-- There is no such byte. -/
  | missing (position : Nat)
  /-- The two bytes are out of bounds or out of order, or one of them is inside of a character. -/
  | split (first last : Nat)

/-- The bytes of a text in UTF-8. -/
def ofText (text : String) : List UInt8 :=
  text.toUTF8.data.toList

/-- The byte at a place. -/
def byteAt (bytes : List UInt8) (position : Nat) : Except Fault UInt8 :=
  match bytes[position]? with
  | some b => .ok b
  | none => .error (.missing position)

/-- **The slice of a text between two bytes**, which have to lie in order on the boundaries of
characters. -/
def slice (text : String) (first last : Nat) : Except Fault String :=
  if h : String.Pos.Raw.IsValid text ⟨first⟩ ∧ String.Pos.Raw.IsValid text ⟨last⟩ ∧ first ≤ last
  then .ok (text.extract (text.pos ⟨first⟩ h.1) (text.pos ⟨last⟩ h.2.1))
  else .error (.split first last)

/-- A byte has a property of characters if it does as a character of ASCII. -/
def has (p : Char → Bool) (b : UInt8) : Bool :=
  p (Char.ofUInt8 b)

/-! ### The lexeme at a byte -/

/-- A blank of ASCII. -/
def isBlank (c : Char) : Bool :=
  c = ' ' || c = '\t' || c = '\n' || c = '\x0c' || c = '\r'

/-- The operators of more than one character, every one before those it starts with. -/
def longOperators : List String :=
  ["===", "!==", "==", "!=", "<=", ">=", "&&", "||"]

/-- The operators of one character, and the parentheses. -/
def shortOperators : List Char :=
  ['(', ')', '!', '<', '>', '+', '-', '*', '/', '%']

/-- Where a row of bytes with a property ends. -/
def rowEnd (p : Char → Bool) (bytes : List UInt8) (start : Nat) : Nat :=
  start + ((bytes.drop start).takeWhile (has p)).length

/-- Where a number ends. -/
def numberEnd (bytes : List UInt8) (start : Nat) : Nat :=
  let stop := rowEnd Char.isDigit bytes start
  if bytes[stop]?.any (has (· = '.')) ∧ bytes[stop + 1]?.any (has Char.isDigit) then
    rowEnd Char.isDigit bytes (stop + 1)
  else stop

/-- **Where a quoted text ends** whose bytes from a position on are given. A backslash takes one
byte along, unless it is a line end. -/
def quotedEnd? (quote : UInt8) (position : Nat) : List UInt8 → Option Nat
  | [] => none
  | b :: rest =>
    if has (· = '\\') b then
      match rest with
      | [] => none
      | escaped :: rest =>
        if has (· = '\n') escaped then none else quotedEnd? quote (position + 2) rest
    else if b = quote then some (position + 1)
    else quotedEnd? quote (position + 1) rest

/-- **The token that starts at a byte**, with the byte behind it. -/
def tokenAt (source : String) (start : Nat) : Except Fault (Option (Kind × Nat)) := do
  let bytes := ofText source
  let rest ← slice source start bytes.length
  let b ← byteAt bytes start
  if has Char.isDigit b then
    return some (.number, numberEnd bytes start)
  else if let some op := longOperators.find? (·.toList.isPrefixOf rest.toList) then
    return some (.operator, start + op.utf8ByteSize)
  else if has shortOperators.contains b then
    return some (.operator, start + 1)
  else if has (fun c => c = '"' || c = '\'') b then
    return (quotedEnd? b (start + 1) (bytes.drop (start + 1))).map (.text, ·)
  else if has Token.startsName b then
    let stop := rowEnd Token.continuesName bytes start
    let word ← slice source start stop
    return some (if word = "true" ∨ word = "false" then .truth else .name, stop)
  else
    return none

/-! ### The loop -/

/-- One turn of the loop: the next position, and the tokens found so far. -/
def turn (source : String) (position : Nat) (found : List Token) :
    Except Fault (Nat × List Token) := do
  let b ← byteAt (ofText source) position
  if has isBlank b then
    return (position + 1, found)
  else
    match ← tokenAt source position with
    | some (kind, stop) =>
      let text ← slice source position stop
      return (stop, found ++ [⟨kind, text, position⟩])
    | none =>
      let rest ← slice source position (ofText source).length
      return (position + (rest.toList.head?.map Char.utf8Size).getD 1, found)

/-- **The loop ends** with some tokens: after finitely many turns, none of which fails, the position
is behind the last byte. -/
inductive Ends (source : String) : Nat → List Token → List Token → Prop where
  | done {position : Nat} {found : List Token} (h : (ofText source).length ≤ position) :
      Ends source position found found
  | turn {position next : Nat} {found found' tokens : List Token}
      (h : position < (ofText source).length)
      (hturn : turn source position found = .ok (next, found'))
      (hrest : Ends source next found' tokens) : Ends source position found tokens

/-- What is between the first and the last byte of a lexeme. -/
def between (lexeme : String) : Except Fault String :=
  if 2 ≤ lexeme.utf8ByteSize then slice lexeme 1 (lexeme.utf8ByteSize - 1) else .ok ""

/-! ### Characters as bytes -/

/-- Some characters in UTF-8. -/
def encode (cs : List Char) : List UInt8 :=
  cs.flatMap String.utf8EncodeChar

variable {before cs rest : List Char} {c d : Char} {p : Char → Bool} {bytes : List UInt8}
  {position : Nat}

theorem encode_cons (c : Char) (cs : List Char) :
    encode (c :: cs) = String.utf8EncodeChar c ++ encode cs :=
  List.flatMap_cons

theorem encode_append (cs ds : List Char) : encode (cs ++ ds) = encode cs ++ encode ds :=
  List.flatMap_append

theorem ofText_ofList (cs : List Char) : ofText (String.ofList cs) = encode cs := by
  simp [ofText, encode, List.utf8Encode]

theorem length_encode (cs : List Char) :
    (encode cs).length = (String.ofList cs).utf8ByteSize := by
  induction cs with
  | nil => rfl
  | cons c cs ih =>
    rw [encode_cons, List.length_append, ih, String.length_utf8EncodeChar, size_cons]

theorem utf8EncodeChar_of_ascii (h : c.utf8Size = 1) :
    String.utf8EncodeChar c = [c.toUInt8] :=
  String.utf8EncodeChar_eq_singleton h

/-- All bytes of the other characters are above those of ASCII. -/
theorem le_of_mem_utf8EncodeChar {b : UInt8} (h : c.utf8Size ≠ 1)
    (hb : b ∈ String.utf8EncodeChar c) : 128 ≤ b.toNat := by
  have hlt : 127 < c.val.toNat := by
    rw [Ne, Char.utf8Size_eq_one_iff, UInt32.le_iff_toNat_le] at h
    exact Nat.lt_of_not_le h
  unfold String.utf8EncodeChar at hb
  simp only [Nat.not_le_of_gt hlt, if_false] at hb
  split at hb
  · simp only [List.mem_cons, List.not_mem_nil, or_false] at hb
    rcases hb with rfl | rfl <;> simp only [UInt8.toNat_ofNat'] <;> omega
  split at hb
  · simp only [List.mem_cons, List.not_mem_nil, or_false] at hb
    rcases hb with rfl | rfl | rfl <;> simp only [UInt8.toNat_ofNat'] <;> omega
  · simp only [List.mem_cons, List.not_mem_nil, or_false] at hb
    rcases hb with rfl | rfl | rfl | rfl <;> simp only [UInt8.toNat_ofNat'] <;> omega

/-! ### Properties of ASCII characters -/

/-- **A property that only characters of ASCII have.** -/
def IsAscii (p : Char → Bool) : Prop :=
  ∀ c, p c = true → c.utf8Size = 1

theorem isAscii_of_mem (cs : List Char) (hp : ∀ c, p c = true → c ∈ cs)
    (hcs : cs.all (·.utf8Size = 1)) : IsAscii p :=
  fun c hc => of_decide_eq_true (List.all_eq_true.mp hcs c (hp c hc))

theorem isAscii_continuesName : IsAscii Token.continuesName := by
  intro c h
  rw [Char.utf8Size_eq_one_iff, UInt32.le_iff_toNat_le]
  have hletter : ((decide ('A'.val ≤ c.val ∧ c.val ≤ 'Z'.val) ||
      ('a'.val ≤ c.val && c.val ≤ 'z'.val)) || ('0'.val ≤ c.val && c.val ≤ '9'.val) ||
        decide (c = '_')) = true := h
  simp only [Bool.or_eq_true, Bool.and_eq_true, decide_eq_true_eq,
    UInt32.le_iff_toNat_le] at hletter
  have hZ : 'Z'.val.toNat = 90 := rfl
  have hz : 'z'.val.toNat = 122 := rfl
  have h9 : '9'.val.toNat = 57 := rfl
  have h127 : (127 : UInt32).toNat = 127 := rfl
  rcases hletter with ((h | h) | h) | rfl
  · omega
  · omega
  · omega
  · decide

theorem isAscii_startsName : IsAscii Token.startsName :=
  fun c h => isAscii_continuesName c (Token.continuesName_of_startsName h)

theorem isAscii_isDigit : IsAscii Char.isDigit := by
  intro c h
  refine isAscii_continuesName c ?_
  rw [Token.continuesName, Char.isAlphanum, h, Bool.or_true, Bool.true_or]

theorem isAscii_eq (h : d.utf8Size = 1) : IsAscii (· = d) :=
  isAscii_of_mem [d] (by simp) (by simpa using h)

theorem isAscii_shortOperators : IsAscii shortOperators.contains :=
  isAscii_of_mem shortOperators (by simp) (by decide)

theorem isAscii_isBlank : IsAscii isBlank :=
  isAscii_of_mem [' ', '\t', '\n', '\x0c', '\r'] (by simp [isBlank, or_assoc]) (by decide)

theorem isAscii_isQuote : IsAscii fun c => c = '"' || c = '\'' :=
  isAscii_of_mem ['"', '\''] (by simp) (by decide)

theorem ofUInt8_toUInt8 (h : c.utf8Size = 1) : Char.ofUInt8 c.toUInt8 = c := by
  have hle := Char.utf8Size_eq_one_iff.mp h
  rw [UInt32.le_iff_toNat_le] at hle
  refine Char.ext (UInt32.toNat_inj.mp ?_)
  change c.val.toUInt8.toUInt32.toNat = c.val.toNat
  rw [UInt8.toNat_toUInt32, UInt32.toNat_toUInt8]
  exact Nat.mod_eq_of_lt (Nat.lt_of_le_of_lt hle (by decide))

/-- No byte above those of ASCII has such a property. -/
theorem IsAscii.has_eq_false {b : UInt8} (h : IsAscii p) (hb : 128 ≤ b.toNat) :
    has p b = false := by
  rw [has, Bool.eq_false_iff]
  intro hp
  have hle := Char.utf8Size_eq_one_iff.mp (h _ hp)
  rw [UInt32.le_iff_toNat_le] at hle
  have hval : (Char.ofUInt8 b).val.toNat = b.toNat := UInt8.toNat_toUInt32 b
  rw [hval] at hle
  exact absurd (Nat.le_trans hb hle) (by decide)

/-- **The first byte of a character has the property if the character does.** -/
theorem exists_head (c : Char) :
    ∃ b tail, String.utf8EncodeChar c = b :: tail ∧ (∀ p, IsAscii p → has p b = p c) ∧
      ∀ b ∈ tail, 128 ≤ b.toNat := by
  by_cases hc : c.utf8Size = 1
  · refine ⟨c.toUInt8, [], utf8EncodeChar_of_ascii hc, fun p _ => ?_, by simp⟩
    rw [has, ofUInt8_toUInt8 hc]
  · obtain ⟨b, tail, htail⟩ := List.exists_cons_of_ne_nil (String.utf8EncodeChar_ne_nil (c := c))
    have hle : ∀ b' ∈ b :: tail, 128 ≤ b'.toNat :=
      fun b' hb' => le_of_mem_utf8EncodeChar hc (htail ▸ hb')
    refine ⟨b, tail, htail, fun p hp => ?_, fun b' hb' => hle b' (List.mem_cons_of_mem _ hb')⟩
    rw [hp.has_eq_false (hle b List.mem_cons_self), eq_comm, Bool.eq_false_iff]
    exact fun h => hc (hp c h)

/-- **A row of bytes with the property** are the bytes of the row of characters with it. -/
theorem IsAscii.takeWhile_encode (h : IsAscii p) (cs : List Char) :
    (encode cs).takeWhile (has p) = encode (cs.takeWhile p) := by
  induction cs with
  | nil => rfl
  | cons c cs ih =>
    obtain ⟨b, tail, hbytes, hb, -⟩ := exists_head c
    by_cases hc : p c = true
    · have hone := utf8EncodeChar_of_ascii (h c hc)
      rw [hone] at hbytes
      obtain ⟨rfl, rfl⟩ := List.cons.inj hbytes
      rw [List.takeWhile_cons_of_pos hc, encode_cons, encode_cons, hone, List.singleton_append,
        List.takeWhile_cons_of_pos ((hb p h).trans hc), ih]
      rfl
    · rw [List.takeWhile_cons_of_neg hc, encode_cons, hbytes, List.cons_append,
        List.takeWhile_cons_of_neg (by rw [hb p h]; exact hc)]
      rfl

/-! ### A text from a byte on -/

/-- **A text goes on with some characters** from a byte on. -/
def GoesOn (source : String) (position : Nat) (cs : List Char) : Prop :=
  ∃ before, source = String.ofList (before ++ cs) ∧
    position = (String.ofList before).utf8ByteSize

variable {source : String} {word : List Char}

theorem goesOn_zero (source : String) : GoesOn source 0 source.toList :=
  ⟨[], by simp, by simp⟩

/-- Behind some of its characters a text goes on with the others. -/
theorem GoesOn.append (h : GoesOn source position (word ++ rest)) :
    GoesOn source (position + (String.ofList word).utf8ByteSize) rest := by
  obtain ⟨before, rfl, rfl⟩ := h
  refine ⟨before ++ word, by simp, ?_⟩
  rw [size_append]

theorem GoesOn.cons (h : GoesOn source position (c :: rest)) :
    GoesOn source (position + c.utf8Size) rest := by
  have hrest : GoesOn source (position + (String.ofList [c]).utf8ByteSize) rest := GoesOn.append h
  rwa [← String.singleton_eq_ofList, String.utf8ByteSize_singleton] at hrest

theorem GoesOn.drop_ofText (h : GoesOn source position cs) :
    (ofText source).drop position = encode cs := by
  obtain ⟨before, rfl, rfl⟩ := h
  rw [ofText_ofList, encode_append, ← length_encode, List.drop_left]

theorem GoesOn.length_ofText (h : GoesOn source position cs) :
    (ofText source).length = position + (String.ofList cs).utf8ByteSize := by
  obtain ⟨before, rfl, rfl⟩ := h
  rw [ofText_ofList, encode_append, List.length_append, length_encode, length_encode]

theorem GoesOn.getElem? (h : GoesOn source position cs) :
    (ofText source)[position]? = (encode cs).head? := by
  rw [← h.drop_ofText, List.head?_drop]

/-- **A part of a text is the slice** between the byte where it starts and the one behind it. -/
theorem slice_append (before part rest : String) :
    slice (before ++ part ++ rest) before.utf8ByteSize
      (before.utf8ByteSize + part.utf8ByteSize) = .ok part := by
  have hfirst : String.Pos.Raw.IsValid (before ++ part ++ rest) ⟨before.utf8ByteSize⟩ :=
    String.Pos.Raw.isValid_iff_exists_append.mpr
      ⟨before, part ++ rest, String.append_assoc, rfl⟩
  have hlast : String.Pos.Raw.IsValid (before ++ part ++ rest)
      ⟨before.utf8ByteSize + part.utf8ByteSize⟩ :=
    String.Pos.Raw.isValid_iff_exists_append.mpr
      ⟨before ++ part, rest, rfl, String.Pos.Raw.ext String.utf8ByteSize_append.symm⟩
  rw [slice, dif_pos ⟨hfirst, hlast, Nat.le_add_right _ _⟩]
  refine congrArg Except.ok (String.toByteArray_inj.mp ?_)
  rw [String.toByteArray_extract, String.offset_pos, String.offset_pos]
  simp only [String.toByteArray_append, ByteArray.append_assoc, ← String.size_toByteArray]
  have hshift := ByteArray.extract_append_size_add (a := before.toByteArray)
    (b := part.toByteArray ++ rest.toByteArray) (i := 0) (j := part.toByteArray.size)
  rw [Nat.add_zero] at hshift
  rw [hshift, ByteArray.extract_append_eq_left rfl]

/-- **Some characters are the slice** between the byte where they start and the one behind them. -/
theorem GoesOn.slice (h : GoesOn source position (word ++ rest)) :
    slice source position (position + (String.ofList word).utf8ByteSize) =
      .ok (String.ofList word) := by
  obtain ⟨before, rfl, rfl⟩ := h
  rw [← List.append_assoc, String.ofList_append, String.ofList_append]
  exact slice_append _ _ _

theorem GoesOn.slice_rest (h : GoesOn source position cs) :
    Bytes.slice source position (ofText source).length = .ok (String.ofList cs) := by
  have hcs : GoesOn source position (cs ++ []) := by rwa [List.append_nil]
  rw [h.length_ofText]
  exact hcs.slice

/-- **The byte at which a character starts** has the properties of the character. -/
theorem GoesOn.byteAt (h : GoesOn source position (c :: rest)) :
    ∃ b, byteAt (ofText source) position = .ok b ∧ (∀ p, IsAscii p → has p b = p c) ∧
      (c.utf8Size = 1 → b = c.toUInt8) := by
  obtain ⟨b, tail, hbytes, hb, -⟩ := exists_head c
  refine ⟨b, ?_, hb, fun hc => ?_⟩
  · rw [Bytes.byteAt, h.getElem?, encode_cons, hbytes]
    rfl
  · rw [utf8EncodeChar_of_ascii hc] at hbytes
    exact (List.cons.inj hbytes).1.symm

/-! ### The lexeme at a byte is the one that the characters show -/

theorem GoesOn.rowEnd (h : GoesOn source position cs) (hp : IsAscii p) :
    rowEnd p (ofText source) position =
      position + (String.ofList (cs.takeWhile p)).utf8ByteSize := by
  rw [Bytes.rowEnd, h.drop_ofText, hp.takeWhile_encode, length_encode]

/-- Whether a text goes on with a character that has a property is seen from its next byte. -/
theorem GoesOn.any (h : GoesOn source position cs) (hp : IsAscii p) :
    (ofText source)[position]?.any (has p) = cs.head?.any p := by
  rw [h.getElem?]
  cases cs with
  | nil => rfl
  | cons c rest =>
    obtain ⟨b, tail, hbytes, hb, -⟩ := exists_head c
    rw [encode_cons, hbytes]
    exact hb p hp

theorem length_takeWhile_eq_zero_iff (p : Char → Bool) (cs : List Char) :
    (cs.takeWhile p).length = 0 ↔ cs.head?.any p = false := by
  cases cs with
  | nil => simp
  | cons c cs => cases hc : p c <;> simp [hc]

/-- **A number ends at the same place.** -/
theorem GoesOn.numberEnd (h : GoesOn source position cs) :
    numberEnd (ofText source) position =
      position + (String.ofList (cs.take (numberLength cs))).utf8ByteSize := by
  obtain ⟨digits, rest, rfl, htake⟩ := Token.exists_digits cs
  have hstop : Bytes.rowEnd Char.isDigit (ofText source) position =
      position + (String.ofList digits).utf8ByteSize := by
    rw [h.rowEnd isAscii_isDigit, htake]
  have hrest := h.append
  rw [Bytes.numberEnd]
  simp only [hstop, hrest.any (isAscii_eq (d := '.') rfl)]
  by_cases hpoint : rest.head? = some '.'
  · obtain ⟨behind, rfl⟩ := List.head?_eq_some_iff.mp hpoint
    have hbehind : GoesOn source (position + (String.ofList digits).utf8ByteSize + 1) behind :=
      hrest.cons
    rw [hbehind.any isAscii_isDigit, Token.numberLength_append_point htake]
    -- a point counts only if a digit follows
    by_cases hnil : (behind.takeWhile Char.isDigit).length = 0
    · have hnone := (length_takeWhile_eq_zero_iff _ _).mp hnil
      rw [if_pos hnil, List.take_left, if_neg]
      exact fun hboth => Bool.false_ne_true (hnone.symm.trans hboth.2)
    · have hdigit : behind.head?.any Char.isDigit = true :=
        eq_true_of_ne_false fun hnone => hnil ((length_takeWhile_eq_zero_iff _ _).mpr hnone)
      have htaken : (digits ++ '.' :: behind).take
          (digits.length + 1 + (behind.takeWhile Char.isDigit).length) =
            digits ++ '.' :: behind.takeWhile Char.isDigit := by
        rw [Nat.add_assoc, List.take_length_add_append, Nat.add_comm 1, List.take_succ_cons,
          ← List.prefix_iff_eq_take.mp (List.takeWhile_prefix _)]
      rw [if_pos ⟨rfl, hdigit⟩, if_neg hnil, htaken, hbehind.rowEnd isAscii_isDigit, size_append,
        size_cons]
      have hone : '.'.utf8Size = 1 := rfl
      omega
  · have hno : ¬ rest.head?.any (· = '.') = true := by
      intro hany
      obtain ⟨c, hc, hany⟩ := (Option.any_eq_true _ _).mp hany
      exact hpoint (hc.trans (congrArg some (of_decide_eq_true hany)))
    rw [if_neg fun hboth => hno hboth.1, Token.numberLength_append_of_head?_ne htake hpoint,
      List.take_left]

/-- A byte that is no backslash is compared with the quote. -/
theorem quotedEnd?_cons_of_ne {quote b : UInt8} (tail : List UInt8)
    (h : has (· = '\\') b = false) :
    quotedEnd? quote position (b :: tail) =
      if b = quote then some (position + 1) else quotedEnd? quote (position + 1) tail := by
  rw [quotedEnd?.eq_def]
  simp only [h]
  rfl

/-- Bytes that are neither quotes nor backslashes are passed one by one. -/
theorem quotedEnd?_append {quote : UInt8} (tail : List UInt8)
    (h : ∀ b ∈ bytes, has (· = '\\') b = false ∧ b ≠ quote) :
    quotedEnd? quote position (bytes ++ tail) =
      quotedEnd? quote (position + bytes.length) tail := by
  induction bytes generalizing position with
  | nil => rfl
  | cons b bytes ih =>
    obtain ⟨hbackslash, hquote⟩ := h b List.mem_cons_self
    rw [List.cons_append, quotedEnd?_cons_of_ne _ hbackslash, if_neg hquote,
      ih fun b hb => h b (List.mem_cons_of_mem _ hb), List.length_cons]
    exact congrArg (quotedEnd? quote · tail) (by omega)

/-- A byte that is not seen as a character of ASCII is not its byte. -/
theorem ne_toUInt8_of_has {b : UInt8} (hd : d.utf8Size = 1) (h : has (· = d) b = false) :
    b ≠ d.toUInt8 := by
  rintro rfl
  rw [has, ofUInt8_toUInt8 hd] at h
  exact absurd rfl (of_decide_eq_false h)

/-- A character of ASCII is not seen in the bytes of another character. -/
theorem has_eq_of_mem_utf8EncodeChar {b : UInt8} (hd : d.utf8Size = 1) (hne : c ≠ d)
    (hb : b ∈ String.utf8EncodeChar c) : has (· = d) b = false := by
  by_cases hc : c.utf8Size = 1
  · rw [utf8EncodeChar_of_ascii hc] at hb
    rw [List.mem_singleton.mp hb, has, ofUInt8_toUInt8 hc]
    exact decide_eq_false hne
  · exact (isAscii_eq hd).has_eq_false (le_of_mem_utf8EncodeChar hc hb)

/-- **A quoted text ends at the same place**, whatever characters stand behind a backslash. -/
theorem quotedEnd?_encode {quote : Char} (hascii : quote.utf8Size = 1) (hbackslash : quote ≠ '\\')
    (position : Nat) (cs : List Char) :
    quotedEnd? quote.toUInt8 position (encode cs) =
      (quotedLength? quote cs).map fun length =>
        position + (String.ofList (cs.take length)).utf8ByteSize := by
  induction cs using Token.quotedLength?.induct quote generalizing position with
  | case1 => rfl
  | case2 => rfl
  | case3 rest =>
    rw [quotedLength?, if_pos rfl]
    rfl
  | case4 c rest hend ih =>
    obtain ⟨b, tail, hbytes, hb, htail⟩ := exists_head c
    have hsize : c.utf8Size = tail.length + 1 := by
      rw [← String.length_utf8EncodeChar, hbytes, List.length_cons]
    have hline : has (· = '\n') b = false := by
      rw [hb _ (isAscii_eq rfl)]
      exact decide_eq_false hend
    -- the other bytes of the character behind the backslash are looked at, and passed
    have hpass : ∀ b ∈ tail, has (· = '\\') b = false ∧ b ≠ quote.toUInt8 := fun b hb =>
      ⟨(isAscii_eq rfl).has_eq_false (htail b hb),
        ne_toUInt8_of_has hascii ((isAscii_eq hascii).has_eq_false (htail b hb))⟩
    have hskip : quotedEnd? quote.toUInt8 position (encode ('\\' :: c :: rest)) =
        quotedEnd? quote.toUInt8 (position + 2) (tail ++ encode rest) := by
      rw [encode_cons, encode_cons, hbytes]
      change (if has (· = '\n') b then none else _) = _
      rw [hline]
      rfl
    rw [hskip, quotedEnd?_append _ hpass, ih, quotedLength?, if_neg hend, Option.map_map]
    refine congrArg (Option.map · _) (funext fun length => ?_)
    simp only [Function.comp, List.take_succ_cons, size_cons]
    have hone : '\\'.utf8Size = 1 := rfl
    omega
  | case5 rest hlast hnext =>
    rw [Token.quotedLength?_cons_of_ne hbackslash, if_pos rfl, encode_cons,
      utf8EncodeChar_of_ascii hascii, List.singleton_append, quotedEnd?_cons_of_ne, if_pos rfl]
    · simp [hascii]
    · rw [has, ofUInt8_toUInt8 hascii]
      exact decide_eq_false hbackslash
  | case6 c rest hlast hnext hne ih =>
    have hbackslash := Token.ne_backslash hlast hnext
    have hpass : ∀ b ∈ String.utf8EncodeChar c, has (· = '\\') b = false ∧ b ≠ quote.toUInt8 :=
      fun b hb => ⟨has_eq_of_mem_utf8EncodeChar rfl hbackslash hb,
        ne_toUInt8_of_has hascii (has_eq_of_mem_utf8EncodeChar hascii hne hb)⟩
    rw [Token.quotedLength?_cons_of_ne hbackslash, if_neg hne, encode_cons,
      quotedEnd?_append _ hpass, ih, Option.map_map, String.length_utf8EncodeChar]
    refine congrArg (Option.map · _) (funext fun length => ?_)
    simp only [Function.comp, List.take_succ_cons, size_cons]
    omega

theorem operators_eq :
    Token.operators = longOperators.map String.toList ++ shortOperators.map ([·]) := by
  decide

/-- A long operator is recognised before the short ones. -/
theorem operatorLength?_of_long {op : String}
    (h : longOperators.find? (·.toList.isPrefixOf cs) = some op) :
    operatorLength? cs = some op.toList.length ∧ op.toList ∈ Token.operators ∧
      op.toList <+: cs := by
  have hstarts : op.toList.isPrefixOf cs = true :=
    List.find?_some (p := fun op : String => op.toList.isPrefixOf cs) h
  refine ⟨?_, ?_, List.isPrefixOf_iff_prefix.mp hstarts⟩
  · rw [operatorLength?, operators_eq, List.find?_append, List.find?_map]
    simp only [Function.comp_def, h]
    rfl
  · rw [operators_eq]
    exact List.mem_append_left _ (List.mem_map_of_mem (List.mem_of_find?_eq_some h))

/-- Without a long operator the next character alone decides. -/
theorem operatorLength?_of_no_long
    (h : longOperators.find? (·.toList.isPrefixOf (c :: rest)) = none) :
    operatorLength? (c :: rest) = if shortOperators.contains c then some 1 else none := by
  have hshort : shortOperators.find? (fun d => [d].isPrefixOf (c :: rest)) =
      if shortOperators.contains c then some c else none := by
    cases hfound : shortOperators.find? (fun d => [d].isPrefixOf (c :: rest)) with
    | some d =>
      have hstarts : [d].isPrefixOf (c :: rest) = true :=
        List.find?_some (p := fun d => [d].isPrefixOf (c :: rest)) hfound
      obtain rfl : d = c := by simpa using hstarts
      rw [if_pos (List.contains_iff_mem.mpr (List.mem_of_find?_eq_some hfound))]
    | none =>
      rw [if_neg fun hmem => ?_]
      exact List.find?_eq_none.mp hfound c (List.contains_iff_mem.mp hmem) (by simp)
  rw [operatorLength?, operators_eq, List.find?_append, List.find?_map, List.find?_map]
  simp only [Function.comp_def, h, hshort]
  split <;> rfl

theorem at?_of_isBlank (h : isBlank c = true) : at? (c :: rest) = none := by
  simp only [isBlank, Bool.or_eq_true, decide_eq_true_eq] at h
  rcases h with (((rfl | rfl) | rfl) | rfl) | rfl <;> rfl

/-- **The lexeme that the characters show** from a byte on: its kind, and the byte behind it. -/
def shown (position : Nat) (cs : List Char) : Option (Kind × Nat) :=
  (at? cs).map fun found => (found.1, position + (String.ofList (cs.take found.2)).utf8ByteSize)

theorem shown_of_long {op : String}
    (h : longOperators.find? (·.toList.isPrefixOf (c :: rest)) = some op) :
    shown position (c :: rest) = some (.operator, position + op.utf8ByteSize) := by
  obtain ⟨hlength, hop, ⟨behind, hsplit⟩⟩ := operatorLength?_of_long h
  have hhead : op.toList.head? = some c := by
    obtain ⟨d, tail, hop'⟩ := List.exists_cons_of_ne_nil (IsLexeme.operator hop).ne_nil
    rw [hop'] at hsplit ⊢
    exact congrArg some (List.cons.inj hsplit).1
  rw [shown, Token.at?_of_operator hop hhead, hlength, ← hsplit]
  simp only [Option.map_some, List.take_left, String.ofList_toList]

theorem shown_of_short (hlong : longOperators.find? (·.toList.isPrefixOf (c :: rest)) = none)
    (h : shortOperators.contains c = true) :
    shown position (c :: rest) = some (.operator, position + 1) := by
  have hop : [c] ∈ Token.operators := by
    rw [operators_eq]
    exact List.mem_append_right _ (List.mem_map_of_mem (List.contains_iff_mem.mp h))
  rw [shown, Token.at?_of_operator hop rfl, operatorLength?_of_no_long hlong, if_pos h]
  simp only [Option.map_some, List.take_succ_cons, List.take_zero, size_cons,
    isAscii_shortOperators c h]
  rfl

theorem GoesOn.shown_of_quote (h : GoesOn source position (c :: rest))
    (hquote : c = '"' ∨ c = '\'') :
    shown position (c :: rest) = (quotedEnd? c.toUInt8 (position + 1)
      ((ofText source).drop (position + 1))).map (.text, ·) := by
  have hone : c.utf8Size = 1 := by
    rcases hquote with rfl | rfl <;> rfl
  have hbackslash : c ≠ '\\' := by
    rcases hquote with rfl | rfl <;> decide
  have hrest : GoesOn source (position + 1) rest := hone ▸ h.cons
  rw [shown, Token.at?_of_quote hquote, hrest.drop_ofText, quotedEnd?_encode hone hbackslash,
    Option.map_map, Option.map_map]
  refine congrArg (Option.map · _) (funext fun length => ?_)
  simp only [Function.comp, List.take_succ_cons, size_cons, hone]
  rw [Nat.add_assoc]

theorem shown_of_startsName (h : Token.startsName c = true) :
    shown position (c :: rest) =
      some (Token.wordKind ((c :: rest).takeWhile Token.continuesName),
        position + (String.ofList ((c :: rest).takeWhile Token.continuesName)).utf8ByteSize) := by
  have htake : (c :: rest).take ((c :: rest).takeWhile Token.continuesName).length =
      (c :: rest).takeWhile Token.continuesName :=
    (List.prefix_iff_eq_take.mp (List.takeWhile_prefix _)).symm
  rw [shown, Token.at?_of_startsName h]
  simp only [Option.map_some, htake]

/-- **At each place the bytes show the same lexeme as the characters**, and no byte or slice is
missing. -/
theorem GoesOn.tokenAt (h : GoesOn source position (c :: rest)) :
    tokenAt source position = .ok (shown position (c :: rest)) := by
  obtain ⟨b, hbyte, hb, hascii⟩ := h.byteAt
  unfold Bytes.tokenAt
  simp only [h.slice_rest, hbyte, bind, Except.bind, hb _ isAscii_isDigit,
    hb _ isAscii_shortOperators, hb _ isAscii_isQuote, hb _ isAscii_startsName,
    String.toList_ofList]
  by_cases hdigit : c.isDigit = true
  · rw [if_pos hdigit, shown, Token.at?_of_isDigit hdigit, h.numberEnd]
    rfl
  rw [if_neg hdigit]
  cases hlong : longOperators.find? (·.toList.isPrefixOf (c :: rest)) with
  | some op => exact congrArg Except.ok (shown_of_long hlong).symm
  | none =>
    simp only
    by_cases hshort : shortOperators.contains c = true
    · rw [if_pos hshort, shown_of_short hlong hshort]
      rfl
    rw [if_neg hshort]
    by_cases hquote : c = '"' ∨ c = '\''
    · have hone : c.utf8Size = 1 := isAscii_isQuote c (by simpa using hquote)
      rw [if_pos (by simpa using hquote), h.shown_of_quote hquote, hascii hone]
      rfl
    rw [if_neg (by simpa using hquote)]
    by_cases hname : Token.startsName c = true
    · have hword := h
      rw [← List.takeWhile_append_dropWhile (p := Token.continuesName) (l := c :: rest)] at hword
      have hsame : ∀ (word : List Char) (text : String),
          String.ofList word = text ↔ word = text.toList := fun word text => by
        rw [← String.ofList_inj, String.ofList_toList]
      rw [if_pos hname, shown_of_startsName hname, h.rowEnd isAscii_continuesName, hword.slice]
      simp only [Token.wordKind, hsame]
      rfl
    · rw [if_neg hname, shown, at?, if_neg hdigit, if_neg hquote, if_neg hname,
        operatorLength?_of_no_long hlong, if_neg hshort]
      rfl

/-! ### The loop finds the tokens of the lexical grammar -/

variable {found tokens : List Token}

/-- A turn at a character with which no lexeme starts steps over it. -/
theorem GoesOn.turn_of_at?_eq_none (h : GoesOn source position (c :: rest))
    (hnone : at? (c :: rest) = none) :
    turn source position found = .ok (position + c.utf8Size, found) := by
  obtain ⟨b, hbyte, hb, -⟩ := h.byteAt
  unfold Bytes.turn
  simp only [hbyte, bind, Except.bind, hb _ isAscii_isBlank]
  by_cases hblank : isBlank c = true
  · rw [if_pos hblank, isAscii_isBlank c hblank]
    rfl
  · rw [if_neg hblank, h.tokenAt, shown, hnone]
    simp only [Option.map_none, h.slice_rest, String.toList_ofList]
    rfl

/-- A turn at a lexeme cuts it off. -/
theorem GoesOn.turn_of_at?_eq_some {kind : Kind} (h : GoesOn source position (word ++ rest))
    (hword : word ≠ []) (hat : at? (word ++ rest) = some (kind, word.length)) :
    turn source position found = .ok (position + (String.ofList word).utf8ByteSize,
      found ++ [⟨kind, String.ofList word, position⟩]) := by
  obtain ⟨c, word, rfl⟩ := List.exists_cons_of_ne_nil hword
  have hcut := h.slice
  rw [List.cons_append] at h hat
  obtain ⟨b, hbyte, hb, -⟩ := h.byteAt
  have hblank : ¬ isBlank c = true := by
    intro hblank
    rw [at?_of_isBlank hblank] at hat
    exact nomatch hat
  have htake : (c :: (word ++ rest)).take (c :: word).length = c :: word :=
    List.take_left
  unfold Bytes.turn
  simp only [hbyte, bind, Except.bind, hb _ isAscii_isBlank, if_neg hblank, h.tokenAt, shown,
    hat, Option.map_some, htake, hcut]
  rfl

/-- **The loop finds the tokens of the lexical grammar** in front of the end of the text, and takes
no byte and no slice that is not there. -/
theorem ends_of_cuts (h : Cuts position cs tokens) (hsource : GoesOn source position cs) :
    Ends source position found (found ++ tokens) := by
  induction h generalizing found with
  | nil =>
    rw [List.append_nil]
    refine .done (Nat.le_of_eq ?_)
    rw [hsource.length_ofText]
    rfl
  | @skip position c rest tokens hnone h ih =>
    have hat : at? (c :: rest) = none := Token.at?_eq_none_iff.mpr hnone
    refine .turn ?_ (hsource.turn_of_at?_eq_none hat) (ih hsource.cons)
    rw [hsource.length_ofText, size_cons]
    have := c.utf8Size_pos
    omega
  | @token position kind word rest tokens hlongest h ih =>
    have hat : at? (word ++ rest) = some (kind, word.length) :=
      Token.at?_eq_some_iff.mpr ⟨word, hlongest, rfl⟩
    refine .turn ?_ (hsource.turn_of_at?_eq_some hlongest.isLexeme.ne_nil hat) ?_
    · rw [hsource.length_ofText, size_append]
      have := hlongest.isLexeme.size_pos
      omega
    · rw [List.append_cons found _ tokens]
      exact ih hsource.append

/-- **The content of a quoted text is a slice** of its lexeme, and is resolved into the text that it
stands for. -/
theorem between_eq {word : List Char} (h : IsLexeme .text word) :
    ∃ content, between (String.ofList word) = .ok content ∧
      Token.contentOf (String.ofList word) = String.ofList (Token.resolve content.toList) := by
  cases h with
  | @text quote text content hquote hescapes =>
    have hone : quote.utf8Size = 1 := by
      rcases hquote with rfl | rfl <;> rfl
    have hsize : (String.ofList (quote :: content ++ [quote])).utf8ByteSize =
        1 + (String.ofList content).utf8ByteSize + 1 := by
      rw [List.cons_append, size_cons, size_append, hone]
      simp [hone]
      omega
    refine ⟨String.ofList content, ?_, ?_⟩
    · have hslice := slice_append (String.ofList [quote]) (String.ofList content)
        (String.ofList [quote])
      rw [← String.ofList_append, ← String.ofList_append, size_cons, hone] at hslice
      rw [between, if_pos (by omega), hsize, Nat.add_sub_cancel]
      exact hslice
    · rw [hescapes.contentOf, String.toList_ofList, hescapes.resolve]

/-- **The text of a token is the slice** between its first byte and the one behind it. -/
theorem slice_of_mem_tokenize {token : Token} (h : token ∈ tokenize source) :
    slice source token.position token.stop = .ok token.text := by
  obtain ⟨before, rest, hsplit, hposition, -⟩ := (Token.cuts_scan 0 source.toList).exists_of_mem h
  have hsource : source = String.ofList before ++ token.text ++ String.ofList rest := by
    rw [← String.ofList_toList (s := source), hsplit]
    simp [String.append_assoc]
  have hslice := slice_append (String.ofList before) token.text (String.ofList rest)
  rwa [← hsource, ← Nat.zero_add (String.utf8ByteSize _), ← hposition] at hslice

end Flowchart.Predicate.Bytes

namespace Flowchart.Predicate

open Token (IsLexeme IsLongest)

/-- **The cut into tokens follows the lexical grammar.** The loop over the bytes ends with the
tokens, and every byte and every slice it takes is there. Each token is the slice between its first
byte and the one behind it, and the longest lexeme with which the text goes on there; it ends before
the next one starts. A character that is in no token starts no lexeme: it is no letter, digit,
underscore or operator of one character, it is not doubled to an operator, and if it is a quote then
no text is closed behind it. The content of a quoted text is a slice as well, from which its escapes
are then resolved. -/
theorem tokenize_follows_grammar (source : String) :
    Bytes.Ends source 0 [] (tokenize source) ∧
      (∀ token ∈ tokenize source,
        Bytes.slice source token.position token.stop = .ok token.text ∧
        (∃ before rest : String, source = before ++ token.text ++ rest ∧
          token.position = before.utf8ByteSize ∧
          IsLongest token.kind token.text.toList (token.text ++ rest).toList) ∧
        (token.kind = .text → ∃ content, Bytes.between token.text = .ok content ∧
          Token.contentOf token.text = String.ofList (Token.resolve content.toList))) ∧
      (tokenize source).Pairwise (fun token next =>
        token.position < next.position ∧ token.stop ≤ next.position) ∧
      ∀ (before rest : String) (c : Char), source = before ++ String.singleton c ++ rest →
        (∀ token ∈ tokenize source,
          ¬ (token.position ≤ before.utf8ByteSize ∧ before.utf8ByteSize < token.stop)) →
        (∀ kind word, IsLexeme kind word → ¬ word <+: c :: rest.toList) ∧
          c.isAlpha = false ∧ c.isDigit = false ∧ c ≠ '_' ∧ c ∉ "()!<>+-*/%".toList ∧
          (c ∈ "=&|".toList → rest.toList.head? ≠ some c) := by
  have hcuts : Token.Cuts 0 source.toList (tokenize source) := Token.cuts_scan 0 source.toList
  refine ⟨?_, fun token htoken => ?_, hcuts.pairwise, fun before rest c hsplit houtside => ?_⟩
  · exact Bytes.ends_of_cuts hcuts (Bytes.goesOn_zero source)
  · obtain ⟨before, rest, hsplit, hposition, hlongest⟩ := hcuts.exists_of_mem htoken
    have hsource : source = String.ofList before ++ token.text ++ String.ofList rest := by
      rw [← String.ofList_toList (s := source), hsplit]
      simp [String.append_assoc]
    rw [Nat.zero_add] at hposition
    refine ⟨Bytes.slice_of_mem_tokenize htoken,
      ⟨String.ofList before, String.ofList rest, hsource, hposition, ?_⟩, fun hkind => ?_⟩
    · rw [String.toList_append, String.toList_ofList]
      exact hlongest
    · have hbetween := Bytes.between_eq (hkind ▸ hlongest.isLexeme)
      rwa [String.ofList_toList] at hbetween
  · have hchars : source.toList = before.toList ++ c :: rest.toList := by
      rw [hsplit]
      simp
    have hnone := hcuts.startsNone hchars (by simpa using houtside)
    obtain ⟨hletter, hdigit, hline, hshort, hdouble, -⟩ := Token.of_startsNone hnone
    exact ⟨hnone, hletter, hdigit, hline, hshort, hdouble⟩

/-- A character of two bytes behind a backslash, of which only the first is taken along. The
equality sign is in no token. -/
theorem tokenize_follows_grammar_escaped :
    let source := "= 'é\\é'"
    let token : Token := ⟨.text, "'é\\é'", 2⟩
    token ∈ tokenize source ∧ Bytes.slice source 2 9 = .ok token.text ∧
      Token.contentOf token.text = "éé" ∧
      (∃ content, Bytes.between token.text = .ok content ∧
        Token.contentOf token.text = String.ofList (Token.resolve content.toList)) ∧
      ∀ kind word, IsLexeme kind word → ¬ word <+: source.toList := by
  intro source token
  obtain ⟨-, htokens, -, houtside⟩ := tokenize_follows_grammar source
  have hall : tokenize source = [token] := by decide
  have hmem : token ∈ tokenize source := hall ▸ List.mem_singleton_self token
  have hchars : source.toList = '=' :: " 'é\\é'".toList := by decide
  obtain ⟨hslice, -, hcontent⟩ := htokens token hmem
  refine ⟨hmem, hslice, by decide, hcontent rfl, ?_⟩
  rw [hchars]
  refine (houtside "" " 'é\\é'" '=' (by decide) fun other hother => ?_).1
  rw [hall] at hother
  rw [List.mem_singleton.mp hother]
  decide

end Flowchart.Predicate
