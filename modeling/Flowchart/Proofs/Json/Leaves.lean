import Flowchart.Proofs.Json.RoundTrip
import Flowchart.Proofs.Number.Abridged

/-!
# Written leaves are read back

The leaves that are written, texts, natural numbers and doubles, are written as JSON demands. Texts
and natural numbers have the meaning that they were written for. A double need not have it, because
a number is read the quick way. What can be said is that every finite double is read as some finite
double, and that only a double without digits is lost (`Flowchart.Json.isSome_toFloat?_ofFloat`);
and that a double with a short numeral is read back (`Flowchart.Json.readsBack_of_short`).
-/

namespace Flowchart.Json

open Number (Numeral Decimal IsDouble IsDigits EndsDigits)
open Token (at? isBlank)

variable {rest : List Char} {c : Char}

/-! ### Texts -/

/-- A character is stepped over the way it is written, whatever follows it. -/
theorem stringLiteral?_escapeChar_append (c : Char) (rest : List Char) :
    Token.stringLiteral? (escapeChar c ++ rest) =
      (Token.stringLiteral? rest).map (escapeChar c ++ ·) := by
  by_cases hq : c = '"' ∨ c = '\\'
  · rcases hq with rfl | rfl <;> rfl
  by_cases hs : c = '\x08' ∨ c = '\x0c' ∨ c = '\n' ∨ c = '\r' ∨ c = '\t'
  · rcases hs with rfl | rfl | rfl | rfl | rfl <;> rfl
  obtain ⟨hb, hf, hn, hr, ht⟩ : c ≠ '\x08' ∧ c ≠ '\x0c' ∧ c ≠ '\n' ∧ c ≠ '\r' ∧ c ≠ '\t' := by
    simpa using hs
  by_cases hc : c.toNat < 0x20
  · have hdigits : ∀ n < 0x20, Token.isHexDigit (Nat.digitChar (n / 16)) = true ∧
        Token.isHexDigit (Nat.digitChar (n % 16)) = true := by decide
    obtain ⟨hfirst, hsecond⟩ := hdigits c.toNat hc
    have hescape : escapeChar c =
        ['\\', 'u', '0', '0', Nat.digitChar (c.toNat / 16), Nat.digitChar (c.toNat % 16)] := by
      simp [escapeChar, hq, hb, hf, hn, hr, ht, hc]
    rw [hescape]
    refine if_pos ?_
    rw [hfirst, hsecond]
    rfl
  · obtain ⟨hquote, hbackslash⟩ := not_or.mp hq
    have hplain : escapeChar c = [c] := by
      simp [escapeChar, hq, hb, hf, hn, hr, ht, hc]
    rw [hplain, List.singleton_append, Token.stringLiteral?.eq_def]
    split
    · next h => cases h
    · next h => exact absurd (List.cons.inj h).1 hquote
    · next h => exact absurd (List.cons.inj h).1 hbackslash
    · next h => exact absurd (List.cons.inj h).1 hbackslash
    · next h =>
      obtain ⟨rfl, rfl⟩ := List.cons.inj h
      simp [hc, hbackslash]

/-- **What is written for a text is the literal of a string.** -/
theorem isStringLiteral_escape (text : List Char) : IsStringLiteral (escape text) := by
  intro rest
  induction text with
  | nil => rfl
  | cons c text ih =>
    have hassoc : escape (c :: text) ++ '"' :: rest =
        escapeChar c ++ (escape text ++ '"' :: rest) := by
      rw [escape, List.flatMap_cons, List.append_assoc]
      rfl
    rw [hassoc, stringLiteral?_escapeChar_append, ih]
    rfl

theorem wellFormed_ofText (text : String) : WellFormed (ofText text) := by
  rw [ofText, WellFormed]
  exact isStringLiteral_escape text.toList

/-! ### Numbers -/

/-- What may follow a value does not prolong the literal of a number. -/
theorem Follows.endsLiteral (h : Follows rest) : Numeral.EndsLiteral rest := by
  intro c hc
  rcases h c hc with hblank | rfl | rfl | rfl
  · simp only [isBlank, Bool.or_eq_true, decide_eq_true_eq] at hblank
    rcases hblank with ((rfl | rfl) | rfl) | rfl <;> decide
  · decide
  · decide
  · decide

/-- A minus or a digit begins the literal of a number. -/
theorem at?_of_isDigit (hc : c = '-' ∨ c.isDigit = true) (rest : List Char) :
    at? (c :: rest) =
      (Token.numberLiteral? (c :: rest)).map fun literal => (.number literal, literal.length) := by
  have hnumber : (c = '-' || c.isDigit) = true := by
    rw [Bool.or_eq_true, decide_eq_true_eq]
    exact hc
  have hne : ∀ d : Char, d ≠ '-' → d.isDigit = false → c ≠ d := by
    rintro d hminus hdigit rfl
    rcases hc with hc | hc
    · exact hminus hc
    · rw [hdigit] at hc
      exact Bool.false_ne_true hc
  rw [at?, if_pos hnumber] <;> exact hne _ (by decide) (by decide)

/-- **A numeral is the literal of a number.** -/
theorem isNumberLiteral_chars (negative : Bool) (x : Numeral) :
    IsNumberLiteral (Number.minus negative ++ x.chars) := by
  obtain ⟨c, tail, hcons, hc⟩ : ∃ c tail, Number.minus negative ++ x.chars = c :: tail ∧
      (c = '-' ∨ c.isDigit = true) := by
    cases negative with
    | true => exact ⟨'-', x.chars, rfl, Or.inl rfl⟩
    | false =>
      obtain ⟨c, tail, hchars, hdigit⟩ := x.exists_chars_eq_cons
      exact ⟨c, tail, hchars, Or.inr hdigit⟩
  refine ⟨⟨c, by rw [hcons]; rfl, ?_⟩, fun rest hrest => ?_⟩
  · rw [Bool.eq_false_iff]
    intro hblank
    simp only [isBlank, Bool.or_eq_true, decide_eq_true_eq] at hblank
    rcases hblank with ((rfl | rfl) | rfl) | rfl <;> exact absurd hc (by decide)
  · have hliteral := x.numberLiteral?_append negative hrest.endsLiteral
    rw [hcons] at hliteral ⊢
    rw [List.cons_append, at?_of_isDigit hc, ← List.cons_append, hliteral]
    rfl

/-- A natural number is written as a numeral. -/
theorem exists_numeral_of_nat (n : Nat) : ∃ x : Numeral, x.chars = Nat.toDigits 10 n := by
  have hzero : (Nat.toDigits 10 n).head? = some '0' → Nat.toDigits 10 n = ['0'] := by
    rcases Nat.eq_zero_or_pos n with rfl | hn
    · exact fun _ => rfl
    · exact fun h => absurd h (Number.head?_toDigits_ne_zero hn)
  obtain ⟨x, hx, -⟩ := Number.exists_numeral_of_fraction Nat.toDigits_ne_nil
    (Number.isDigits_toDigits n) hzero (Number.isDigits_replicate_zero 0)
  exact ⟨x, hx.trans (List.append_nil _)⟩

theorem wellFormed_ofNat (n : Nat) : WellFormed (ofNat n) := by
  obtain ⟨x, hx⟩ := exists_numeral_of_nat n
  rw [ofNat, WellFormed, ← hx]
  exact isNumberLiteral_chars false x

/-- **A word of 64 bits is read back.** -/
@[simp] theorem toWord?_ofNat (word : UInt64) : toWord? (ofNat word.toNat) = some word := by
  have hdigits : (Nat.toDigits 10 word.toNat).all Char.isDigit = true :=
    List.all_eq_true.mpr (Number.isDigits_toDigits word.toNat)
  rw [ofNat, toWord?, if_pos hdigits, Number.valueOf_toDigits]
  simp [word.toNat_lt]

/-! ### Doubles -/

/-- **A finite double is written as a numeral.** -/
theorem exists_numeral_of_isFinite {x : Float} (hx : x.isFinite = true) :
    ∃ (negative : Bool) (n : Numeral),
      (doubleLayout.write x).toList = Number.minus negative ++ n.chars := by
  obtain ⟨negative, m, q, hparts⟩ := Number.isFinite_iff.mp hx
  rcases Nat.eq_zero_or_pos m with rfl | hm
  · -- a zero carries its sign and a fraction
    have hwrite : doubleLayout.write x = if negative then "-0.0" else "0.0" := by
      rw [Number.Layout.write, hparts]
      rfl
    obtain ⟨n, hchars, -⟩ := Number.exists_numeral_of_fraction (List.cons_ne_nil '0' [])
      (Number.isDigits_replicate_zero 1) (fun _ => rfl) (Number.isDigits_replicate_zero 1)
    refine ⟨negative, n, ?_⟩
    rw [hwrite, hchars]
    cases negative <;> rfl
  · obtain ⟨n, hchars, -⟩ := Number.exists_numeral_of_write doubleLayout (Or.inr rfl) hparts hm
    exact ⟨negative, n, hchars⟩

theorem wellFormed_ofFloat (x : Float) : WellFormed (ofFloat x) := by
  rw [ofFloat]
  split
  · next hx =>
    obtain ⟨negative, n, hchars⟩ := exists_numeral_of_isFinite hx
    rw [WellFormed, hchars]
    exact isNumberLiteral_chars negative n
  · rw [WellFormed]
    trivial

/-- **What is read from a number is finite.** -/
theorem isFinite_of_toFloat? {json : Json} {x : Float} (h : toFloat? json = some x) :
    x.isFinite = true := by
  cases json with
  | number literal =>
    obtain ⟨d, habridged, hd⟩ := Option.bind_eq_some_iff.mp h
    obtain ⟨p, -, rfl⟩ := Option.map_eq_some_iff.mp habridged
    exact Decimal.isFinite_approximate? p.coefficient_abridged_lt hd
  | _ => exact nomatch h

/-- The largest two doubles are read as some double. -/
theorem isSome_toFloat?_largest {x : Float} {negative : Bool} {m : Nat}
    (hx : Number.Binary.ofFloat x = .finite negative m 971) (hlt : m < 2 ^ 53)
    (htop : 2 ^ 53 < m + 3) : (toFloat? (ofFloat x)).isSome = true := by
  obtain rfl | rfl : m = 2 ^ 53 - 1 ∨ m = 2 ^ 53 - 2 := by omega
  · rw [Number.eq_double hx ⟨by decide, by decide, by decide, by decide, .inl (by decide)⟩]
    cases negative <;> decide +kernel
  · rw [Number.eq_double hx ⟨by decide, by decide, by decide, by decide, .inl (by decide)⟩]
    cases negative <;> decide +kernel

/-- **A double is read as some double** exactly if it is finite. -/
theorem isSome_toFloat?_ofFloat (x : Float) : (toFloat? (ofFloat x)).isSome = x.isFinite := by
  cases hx : x.isFinite with
  | false =>
    rw [ofFloat, hx]
    rfl
  | true =>
    obtain ⟨negative, m, q, hparts⟩ := Number.isFinite_iff.mp hx
    rcases Nat.eq_zero_or_pos m with rfl | hm
    · rw [Number.eq_zero_of_ofFloat_eq hparts]
      cases negative <;> decide +kernel
    have hd := Number.isDouble_of_ofFloat_eq hparts hm
    by_cases htop : q < 971 ∨ m + 3 ≤ 2 ^ 53
    · obtain ⟨n, hchars, hhas⟩ :=
        Number.exists_numeral_of_write doubleLayout (Or.inr rfl) hparts hm
      rw [ofFloat, hx, if_pos rfl, toFloat?, hchars, Decimal.abridged?, n.pieces?_chars,
        Option.map_some, Option.bind_some]
      exact Decimal.isSome_approximate? hd htop hhas (n.pieces negative).coefficient_abridged_lt
        (n.pieces negative).abridged_le
    · -- the largest two doubles are looked at one by one
      obtain rfl : q = 971 := by
        have hle := hd.le
        omega
      exact isSome_toFloat?_largest hparts hd.lt (by omega)

/-! ### Doubles that are read back -/

theorem ReadsBack.isFinite {x : Float} (hx : ReadsBack x) : x.isFinite = true :=
  isFinite_of_toFloat? hx

/-- **A double with a short numeral is read back**: one whose digits fit into 53 bits and whose
exponent is at most 22. -/
theorem readsBack_of_short {x : Float} (hx : x.isFinite = true) {d : Decimal}
    (hd : Decimal.ofChars? (doubleLayout.write x).toList = some d) (hlt : d.coefficient < 2 ^ 53)
    (he : d.exponent.natAbs ≤ 22) : ReadsBack x := by
  obtain ⟨negative, m, q, hparts⟩ := Number.isFinite_iff.mp hx
  rcases Nat.eq_zero_or_pos m with rfl | hm
  · rw [Number.eq_zero_of_ofFloat_eq hparts]
    cases negative <;> decide +kernel
  have hexact := Number.map_toFloat_ofChars?_write doubleLayout (Or.inr rfl) hparts hm
  obtain ⟨n, hchars, hhas⟩ := Number.exists_numeral_of_write doubleLayout (Or.inr rfl) hparts hm
  rw [hd, Option.map_some] at hexact
  rw [hchars, Decimal.ofChars?, n.pieces?_chars, Option.map_some] at hd
  obtain rfl := Option.some.inj hd
  -- all of its digits are kept, and the quick way is exact for them
  have hkept : (n.pieces negative).abridged = (n.pieces negative).toDecimal :=
    Decimal.Pieces.abridged_eq (hlt.trans (by decide))
  have hquick := Decimal.approximate?_eq_toFloat (Number.isDouble_of_ofFloat_eq hparts hm)
    (n.coefficient_pos negative hm hhas) hlt he hhas
  rw [ReadsBack, ofFloat, hx, if_pos rfl, toFloat?, hchars, Decimal.abridged?, n.pieces?_chars,
    Option.map_some, Option.bind_some, hkept]
  exact hquick.trans hexact

/-- Its numeral has sixteen digits, which do not fit into 53 bits. -/
example : ¬ ReadsBack (271 / 3) := by
  decide +kernel

end Flowchart.Json
