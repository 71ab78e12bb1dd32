import Flowchart.Json.Token
import Flowchart.Proofs.Number.Nearest
import Mathlib.Algebra.Order.Field.Power
import Mathlib.Data.Rat.Cast.Order
import Mathlib.Tactic.FieldSimp
import Mathlib.Tactic.NormNum
import Mathlib.Tactic.Positivity
import Mathlib.Tactic.Ring

/-!
# Numerals that are written

Whatever way a number is written, with a point among its digits or with an exponent, the text has
the same pieces: digits, a fraction, and an exponent with a sign. A `Flowchart.Number.Numeral` is
such a text in pieces, which are well formed in the strict sense: the digits before the point do not
start with a zero, unless they are one.

There are two sides to it. A numeral can be read: it is taken apart into its pieces
(`Flowchart.Number.Numeral.pieces?_chars`), and it is the literal of a number in a longer text
(`Flowchart.Number.Numeral.numberLiteral?_append`). And the digits of a positive number are written
as a numeral that denotes the number, in positional notation as well as in scientific notation
(`Flowchart.Number.exists_numeral_positional`, `Flowchart.Number.exists_numeral_scientific`).

The digits of a double denote a number in its interval, so the double that is nearest to its text is
the double itself (`Flowchart.Number.map_toFloat_ofChars?_write`).
-/

namespace Flowchart.Number

open Json (Token)

variable {cs rest : List Char} {c : Char} {n : Nat}

/-! ### Rows of digits -/

/-- **A row of digits.** -/
def IsDigits (cs : List Char) : Prop :=
  ∀ c ∈ cs, c.isDigit = true

theorem IsDigits.append {ds : List Char} (h : IsDigits cs) (h' : IsDigits ds) :
    IsDigits (cs ++ ds) := by
  intro c hc
  rcases List.mem_append.mp hc with hc | hc
  · exact h c hc
  · exact h' c hc

theorem isDigits_replicate_zero (n : Nat) : IsDigits (List.replicate n '0') := by
  intro c hc
  rw [List.eq_of_mem_replicate hc]
  rfl

theorem isDigits_toDigits (n : Nat) : IsDigits (Nat.toDigits 10 n) :=
  fun _ hc => Nat.isDigit_of_mem_toDigits (by decide) (by decide) hc

/-- What no digit follows. -/
def EndsDigits (rest : List Char) : Prop :=
  ∀ c ∈ rest.head?, c.isDigit = false

theorem takeWhile_isDigit_append (h : IsDigits cs) (hrest : EndsDigits rest) :
    (cs ++ rest).takeWhile Char.isDigit = cs := by
  rw [List.takeWhile_append_of_pos h]
  cases rest with
  | nil => simp
  | cons c rest => simp [hrest c rfl]

theorem dropWhile_isDigit_append (h : IsDigits cs) (hrest : EndsDigits rest) :
    (cs ++ rest).dropWhile Char.isDigit = rest := by
  rw [List.dropWhile_append_of_pos h]
  cases rest with
  | nil => rfl
  | cons c rest => simp [hrest c rfl]

theorem valueOf_append (cs ds : List Char) :
    Decimal.valueOf (cs ++ ds) = Decimal.valueOf cs * 10 ^ ds.length + Decimal.valueOf ds := by
  rw [Decimal.valueOf, Nat.ofDigitChars_append, Nat.ofDigitChars_eq_ofDigitChars_zero, Nat.mul_comm]
  rfl

theorem valueOf_replicate_zero (n : Nat) : Decimal.valueOf (List.replicate n '0') = 0 := by
  rw [Decimal.valueOf, Nat.ofDigitChars_replicate_zero, Nat.mul_zero]

theorem valueOf_toDigits (n : Nat) : Decimal.valueOf (Nat.toDigits 10 n) = n :=
  Nat.ofDigitChars_ten_toDigits

/-- The digits of a positive number do not start with a zero. -/
theorem head?_toDigits_ne_zero (hn : 0 < n) : (Nat.toDigits 10 n).head? ≠ some '0' := by
  induction n using Nat.strongRecOn with
  | ind n ih =>
    by_cases hlt : n < 10
    · rw [Nat.toDigits_of_lt_base hlt]
      have hdigit : ∀ d < 10, 0 < d → Nat.digitChar d ≠ '0' := by decide
      simpa using hdigit n hlt hn
    · rw [Nat.toDigits_of_base_le (by decide) (by omega), List.head?_append]
      have hhead := ih (n / 10) (by omega) (by omega)
      cases hdigits : (Nat.toDigits 10 (n / 10)).head? with
      | none => exact absurd (List.head?_eq_none_iff.mp hdigits) Nat.toDigits_ne_nil
      | some c =>
        rw [hdigits] at hhead
        exact hhead

/-! ### Numerals -/

/-- **A numeral in pieces**: the digits before the point, those behind it, and the sign and the
digits of the exponent. -/
structure Numeral where
  whole : List Char
  fraction : List Char
  exponent? : Option (Bool × List Char)
  whole_ne_nil : whole ≠ []
  isDigits_whole : IsDigits whole
  /-- The digits before the point start with a zero only if they are one. -/
  eq_zero_of_head? : whole.head? = some '0' → whole = ['0']
  isDigits_fraction : IsDigits fraction
  isDigits_exponent : ∀ negative digits, exponent? = some (negative, digits) →
    digits ≠ [] ∧ IsDigits digits

namespace Numeral

variable (x : Numeral)

/-- The point and the digits behind it, if there are any. -/
def fractionChars : List Char :=
  if x.fraction = [] then [] else '.' :: x.fraction

/-- The exponent with its letter and its sign, if there is one. -/
def exponentChars : List Char :=
  match x.exponent? with
  | some (negative, digits) => 'e' :: (if negative then '-' else '+') :: digits
  | none => []

/-- **The text of a numeral.** -/
def chars : List Char :=
  x.whole ++ x.fractionChars ++ x.exponentChars

/-- The exponent, as a number. -/
def exponent : Int :=
  match x.exponent? with
  | some (true, digits) => -(Decimal.valueOf digits : Int)
  | some (false, digits) => Decimal.valueOf digits
  | none => 0

/-- The pieces of a numeral with a sign. -/
def pieces (negative : Bool) : Decimal.Pieces :=
  ⟨negative, x.whole, x.fraction, x.exponent⟩

/-- The number that a numeral with a sign denotes. -/
def toDecimal (negative : Bool) : Decimal :=
  (x.pieces negative).toDecimal

end Numeral

/-- A minus or nothing. -/
def minus (negative : Bool) : List Char :=
  if negative then ['-'] else []

namespace Numeral

variable (x : Numeral)

theorem exists_chars_eq_cons : ∃ c tail, x.chars = c :: tail ∧ c.isDigit = true := by
  obtain ⟨c, tail, hwhole⟩ := List.exists_cons_of_ne_nil x.whole_ne_nil
  refine ⟨c, tail ++ x.fractionChars ++ x.exponentChars, ?_, ?_⟩
  · rw [chars, hwhole, List.cons_append, List.cons_append]
  · exact x.isDigits_whole c (by rw [hwhole]; exact List.mem_cons_self)

/-- No digit follows the digits behind the point. -/
theorem endsDigits_exponentChars_append (hrest : EndsDigits rest) :
    EndsDigits (x.exponentChars ++ rest) := by
  rw [exponentChars]
  split
  · rintro c hc
    obtain rfl : 'e' = c := Option.some.inj hc
    rfl
  · exact hrest

/-- No digit follows the digits before the point. -/
theorem endsDigits_fractionChars_append (hrest : EndsDigits rest) :
    EndsDigits (x.fractionChars ++ (x.exponentChars ++ rest)) := by
  rw [fractionChars]
  split
  · exact x.endsDigits_exponentChars_append hrest
  · rintro c hc
    obtain rfl : '.' = c := Option.some.inj hc
    rfl

/-! ### Taking a numeral apart -/

/-- The sign of a numeral is split off. -/
theorem splitSign_minus_append (negative : Bool) :
    Decimal.splitSign (minus negative ++ x.chars) = (negative, x.chars) := by
  cases negative with
  | true => rfl
  | false =>
    obtain ⟨c, tail, hchars, hdigit⟩ := x.exists_chars_eq_cons
    rw [minus, if_neg Bool.false_ne_true, List.nil_append, hchars]
    rw [Decimal.splitSign]
    · rintro _ h
      obtain ⟨rfl, -⟩ := List.cons.inj h
      exact absurd hdigit (by decide)
    · rintro _ h
      obtain ⟨rfl, -⟩ := List.cons.inj h
      exact absurd hdigit (by decide)

theorem exponentOf?_exponentChars : Decimal.exponentOf? x.exponentChars = some x.exponent := by
  rw [exponentChars, exponent]
  cases hexponent : x.exponent? with
  | none => rfl
  | some found =>
    obtain ⟨negative, digits⟩ := found
    obtain ⟨hne, hdigits⟩ := x.isDigits_exponent negative digits hexponent
    have hall : digits.all Char.isDigit = true := List.all_eq_true.mpr hdigits
    cases negative <;> simp [Decimal.exponentOf?, Decimal.splitSign, hne, hall]

/-- **A numeral is taken apart into its pieces.** -/
theorem pieces?_chars (negative : Bool) :
    Decimal.pieces? (minus negative ++ x.chars) = some (x.pieces negative) := by
  have hnil : EndsDigits [] := fun _ hc => nomatch hc
  have hends : EndsDigits (x.fractionChars ++ x.exponentChars) := by
    simpa using x.endsDigits_fractionChars_append hnil
  have hends' : EndsDigits x.exponentChars := by
    simpa using x.endsDigits_exponentChars_append hnil
  have hwhole : Decimal.leadingDigits x.chars = x.whole := by
    rw [chars, List.append_assoc]
    exact takeWhile_isDigit_append x.isDigits_whole hends
  have hafter : Decimal.afterDigits x.chars = x.fractionChars ++ x.exponentChars := by
    rw [chars, List.append_assoc]
    exact dropWhile_isDigit_append x.isDigits_whole hends
  have hexponent := x.exponentOf?_exponentChars
  rw [Decimal.pieces?, splitSign_minus_append]
  simp only [hwhole, hafter]
  by_cases hfraction : x.fraction = []
  · have hnone : x.fractionChars = [] := if_pos hfraction
    rw [hnone, List.nil_append]
    split
    · -- no exponent starts with a point
      next rest hpoint =>
      rw [exponentChars] at hpoint
      split at hpoint
      · exact absurd (List.cons.inj hpoint).1 (by decide)
      · exact nomatch hpoint
    · simp [x.whole_ne_nil, hexponent, pieces, hfraction]
  · have hpoint : x.fractionChars = '.' :: x.fraction := if_neg hfraction
    have hleading : Decimal.leadingDigits (x.fraction ++ x.exponentChars) = x.fraction :=
      takeWhile_isDigit_append x.isDigits_fraction hends'
    have hrest : Decimal.afterDigits (x.fraction ++ x.exponentChars) = x.exponentChars :=
      dropWhile_isDigit_append x.isDigits_fraction hends'
    rw [hpoint, List.cons_append]
    simp [x.whole_ne_nil, hleading, hrest, hexponent, pieces]

/-! ### Reading a numeral as a literal -/

/-- What does not prolong the literal of a number. -/
def EndsLiteral (rest : List Char) : Prop :=
  ∀ c ∈ rest.head?, c.isDigit = false ∧ c ≠ '.' ∧ c ≠ 'e' ∧ c ≠ 'E'

theorem EndsLiteral.endsDigits (h : EndsLiteral rest) : EndsDigits rest :=
  fun c hc => (h c hc).1

/-- The digits before the point are taken as a whole. -/
theorem wholePart_append (hrest : EndsDigits rest) :
    Token.wholePart (x.whole ++ rest) = x.whole := by
  by_cases hzero : x.whole.head? = some '0'
  · rw [x.eq_zero_of_head? hzero]
    rfl
  · have htake := takeWhile_isDigit_append x.isDigits_whole hrest
    obtain ⟨c, tail, hwhole⟩ := List.exists_cons_of_ne_nil x.whole_ne_nil
    rw [hwhole] at hzero htake ⊢
    rw [List.cons_append, Token.wholePart]
    · exact htake
    · rintro _ h
      obtain ⟨rfl, -⟩ := List.cons.inj h
      exact hzero rfl

/-- The fraction is taken as a whole. -/
theorem fractionPart?_append (hrest : EndsLiteral rest) :
    Token.fractionPart? (x.fractionChars ++ (x.exponentChars ++ rest)) = some x.fractionChars := by
  have hends := x.endsDigits_exponentChars_append hrest.endsDigits
  by_cases hfraction : x.fraction = []
  · have hnone : x.fractionChars = [] := if_pos hfraction
    rw [hnone, List.nil_append, Token.fractionPart?]
    rintro rest' hpoint
    rw [exponentChars] at hpoint
    split at hpoint
    · exact absurd (List.cons.inj hpoint).1 (by decide)
    · exact (hrest '.' (by rw [List.nil_append] at hpoint; rw [hpoint]; rfl)).2.1 rfl
  · have hpoint : x.fractionChars = '.' :: x.fraction := if_neg hfraction
    have htake := takeWhile_isDigit_append x.isDigits_fraction hends
    rw [hpoint, List.cons_append, Token.fractionPart?]
    simp [htake, hfraction]

/-- The exponent is taken as a whole. -/
theorem exponentPart?_append (hrest : EndsLiteral rest) :
    Token.exponentPart? (x.exponentChars ++ rest) = some x.exponentChars := by
  rw [exponentChars]
  cases hexponent : x.exponent? with
  | none =>
    cases rest with
    | nil => rfl
    | cons c rest =>
      obtain ⟨-, -, he, hE⟩ := hrest c rfl
      simp [Token.exponentPart?, he, hE]
  | some found =>
    obtain ⟨negative, digits⟩ := found
    obtain ⟨hne, hdigits⟩ := x.isDigits_exponent negative digits hexponent
    have htake := takeWhile_isDigit_append hdigits hrest.endsDigits
    cases negative <;> simp [Token.exponentPart?, Token.exponentSign, htake, hne]

/-- **A numeral is the literal of a number** in front of anything that does not prolong it. -/
theorem numberLiteral?_append (negative : Bool) (hrest : EndsLiteral rest) :
    Token.numberLiteral? (minus negative ++ x.chars ++ rest) =
      some (minus negative ++ x.chars) := by
  have hassoc : x.chars ++ rest = x.whole ++ (x.fractionChars ++ (x.exponentChars ++ rest)) := by
    simp [chars]
  have hwhole := x.wholePart_append (x.endsDigits_fractionChars_append hrest.endsDigits)
  have hfraction := x.fractionPart?_append hrest
  have hexponent := x.exponentPart?_append hrest
  have hunsigned : ∀ sign : List Char, sign = minus negative →
      (minus negative ++ x.chars ++ rest).drop sign.length = x.chars ++ rest := by
    rintro sign rfl
    rw [List.append_assoc, List.drop_left]
  have hsign : (if (minus negative ++ x.chars ++ rest).head? = some '-' then ['-'] else []) =
      minus negative := by
    cases negative with
    | true => rfl
    | false =>
      obtain ⟨c, tail, hchars, hdigit⟩ := x.exists_chars_eq_cons
      -- without a minus the first character is a digit
      refine if_neg ?_
      rw [minus, if_neg Bool.false_ne_true, List.nil_append, hchars]
      intro h
      obtain rfl : c = '-' := Option.some.inj h
      exact absurd hdigit (by decide)
  rw [Token.numberLiteral?]
  simp only [hsign, hunsigned _ rfl, hassoc, hwhole, List.drop_left, if_neg x.whole_ne_nil]
  rw [hfraction]
  simp only [Option.bind_eq_bind, Option.bind_some, List.drop_left]
  rw [hexponent]
  simp [chars]

end Numeral

/-! ### Digits that are written -/

section Digits

variable {d : Digits}

/-- The number that a numeral denotes, its sign apart. -/
def Numeral.value (x : Numeral) : ℚ :=
  Decimal.valueOf (x.whole ++ x.fraction) * 10 ^ (x.exponent - x.fraction.length)

theorem Digits.isDigits_chars (d : Digits) : IsDigits d.chars :=
  isDigits_toDigits d.coefficient

theorem Digits.chars_ne_nil (d : Digits) : d.chars ≠ [] :=
  Nat.toDigits_ne_nil

theorem Digits.valueOf_chars (d : Digits) : Decimal.valueOf d.chars = d.coefficient :=
  valueOf_toDigits d.coefficient

theorem exists_numeral_of_fraction {whole fraction : List Char} (hne : whole ≠ [])
    (hwhole : IsDigits whole) (hzero : whole.head? = some '0' → whole = ['0'])
    (hfraction : IsDigits fraction) :
    ∃ x : Numeral, x.chars = whole ++ (if fraction = [] then [] else '.' :: fraction) ∧
      x.value = Decimal.valueOf (whole ++ fraction) * 10 ^ (-fraction.length : Int) := by
  refine ⟨⟨whole, fraction, none, hne, hwhole, hzero, hfraction, fun _ _ h => nomatch h⟩, ?_, ?_⟩
  · exact List.append_nil _
  · rw [Numeral.value, Numeral.exponent, zero_sub]

/-- A whole number is written by its digits and zeros. -/
theorem exists_numeral_of_nonneg (hd : 0 < d.coefficient) {afterWhole : List Char}
    (hafter : afterWhole = [] ∨ afterWhole = ['.', '0']) (hexponent : 0 ≤ d.exponent) :
    ∃ x : Numeral, x.chars = d.chars ++ List.replicate d.exponent.toNat '0' ++ afterWhole ∧
      x.value = d.coefficient * 10 ^ d.exponent := by
  have hne : d.chars ++ List.replicate d.exponent.toNat '0' ≠ [] := by
    simp [d.chars_ne_nil]
  have hdigits := d.isDigits_chars.append (isDigits_replicate_zero d.exponent.toNat)
  have hzero : (d.chars ++ List.replicate d.exponent.toNat '0').head? = some '0' →
      d.chars ++ List.replicate d.exponent.toNat '0' = ['0'] := by
    intro h
    rw [List.head?_append_of_ne_nil _ d.chars_ne_nil] at h
    exact absurd h (head?_toDigits_ne_zero hd)
  have hpow : (10 : ℚ) ^ d.exponent = 10 ^ d.exponent.toNat := by
    rw [← zpow_natCast, Int.toNat_of_nonneg hexponent]
  have hvalue : Decimal.valueOf (d.chars ++ List.replicate d.exponent.toNat '0') =
      d.coefficient * 10 ^ d.exponent.toNat := by
    rw [valueOf_append, valueOf_replicate_zero, d.valueOf_chars, List.length_replicate,
      Nat.add_zero]
  rcases hafter with rfl | rfl
  · obtain ⟨x, hchars, hx⟩ :=
      exists_numeral_of_fraction hne hdigits hzero (isDigits_replicate_zero 0)
    refine ⟨x, hchars, ?_⟩
    rw [hx, List.replicate_zero, List.append_nil, hvalue, hpow]
    norm_num
  · obtain ⟨x, hchars, hx⟩ :=
      exists_numeral_of_fraction hne hdigits hzero (isDigits_replicate_zero 1)
    refine ⟨x, hchars, ?_⟩
    rw [hx, valueOf_append, hvalue, valueOf_replicate_zero, hpow]
    norm_num
    ring

/-- A number of which some digits, but not all, stand before the point. -/
theorem exists_numeral_of_leading_nonneg (hd : 0 < d.coefficient) (hleading : 0 ≤ d.leading)
    (hexponent : d.exponent < 0) :
    ∃ x : Numeral, x.chars = d.chars.take (d.leading.toNat + 1) ++
        '.' :: d.chars.drop (d.leading.toNat + 1) ∧ x.value = d.coefficient * 10 ^ d.exponent := by
  have hcount : d.leading.toNat + 1 < d.chars.length := by
    rw [Digits.leading] at hleading ⊢
    omega
  have hne : d.chars.take (d.leading.toNat + 1) ≠ [] := by
    simp [List.take_eq_nil_iff, d.chars_ne_nil]
  have hzero : (d.chars.take (d.leading.toNat + 1)).head? = some '0' →
      d.chars.take (d.leading.toNat + 1) = ['0'] := by
    intro h
    rw [List.head?_take, if_neg (Nat.succ_ne_zero _)] at h
    exact absurd h (head?_toDigits_ne_zero hd)
  have hdigits : IsDigits (d.chars.take (d.leading.toNat + 1)) :=
    fun c hc => d.isDigits_chars c (List.mem_of_mem_take hc)
  have hdigits' : IsDigits (d.chars.drop (d.leading.toNat + 1)) :=
    fun c hc => d.isDigits_chars c (List.mem_of_mem_drop hc)
  have hdrop : d.chars.drop (d.leading.toNat + 1) ≠ [] := by
    rw [Ne, List.drop_eq_nil_iff]
    omega
  have hexp : (-(d.chars.drop (d.leading.toNat + 1)).length : Int) = d.exponent := by
    rw [List.length_drop]
    rw [Digits.leading] at hleading ⊢
    omega
  obtain ⟨x, hchars, hx⟩ := exists_numeral_of_fraction hne hdigits hzero hdigits'
  refine ⟨x, ?_, ?_⟩
  · rw [hchars, if_neg hdrop]
  · rw [hx, List.take_append_drop, d.valueOf_chars, hexp]

/-- A number of which all digits stand behind the point, with zeros in front of them. -/
theorem exists_numeral_of_leading_neg (hleading : d.leading < 0) :
    ∃ x : Numeral,
      x.chars = '0' :: '.' :: (List.replicate (-d.leading - 1).toNat '0' ++ d.chars) ∧
        x.value = d.coefficient * 10 ^ d.exponent := by
  have hdigits := (isDigits_replicate_zero (-d.leading - 1).toNat).append d.isDigits_chars
  have hne : List.replicate (-d.leading - 1).toNat '0' ++ d.chars ≠ [] := by
    simp [d.chars_ne_nil]
  have hexp : (-(List.replicate (-d.leading - 1).toNat '0' ++ d.chars).length : Int) =
      d.exponent := by
    have hlength : 0 < d.chars.length := List.length_pos_iff.mpr d.chars_ne_nil
    rw [List.length_append, List.length_replicate]
    rw [Digits.leading] at hleading ⊢
    omega
  have hvalue : Decimal.valueOf (['0'] ++ (List.replicate (-d.leading - 1).toNat '0' ++ d.chars)) =
      d.coefficient := by
    have hzero : Decimal.valueOf ['0'] = 0 := rfl
    rw [valueOf_append, valueOf_append, hzero, valueOf_replicate_zero, d.valueOf_chars,
      Nat.zero_mul, Nat.zero_mul, Nat.zero_add, Nat.zero_add]
  obtain ⟨x, hchars, hx⟩ := exists_numeral_of_fraction (List.cons_ne_nil '0' [])
    (isDigits_replicate_zero 1) (fun _ => rfl) hdigits
  refine ⟨x, ?_, ?_⟩
  · rw [hchars, if_neg hne]
    rfl
  · rw [hx, hvalue, hexp]

/-- **Positional notation is a numeral** with the right value, whether or not a whole number carries
a fraction. -/
theorem exists_numeral_positional (hd : 0 < d.coefficient) {afterWhole : List Char}
    (hafter : afterWhole = [] ∨ afterWhole = ['.', '0']) :
    ∃ x : Numeral, x.chars = d.positional afterWhole ∧
      x.value = d.coefficient * 10 ^ d.exponent := by
  rw [Digits.positional]
  split
  · next hexponent => exact exists_numeral_of_nonneg hd hafter hexponent
  next hexponent =>
  split
  · next hleading =>
    exact exists_numeral_of_leading_nonneg hd hleading (lt_of_not_ge hexponent)
  · next hleading => exact exists_numeral_of_leading_neg (lt_of_not_ge hleading)

/-- **Scientific notation is a numeral** with the right value. -/
theorem exists_numeral_scientific (hd : 0 < d.coefficient) :
    ∃ x : Numeral, x.chars = d.scientific ∧ x.value = d.coefficient * 10 ^ d.exponent := by
  obtain ⟨first, rest, hchars⟩ := List.exists_cons_of_ne_nil d.chars_ne_nil
  have hdigits := d.isDigits_chars
  have hcoefficient := d.valueOf_chars
  have hhead : d.chars.head? ≠ some '0' := head?_toDigits_ne_zero hd
  have hleading : d.leading - rest.length = d.exponent := by
    rw [Digits.leading, hchars, List.length_cons]
    omega
  rw [hchars] at hdigits hcoefficient hhead
  have hfirst : IsDigits [first] := fun c hc =>
    hdigits c (List.mem_cons.mpr (Or.inl (List.mem_singleton.mp hc)))
  have hzero : [first].head? = some '0' → [first] = ['0'] := fun h => absurd h hhead
  have hexponent : ∀ negative digits,
      some (decide (d.leading < 0), Nat.toDigits 10 d.leading.natAbs) = some (negative, digits) →
        digits ≠ [] ∧ IsDigits digits := by
    rintro _ _ ⟨⟩
    exact ⟨Nat.toDigits_ne_nil, isDigits_toDigits _⟩
  refine ⟨⟨[first], rest, some (decide (d.leading < 0), Nat.toDigits 10 d.leading.natAbs),
    List.cons_ne_nil _ _, hfirst, hzero, fun c hc => hdigits c (List.mem_cons_of_mem _ hc),
    hexponent⟩, ?_, ?_⟩
  · simp only [Numeral.chars, Numeral.fractionChars, Numeral.exponentChars, Digits.scientific,
      hchars, decide_eq_true_eq]
    cases rest with
    | nil => rfl
    | cons second rest => rfl
  · have hexp : (match some (decide (d.leading < 0), Nat.toDigits 10 d.leading.natAbs) with
        | some (true, digits) => -(Decimal.valueOf digits : Int)
        | some (false, digits) => Decimal.valueOf digits
        | none => 0) = d.leading := by
      rcases lt_or_ge d.leading 0 with hneg | hnonneg
      · simp only [decide_eq_true hneg, valueOf_toDigits]
        rw [Int.ofNat_natAbs_of_nonpos hneg.le, neg_neg]
      · simp only [decide_eq_false (not_lt.mpr hnonneg), valueOf_toDigits]
        exact Int.natAbs_of_nonneg hnonneg
    rw [Numeral.value, Numeral.exponent]
    simp only [hexp, List.singleton_append, hcoefficient, hleading]

end Digits

/-! ### Doubles are read back -/

section Doubles

variable {x : Float} {m : Nat} {q : Int} {negative : Bool}

/-- **A double other than zero is written as a numeral in its interval.** -/
theorem exists_numeral_of_write (f : Layout) (hafter : f.afterWhole = "" ∨ f.afterWhole = ".0")
    (hx : Binary.ofFloat x = .finite negative m q) (hm : 0 < m) :
    ∃ n : Numeral, (f.write x).toList = minus negative ++ n.chars ∧
      (Interval.ofParts m q).Has n.value := by
  have hd := isDouble_of_ofFloat_eq hx hm
  have hpos := coefficient_shortest_pos f.tie hm hd.least_le
  have hhas := has_shortest f.tie hd.least_le (m := m)
  have hchars : f.afterWhole.toList = [] ∨ f.afterWhole.toList = ['.', '0'] := by
    rcases hafter with h | h <;> rw [h]
    · exact Or.inl rfl
    · exact Or.inr rfl
  obtain ⟨n, hn, hvalue⟩ : ∃ n : Numeral,
      n.chars = (if f.positional (shortest f.tie m q).leading then
        (shortest f.tie m q).positional f.afterWhole.toList else (shortest f.tie m q).scientific) ∧
      n.value = (shortest f.tie m q).coefficient * 10 ^ (shortest f.tie m q).exponent := by
    split
    · exact exists_numeral_positional hpos hchars
    · exact exists_numeral_scientific hpos
  refine ⟨n, ?_, hvalue ▸ hhas⟩
  rw [Layout.write, hx]
  dsimp only
  rw [if_neg hm.ne', String.toList_ofList, ← hn]
  cases negative <;> rfl

/-- A numeral in the interval of a double has a digit other than zero. -/
theorem Numeral.coefficient_pos (n : Numeral) (negative : Bool) (hm : 0 < m)
    (hhas : (Interval.ofParts m q).Has n.value) : 0 < (n.toDecimal negative).coefficient := by
  have hvalue : 0 < n.value := lt_of_lt_of_le (by positivity) (two_zpow_le_of_has hhas hm)
  rw [Numeral.value] at hvalue
  exact_mod_cast (mul_pos_iff_of_pos_right (by positivity)).mp hvalue

/-- **The double nearest to the text of a double other than zero** is the double. -/
theorem map_toFloat_ofChars?_write (f : Layout) (hafter : f.afterWhole = "" ∨ f.afterWhole = ".0")
    (hx : Binary.ofFloat x = .finite negative m q) (hm : 0 < m) :
    (Decimal.ofChars? (f.write x).toList).map Decimal.toFloat = some x := by
  obtain ⟨n, hchars, hhas⟩ := exists_numeral_of_write f hafter hx hm
  have hd := isDouble_of_ofFloat_eq hx hm
  have hpos := n.coefficient_pos negative hm hhas
  rw [hchars, Decimal.ofChars?, n.pieces?_chars, Option.map_some, Option.map_some]
  exact congrArg some ((Decimal.toFloat_eq_of_has hd hpos hhas).trans (eq_double hx hd).symm)

end Doubles

end Flowchart.Number
