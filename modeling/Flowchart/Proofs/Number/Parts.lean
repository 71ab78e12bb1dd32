import Flowchart.Number.Binary
import Flowchart.Proofs.Number.Interval

/-!
# The parts of a double and its 64 bits

The parts of a double are read off its bits, and the arithmetic of doubles has a reading of its own.
Here the two are shown to agree (`Flowchart.Number.unpack_toModel`), and with it what a double can
look like: it is finite exactly if it has a mantissa and an exponent
(`Flowchart.Number.isFinite_iff`), these two are as `Flowchart.Number.IsDouble` says, and no other
double has the same ones (`Flowchart.Number.eq_of_ofFloat_eq`).

In the other direction, `Flowchart.Number.double` is the double with given parts.
-/

namespace Flowchart.Number

open Float.Model (Format)
open Float.Model.UnpackedFloat

variable {x y : Float} {m sign biased fraction : Nat} {q : Int} {negative : Bool}

/-! ### Bits -/

/-- **The three fields of the bits of a double.** -/
structure HasBits (x : Float) (sign biased fraction : Nat) : Prop where
  sign_lt : sign < 2
  biased_lt : biased < 2 ^ 11
  fraction_lt : fraction < 2 ^ 52
  toNat_toBits : x.toBits.toNat = sign * 2 ^ 63 + biased * 2 ^ 52 + fraction

theorem exists_hasBits (x : Float) : ∃ sign biased fraction, HasBits x sign biased fraction := by
  have hlt := x.toBits.toNat_lt
  refine ⟨x.toBits.toNat / 2 ^ 63, x.toBits.toNat / 2 ^ 52 % 2 ^ 11, x.toBits.toNat % 2 ^ 52,
    ?_, ?_, ?_, ?_⟩ <;> omega

/-- No two doubles have the same fields. -/
theorem HasBits.eq (hx : HasBits x sign biased fraction) (hy : HasBits y sign biased fraction) :
    x = y := by
  have hbits : x.toBits = y.toBits :=
    UInt64.toNat_inj.mp (hx.toNat_toBits.trans hy.toNat_toBits.symm)
  obtain ⟨⟨bits, _⟩⟩ := x
  obtain ⟨⟨bits', _⟩⟩ := y
  obtain rfl : bits = bits' := hbits
  rfl

/-- **The parts of a double, from its fields.** -/
theorem HasBits.ofFloat_eq (h : HasBits x sign biased fraction) :
    Binary.ofFloat x =
      if biased = 2047 then if fraction = 0 then .infinite (sign = 1) else .nan
      else if biased = 0 then .finite (sign = 1) fraction Binary.leastExponent
      else .finite (sign = 1) (2 ^ 52 + fraction) (biased + Binary.leastExponent - 1) := by
  obtain ⟨hsign, hbiased, hfraction, hbits⟩ := h
  have hnegative : (2 ^ 63 ≤ x.toBits.toNat) = (sign = 1) := by
    rw [eq_iff_iff, hbits]
    omega
  have hexponent : x.toBits.toNat / 2 ^ 52 % 2 ^ 11 = biased := by omega
  have hmantissa : x.toBits.toNat % 2 ^ 52 = fraction := by omega
  simp only [Binary.ofFloat, Nat.pow_eq, hnegative, hexponent, hmantissa]

/-- **A double with a mantissa and an exponent**, by its fields: either the fraction is the mantissa
and the exponent is the least one, or the leading bit of the mantissa goes without saying. -/
theorem HasBits.of_ofFloat_eq_finite (h : HasBits x sign biased fraction)
    (hx : Binary.ofFloat x = .finite negative m q) :
    negative = decide (sign = 1) ∧ biased ≠ 2047 ∧
      (biased = 0 ∧ m = fraction ∧ q = Binary.leastExponent ∨
        biased ≠ 0 ∧ m = 2 ^ 52 + fraction ∧ q = biased + Binary.leastExponent - 1) := by
  rw [h.ofFloat_eq] at hx
  split at hx
  · split at hx <;> exact nomatch hx
  · next hbiased =>
    split at hx
    · next hzero =>
      obtain ⟨rfl, rfl, rfl⟩ := Binary.finite.inj hx
      exact ⟨rfl, hbiased, Or.inl ⟨hzero, rfl, rfl⟩⟩
    · next hzero =>
      obtain ⟨rfl, rfl, rfl⟩ := Binary.finite.inj hx
      exact ⟨rfl, hbiased, Or.inr ⟨hzero, rfl, rfl⟩⟩

/-- **The mantissa and the exponent of a double** that is neither zero nor without digits. -/
theorem isDouble_of_ofFloat_eq (hx : Binary.ofFloat x = .finite negative m q) (hm : 0 < m) :
    IsDouble m q := by
  obtain ⟨sign, biased, fraction, hbits⟩ := exists_hasBits x
  obtain ⟨-, hbiased, hparts⟩ := hbits.of_ofFloat_eq_finite hx
  obtain ⟨-, hbiasedLt, hfraction, -⟩ := hbits
  have hleast : Binary.leastExponent = -1074 := rfl
  rcases hparts with ⟨hzero, rfl, rfl⟩ | ⟨hzero, rfl, rfl⟩ <;>
    refine ⟨hm, ?_, ?_, ?_, ?_⟩ <;> omega

/-- **No other double has the same parts.** -/
theorem eq_of_ofFloat_eq (hx : Binary.ofFloat x = .finite negative m q)
    (hy : Binary.ofFloat y = .finite negative m q) : x = y := by
  obtain ⟨sign, biased, fraction, hbits⟩ := exists_hasBits x
  obtain ⟨sign', biased', fraction', hbits'⟩ := exists_hasBits y
  obtain ⟨hsign, -, hparts⟩ := hbits.of_ofFloat_eq_finite hx
  obtain ⟨hsign', -, hparts'⟩ := hbits'.of_ofFloat_eq_finite hy
  have hlt := hbits.fraction_lt
  have hlt' := hbits'.fraction_lt
  have hbiased : biased = biased' ∧ fraction = fraction' := by
    rcases hparts with ⟨hzero, hm, hq⟩ | ⟨hzero, hm, hq⟩ <;>
      rcases hparts' with ⟨hzero', hm', hq'⟩ | ⟨hzero', hm', hq'⟩ <;> omega
  have hsame : sign = sign' := by
    have hiff := decide_eq_decide.mp (hsign.symm.trans hsign')
    have hsignLt := hbits.sign_lt
    have hsignLt' := hbits'.sign_lt
    omega
  obtain ⟨rfl, rfl⟩ := hbiased
  obtain rfl := hsame
  exact hbits.eq hbits'

/-! ### The reading of the arithmetic -/

/-- The sign of a double. -/
def signOf (negative : Bool) : Sign :=
  if negative then .negative else .positive

/-- A double as the arithmetic takes it. -/
def Binary.toUnpacked : Binary → Float.Model.UnpackedFloat
  | nan => .notANumber
  | infinite negative => .infinity (signOf negative)
  | finite negative m q =>
    if hm : 0 < m then .finite (signOf negative) m q hm else .zero (signOf negative)

theorem finite_congr {s s' : Sign} {m m' : Nat} {q q' : Int} {hm : 0 < m} {hm' : 0 < m'}
    (hs : s = s') (hmm : m = m') (hq : q = q') : finite s m q hm = finite s' m' q' hm' := by
  subst hs hmm hq
  rfl

/-- **The fields that the arithmetic cuts out of bits** are the three fields of the bits. -/
theorem toNat_unpacked {b : BitVec Format.binary64.numBits} (hsign : sign < 2)
    (hbiased : biased < 2 ^ 11) (hfraction : fraction < 2 ^ 52)
    (hb : b.toNat = sign * 2 ^ 63 + biased * 2 ^ 52 + fraction) :
    (unpackSign b).toNat = sign ∧ (unpackExponent b).toNat = biased ∧
      (unpackMantissa b).toNat = fraction := by
  refine ⟨?_, ?_, ?_⟩
  · have hextract : unpackSign b = b.extractLsb 63 63 := rfl
    rw [hextract, BitVec.extractLsb_toNat, Nat.shiftRight_eq_div_pow]
    omega
  · simp [unpackExponent, BitVec.extractLsb_toNat, Nat.shiftRight_eq_div_pow]
    omega
  · simp [unpackMantissa, BitVec.extractLsb_toNat, Nat.shiftRight_eq_div_pow]
    omega

/-- The sign that the arithmetic takes from a bit. -/
theorem ofBitVec_eq_signOf (b : BitVec 1) : Sign.ofBitVec b = signOf (b.toNat = 1) := by
  have hcases : b.toNat = 0 ∨ b.toNat = 1 := by
    have hlt : b.toNat < 2 := b.isLt
    omega
  rcases hcases with h | h
  · obtain rfl : b = 0#1 := BitVec.eq_of_toNat_eq h
    rfl
  · obtain rfl : b = 1#1 := BitVec.eq_of_toNat_eq h
    rfl

/-- **The arithmetic reads a double as its parts.** -/
theorem unpack_toModel (x : Float) : x.toModel.unpack = (Binary.ofFloat x).toUnpacked := by
  obtain ⟨sign, biased, fraction, hbits⟩ := exists_hasBits x
  have hparts := hbits.ofFloat_eq
  obtain ⟨hsign, hbiased, hfraction, htoNat⟩ := hbits
  obtain ⟨b, hb⟩ : ∃ b : BitVec Format.binary64.numBits, x.toModel.toBits.toBitVec = b := ⟨_, rfl⟩
  obtain ⟨hsignBit, hexponent, hmantissa⟩ :=
    toNat_unpacked hsign hbiased hfraction (hb ▸ htoNat : b.toNat = _)
  have hones : unpackExponent b = -1#11 ↔ biased = 2047 := by
    rw [← BitVec.toNat_inj, hexponent]
    exact Iff.rfl
  have hzeros : unpackExponent b = 0#11 ↔ biased = 0 := by
    rw [← BitVec.toNat_inj, hexponent]
    exact Iff.rfl
  have hempty : unpackMantissa b = 0#52 ↔ fraction = 0 := by
    rw [← BitVec.toNat_inj, hmantissa]
    exact Iff.rfl
  have hleading : (1#1 ++ unpackMantissa b).toNat = 2 ^ 52 + fraction := by
    rw [BitVec.toNat_append, ← Nat.shiftLeft_add_eq_or_of_lt (BitVec.isLt _), hmantissa]
    rfl
  have hsignEq : Sign.ofBitVec (unpackSign b) = signOf (sign = 1) := by
    rw [ofBitVec_eq_signOf, hsignBit]
  have hbias : (Format.binary64.exponentBias : Int) + 52 = 1 - Binary.leastExponent := rfl
  have hexponentEq : (biased : Int) - (Format.binary64.exponentBias + (52 : Nat)) =
      biased + Binary.leastExponent - 1 := by
    push_cast
    omega
  rw [hparts, Float.Model.unpack, hb]
  delta Float.Model.UnpackedFloat.unpack
  dsimp only
  -- the largest exponent is for what is not finite, the least one for zero and small numbers
  by_cases hmax : biased = 2047
  · rw [if_pos hmax, if_pos (hones.mpr hmax), hsignEq]
    by_cases hzero : fraction = 0
    · rw [if_pos hzero, if_pos (hempty.mpr hzero), Binary.toUnpacked]
    · rw [if_neg hzero, if_neg (mt hempty.mp hzero), Binary.toUnpacked]
  rw [if_neg hmax, if_neg (mt hones.mp hmax)]
  by_cases hmin : biased = 0
  · have hleast : (biased : Int) + Binary.leastExponent - 1 + 1 = Binary.leastExponent := by omega
    rw [if_pos hmin, if_pos (hzeros.mpr hmin), Binary.toUnpacked]
    by_cases hzero : fraction = 0
    · rw [dif_pos (hempty.mpr hzero), dif_neg (by omega), hsignEq]
    · rw [dif_neg (mt hempty.mp hzero), dif_pos (Nat.pos_of_ne_zero hzero)]
      refine finite_congr hsignEq hmantissa ?_
      rw [hexponent, hexponentEq, hleast]
  · rw [if_neg hmin, if_neg (mt hzeros.mp hmin), Binary.toUnpacked, dif_pos (by omega)]
    refine finite_congr hsignEq hleading ?_
    rw [hexponent, hexponentEq]

/-- **A double is finite** exactly if it has a mantissa and an exponent. -/
theorem isFinite_iff :
    x.isFinite = true ↔ ∃ negative m q, Binary.ofFloat x = .finite negative m q := by
  rw [Float.isFinite, Float.Model.isFinite, unpack_toModel]
  cases Binary.ofFloat x with
  | nan =>
    refine iff_of_false Bool.false_ne_true ?_
    rintro ⟨_, _, _, h⟩
    cases h
  | infinite negative =>
    refine iff_of_false Bool.false_ne_true ?_
    rintro ⟨_, _, _, h⟩
    cases h
  | finite negative m q =>
    refine iff_of_true ?_ ⟨negative, m, q, rfl⟩
    rw [Binary.toUnpacked]
    by_cases hm : 0 < m
    · rw [dif_pos hm]
      rfl
    · rw [dif_neg hm]
      rfl

/-! ### The double with given parts -/

/-- The double with a sign, a mantissa and an exponent. -/
def double (negative : Bool) (hd : IsDouble m q) : Float :=
  .ofModel (.pack (.finite (signOf negative) m q hd.pos))

/-- The bits of a sign, an exponent and a mantissa side by side. -/
theorem toNat_packComponents (s : Sign) (exponent : BitVec 11) (mantissa : BitVec 52) :
    (packComponents Format.binary64 s exponent mantissa).toNat =
      s.toBitVec.toNat * 2 ^ 63 + exponent.toNat * 2 ^ 52 + mantissa.toNat := by
  rw [packComponents, BitVec.toNat_append, BitVec.toNat_append,
    ← Nat.shiftLeft_add_eq_or_of_lt exponent.isLt, ← Nat.shiftLeft_add_eq_or_of_lt mantissa.isLt,
    Nat.shiftLeft_eq, Nat.shiftLeft_eq]
  ring

/-- The fields of the double with given parts. -/
theorem hasBits_double (negative : Bool) (hd : IsDouble m q) :
    HasBits (double negative hd) negative.toNat
      (if m < 2 ^ 52 then 0 else (q - Binary.leastExponent + 1).toNat) (m % 2 ^ 52) := by
  obtain ⟨hpos, hlt, hleast, hle, hnormal⟩ := hd
  have hleastEq : Binary.leastExponent = -1074 := rfl
  refine ⟨Bool.toNat_lt negative, ?_, Nat.mod_lt _ (by decide), ?_⟩
  · split <;> omega
  have hbits : (double negative ⟨hpos, hlt, hleast, hle, hnormal⟩).toBits.toNat =
      (pack Format.binary64 (.finite (signOf negative) m q hpos)).toNat := rfl
  have hsign : (signOf negative).toBitVec.toNat = negative.toNat := by
    cases negative <;> rfl
  have hbias : q + (Format.binary64.exponentBias : Int) + (52 : Nat) =
      q - Binary.leastExponent + 1 := by
    have hvalue : Format.binary64.exponentBias = 1023 := rfl
    omega
  have hfits : ¬ 2 ^ 11 ≤ (q - Binary.leastExponent + 1).toNat + 1 := by omega
  rw [hbits]
  delta pack
  dsimp only
  rw [hbias, if_neg hfits]
  by_cases hnormalized : 2 ^ 52 ≤ m
  · have hlog : m.log2 = 52 := (Nat.log2_eq_iff hpos.ne').mpr ⟨hnormalized, hlt⟩
    have heq : m.log2 + 1 = Format.binary64.mantissaBits := by
      rw [hlog]
      rfl
    rw [if_pos heq, toNat_packComponents, hsign, BitVec.toNat_ofNat, BitVec.toNat_ofNat,
      if_neg (by omega), Nat.mod_eq_of_lt (by omega)]
  · have hlog : m.log2 < 52 := (Nat.log2_lt hpos.ne').mpr (by omega)
    have hne : m.log2 + 1 ≠ Format.binary64.mantissaBits := by
      have hvalue : Format.binary64.mantissaBits = 53 := rfl
      omega
    rw [if_neg hne, toNat_packComponents, hsign, BitVec.toNat_ofNat, if_pos (by omega)]
    rfl

/-- **The double with given parts has these parts.** -/
theorem ofFloat_double (negative : Bool) (hd : IsDouble m q) :
    Binary.ofFloat (double negative hd) = .finite negative m q := by
  have hbits := hasBits_double negative hd
  obtain ⟨hpos, hlt, hleast, hle, hnormal⟩ := hd
  have hleastEq : Binary.leastExponent = -1074 := rfl
  have hnegative : decide (negative.toNat = 1) = negative := by
    cases negative <;> rfl
  rw [hbits.ofFloat_eq, hnegative]
  by_cases hsmall : m < 2 ^ 52
  · have hq : q = Binary.leastExponent := hnormal.resolve_left (by omega)
    rw [if_pos hsmall, if_neg (by decide), if_pos rfl, Nat.mod_eq_of_lt hsmall, hq]
  · have hmantissa : 2 ^ 52 + m % 2 ^ 52 = m := by omega
    have hexponent :
        ((q - Binary.leastExponent + 1).toNat : Int) + Binary.leastExponent - 1 = q := by
      omega
    rw [if_neg hsmall, if_neg (by omega), if_neg (by omega), hmantissa, hexponent]

/-- The double with given parts is the only one with these parts. -/
theorem eq_double (hx : Binary.ofFloat x = .finite negative m q) (hd : IsDouble m q) :
    x = double negative hd :=
  eq_of_ofFloat_eq hx (ofFloat_double negative hd)

theorem unpack_double (negative : Bool) (hd : IsDouble m q) :
    (double negative hd).toModel.unpack = .finite (signOf negative) m q hd.pos := by
  rw [unpack_toModel, ofFloat_double, Binary.toUnpacked, dif_pos hd.pos]

theorem neg_double (negative : Bool) (hd : IsDouble m q) :
    -double negative hd = double (!negative) hd := by
  have hneg : -double negative hd = .ofModel (.pack (double negative hd).toModel.unpack.neg) := rfl
  rw [hneg, unpack_double]
  cases negative <;> rfl

theorem isFinite_double (negative : Bool) (hd : IsDouble m q) :
    (double negative hd).isFinite = true :=
  isFinite_iff.mpr ⟨_, _, _, ofFloat_double negative hd⟩

/-! ### Zero -/

/-- **A double without a mantissa** is one of the two zeros. -/
theorem eq_zero_of_ofFloat_eq (hx : Binary.ofFloat x = .finite negative 0 q) :
    x = if negative then -0.0 else 0.0 := by
  obtain ⟨sign, biased, fraction, hbits⟩ := exists_hasBits x
  obtain ⟨-, -, hparts⟩ := hbits.of_ofFloat_eq_finite hx
  have hq : q = Binary.leastExponent := by
    rcases hparts with ⟨-, -, hq⟩ | ⟨-, hzero, -⟩
    · exact hq
    · omega
  rw [hq] at hx
  cases negative with
  | false =>
    have hzero : Binary.ofFloat 0.0 = .finite false 0 Binary.leastExponent := by decide +kernel
    exact eq_of_ofFloat_eq hx hzero
  | true =>
    have hzero : Binary.ofFloat (-0.0) = .finite true 0 Binary.leastExponent := by decide +kernel
    exact eq_of_ofFloat_eq hx hzero

/-- **The opposite of a finite double is finite.** -/
theorem isFinite_neg (hx : x.isFinite = true) : (-x).isFinite = true := by
  obtain ⟨negative, m, q, hparts⟩ := isFinite_iff.mp hx
  rcases Nat.eq_zero_or_pos m with rfl | hm
  · rw [eq_zero_of_ofFloat_eq hparts]
    cases negative <;> decide +kernel
  · rw [eq_double hparts (isDouble_of_ofFloat_eq hparts hm), neg_double]
    exact isFinite_double _ _

/-! ### Equality -/

/-- **A double equals itself** unless it is no number. -/
theorem beq_self_iff : (x == x) = true ↔ x.isNaN = false := by
  change x.toModel.unpack.beq x.toModel.unpack = true ↔ x.toModel.unpack.isNaN = false
  cases x.toModel.unpack with
  | notANumber => decide
  | infinity s => cases s <;> decide
  | zero s => cases s <;> decide
  | finite s m q hm =>
    have hparts : (compare q q).then (compare m m) = .eq := by simp
    have hself : (finite s m q hm).compare (finite s m q hm) = some .eq := by
      cases s with
      | positive => exact congrArg some hparts
      | negative => exact congrArg (fun order => some order.swap) hparts
    refine iff_of_true ?_ rfl
    change ((finite s m q hm).compare (finite s m q hm) == some .eq) = true
    rw [hself]
    rfl

end Flowchart.Number
