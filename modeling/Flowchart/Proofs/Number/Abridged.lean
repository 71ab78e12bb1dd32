import Flowchart.Proofs.Number.Numeral
import Flowchart.Proofs.Number.Whole

/-!
# The quick way from a numeral to a double

The quick way keeps as many digits of a numeral as fit into 64 bits, converts them to a double, and
multiplies or divides by a power of ten. This rounds up to three times, and the result need not be
the double nearest to the numeral. Three things are shown about it all the same.

* **It does not leave the range** for a numeral that was written for a double
  (`Flowchart.Number.Decimal.isSome_approximate?`). What is kept of the digits never denotes more
  than the numeral (`Flowchart.Number.Decimal.Pieces.abridged_le`), and each rounding adds at most
  one part in `2 ^ 53 - 1`, which is too little to get from one of the doubles to infinity, the
  largest two excepted.
* **Its result is finite** for every numeral (`Flowchart.Number.Decimal.isFinite_approximate?`): a
  product is checked, and a quotient gets smaller.
* **It is exact for short numerals**, those whose digits fit into 53 bits and whose exponent is at
  most 22: then the number and the power of ten are doubles themselves, and there is only one
  rounding (`Flowchart.Number.Decimal.approximate?_eq_toFloat`).
-/

namespace Flowchart.Number

variable {n k m : Nat} {q e : Int} {ds left : List Char} {v a b s t : ℚ} {x : Float}

/-! ### The digits that are kept -/

namespace Decimal

theorem valueOf_cons (c : Char) (ds : List Char) :
    valueOf (c :: ds) = (c.toNat - '0'.toNat) * 10 ^ ds.length + valueOf ds := by
  have hone : valueOf [c] = c.toNat - '0'.toNat := by
    rw [valueOf, Nat.ofDigitChars_cons, Nat.ofDigitChars_nil, Nat.mul_zero, Nat.zero_add]
  rw [← List.singleton_append, valueOf_append, hone]

/-- **What absorbing digits leads to**: a number and the digits that are left over, which are none
unless the next one does not fit. -/
structure Absorbs (n : Nat) (ds : List Char) (k : Nat) (left : List Char) : Prop where
  value : n * 10 ^ ds.length + valueOf ds = k * 10 ^ left.length + valueOf left
  length_le : left.length ≤ ds.length
  eq_of_length : left.length = ds.length → k = n
  full : ∀ c rest, left = c :: rest → UInt64.size ≤ 10 * k + (c.toNat - '0'.toNat)
  lt : n < UInt64.size → k < UInt64.size

/-- Absorbing does so. -/
theorem absorbs_absorb (n : Nat) (ds : List Char) :
    Absorbs n ds (absorb n ds).1 (absorb n ds).2 := by
  induction ds generalizing n with
  | nil => exact ⟨rfl, le_refl _, fun _ => rfl, fun _ _ h => (nomatch h), id⟩
  | cons c ds ih =>
    rw [absorb]
    split
    · next hfits =>
      obtain ⟨hvalue, hlength, -, hfull, hlt⟩ := ih (10 * n + (c.toNat - '0'.toNat))
      refine ⟨?_, hlength.trans (Nat.le_succ _), fun h => ?_, hfull, fun _ => hlt hfits⟩
      · rw [← hvalue, valueOf_cons, List.length_cons]
        ring
      · rw [List.length_cons] at h
        omega
    · next hfull =>
      refine ⟨rfl, le_refl _, fun _ => rfl, fun c' rest h => ?_, id⟩
      obtain ⟨rfl, -⟩ := List.cons.inj h
      exact Nat.le_of_not_lt hfull

/-- Digits that fit are absorbed without anything left over. -/
theorem Absorbs.eq_nil (h : Absorbs n ds k left)
    (hlt : n * 10 ^ ds.length + valueOf ds < UInt64.size) :
    left = [] ∧ k = n * 10 ^ ds.length + valueOf ds := by
  obtain ⟨hvalue, -, -, hfull, -⟩ := h
  cases left with
  | nil => simpa [valueOf] using hvalue.symm
  | cons c rest =>
    have hsize := Nat.mul_le_mul_right (10 ^ rest.length) (hfull c rest rfl)
    have hone : 0 < 10 ^ rest.length := Nat.pow_pos (by decide)
    rw [hvalue, valueOf_cons, List.length_cons, Nat.pow_succ] at hlt
    have hle : UInt64.size ≤ UInt64.size * 10 ^ rest.length := Nat.le_mul_of_pos_right _ hone
    linarith

namespace Pieces

variable {p : Pieces}

theorem coefficient_abridged_lt (p : Pieces) : p.abridged.coefficient < UInt64.size :=
  (absorbs_absorb _ p.fraction).lt ((absorbs_absorb 0 p.whole).lt (by decide))

/-- **A numeral whose digits fit into 64 bits is kept as it is.** -/
theorem abridged_eq (hlt : p.toDecimal.coefficient < UInt64.size) : p.abridged = p.toDecimal := by
  obtain ⟨negative, whole, fraction, e⟩ := p
  rw [toDecimal, valueOf_append] at hlt
  have hpow : 0 < 10 ^ fraction.length := Nat.pow_pos (by decide)
  have hle : valueOf whole ≤ valueOf whole * 10 ^ fraction.length := Nat.le_mul_of_pos_right _ hpow
  obtain ⟨hleft, hkept⟩ := (absorbs_absorb 0 whole).eq_nil (by dsimp only at hlt; omega)
  rw [zero_mul, zero_add] at hkept
  obtain ⟨hleft', hkept'⟩ := (absorbs_absorb (absorb 0 whole).1 fraction).eq_nil (by rwa [hkept])
  rw [abridged, toDecimal, valueOf_append]
  dsimp only
  rw [hleft, hleft', hkept', hkept]
  simp

/-- What is kept of the digits counts at most as much as all of them. -/
theorem abridged_le_nat {whole fraction l l' : List Char} {w c : Nat} (h : Absorbs 0 whole w l)
    (h' : Absorbs w fraction c l') :
    c * 10 ^ (l.length + l'.length) ≤ valueOf whole * 10 ^ fraction.length + valueOf fraction := by
  have hwhole : valueOf whole = w * 10 ^ l.length + valueOf l := by simpa using h.value
  cases l with
  | nil =>
    have hvalue := h'.value
    simp only [List.length_nil, pow_zero, mul_one, zero_add] at hwhole ⊢
    have hnil : valueOf [] = 0 := rfl
    rw [hwhole, hnil, add_zero]
    omega
  | cons d rest =>
    -- the whole part alone counts at least as much as a number of 64 bits in front of the rest
    have hfull := h.full d rest rfl
    have hbig : (10 * w + (d.toNat - '0'.toNat)) * 10 ^ rest.length ≤ valueOf whole := by
      rw [hwhole, valueOf_cons, List.length_cons, Nat.pow_succ]
      linarith
    have hc : c ≤ 10 * w + (d.toNat - '0'.toNat) := (h'.lt (h.lt (by decide))).le.trans hfull
    rcases Nat.eq_or_lt_of_le h'.length_le with heq | hlt
    · rw [h'.eq_of_length heq, heq, Nat.pow_add, ← mul_assoc]
      refine le_add_right (Nat.mul_le_mul_right _ ?_)
      omega
    · have hpow : 10 ^ (l'.length + 1) ≤ 10 ^ fraction.length :=
        Nat.pow_le_pow_right (by decide) hlt
      calc c * 10 ^ ((d :: rest).length + l'.length)
          = c * 10 ^ rest.length * 10 ^ (l'.length + 1) := by rw [List.length_cons]; ring
        _ ≤ valueOf whole * 10 ^ fraction.length :=
            Nat.mul_le_mul ((Nat.mul_le_mul_right _ hc).trans hbig) hpow
        _ ≤ _ := Nat.le_add_right _ _

/-- **What is kept of a numeral never denotes more than the numeral.** -/
theorem abridged_le (p : Pieces) :
    (p.abridged.coefficient * 10 ^ p.abridged.exponent : ℚ) ≤
      p.toDecimal.coefficient * 10 ^ p.toDecimal.exponent := by
  obtain ⟨negative, whole, fraction, e⟩ := p
  have h := absorbs_absorb 0 whole
  have h' := absorbs_absorb (absorb 0 whole).1 fraction
  have hnat := abridged_le_nat h h'
  have hlength := h'.length_le
  rw [abridged, toDecimal, valueOf_append]
  dsimp only
  generalize absorb 0 whole = kept at *
  generalize absorb kept.1 fraction = kept' at *
  -- both exponents differ by the number of the digits that are left over
  have hexp : (e + kept.2.length - (fraction.length - kept'.2.length : Nat) : Int) =
      (kept.2.length + kept'.2.length : Nat) + (e - fraction.length) := by omega
  rw [hexp, zpow_add₀ (by norm_num), zpow_natCast, ← mul_assoc]
  refine mul_le_mul_of_nonneg_right ?_ (by positivity)
  exact_mod_cast hnat

end Pieces

end Decimal

open Decimal

/-! ### What rounding adds -/

/-- Rounding to 53 bits adds at most one part in `2 ^ 53 - 1`. -/
theorem mul_le_of_has (hm : 2 ^ 52 ≤ m) (hv : (Interval.ofParts m q).Has v) :
    m * 2 ^ q * (2 ^ 53 - 1) ≤ v * 2 ^ 53 := by
  have hq : (0 : ℚ) < 2 ^ q := by positivity
  have hcast : (2 : ℚ) ^ 52 ≤ m := by exact_mod_cast hm
  calc (m * 2 ^ q * (2 ^ 53 - 1) : ℚ) = m * (2 ^ 53 - 1) * 2 ^ q := by ring
    _ ≤ (m - 1 / 2) * 2 ^ 53 * 2 ^ q := mul_le_mul_of_nonneg_right (by linarith) hq.le
    _ = (m - 1 / 2) * 2 ^ q * 2 ^ 53 := by ring
    _ ≤ v * 2 ^ 53 := mul_le_mul_of_nonneg_right (ends_of_has hv).1 (by norm_num)

/-- Rounding takes away at most one half. -/
theorem half_le_of_has (hm : 0 < m) (hv : (Interval.ofParts m q).Has v) : v / 2 ≤ m * 2 ^ q := by
  have hq : (0 : ℚ) < 2 ^ q := by positivity
  have hcast : (1 : ℚ) ≤ m := by exact_mod_cast hm
  have hmul := mul_le_mul_of_nonneg_right hcast hq.le
  have hends := (ends_of_has hv).2
  linarith

/-- What lies in the interval of a double, one of the largest two excepted, is three roundings
below the bound. -/
theorem le_of_has (hd : IsDouble m q) (htop : q < 971 ∨ m + 3 ≤ 2 ^ 53)
    (hv : (Interval.ofParts m q).Has v) : v ≤ (2 ^ 53 - 5 / 2) * 2 ^ (971 : Int) := by
  have hbig : (0 : ℚ) < 2 ^ (971 : Int) := by positivity
  refine (ends_of_has hv).2.trans ?_
  rcases htop with hq | hm
  · have hcast : (m : ℚ) + 1 ≤ 2 ^ 53 := by exact_mod_cast hd.lt
    have hpow : (2 : ℚ) ^ q ≤ 2 ^ (971 : Int) / 2 := by
      rw [← two_zpow_sub_one]
      exact zpow_le_zpow_right₀ one_le_two (by omega)
    calc ((m + 1 / 2) * 2 ^ q : ℚ) ≤ 2 ^ 53 * (2 ^ (971 : Int) / 2) :=
          mul_le_mul (by linarith) hpow (by positivity) (by norm_num)
      _ = 2 ^ 52 * 2 ^ (971 : Int) := by ring
      _ ≤ _ := mul_le_mul_of_nonneg_right (by norm_num) hbig.le
  · have hcast : (m : ℚ) + 3 ≤ 2 ^ 53 := by exact_mod_cast hm
    have hpow : (2 : ℚ) ^ q ≤ 2 ^ (971 : Int) := zpow_le_zpow_right₀ one_le_two hd.le
    exact mul_le_mul (by linarith) hpow (by positivity) (by norm_num)

/-- **Three roundings do not lead from there to infinity**: one of each factor, and one of the
product. -/
theorem mul_lt_overflowBound (hs : 0 ≤ s) (hb : 0 ≤ b)
    (has : a * (2 ^ 53 - 1) ≤ s * 2 ^ 53) (hbt : b * (2 ^ 53 - 1) ≤ t * 2 ^ 53)
    (hst : s * t ≤ (2 ^ 53 - 5 / 2) * 2 ^ (971 : Int)) : a * b < overflowBound := by
  have hbig : (0 : ℚ) < 2 ^ (971 : Int) := by positivity
  have hmul : a * (2 ^ 53 - 1) * (b * (2 ^ 53 - 1)) ≤ s * 2 ^ 53 * (t * 2 ^ 53) :=
    mul_le_mul has hbt (mul_nonneg hb (by norm_num)) (mul_nonneg hs (by norm_num))
  refine lt_of_mul_lt_mul_right ?_ (by norm_num : (0 : ℚ) ≤ (2 ^ 53 - 1) ^ 2)
  calc a * b * (2 ^ 53 - 1) ^ 2 = a * (2 ^ 53 - 1) * (b * (2 ^ 53 - 1)) := by ring
    _ ≤ s * 2 ^ 53 * (t * 2 ^ 53) := hmul
    _ = s * t * (2 ^ 53 * 2 ^ 53) := by ring
    _ ≤ (2 ^ 53 - 5 / 2) * 2 ^ (971 : Int) * (2 ^ 53 * 2 ^ 53) :=
        mul_le_mul_of_nonneg_right hst (by norm_num)
    _ = (2 ^ 53 - 5 / 2) * (2 ^ 53 * 2 ^ 53) * 2 ^ (971 : Int) := by ring
    _ < (2 ^ 53 - 1 / 2) * (2 ^ 53 - 1) ^ 2 * 2 ^ (971 : Int) :=
        mul_lt_mul_of_pos_right (by norm_num) hbig
    _ = overflowBound * (2 ^ 53 - 1) ^ 2 := by rw [overflowBound]; ring

/-! ### Powers of ten -/

/-- A comparison with the bound, in whole numbers. -/
theorem cast_lt_iff :
    (n : ℚ) < (2 ^ 53 - 1 / 2) * 2 ^ (k : Int) ↔ 2 * n < (2 ^ 54 - 1) * 2 ^ k := by
  rw [← Nat.cast_lt (α := ℚ), zpow_natCast]
  push_cast
  constructor <;> intro h <;> linarith

/-- **The powers of ten within range.** -/
theorem ten_pow_lt_overflowBound_iff : (10 : ℚ) ^ k < overflowBound ↔ k ≤ largestPower := by
  have hcast : ∀ k : Nat, (10 : ℚ) ^ k = (10 ^ k : Nat) := fun k => by rw [Nat.cast_pow]; rfl
  have hlast : (10 : ℚ) ^ largestPower < overflowBound := by
    rw [hcast]
    exact (cast_lt_iff (k := 971)).mpr (by decide +kernel)
  have hnext : ¬ (10 : ℚ) ^ (largestPower + 1) < overflowBound := by
    rw [hcast]
    exact mt (cast_lt_iff (k := 971)).mp (by decide +kernel)
  constructor
  · intro h
    by_contra hk
    exact hnext ((pow_le_pow_right₀ (by norm_num) (by omega)).trans_lt h)
  · exact fun hk => (pow_le_pow_right₀ (by norm_num) hk).trans_lt hlast

/-- **The powers of ten are converted to doubles** of 53 bits, in whose intervals they are. -/
theorem exists_powerOfTen_eq (hk : k ≤ largestPower) :
    ∃ (m : Nat) (q : Int) (hd : IsDouble m q), 2 ^ 52 ≤ m ∧
      (Interval.ofParts m q).Has (10 ^ k) ∧ powerOfTen k = double false hd := by
  have hone : (1 : ℚ) ≤ 10 ^ k := one_le_pow₀ (by norm_num)
  have hlow : (2 : ℚ) ^ (-1022 : Int) ≤ 10 ^ k :=
    (zpow_le_one_of_nonpos₀ one_le_two (by decide)).trans hone
  obtain ⟨m, q, hd, hm, hhas⟩ := exists_has_of_lt hlow (ten_pow_lt_overflowBound_iff.mpr hk)
  refine ⟨m, q, hd, hm, hhas, ?_⟩
  have hread := ofScientific_eq_of_has (n := 1) (e := k) hd one_pos
    (by rwa [Nat.cast_one, one_mul, zpow_natCast])
  rwa [Int.natAbs_natCast, decide_eq_false (by omega)] at hread

/-! ### Within range -/

/-- A product of two doubles is finite if it is within range. -/
theorem isFinite_mul_double {m₁ m₂ : Nat} {q₁ q₂ : Int} (hd₁ : IsDouble m₁ q₁)
    (hd₂ : IsDouble m₂ q₂) (hm₁ : 2 ^ 52 ≤ m₁)
    (hlow : 2 ^ (-1022 : Int) ≤ (m₁ * 2 ^ q₁ * (m₂ * 2 ^ q₂) : ℚ))
    (hbound : (m₁ * 2 ^ q₁ * (m₂ * 2 ^ q₂) : ℚ) < overflowBound) :
    (double false hd₁ * double false hd₂).isFinite = true := by
  obtain ⟨m, q, hd, -, hhas⟩ := exists_has_of_lt hlow hbound
  rw [double_mul_double hd hm₁ hhas]
  exact isFinite_double false hd

/-- **A number of 64 bits times a power of ten** is finite, as far as three roundings below the
bound. -/
theorem isFinite_ofNat_mul_powerOfTen (hpos : 0 < n) (hlt : n < UInt64.size)
    (hk : k ≤ largestPower) (hle : (n * 10 ^ k : ℚ) ≤ (2 ^ 53 - 5 / 2) * 2 ^ (971 : Int)) :
    (Float.ofNat n * powerOfTen k).isFinite = true := by
  have hlog : n.log2 < 64 := (Nat.log2_lt hpos.ne').mpr hlt
  obtain ⟨m₁, q₁, hd₁, hm₁, hhas₁, heq₁⟩ := exists_ofNat_eq hpos (by omega)
  obtain ⟨m₂, q₂, hd₂, hm₂, hhas₂, heq₂⟩ := exists_powerOfTen_eq hk
  rw [heq₁, heq₂]
  refine isFinite_mul_double hd₁ hd₂ hm₁ ?_
    (mul_lt_overflowBound (by positivity) (by positivity) (mul_le_of_has hm₁ hhas₁)
      (mul_le_of_has hm₂ hhas₂) hle)
  -- both factors are at least one half
  have hone₁ : (1 : ℚ) ≤ n := by exact_mod_cast hpos
  have hone₂ : (1 : ℚ) ≤ 10 ^ k := one_le_pow₀ (by norm_num)
  have hhalf₁ := half_le_of_has hd₁.pos hhas₁
  have hhalf₂ := half_le_of_has hd₂.pos hhas₂
  calc (2 : ℚ) ^ (-1022 : Int) ≤ 2 ^ (-2 : Int) := zpow_le_zpow_right₀ one_le_two (by decide)
    _ = 1 / 2 * (1 / 2) := by norm_num
    _ ≤ _ := mul_le_mul (by linarith) (by linarith) (by norm_num) (by positivity)

theorem unpack_ofNat_zero : (Float.ofNat 0).toModel.unpack = .zero .positive := by
  have hparts : Binary.ofFloat (Float.ofNat 0) = .finite false 0 Binary.leastExponent := by
    decide +kernel
  rw [unpack_toModel, hparts]
  rfl

theorem ofNat_zero_mul_double (hd : IsDouble m q) :
    Float.ofNat 0 * double false hd = Float.ofNat 0 := by
  have hmul : Float.ofNat 0 * double false hd = .ofModel (.pack (Float.Model.UnpackedFloat.mul
    .binary64 (Float.ofNat 0).toModel.unpack (double false hd).toModel.unpack)) := rfl
  have hzero : Float.Model.UnpackedFloat.mul .binary64 (.zero .positive)
      (.finite (signOf false) m q hd.pos) = .zero .positive := rfl
  rw [hmul, unpack_ofNat_zero, unpack_double, hzero]
  decide +kernel

/-- A number is divided by a power of ten in any case. -/
theorem isSome_scale?_of_neg (he : e < 0) : (scale? x e).isSome = true := by
  fun_induction scale? x e with
  | case5 => rfl
  | case6 => rfl
  | case7 x e hneg hfar hne ih => exact ih (by simp only [largestPower] at *; omega)
  | _ => omega

theorem isSome_scale?_zero (k : Nat) : (scale? (Float.ofNat 0) k).isSome = true := by
  rw [scale?, if_pos (Int.natCast_nonneg k), Int.toNat_natCast]
  split
  · next hk =>
    obtain ⟨m, q, hd, -, -, heq⟩ := exists_powerOfTen_eq (Int.ofNat_le.mp hk)
    rw [heq, ofNat_zero_mul_double]
    decide +kernel
  · decide +kernel

/-- A number of 64 bits is multiplied with a power of ten as far as three roundings below the bound;
so the power is within range as well. -/
theorem isSome_scale?_of_le (hpos : 0 < n) (hlt : n < UInt64.size)
    (hle : (n * 10 ^ k : ℚ) ≤ (2 ^ 53 - 5 / 2) * 2 ^ (971 : Int)) :
    (scale? (Float.ofNat n) k).isSome = true := by
  have hk : k ≤ largestPower := by
    have hone : (1 : ℚ) ≤ n := by exact_mod_cast hpos
    refine ten_pow_lt_overflowBound_iff.mp ?_
    calc (10 : ℚ) ^ k ≤ n * 10 ^ k := le_mul_of_one_le_left (by positivity) hone
      _ ≤ (2 ^ 53 - 5 / 2) * 2 ^ (971 : Int) := hle
      _ < overflowBound := mul_lt_mul_of_pos_right (by norm_num) (by positivity)
  rw [scale?, if_pos (Int.natCast_nonneg k), if_pos (Int.ofNat_le.mpr hk), Int.toNat_natCast]
  rw [if_pos (isFinite_ofNat_mul_powerOfTen hpos hlt hk hle)]
  rfl

/-- **The quick way does not leave the range** from what denotes no more than a number in the
interval of a double, one of the largest two excepted. -/
theorem Decimal.isSome_approximate? {d : Decimal} (hd : IsDouble m q)
    (htop : q < 971 ∨ m + 3 ≤ 2 ^ 53) (hv : (Interval.ofParts m q).Has v)
    (hlt : d.coefficient < UInt64.size) (hle : d.coefficient * 10 ^ d.exponent ≤ v) :
    d.approximate?.isSome = true := by
  rw [approximate?, Option.isSome_map]
  rcases Int.lt_or_le d.exponent 0 with hneg | hnonneg
  · exact isSome_scale?_of_neg hneg
  obtain ⟨k, hk⟩ := Int.eq_ofNat_of_zero_le hnonneg
  rw [hk, zpow_natCast] at hle
  rw [hk]
  rcases Nat.eq_zero_or_pos d.coefficient with hzero | hpos
  · rw [hzero]
    exact isSome_scale?_zero k
  · exact isSome_scale?_of_le hpos hlt (hle.trans (le_of_has hd htop hv))

/-! ### Finite results -/

theorem ofNat_zero_div_double (hd : IsDouble m q) :
    Float.ofNat 0 / double false hd = Float.ofNat 0 := by
  have hdiv : Float.ofNat 0 / double false hd = .ofModel (.pack (Float.Model.UnpackedFloat.div
    .binary64 (Float.ofNat 0).toModel.unpack (double false hd).toModel.unpack)) := rfl
  have hzero : Float.Model.UnpackedFloat.div .binary64 (.zero .positive)
      (.finite (signOf false) m q hd.pos) = .zero .positive := rfl
  rw [hdiv, unpack_ofNat_zero, unpack_double, hzero]
  decide +kernel

/-- **A double that is positive or zero**, and finite. -/
inductive IsMagnitude : Float → Prop where
  | zero : IsMagnitude (Float.ofNat 0)
  | double {m : Nat} {q : Int} (hd : IsDouble m q) : IsMagnitude (double false hd)

theorem IsMagnitude.isFinite (hx : IsMagnitude x) : x.isFinite = true := by
  cases hx with
  | zero => decide +kernel
  | double hd => exact isFinite_double false hd

theorem isMagnitude_ofNat (hlt : n < UInt64.size) : IsMagnitude (Float.ofNat n) := by
  rcases Nat.eq_zero_or_pos n with rfl | hpos
  · exact .zero
  · have hlog : n.log2 < 64 := (Nat.log2_lt hpos.ne').mpr hlt
    obtain ⟨m, q, hd, -, -, heq⟩ := exists_ofNat_eq hpos (by omega)
    exact heq ▸ .double hd

theorem IsDouble.lt_overflowBound (hd : IsDouble m q) : (m * 2 ^ q : ℚ) < overflowBound := by
  have hcast : (m : ℚ) + 1 ≤ 2 ^ 53 := by exact_mod_cast hd.lt
  have hpow : (2 : ℚ) ^ q ≤ 2 ^ (971 : Int) := zpow_le_zpow_right₀ one_le_two hd.le
  exact mul_lt_mul (by linarith) hpow (by positivity) (by norm_num)

/-- **A quotient by a power of ten stays finite**, down to zero. -/
theorem IsMagnitude.div_powerOfTen (hx : IsMagnitude x) (hpos : 0 < k) (hk : k ≤ largestPower) :
    IsMagnitude (x / powerOfTen k) := by
  obtain ⟨m₂, q₂, hd₂, -, hhas₂, heq₂⟩ := exists_powerOfTen_eq hk
  rw [heq₂]
  cases hx with
  | zero =>
    rw [ofNat_zero_div_double]
    exact .zero
  | @double m₁ q₁ hd₁ =>
    -- the power of ten is rounded to at least one, so the quotient is no larger
    have hten : (10 : ℚ) ≤ 10 ^ k := le_self_pow₀ (by norm_num) hpos.ne'
    have hone : (1 : ℚ) ≤ m₂ * 2 ^ q₂ := by
      have hhalf := half_le_of_has hd₂.pos hhas₂
      linarith
    have hm₁ : (0 : ℚ) < m₁ := by exact_mod_cast hd₁.pos
    have hbound : (m₁ * 2 ^ q₁ / (m₂ * 2 ^ q₂) : ℚ) < overflowBound :=
      (div_le_self (by positivity) hone).trans_lt hd₁.lt_overflowBound
    rcases exists_has_or_le (by positivity) hbound with ⟨m, q, hd, hhas⟩ | hle
    · rw [double_div_double hd hhas]
      exact .double hd
    · rw [double_div_double_eq_zero hle]
      exact .zero

/-- A number that has been scaled is finite. -/
theorem isFinite_scale? {y : Float} (hx : IsMagnitude x) (h : scale? x e = some y) :
    y.isFinite = true := by
  fun_induction scale? x e with
  | case1 x e hnonneg hle product hfinite => exact Option.some.inj h ▸ hfinite
  | case3 => exact Option.some.inj h ▸ hx.isFinite
  | case5 x e hneg hnear =>
    exact Option.some.inj h ▸ (hx.div_powerOfTen (by omega) (by omega)).isFinite
  | case6 => exact Option.some.inj h ▸ hx.isFinite
  | case7 x e hneg hfar hne ih =>
    exact ih (hx.div_powerOfTen (by decide) (le_refl _)) h
  | _ => exact nomatch h

/-- **The quick way leads to finite doubles only.** -/
theorem Decimal.isFinite_approximate? {d : Decimal} (hlt : d.coefficient < UInt64.size)
    (h : d.approximate? = some x) : x.isFinite = true := by
  obtain ⟨y, hy, rfl⟩ := Option.map_eq_some_iff.mp h
  have hfinite := isFinite_scale? (isMagnitude_ofNat hlt) hy
  split
  · exact isFinite_neg hfinite
  · exact hfinite

/-! ### Short numerals -/

/-- A number of 53 bits is converted to itself. -/
theorem ofNat_eq_double (hpos : 0 < n) (hlt : n < 2 ^ 53) :
    Float.ofNat n = double false (isDouble_shifted hpos hlt) := by
  have hlog : n.log2 ≤ 52 := Nat.le_of_lt_succ ((Nat.log2_lt hpos.ne').mpr hlt)
  refine ofScientific_eq_of_has (e := 0) (isDouble_shifted hpos hlt) hpos ?_
  have hself := has_self (isDouble_shifted hpos hlt)
  rw [shifted_mul_zpow hlog] at hself
  rwa [zpow_zero, mul_one]

/-- The powers of ten up to the 22nd are doubles themselves. -/
theorem exists_powerOfTen_eq_of_le (hk : k ≤ 22) :
    ∃ (m : Nat) (q : Int) (hd : IsDouble m q), (m * 2 ^ q : ℚ) = 10 ^ k ∧
      powerOfTen k = double false hd := by
  obtain ⟨m, q, hd, hvalue, -⟩ := exists_double_of_power (Nat.lt_succ_of_le hk)
  refine ⟨m, q, hd, hvalue, ?_⟩
  have hself := has_self hd
  have hread := ofScientific_eq_of_has (n := 1) (e := k) hd one_pos
    (by rwa [Nat.cast_one, one_mul, zpow_natCast, ← hvalue])
  rwa [Int.natAbs_natCast, decide_eq_false (by omega)] at hread

/-- **A product or a quotient of doubles is rounded once**, so it is the double in whose interval it
lies. -/
theorem scale?_ofNat_eq_double (hd : IsDouble m q) (hpos : 0 < n) (hlt : n < 2 ^ 53)
    (he : e.natAbs ≤ 22) (hv : (Interval.ofParts m q).Has (n * 10 ^ e)) :
    scale? (Float.ofNat n) e = some (double false hd) := by
  have hshifted := shifted_mul_zpow (Nat.le_of_lt_succ ((Nat.log2_lt hpos.ne').mpr hlt))
  obtain ⟨m', q', hd', hvalue, hpower⟩ := exists_powerOfTen_eq_of_le he
  rw [scale?, ofNat_eq_double hpos hlt]
  split
  · next hnonneg =>
    have hk : e.toNat = e.natAbs := by omega
    have hexp : (10 : ℚ) ^ e = 10 ^ e.natAbs := by
      rw [← zpow_natCast, Int.natAbs_of_nonneg hnonneg]
    have hproduct : double false (isDouble_shifted hpos hlt) * double false hd' = double false hd :=
      double_mul_double hd (shifted_bounds hpos hlt).1 (by rwa [hshifted, hvalue, ← hexp])
    rw [if_pos (by simp only [largestPower]; omega), hk, hpower, hproduct,
      if_pos (isFinite_double false hd)]
  · next hneg =>
    have hk : (-e).toNat = e.natAbs := by omega
    have hexp : (10 : ℚ) ^ e = (10 ^ e.natAbs)⁻¹ := by
      rw [← zpow_natCast, ← zpow_neg, Int.ofNat_natAbs_of_nonpos (by omega), neg_neg]
    have hquotient : double false (isDouble_shifted hpos hlt) / double false hd' =
        double false hd :=
      double_div_double hd (by rwa [hshifted, hvalue, div_eq_mul_inv, ← hexp])
    rw [if_pos (by simp only [largestPower]; omega), hk, hpower, hquotient]

/-- **A short numeral in the interval of a double is taken to the double** also the quick way. -/
theorem Decimal.approximate?_eq_toFloat {d : Decimal} (hd : IsDouble m q) (hpos : 0 < d.coefficient)
    (hlt : d.coefficient < 2 ^ 53) (he : d.exponent.natAbs ≤ 22)
    (hv : (Interval.ofParts m q).Has (d.coefficient * 10 ^ d.exponent)) :
    d.approximate? = some d.toFloat := by
  rw [approximate?, scale?_ofNat_eq_double hd hpos hlt he hv, Option.map_some,
    toFloat_eq_of_has hd hpos hv]
  cases d.negative with
  | false => rfl
  | true => exact congrArg some (neg_double false hd)

end Flowchart.Number
