import Flowchart.Number.Decimal
import Flowchart.Proofs.Number.Parts
import Flowchart.Proofs.Number.Rounding

/-!
# The double nearest to a decimal numeral

A decimal numeral is taken to the nearest double in one of two ways. A coefficient with few bits and
a small power of ten are doubles themselves, and they are multiplied or divided as doubles are; all
other numerals are computed with as whole numbers of any size. Either way ends with one rounding of
the exact product or of the exact quotient.

So there are two facts to be shown, one about products (`Flowchart.Number.mul_eq_of_has`) and one
about quotients (`Flowchart.Number.div_eq_of_has`): if the exact result lies in the interval of a
double, the computed one is this double. The first needs that the product has enough bits, and the
second that the quotient is computed to enough bits. For numerals this gives
`Flowchart.Number.Decimal.toFloat_eq_of_has`.
-/

namespace Flowchart.Number

open Float.Model (Format totalExponent)
open Float.Model.UnpackedFloat

variable {m n k m₁ m₂ : Nat} {q e e₁ e₂ : Int}

/-! ### Exact results -/

theorem records_exact (n : Nat) : Records (.ofMantissaAndAccuracy n .exact) n := by
  refine ⟨?_, ?_, ?_⟩ <;> simp [ExtendedMantissa.ofMantissaAndAccuracy]

/-- **What is left behind a mantissa** is recorded by comparing it with one half. -/
theorem records_inexact (n : Nat) {x : ℚ} (hpos : 0 < x) (hlt : x < 1) :
    Records (.ofMantissaAndAccuracy n (.inexact (compare x (1 / 2)))) (n + x) := by
  cases hcompare : compare x (1 / 2) with
  | lt =>
    have hhalf : x < 1 / 2 := compare_lt_iff_lt.mp hcompare
    refine ⟨?_, ?_, ?_⟩ <;> simp [ExtendedMantissa.ofMantissaAndAccuracy]
    · exact hpos.le
    · linarith
    · exact hpos.ne'
  | eq =>
    obtain rfl : x = 1 / 2 := compare_eq_iff_eq.mp hcompare
    refine ⟨?_, ?_, ?_⟩ <;> simp [ExtendedMantissa.ofMantissaAndAccuracy]
  | gt =>
    have hhalf : 1 / 2 < x := compare_gt_iff_gt.mp hcompare
    refine ⟨?_, ?_, ?_⟩ <;> simp only [ExtendedMantissa.ofMantissaAndAccuracy, if_true]
    · linarith
    · linarith
    · refine iff_of_true trivial fun heq => ?_
      linarith

/-- A fraction is compared with one half in whole numbers. -/
theorem compare_div_half (n : Nat) (hk : 0 < k) :
    compare (n / k : ℚ) (1 / 2) = compare (2 * n) k := by
  have hkq : (0 : ℚ) < k := by exact_mod_cast hk
  rcases lt_trichotomy (2 * n) k with h | h | h
  · have hcast : (2 * n : ℚ) < k := by exact_mod_cast h
    rw [compare_lt_iff_lt.mpr h, compare_lt_iff_lt, div_lt_div_iff₀ hkq two_pos]
    linarith
  · have hcast : (2 * n : ℚ) = k := by exact_mod_cast h
    rw [compare_eq_iff_eq.mpr h, compare_eq_iff_eq, div_eq_div_iff hkq.ne' two_ne_zero]
    linarith
  · have hcast : (k : ℚ) < 2 * n := by exact_mod_cast h
    rw [compare_gt_iff_gt.mpr h, compare_gt_iff_gt, div_lt_div_iff₀ two_pos hkq]
    linarith

/-- **A quotient of natural numbers** is recorded by its whole part and its remainder. -/
theorem records_div (n : Nat) (hk : 0 < k) :
    Records (.ofMantissaAndAccuracy (n / k) (accuracyOfFraction (n % k) k)) (n / k : ℚ) := by
  have hkq : (0 : ℚ) < k := by exact_mod_cast hk
  have hquotient : (n : ℚ) / k = (n / k : Nat) + (n % k : Nat) / k := by
    rw [div_eq_iff hkq.ne', add_mul, div_mul_cancel₀ _ hkq.ne']
    exact_mod_cast (Nat.div_add_mod' n k).symm
  have hlt : n % k < k := Nat.mod_lt _ hk
  rw [hquotient, accuracyOfFraction]
  split
  · next hzero =>
    rw [hzero, Nat.cast_zero, zero_div, add_zero]
    exact records_exact _
  · next hzero =>
    have hrest : (0 : ℚ) < (n % k : Nat) := by exact_mod_cast Nat.pos_of_ne_zero hzero
    have hltq : ((n % k : Nat) : ℚ) / k < 1 := (div_lt_one hkq).mpr (by exact_mod_cast hlt)
    rw [← compare_div_half _ hk]
    exact records_inexact _ (div_pos hrest hkq) hltq

/-! ### Products -/

/-- **A product that lies in the interval of a double** is computed as this double, if it has enough
bits. -/
theorem mul_eq_of_has (hd : IsDouble m q) (h₁ : 0 < m₁) (h₂ : 0 < m₂) (hbits : 2 ^ 52 ≤ m₁ * m₂)
    (hv : (Interval.ofParts m q).Has (m₁ * 2 ^ e₁ * (m₂ * 2 ^ e₂))) :
    mul Format.binary64 (.finite .positive m₁ e₁ h₁) (.finite .positive m₂ e₂ h₂) =
      .finite .positive m q hd.pos := by
  have hrecords : Records (.ofMantissaAndAccuracy (m₁ * m₂) .exact)
      (m₁ * 2 ^ e₁ * (m₂ * 2 ^ e₂) / 2 ^ (e₁ + e₂)) := by
    have hvalue : (m₁ * 2 ^ e₁ * (m₂ * 2 ^ e₂) / 2 ^ (e₁ + e₂) : ℚ) = (m₁ * m₂ : Nat) := by
      rw [zpow_add₀ two_ne_zero, Nat.cast_mul]
      field_simp
    rw [hvalue]
    exact records_exact _
  have hlog : 52 ≤ (m₁ * m₂).log2 := (Nat.le_log2 (Nat.mul_pos h₁ h₂).ne').mpr hbits
  exact roundWithAccuracy_eq_of_has hd hv hrecords (by omega) .positive

/-! ### Quotients -/

/-- A dividend that is shifted far enough has a quotient of 53 bits. -/
theorem le_log2_shiftLeft_div {shift : Nat} (h₁ : 0 < m₁) (h₂ : 0 < m₂)
    (hfar : m₂.log2 + 53 ≤ m₁.log2 + shift) : 52 ≤ (m₁ <<< shift / m₂).log2 := by
  have hquotient : 2 ^ 52 ≤ m₁ <<< shift / m₂ := by
    rw [Nat.le_div_iff_mul_le h₂, Nat.shiftLeft_eq]
    calc 2 ^ 52 * m₂ ≤ 2 ^ 52 * 2 ^ (m₂.log2 + 1) :=
          Nat.mul_le_mul_left _ (Nat.lt_log2_self (n := m₂)).le
      _ = 2 ^ (m₂.log2 + 53) := by rw [← Nat.pow_add]; congr 1; omega
      _ ≤ 2 ^ (m₁.log2 + shift) := Nat.pow_le_pow_right two_pos hfar
      _ = 2 ^ m₁.log2 * 2 ^ shift := Nat.pow_add _ _ _
      _ ≤ m₁ * 2 ^ shift := Nat.mul_le_mul_right _ (Nat.log2_self_le h₁.ne')
  have hpos : m₁ <<< shift / m₂ ≠ 0 := by
    have htwo : 0 < 2 ^ 52 := Nat.two_pow_pos 52
    omega
  exact (Nat.le_log2 hpos).mpr hquotient

/-- **A quotient is rounded once**, from enough places of the exact quotient. -/
theorem exists_div_eq (h₁ : 0 < m₁) (h₂ : 0 < m₂) (e₁ e₂ : Int) :
    ∃ n t accuracy, div Format.binary64 (.finite .positive m₁ e₁ h₁) (.finite .positive m₂ e₂ h₂) =
        roundWithAccuracy Format.binary64 .positive n t accuracy ∧
      Records (.ofMantissaAndAccuracy n accuracy) (m₁ * 2 ^ e₁ / (m₂ * 2 ^ e₂) / 2 ^ t) ∧
      t ≤ max (n.log2 + t - 52) Binary.leastExponent := by
  have htotal : Format.binary64.targetExponent (totalExponent m₁ e₁ - totalExponent m₂ e₂) =
      max (m₁.log2 + e₁ - (m₂.log2 + e₂) - 53) Binary.leastExponent := by
    rw [targetExponent_eq, totalExponent, totalExponent]
    omega
  obtain ⟨t, ht⟩ : ∃ t, min (e₁ - e₂)
      (max (m₁.log2 + e₁ - (m₂.log2 + e₂) - 53) Binary.leastExponent) = t := ⟨_, rfl⟩
  obtain ⟨shift, hshift⟩ : ∃ shift, (e₁ - e₂ - t).toNat = shift := ⟨_, rfl⟩
  have hcore : divCore Format.binary64 m₁ e₁ m₂ e₂ =
      (m₁ <<< shift / m₂, t, accuracyOfFraction (m₁ <<< shift % m₂) m₂) := by
    rw [divCore, htotal, ht, hshift]
  have hdiv : div Format.binary64 (.finite .positive m₁ e₁ h₁) (.finite .positive m₂ e₂ h₂) =
      roundWithAccuracy Format.binary64 .positive (divCore Format.binary64 m₁ e₁ m₂ e₂).1
        (divCore Format.binary64 m₁ e₁ m₂ e₂).2.1 (divCore Format.binary64 m₁ e₁ m₂ e₂).2.2 := rfl
  -- the quotient of the mantissas is taken with a shift that leaves it at least 53 bits
  refine ⟨m₁ <<< shift / m₂, t, accuracyOfFraction (m₁ <<< shift % m₂) m₂, by rw [hdiv, hcore],
    ?_, ?_⟩
  · have hvalue : (m₁ * 2 ^ e₁ / (m₂ * 2 ^ e₂) / 2 ^ t : ℚ) = (m₁ <<< shift : Nat) / m₂ := by
      have hpow : (2 : ℚ) ^ e₁ = 2 ^ shift * 2 ^ e₂ * 2 ^ t := by
        rw [← zpow_natCast, ← zpow_add₀ two_ne_zero, ← zpow_add₀ two_ne_zero]
        congr 1
        omega
      have hm₂ : (m₂ : ℚ) ≠ 0 := by exact_mod_cast h₂.ne'
      rw [Nat.shiftLeft_eq, hpow]
      push_cast
      field_simp
    rw [hvalue]
    exact records_div _ h₂
  · by_cases hleast : t ≤ Binary.leastExponent
    · exact hleast.trans (le_max_right _ _)
    · have hlog : 52 ≤ (m₁ <<< shift / m₂).log2 := le_log2_shiftLeft_div h₁ h₂ (by omega)
      exact le_max_of_le_left (by omega)

/-- **A quotient that lies in the interval of a double** is computed as this double. -/
theorem div_eq_of_has (hd : IsDouble m q) (h₁ : 0 < m₁) (h₂ : 0 < m₂)
    (hv : (Interval.ofParts m q).Has (m₁ * 2 ^ e₁ / (m₂ * 2 ^ e₂))) :
    div Format.binary64 (.finite .positive m₁ e₁ h₁) (.finite .positive m₂ e₂ h₂) =
      .finite .positive m q hd.pos := by
  obtain ⟨n, t, accuracy, hdiv, hrecords, ht⟩ := exists_div_eq h₁ h₂ e₁ e₂
  rw [hdiv]
  exact roundWithAccuracy_eq_of_has hd hv hrecords ht .positive

/-- **A quotient that is at most half of the least double** is computed as zero. -/
theorem div_eq_zero_of_le (h₁ : 0 < m₁) (h₂ : 0 < m₂)
    (hle : (m₁ * 2 ^ e₁ / (m₂ * 2 ^ e₂) : ℚ) ≤ 2 ^ (Binary.leastExponent - 1)) :
    div Format.binary64 (.finite .positive m₁ e₁ h₁) (.finite .positive m₂ e₂ h₂) =
      .zero .positive := by
  obtain ⟨n, t, accuracy, hdiv, hrecords, ht⟩ := exists_div_eq h₁ h₂ e₁ e₂
  rw [hdiv]
  exact roundWithAccuracy_eq_zero_of_le (by positivity) hle hrecords ht .positive

/-! ### Numbers that are doubles -/

/-- A double lies in its own interval. -/
theorem has_self (hd : IsDouble m q) : (Interval.ofParts m q).Has (m * 2 ^ q) := by
  have hq : (0 : ℚ) < 2 ^ (q - 2) := by positivity
  have hpos := hd.pos
  have hlow : ((Interval.ofParts m q).low : ℚ) < 4 * m := by
    have hnat : (Interval.ofParts m q).low < 4 * m := by
      simp only [Interval.ofParts]
      split <;> omega
    exact_mod_cast hnat
  have hvalue : (m : ℚ) * 2 ^ q = 4 * m * 2 ^ (q - 2) := by
    rw [two_zpow_sub_two]
    ring
  have hhigh : ((Interval.ofParts m q).high : ℚ) = 4 * m + 2 := by
    simp [Interval.ofParts]
  rw [hvalue]
  refine Interval.has_of_lt ?_ ?_ <;> rw [Interval.exponent_ofParts]
  · exact mul_lt_mul_of_pos_right hlow hq
  · rw [hhigh]
    exact mul_lt_mul_of_pos_right (by linarith) hq

/-- The mantissa of a natural number with few bits: the number itself, shifted to 53 bits. -/
theorem shifted_bounds (hpos : 0 < n) (hlt : n < 2 ^ 53) :
    2 ^ 52 ≤ n * 2 ^ (52 - n.log2) ∧ n * 2 ^ (52 - n.log2) < 2 ^ 53 := by
  have hlog : n.log2 < 53 := (Nat.log2_lt hpos.ne').mpr hlt
  have hpow : 2 ^ n.log2 * 2 ^ (52 - n.log2) = 2 ^ 52 := by
    rw [← Nat.pow_add]
    congr 1
    omega
  constructor
  · rw [← hpow]
    exact Nat.mul_le_mul_right _ (Nat.log2_self_le hpos.ne')
  · have hbits := Nat.mul_lt_mul_of_pos_right (Nat.lt_log2_self (n := n))
      (Nat.two_pow_pos (52 - n.log2))
    rwa [Nat.pow_succ, Nat.mul_right_comm, hpow] at hbits

/-- A positive natural number with few bits has the mantissa and the exponent of a double. -/
theorem isDouble_shifted (hpos : 0 < n) (hlt : n < 2 ^ 53) :
    IsDouble (n * 2 ^ (52 - n.log2)) (n.log2 - 52) := by
  obtain ⟨hlow, hhigh⟩ := shifted_bounds hpos hlt
  have hlog : n.log2 < 53 := (Nat.log2_lt hpos.ne').mpr hlt
  have hleast : Binary.leastExponent = -1074 := rfl
  exact ⟨by omega, hhigh, by omega, by omega, Or.inl hlow⟩

theorem shifted_mul_zpow (hlog : n.log2 ≤ 52) :
    ((n * 2 ^ (52 - n.log2) : Nat) * 2 ^ (n.log2 - 52 : Int) : ℚ) = n := by
  have hexp : (n.log2 - 52 : Int) = -((52 - n.log2 : Nat) : Int) := by omega
  rw [hexp, zpow_neg, zpow_natCast]
  push_cast
  field_simp

/-- **A positive natural number with few bits is converted exactly.** -/
theorem toFloat_toUInt64 (hpos : 0 < n) (hlt : n < 2 ^ 53) :
    n.toUInt64.toFloat = double false (isDouble_shifted hpos hlt) := by
  have hd := isDouble_shifted hpos hlt
  obtain ⟨hlow, hhigh⟩ := shifted_bounds hpos hlt
  have hlog : n.log2 < 53 := (Nat.log2_lt hpos.ne').mpr hlt
  have hlog' : (n * 2 ^ (52 - n.log2)).log2 = 52 :=
    (Nat.log2_eq_iff hd.pos.ne').mpr ⟨hlow, hhigh⟩
  have hround := roundWithAccuracy_eq_of_has hd (has_self hd)
    (by rw [mul_div_cancel_right₀ _ (by positivity)]; exact records_exact _)
    (le_max_of_le_left (by rw [hlog']; omega)) .positive
  have hcompare : compare (n : Int) 0 = .gt := by
    rw [compare_gt_iff_gt]
    omega
  have hnat : n.toUInt64.toNat = n := by
    rw [Nat.toUInt64, UInt64.toNat_ofNat', Nat.mod_eq_of_lt (by omega)]
  have hleast : Binary.leastExponent = -1074 := rfl
  have htarget : Format.binary64.targetExponent (totalExponent n 0) = n.log2 - 52 := by
    rw [targetExponent_totalExponent]
    omega
  have hshift : (0 - (n.log2 - 52 : Int)).toNat = 52 - n.log2 := by omega
  have hrest : 0 - ((52 - n.log2 : Nat) : Int) = n.log2 - 52 := by omega
  have hunpacked : ofUInt64 Format.binary64 n.toUInt64 =
      .finite .positive (n * 2 ^ (52 - n.log2)) (n.log2 - 52) hd.pos := by
    rw [ofUInt64, ofNat, ofInt, Float.Model.UnpackedFloat.normalize, hnat, hcompare]
    dsimp only
    rw [Float.Model.UnpackedFloat.round, Int.toNat_natCast, htarget, decreaseExponent, hshift,
      hrest, Nat.shiftLeft_eq]
    exact hround
  rw [UInt64.toFloat, Float.Model.ofUInt64, hunpacked]
  rfl

/-- The entries of the table of powers of ten, compared with the powers as whole numbers. -/
theorem parts_of_power : ∀ k : Fin 23,
    (match Binary.ofFloat Float.exactlyRepresentablePowersOfTen[k] with
    | .finite false m q =>
      decide (0 < m ∧ m * 2 ^ q.toNat = 10 ^ k.val * 2 ^ (-q).toNat)
    | _ => false) = true := by
  decide +kernel

/-- **The powers of ten in the table are doubles**, with the value that they should have. -/
theorem exists_double_of_power (hk : k < Float.exactlyRepresentablePowersOfTen.size) :
    ∃ (m : Nat) (q : Int) (hd : IsDouble m q), (m * 2 ^ q : ℚ) = 10 ^ k ∧
      Float.exactlyRepresentablePowersOfTen[k] = double false hd := by
  have hparts := parts_of_power ⟨k, hk⟩
  split at hparts
  · next m q hfloat =>
    obtain ⟨hm, hvalue⟩ := of_decide_eq_true hparts
    have hd : IsDouble m q := isDouble_of_ofFloat_eq hfloat hm
    refine ⟨m, q, hd, ?_, eq_double hfloat hd⟩
    rw [Interval.zpow_eq_div_toNat two_ne_zero, mul_div_assoc', div_eq_iff (by positivity)]
    exact_mod_cast hvalue
  · exact nomatch hparts

/-! ### Numerals -/

/-- The product of two positive doubles of 53 bits is rounded once. -/
theorem double_mul_double {hd₁ : IsDouble m₁ e₁} {hd₂ : IsDouble m₂ e₂} (hd : IsDouble m q)
    (h₁ : 2 ^ 52 ≤ m₁) (hv : (Interval.ofParts m q).Has (m₁ * 2 ^ e₁ * (m₂ * 2 ^ e₂))) :
    double false hd₁ * double false hd₂ = double false hd := by
  have hbits : 2 ^ 52 ≤ m₁ * m₂ := h₁.trans (Nat.le_mul_of_pos_right _ hd₂.pos)
  have hmul : double false hd₁ * double false hd₂ = .ofModel (.pack (mul Format.binary64
      (double false hd₁).toModel.unpack (double false hd₂).toModel.unpack)) := rfl
  rw [hmul, unpack_double, unpack_double]
  exact congrArg (fun f => Float.ofModel (.pack f)) (mul_eq_of_has hd hd₁.pos hd₂.pos hbits hv)

/-- The quotient of two positive doubles is rounded once. -/
theorem double_div_double {hd₁ : IsDouble m₁ e₁} {hd₂ : IsDouble m₂ e₂} (hd : IsDouble m q)
    (hv : (Interval.ofParts m q).Has (m₁ * 2 ^ e₁ / (m₂ * 2 ^ e₂))) :
    double false hd₁ / double false hd₂ = double false hd := by
  have hdiv : double false hd₁ / double false hd₂ = .ofModel (.pack (div Format.binary64
      (double false hd₁).toModel.unpack (double false hd₂).toModel.unpack)) := rfl
  rw [hdiv, unpack_double, unpack_double]
  exact congrArg (fun f => Float.ofModel (.pack f)) (div_eq_of_has hd hd₁.pos hd₂.pos hv)

/-- A quotient that is at most half of the least double is zero. -/
theorem double_div_double_eq_zero {hd₁ : IsDouble m₁ e₁} {hd₂ : IsDouble m₂ e₂}
    (hle : (m₁ * 2 ^ e₁ / (m₂ * 2 ^ e₂) : ℚ) ≤ 2 ^ (Binary.leastExponent - 1)) :
    double false hd₁ / double false hd₂ = Float.ofNat 0 := by
  have hdiv : double false hd₁ / double false hd₂ = .ofModel (.pack (div Format.binary64
      (double false hd₁).toModel.unpack (double false hd₂).toModel.unpack)) := rfl
  have hzero := div_eq_zero_of_le hd₁.pos hd₂.pos hle
  rw [hdiv, unpack_double, unpack_double]
  exact (congrArg (fun f => Float.ofModel (.pack f)) hzero).trans (by decide +kernel)

/-- The exponent of a numeral in the interval of a double is neither too large nor too small to be
computed with. -/
theorem exponent_bounds (hd : IsDouble m q) (hn : 0 < n)
    (hv : (Interval.ofParts m q).Has (n * 10 ^ e)) :
    ¬ e > 2 ^ 11 ∧ ¬ e < -((2 ^ 11 : Int) + n.log2) := by
  have hlow := two_zpow_le_of_has hv hd.pos
  have hhigh := lt_two_zpow_of_has hv hd.lt
  have hleast := hd.least_le
  have hleastEq : Binary.leastExponent = -1074 := rfl
  have hle := hd.le
  have hnq : (1 : ℚ) ≤ n := by exact_mod_cast hn
  have hnlt : (n : ℚ) < 2 ^ (n.log2 + 1 : Int) := by
    have hnat := Nat.lt_log2_self (n := n)
    exact_mod_cast hnat
  have hten : (10 : ℚ) ^ e = 2 ^ e * 5 ^ e := by
    rw [← mul_zpow]
    norm_num
  have htwo : (0 : ℚ) < 2 ^ e := by positivity
  constructor
  · intro hlarge
    -- already the power of two in the power of ten would be above the interval
    have hfive : (1 : ℚ) ≤ 5 ^ e := one_le_zpow₀ (by norm_num) (by omega)
    have hle : (2 : ℚ) ^ e ≤ n * 10 ^ e := by
      rw [hten]
      calc (2 : ℚ) ^ e ≤ 2 ^ e * 5 ^ e := le_mul_of_one_le_right htwo.le hfive
        _ ≤ n * (2 ^ e * 5 ^ e) := le_mul_of_one_le_left (by positivity) hnq
    have hexp := lt_of_two_zpow_lt (hle.trans_lt hhigh)
    omega
  · intro hsmall
    -- the power of two alone makes the number smaller than the interval
    have hfive : (5 : ℚ) ^ e ≤ 1 := zpow_le_one_of_nonpos₀ (by norm_num) (by omega)
    have hlt : n * 10 ^ e < (2 : ℚ) ^ (n.log2 + 1 + e : Int) := by
      rw [hten, zpow_add₀ two_ne_zero (n.log2 + 1 : Int)]
      calc (n : ℚ) * (2 ^ e * 5 ^ e) ≤ n * 2 ^ e :=
            mul_le_mul_of_nonneg_left (mul_le_of_le_one_right htwo.le hfive) (by positivity)
        _ < 2 ^ (n.log2 + 1 : Int) * 2 ^ e := mul_lt_mul_of_pos_right hnlt htwo
    have hexp := lt_of_two_zpow_lt (hlow.trans_lt hlt)
    omega

/-- A numeral in the interval of a double, computed in whole numbers of any size. -/
theorem unpacked_ofScientific_eq_of_has (hd : IsDouble m q) (hn : 0 < n)
    (hv : (Interval.ofParts m q).Has (n * 10 ^ e)) :
    ofScientific Format.binary64 n e = .finite .positive m q hd.pos := by
  obtain ⟨hlarge, hsmall⟩ := exponent_bounds hd hn hv
  have hbits : Format.binary64.mantissaBits = 53 := rfl
  rw [ofScientific, dif_neg hn.ne', if_neg hlarge, if_neg hsmall]
  by_cases he : 0 ≤ e
  · have hpow : (10 : ℚ) ^ e = (10 ^ e.toNat : Nat) := by
      rw [Nat.cast_pow, ← zpow_natCast, Int.toNat_of_nonneg he]
      rfl
    rw [if_pos he]
    refine mul_eq_of_has hd _ _ ?_ ?_
    · rw [hbits, Nat.shiftLeft_eq]
      have hten : 0 < 10 ^ e.toNat := Nat.pow_pos (by decide)
      calc 2 ^ 52 ≤ 2 ^ 53 := by decide
        _ ≤ n * 2 ^ 53 := Nat.le_mul_of_pos_left _ hn
        _ ≤ n * 2 ^ 53 * 10 ^ e.toNat := Nat.le_mul_of_pos_right _ hten
    · have hshift : ((n <<< 53 : Nat) : ℚ) * 2 ^ (-(53 : Nat) : Int) = n := by
        rw [Nat.shiftLeft_eq, zpow_neg, zpow_natCast, Nat.cast_mul, Nat.cast_pow, Nat.cast_two,
          mul_inv_cancel_right₀ (by positivity)]
      rw [hbits, hshift, zpow_zero, mul_one, ← hpow]
      exact hv
  · have hpow : (10 : ℚ) ^ e = ((10 ^ (-e).toNat : Nat) : ℚ)⁻¹ := by
      rw [Nat.cast_pow, ← zpow_natCast, Int.toNat_of_nonneg (by omega), zpow_neg, inv_inv]
      rfl
    rw [if_neg he]
    refine div_eq_of_has hd _ _ ?_
    rw [zpow_zero, mul_one, mul_one, div_eq_mul_inv, ← hpow]
    exact hv

/-- **A numeral in the interval of a double is taken to the double.** -/
theorem ofScientific_eq_of_has (hd : IsDouble m q) (hn : 0 < n)
    (hv : (Interval.ofParts m q).Has (n * 10 ^ e)) :
    Float.ofScientific n (e < 0) e.natAbs = double false hd := by
  rw [Float.ofScientific]
  split
  · next hfast =>
    -- few digits and a small exponent: both are doubles, and one operation rounds once
    obtain ⟨hlt, hk⟩ := hfast
    have hsize : e.natAbs < Float.exactlyRepresentablePowersOfTen.size := Nat.lt_succ_of_le hk
    obtain ⟨m', q', hd', hvalue, htable⟩ := exists_double_of_power hsize
    have hlog : n.log2 ≤ 52 := Nat.le_of_lt_succ ((Nat.log2_lt hn.ne').mpr hlt)
    rw [toFloat_toUInt64 hn hlt]
    dsimp only
    rw [htable]
    split
    · next hneg =>
      have he : e < 0 := of_decide_eq_true hneg
      refine double_div_double hd ?_
      rw [shifted_mul_zpow hlog, hvalue]
      have hpow : (10 : ℚ) ^ e = (10 ^ e.natAbs)⁻¹ := by
        rw [← zpow_natCast, ← zpow_neg]
        congr 1
        omega
      rwa [hpow, ← div_eq_mul_inv] at hv
    · next hneg =>
      have he : ¬ e < 0 := fun h => hneg (decide_eq_true h)
      refine double_mul_double hd (shifted_bounds hn hlt).1 ?_
      rw [shifted_mul_zpow hlog, hvalue]
      have hpow : (10 : ℚ) ^ e = 10 ^ e.natAbs := by
        rw [← zpow_natCast]
        congr 1
        omega
      rwa [hpow] at hv
  · have hexponent : (if decide (e < 0) = true then Int.negOfNat e.natAbs else Int.ofNat e.natAbs) =
        e := by
      split
      · next hneg =>
        have he : e < 0 := of_decide_eq_true hneg
        rw [Int.negOfNat_eq, Int.ofNat_eq_natCast]
        omega
      · next hneg =>
        have he : ¬ e < 0 := fun h => hneg (decide_eq_true h)
        rw [Int.ofNat_eq_natCast]
        omega
    dsimp only
    rw [hexponent, Float.Model.ofScientific, unpacked_ofScientific_eq_of_has hd hn hv]
    rfl

/-- **The double nearest to a decimal number** is the one in whose interval the number lies. -/
theorem Decimal.toFloat_eq_of_has {d : Decimal} (hd : IsDouble m q) (hpos : 0 < d.coefficient)
    (hv : (Interval.ofParts m q).Has (d.coefficient * 10 ^ d.exponent)) :
    d.toFloat = double d.negative hd := by
  rw [toFloat, ofScientific_eq_of_has hd hpos hv]
  cases d.negative with
  | false => rfl
  | true => exact neg_double false hd

end Flowchart.Number
