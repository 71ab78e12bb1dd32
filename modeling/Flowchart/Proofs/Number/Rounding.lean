import Flowchart.Proofs.Number.Interval

/-!
# Rounding into an interval

A result that is not a double is rounded: it is given by a mantissa with too many bits, of which the
last ones are shifted out while two further bits keep track of them, and the mantissa is increased
if these two say so. Sometimes it has one bit more than before, and is shifted again.

Here it is shown that the interval of a double is what its name says
(`Flowchart.Number.roundWithAccuracy_eq_of_has`): whatever lies in it is rounded to the double. The
invariant of the shifting is that the mantissa and the two bits record the number, in units of the
last place (`Flowchart.Number.Records`). It remains to see where the shifting stops. This is at the
exponent of the double, with one exception. The interval of a power of two reaches a little below
the power, and a number there has one more place. Then it is the mantissa after the rounding that
has one bit too many.
-/

namespace Flowchart.Number

open Float.Model (Format totalExponent)
open Float.Model.UnpackedFloat

variable {em : ExtendedMantissa} {x v : ℚ} {m n k : Nat} {q e : Int} {accuracy : Accuracy}

/-! ### What a shifted mantissa records -/

/-- **A mantissa and its two further bits record a number**, in units of the last place of the
mantissa: the first bit counts one half, and the second one tells whether anything is left. -/
structure Records (em : ExtendedMantissa) (x : ℚ) : Prop where
  le : em.mantissa + (if em.roundBit then 1 / 2 else 0) ≤ x
  lt : x < em.mantissa + (if em.roundBit then 1 / 2 else 0) + 1 / 2
  sticky : em.stickyBit = true ↔ x ≠ em.mantissa + if em.roundBit then 1 / 2 else 0

/-- The recorded number has the mantissa as its whole part. -/
theorem Records.floor (h : Records em x) : em.mantissa ≤ x ∧ x < em.mantissa + 1 := by
  obtain ⟨hle, hlt, -⟩ := h
  split at hle
  · next hround =>
    rw [if_pos hround] at hlt
    constructor <;> linarith
  · next hround =>
    rw [if_neg hround] at hlt
    constructor <;> linarith

/-- A half of a mantissa is what is left of it together with the bit that was shifted out. -/
theorem half_add_roundBit (n : Nat) :
    ((n / 2 : Nat) : ℚ) + (if (n % 2 != 0) = true then 1 / 2 else 0) = n / 2 := by
  have hn : (n : ℚ) = 2 * (n / 2 : Nat) + (n % 2 : Nat) := by
    exact_mod_cast (Nat.div_add_mod n 2).symm
  rcases Nat.mod_two_eq_zero_or_one n with h | h <;> rw [h] at hn <;> simp only [h] <;>
    norm_num at hn ⊢ <;> linarith

/-- **One place is shifted out**, and one half of the number is recorded. -/
theorem Records.shiftRightOne (h : Records em x) : Records em.shiftRightOne (x / 2) := by
  obtain ⟨n, round, sticky⟩ := em
  obtain ⟨hle, hlt, hsticky⟩ := h
  have hhalf := half_add_roundBit n
  cases round with
  | false =>
    simp only [Bool.false_eq_true, if_false, add_zero] at hle hlt hsticky
    refine ⟨?_, ?_, ?_⟩ <;> simp only [ExtendedMantissa.shiftRightOne, Bool.false_or] <;> rw [hhalf]
    · linarith
    · linarith
    · rw [hsticky]
      constructor
      · intro hne heq
        exact hne (by linarith)
      · intro hne heq
        exact hne (by rw [heq])
  | true =>
    simp only [if_true] at hle hlt hsticky
    refine ⟨?_, ?_, ?_⟩ <;> simp only [ExtendedMantissa.shiftRightOne, Bool.true_or] <;> rw [hhalf]
    · linarith
    · linarith
    · -- the place that was shifted out makes a difference of its own
      have hne : x / 2 ≠ (n : ℚ) / 2 := by
        intro heq
        linarith
      simp [hne]

/-- Several places are shifted out. -/
theorem Records.shiftRight (h : Records em x) (k : Nat) : Records (em >>> k) (x / 2 ^ k) := by
  induction k with
  | zero =>
    rw [pow_zero, div_one]
    exact h
  | succ k ih =>
    rw [pow_succ, ← div_div]
    exact ih.shiftRightOne

/-! ### The rounded mantissa -/

/-- **A number rounds to a natural number** if it is at most one half away from it, and less than
that if the natural number is odd. -/
structure RoundsTo (x : ℚ) (m : Nat) : Prop where
  le : m - 1 / 2 ≤ x
  ge : x ≤ m + 1 / 2
  strict : m % 2 = 1 → m - 1 / 2 < x ∧ x < m + 1 / 2

/-- Natural numbers that differ by less than one are not ordered the other way. -/
theorem le_of_cast_lt_add_one (h : (m : ℚ) < n + 1) : m ≤ n := by
  have hnat : m < n + 1 := by exact_mod_cast h
  omega

/-- **What is recorded is rounded as it should be.** -/
theorem Records.roundedMantissa_eq (h : Records em x) (hm : RoundsTo x m) :
    em.roundedMantissa = m := by
  obtain ⟨n, round, sticky⟩ := em
  obtain ⟨hle, hlt, hsticky⟩ := h
  obtain ⟨hlow, hhigh, hstrict⟩ := hm
  cases round <;> cases sticky <;>
    simp only [Bool.false_eq_true, if_false, if_true, add_zero, false_iff, true_iff, not_not]
      at hle hlt hsticky
  · -- nothing is left
    have hmn : m ≤ n := le_of_cast_lt_add_one (by linarith)
    have hnm : n ≤ m := le_of_cast_lt_add_one (by linarith)
    exact Nat.le_antisymm hnm hmn
  · -- less than one half is left
    have hmn : m ≤ n := le_of_cast_lt_add_one (by linarith)
    have hnm : n ≤ m := le_of_cast_lt_add_one (by linarith)
    exact Nat.le_antisymm hnm hmn
  · -- exactly one half is left, so the natural number is even
    have hmn : m ≤ n + 1 := le_of_cast_lt_add_one (by push_cast; linarith)
    have hnm : n ≤ m := le_of_cast_lt_add_one (by linarith)
    have heven : m % 2 = 0 := by
      rcases Nat.mod_two_eq_zero_or_one m with heven | hodd
      · exact heven
      · obtain ⟨hlow', hhigh'⟩ := hstrict hodd
        rcases Nat.lt_or_ge n m with hlt' | hge
        · have hcast : (n : ℚ) + 1 ≤ m := by exact_mod_cast hlt'
          linarith
        · have hcast : (m : ℚ) ≤ n := by exact_mod_cast hge
          linarith
    show n + n % 2 = m
    omega
  · -- more than one half is left
    have hne : (n : ℚ) + 1 / 2 < x := lt_of_le_of_ne hle (Ne.symm hsticky)
    have hmn : m ≤ n + 1 := le_of_cast_lt_add_one (by push_cast; linarith)
    have hnm : n + 1 ≤ m := le_of_cast_lt_add_one (by push_cast; linarith)
    exact Nat.le_antisymm hnm hmn

/-! ### The numbers in the interval of a double -/

theorem two_zpow_add (k : Nat) (q : Int) : (2 : ℚ) ^ (k + q) = 2 ^ k * 2 ^ q := by
  rw [zpow_add₀ two_ne_zero, zpow_natCast]

theorem two_zpow_sub_one (q : Int) : (2 : ℚ) ^ (q - 1) = 2 ^ q / 2 := by
  rw [zpow_sub_one₀ two_ne_zero, div_eq_mul_inv]

theorem two_zpow_sub_two (q : Int) : (2 : ℚ) ^ (q - 2) = 2 ^ q / 4 := by
  rw [zpow_sub₀ two_ne_zero]
  norm_num

section Interval

variable (hv : (Interval.ofParts m q).Has v)
include hv

/-- **What lies in the interval of a double** rounds to its mantissa, in units of its last place. -/
theorem roundsTo_of_has : RoundsTo (v / 2 ^ q) m := by
  have hq : (0 : ℚ) < 2 ^ q := by positivity
  have hlow : (4 * m - 2 : ℚ) ≤ (Interval.ofParts m q).low := by
    have hnat : 4 * m ≤ (Interval.ofParts m q).low + 2 := by
      simp only [Interval.ofParts]
      split <;> omega
    have hcast : (4 * m : ℚ) ≤ (Interval.ofParts m q).low + 2 := by exact_mod_cast hnat
    linarith
  have hhigh : ((Interval.ofParts m q).high : ℚ) = 4 * m + 2 := by
    simp [Interval.ofParts]
  have hends : ((m : ℚ) - 1 / 2) * 2 ^ q ≤ (Interval.ofParts m q).low * 2 ^ (q - 2) ∧
      (Interval.ofParts m q).high * 2 ^ (q - 2) = ((m : ℚ) + 1 / 2) * 2 ^ q := by
    rw [two_zpow_sub_two, hhigh]
    constructor
    · have hmul := mul_le_mul_of_nonneg_right hlow hq.le
      linarith
    · ring
  refine ⟨?_, ?_, fun hodd => ?_⟩
  · rw [le_div_iff₀ hq]
    exact hends.1.trans hv.low_le
  · rw [div_le_iff₀ hq]
    exact hv.le_high.trans_eq hends.2
  · have hopen : ¬ (Interval.ofParts m q).closed = true := by
      simp [Interval.ofParts, hodd]
    rw [Interval.Has, if_neg hopen] at hv
    rw [lt_div_iff₀ hq, div_lt_iff₀ hq]
    exact ⟨hends.1.trans_lt hv.1, hv.2.trans_eq hends.2⟩

/-- The interval of a double reaches half a place to both sides. -/
theorem ends_of_has : (m - 1 / 2) * 2 ^ q ≤ v ∧ v ≤ (m + 1 / 2) * 2 ^ q := by
  have hq : (0 : ℚ) < 2 ^ q := by positivity
  have hround := roundsTo_of_has hv
  exact ⟨(le_div_iff₀ hq).mp hround.le, (div_le_iff₀ hq).mp hround.ge⟩

/-- The interval of a power of two reaches only a quarter of a place below the power. -/
theorem quarter_le_of_has (hm : m = 2 ^ 52) (hq : Binary.leastExponent < q) :
    (m - 1 / 4) * 2 ^ q ≤ v := by
  have hlow : ((Interval.ofParts m q).low : ℚ) = 4 * m - 1 := by
    have hnat : (Interval.ofParts m q).low + 1 = 4 * m := by
      simp only [Interval.ofParts, Nat.pow_eq, if_pos (And.intro hm hq)]
      omega
    have hcast : ((Interval.ofParts m q).low : ℚ) + 1 = 4 * m := by exact_mod_cast hnat
    linarith
  have hle := hv.low_le
  rw [Interval.exponent_ofParts, hlow, two_zpow_sub_two] at hle
  linarith

/-- The interval of a double ends below the power of two behind its 53 bits. -/
theorem lt_two_zpow_of_has (hlt : m < 2 ^ 53) : v < 2 ^ (53 + q) := by
  have hq : (0 : ℚ) < 2 ^ q := by positivity
  have hcast : (m : ℚ) + 1 ≤ 2 ^ 53 := by exact_mod_cast hlt
  have hpow : (2 : ℚ) ^ (53 + q) = 2 ^ 53 * 2 ^ q := two_zpow_add 53 q
  rw [hpow]
  exact (ends_of_has hv).2.trans_lt (mul_lt_mul_of_pos_right (by linarith) hq)

/-- The interval of a double does not reach below one half of its last place. -/
theorem two_zpow_le_of_has (hpos : 0 < m) : (2 : ℚ) ^ (q - 1) ≤ v := by
  have hq : (0 : ℚ) < 2 ^ q := by positivity
  have hcast : (1 : ℚ) ≤ m := by exact_mod_cast hpos
  rw [two_zpow_sub_one, div_eq_inv_mul]
  exact (mul_le_mul_of_nonneg_right (by linarith) hq.le).trans (ends_of_has hv).1

/-- The interval of a double with 53 bits does not reach down to one half of its leading bit. -/
theorem two_zpow_lt_of_has (hm : 2 ^ 52 ≤ m) : (2 : ℚ) ^ (51 + q) < v := by
  have hq : (0 : ℚ) < 2 ^ q := by positivity
  have hcast : (2 : ℚ) ^ 52 ≤ m := by exact_mod_cast hm
  have hplaces : (2 : ℚ) ^ (51 : ℤ) < m - 1 / 2 := by
    refine lt_of_lt_of_le ?_ (sub_le_sub_right hcast _)
    norm_num
  rw [zpow_add₀ two_ne_zero]
  exact (mul_lt_mul_of_pos_right hplaces hq).trans_le (ends_of_has hv).1

/-- **Below a power of two**, in the interval of a double with 53 bits, the double is the power, and
with one place more the number rounds to the mantissa with one bit too many. -/
theorem roundsTo_two_pow_of_has (hm : 2 ^ 52 ≤ m) (hq : Binary.leastExponent < q)
    (hpower : v < 2 ^ 52 * 2 ^ q) : m = 2 ^ 52 ∧ RoundsTo (v / 2 ^ (q - 1)) (2 ^ 53) := by
  have hqpos : (0 : ℚ) < 2 ^ q := by positivity
  have hm' : m = 2 ^ 52 := by
    have hcast : (m : ℚ) - 1 / 2 < 2 ^ 52 :=
      lt_of_mul_lt_mul_right ((ends_of_has hv).1.trans_lt hpower) hqpos.le
    refine Nat.le_antisymm (le_of_cast_lt_add_one ?_) hm
    push_cast
    linarith
  have hquarter := quarter_le_of_has hv hm' hq
  refine ⟨hm', ?_, ?_, fun hodd => absurd hodd (by decide)⟩
  · rw [two_zpow_sub_one, le_div_iff₀ (by positivity)]
    rw [hm'] at hquarter
    norm_num at hquarter ⊢
    linarith
  · rw [two_zpow_sub_one, div_le_iff₀ (by positivity)]
    norm_num at hpower ⊢
    linarith

end Interval

/-! ### Where the shifting stops -/

/-- A double has 53 bits, the last of which is not below the least exponent. -/
theorem targetExponent_eq (e : Int) :
    Format.binary64.targetExponent e = max (e - 53) Binary.leastExponent := rfl

/-- The exponent to which a mantissa is shifted leaves 53 bits of it, or is the least one. -/
theorem targetExponent_totalExponent (n : Nat) (e : Int) :
    Format.binary64.targetExponent (totalExponent n e) =
      max (n.log2 + e - 52) Binary.leastExponent := by
  rw [targetExponent_eq, totalExponent]
  omega

theorem lt_of_two_zpow_lt {a b : Int} (h : (2 : ℚ) ^ a < 2 ^ b) : a < b :=
  (zpow_lt_zpow_iff_right₀ one_lt_two).mp h

/-- A number is below the power of two behind the bits of its whole part. -/
theorem lt_two_zpow_of_floor (h : v / 2 ^ e < n + 1) : v < 2 ^ (n.log2 + 1 + e : Int) := by
  have hcast : (n : ℚ) + 1 ≤ 2 ^ (n.log2 + 1) := by exact_mod_cast Nat.lt_log2_self (n := n)
  have hmul := (div_lt_iff₀ (by positivity : (0 : ℚ) < 2 ^ e)).mp (h.trans_le hcast)
  rw [zpow_add₀ two_ne_zero]
  exact_mod_cast hmul

/-- A number is not below the power of two of the leading bit of its whole part. -/
theorem two_zpow_le_of_floor (hn : n ≠ 0) (h : n ≤ v / 2 ^ e) :
    (2 : ℚ) ^ (n.log2 + e : Int) ≤ v := by
  have hcast : (2 : ℚ) ^ n.log2 ≤ n := by exact_mod_cast Nat.log2_self_le hn
  have hmul := (le_div_iff₀ (by positivity : (0 : ℚ) < 2 ^ e)).mp (hcast.trans h)
  rw [zpow_add₀ two_ne_zero]
  exact_mod_cast hmul

/-- **A number in the interval of a double is shifted to the exponent of the double**, or by one
place less if it is below a power of two. -/
theorem target_of_has (hd : IsDouble m q) (hv : (Interval.ofParts m q).Has v)
    (hfloor : (n : ℚ) ≤ v / 2 ^ e ∧ v / 2 ^ e < n + 1)
    (he : e ≤ max (n.log2 + e - 52) Binary.leastExponent) :
    max (n.log2 + e - 52) Binary.leastExponent = q ∨
      max (n.log2 + e - 52) Binary.leastExponent = q - 1 ∧ m = 2 ^ 52 ∧
        RoundsTo (v / 2 ^ (q - 1)) (2 ^ 53) := by
  obtain ⟨-, hlt, hleast, -, hnormal⟩ := hd
  -- the powers of two around the number, by its own bits and by the double, bound its exponent
  have hupper := lt_two_zpow_of_floor hfloor.2
  have hexp : n ≠ 0 → (n.log2 + e : Int) < 53 + q := fun hn =>
    lt_of_two_zpow_lt ((two_zpow_le_of_floor hn hfloor.1).trans_lt (lt_two_zpow_of_has hv hlt))
  rcases eq_or_lt_of_le hleast with rfl | hlarge
  · left
    by_cases hn : n = 0
    · rw [hn, Nat.log2_zero] at he ⊢
      omega
    · have hexp' := hexp hn
      omega
  have hm : 2 ^ 52 ≤ m := hnormal.resolve_right hlarge.ne'
  have hexp' := lt_of_two_zpow_lt ((two_zpow_lt_of_has hv hm).trans hupper)
  have hn : n ≠ 0 := by
    rintro rfl
    rw [Nat.log2_zero] at he hexp'
    omega
  have hexp := hexp hn
  by_cases hplace : n.log2 + e - 52 = q
  · left
    omega
  right
  refine ⟨by omega, roundsTo_two_pow_of_has hv hm hlarge ?_⟩
  -- the number has one place less than the double, so it is below a power of two
  rw [← zpow_natCast, ← zpow_add₀ two_ne_zero]
  refine hupper.trans_eq ?_
  congr 1
  omega

/-! ### Rounding -/

/-- A mantissa that is short enough is not shifted. -/
theorem shiftToTargetExponent_of_lt (hn : n < 2 ^ 53) (he : Binary.leastExponent ≤ e) :
    shiftToTargetExponent Format.binary64 n e .exact = (⟨n, false, false⟩, e) := by
  have hlog : n.log2 ≤ 52 := by
    by_cases hzero : n = 0
    · simp [hzero]
    · have hlt := (Nat.log2_lt hzero).mpr hn
      omega
  have hshift : (max (n.log2 + e - 52) Binary.leastExponent - e).toNat = 0 := by omega
  rw [shiftToTargetExponent, targetExponent_totalExponent, shiftToExponent, hshift]
  exact congrArg (Prod.mk _) (add_zero e)

/-- A mantissa with one bit too many is shifted by one place. -/
theorem shiftToTargetExponent_two_pow (he : Binary.leastExponent ≤ e) :
    shiftToTargetExponent Format.binary64 (2 ^ 53) e .exact = (⟨2 ^ 52, false, false⟩, e + 1) := by
  have hshift : (max ((2 ^ 53 : Nat).log2 + e - 52) Binary.leastExponent - e).toNat = 1 := by
    rw [Nat.log2_two_pow]
    omega
  rw [shiftToTargetExponent, targetExponent_totalExponent, shiftToExponent, hshift]
  rfl

/-- The mantissa before the shifting keeps its whole part. -/
theorem mantissa_ofMantissaAndAccuracy (n : Nat) (accuracy : Accuracy) :
    (ExtendedMantissa.ofMantissaAndAccuracy n accuracy).mantissa = n := by
  cases accuracy with
  | exact => rfl
  | inexact side => cases side <;> rfl

/-- A mantissa is shifted to its target, and then records the number in units of the target. -/
theorem exists_shiftToTargetExponent_eq
    (hrecords : Records (.ofMantissaAndAccuracy n accuracy) (v / 2 ^ e))
    (he : e ≤ max (n.log2 + e - 52) Binary.leastExponent) :
    ∃ em, shiftToTargetExponent Format.binary64 n e accuracy =
        (em, max (n.log2 + e - 52) Binary.leastExponent) ∧
      Records em (v / 2 ^ max (n.log2 + e - 52) Binary.leastExponent) := by
  obtain ⟨t, ht⟩ : ∃ t, max (n.log2 + e - 52) Binary.leastExponent = t := ⟨_, rfl⟩
  rw [ht] at he ⊢
  refine ⟨ExtendedMantissa.ofMantissaAndAccuracy n accuracy >>> (t - e).toNat, ?_, ?_⟩
  · rw [shiftToTargetExponent, targetExponent_totalExponent, ht, shiftToExponent]
    congr 1
    omega
  · have hshift := hrecords.shiftRight (t - e).toNat
    have hpow : (2 : ℚ) ^ e * 2 ^ (t - e).toNat = 2 ^ t := by
      rw [← zpow_natCast, ← zpow_add₀ two_ne_zero]
      congr 1
      omega
    rwa [div_div, hpow] at hshift

/-- **Whatever lies in the interval of a double is rounded to the double**, if it is given with
enough places. -/
theorem roundWithAccuracy_eq_of_has (hd : IsDouble m q) (hv : (Interval.ofParts m q).Has v)
    (hrecords : Records (.ofMantissaAndAccuracy n accuracy) (v / 2 ^ e))
    (he : e ≤ max (n.log2 + e - 52) Binary.leastExponent) (sign : Sign) :
    roundWithAccuracy Format.binary64 sign n e accuracy = .finite sign m q hd.pos := by
  have hfloor := hrecords.floor
  rw [mantissa_ofMantissaAndAccuracy] at hfloor
  have htarget := target_of_has hd hv hfloor he
  obtain ⟨em, hshift, hshifted⟩ := exists_shiftToTargetExponent_eq hrecords he
  have hleast := hd.least_le
  rw [roundWithAccuracy, hshift]
  dsimp only
  rcases htarget with ht | ⟨ht, rfl, hround⟩
  · rw [ht] at hshifted ⊢
    rw [hshifted.roundedMantissa_eq (roundsTo_of_has hv), shiftToTargetExponent_of_lt hd.lt hleast]
    exact dif_neg hd.pos.ne'
  · have hbelow : Binary.leastExponent ≤ q - 1 := ht ▸ le_max_right _ _
    rw [ht] at hshifted ⊢
    rw [hshifted.roundedMantissa_eq hround, shiftToTargetExponent_two_pow hbelow, sub_add_cancel]
    exact dif_neg hd.pos.ne'

/-- **What is at most half of the least double is rounded to zero.** -/
theorem roundWithAccuracy_eq_zero_of_le (hpos : 0 ≤ v)
    (hv : v ≤ 2 ^ (Binary.leastExponent - 1))
    (hrecords : Records (.ofMantissaAndAccuracy n accuracy) (v / 2 ^ e))
    (he : e ≤ max (n.log2 + e - 52) Binary.leastExponent) (sign : Sign) :
    roundWithAccuracy Format.binary64 sign n e accuracy = .zero sign := by
  have hleast : (0 : ℚ) < 2 ^ Binary.leastExponent := by positivity
  have hround : RoundsTo (v / 2 ^ Binary.leastExponent) 0 := by
    rw [two_zpow_sub_one] at hv
    refine ⟨?_, ?_, fun hodd => absurd hodd (by decide)⟩
    · rw [le_div_iff₀ hleast]
      push_cast
      linarith
    · rw [div_le_iff₀ hleast]
      push_cast
      linarith
  have hfloor := hrecords.floor
  rw [mantissa_ofMantissaAndAccuracy] at hfloor
  -- the number has so few bits that the target is the least exponent
  have htarget : max (n.log2 + e - 52) Binary.leastExponent = Binary.leastExponent := by
    by_cases hn : n = 0
    · rw [hn, Nat.log2_zero] at he ⊢
      omega
    · have hexp := (zpow_le_zpow_iff_right₀ one_lt_two).mp
        ((two_zpow_le_of_floor hn hfloor.1).trans hv)
      omega
  obtain ⟨em, hshift, hshifted⟩ := exists_shiftToTargetExponent_eq hrecords he
  rw [htarget] at hshift hshifted
  rw [roundWithAccuracy, hshift]
  dsimp only
  rw [hshifted.roundedMantissa_eq hround, shiftToTargetExponent_of_lt (by decide) (le_refl _)]
  exact dif_pos rfl

end Flowchart.Number
