import Flowchart.Number.Shortest
import Mathlib.Algebra.Order.Field.Power
import Mathlib.Data.Rat.Cast.Order
import Mathlib.Tactic.FieldSimp
import Mathlib.Tactic.Linarith
import Mathlib.Tactic.NormNum
import Mathlib.Tactic.Positivity
import Mathlib.Tactic.Ring

/-!
# The numbers in an interval

The interval of a double is computed with in whole numbers. Here it is said what these computations
are about: which rational numbers lie in an interval (`Flowchart.Number.Interval.Has`), and that the
test on whole numbers answers just this for the multiples of the powers of ten
(`Flowchart.Number.Interval.contains_iff_has`).

The main result is that the digits chosen for a double are the digits of a number in its interval
(`Flowchart.Number.has_shortest`). The search for them goes through the powers of ten, the larger
ones first, and takes the first multiple it finds in the interval. What has to be shown is that it
does not come to its end without having found one: the last power is less than the distance between
any double and the upper end of its interval, so the multiple behind the double is still inside.
-/

namespace Flowchart.Number

/-! ### Doubles -/

/-- **The mantissa and the exponent of a positive double**: a mantissa of at most 53 bits, with an
exponent not too small and not too large, and of exactly 53 bits unless the exponent is the least
one. -/
structure IsDouble (m : Nat) (q : Int) : Prop where
  pos : 0 < m
  lt : m < 2 ^ 53
  least_le : Binary.leastExponent ≤ q
  le : q ≤ 971
  normal : 2 ^ 52 ≤ m ∨ q = Binary.leastExponent

variable {m : Nat} {q : Int} {v : ℚ}

/-! ### Intervals of rational numbers -/

namespace Interval

variable {i : Interval} {p : Int} {d : Nat} {tie : Tie}

/-- **A number lies in an interval**: between the two ends, which belong to the interval if it is
closed. -/
def Has (i : Interval) (v : ℚ) : Prop :=
  if i.closed then i.low * 2 ^ i.exponent ≤ v ∧ v ≤ i.high * 2 ^ i.exponent
  else i.low * 2 ^ i.exponent < v ∧ v < i.high * 2 ^ i.exponent

theorem Has.low_le (h : i.Has v) : i.low * 2 ^ i.exponent ≤ v := by
  rw [Has] at h
  split at h
  · exact h.1
  · exact h.1.le

theorem Has.le_high (h : i.Has v) : v ≤ i.high * 2 ^ i.exponent := by
  rw [Has] at h
  split at h
  · exact h.2
  · exact h.2.le

/-- What is strictly between the two ends lies in the interval. -/
theorem has_of_lt (hlow : i.low * 2 ^ i.exponent < v) (hhigh : v < i.high * 2 ^ i.exponent) :
    i.Has v := by
  rw [Has]
  split
  · exact ⟨hlow.le, hhigh.le⟩
  · exact ⟨hlow, hhigh⟩

/-! ### The units of the computation -/

theorem zpow_eq_div_toNat {b : ℚ} (hb : b ≠ 0) (e : Int) :
    b ^ e = b ^ e.toNat / b ^ (-e).toNat := by
  rw [← zpow_natCast, ← zpow_natCast, ← zpow_sub₀ hb]
  congr 1
  omega

/-- The factor by which numbers are multiplied to be compared. -/
def factor (i : Interval) (p : Int) : ℚ :=
  2 ^ (-i.exponent).toNat * 10 ^ (-p).toNat

theorem factor_pos (i : Interval) (p : Int) : 0 < i.factor p := by
  rw [factor]
  positivity

theorem scaled_eq_mul_factor (i : Interval) (p : Int) (a : Nat) :
    (i.scaled p a : ℚ) = a * 2 ^ i.exponent * i.factor p := by
  rw [scaled, factor, zpow_eq_div_toNat two_ne_zero, Nat.pow_eq, Nat.pow_eq]
  push_cast
  field_simp

theorem unit_eq_mul_factor (i : Interval) (p : Int) : (i.unit p : ℚ) = 10 ^ p * i.factor p := by
  rw [unit, factor, zpow_eq_div_toNat (by norm_num : (10 : ℚ) ≠ 0), Nat.pow_eq, Nat.pow_eq]
  push_cast
  field_simp

theorem unit_pos (i : Interval) (p : Int) : 0 < i.unit p := by
  rw [unit]
  exact Nat.mul_pos (Nat.pow_pos (by decide)) (Nat.pow_pos (by decide))

theorem mul_unit_eq_mul_factor (i : Interval) (p : Int) (d : Nat) :
    ((d * i.unit p : Nat) : ℚ) = d * 10 ^ p * i.factor p := by
  rw [Nat.cast_mul, unit_eq_mul_factor, mul_assoc]

/-- **The test on whole numbers is about the interval.** -/
theorem contains_iff_has : i.contains p d = true ↔ i.Has (d * 10 ^ p) := by
  have hfactor := i.factor_pos p
  have hle : ∀ a b : ℚ, a * i.factor p ≤ b * i.factor p ↔ a ≤ b := fun a b =>
    mul_le_mul_iff_of_pos_right hfactor
  have hlt : ∀ a b : ℚ, a * i.factor p < b * i.factor p ↔ a < b := fun a b =>
    mul_lt_mul_iff_of_pos_right hfactor
  rw [contains, Has]
  split
  · rw [Bool.and_eq_true, decide_eq_true_eq, decide_eq_true_eq, ← Nat.cast_le (α := ℚ),
      ← Nat.cast_le (α := ℚ), scaled_eq_mul_factor, scaled_eq_mul_factor, mul_unit_eq_mul_factor,
      hle, hle]
  · rw [Bool.and_eq_true, decide_eq_true_eq, decide_eq_true_eq, ← Nat.cast_lt (α := ℚ),
      ← Nat.cast_lt (α := ℚ), scaled_eq_mul_factor, scaled_eq_mul_factor, mul_unit_eq_mul_factor,
      hlt, hlt]

/-! ### The search -/

/-- What is found for a power of ten is the multiple below or above the double, and lies in the
interval. -/
theorem contains_of_nearest? (h : i.nearest? tie p = some d) : i.contains p d = true := by
  rw [nearest?.eq_def] at h
  cases hbelow : i.contains p (i.scaled p i.value / i.unit p) <;>
    cases habove : i.contains p (i.scaled p i.value / i.unit p + 1) <;>
    simp only [hbelow, habove] at h
  · exact nomatch h
  · rwa [← Option.some.inj h]
  · rwa [← Option.some.inj h]
  · split at h
    · rwa [← Option.some.inj h]
    · rwa [← Option.some.inj h]
    · cases tie with
      | up => rwa [← Option.some.inj h]
      | even =>
        rw [← Option.some.inj h]
        split
        · exact hbelow
        · exact habove

/-- Something is found for a power of ten if the multiple above the double is in the interval. -/
theorem isSome_nearest?_of_contains
    (h : i.contains p (i.scaled p i.value / i.unit p + 1) = true) :
    (i.nearest? tie p).isSome = true := by
  rw [nearest?.eq_def]
  simp only [h]
  cases i.contains p (i.scaled p i.value / i.unit p) with
  | false => rfl
  | true =>
    dsimp only
    split
    · rfl
    · rfl
    · cases tie <;> rfl

/-- **The search finds a number in the interval**, if there is one for the last power of ten. -/
theorem has_coarsest {floor : Int} (hfloor : (i.nearest? tie floor).isSome = true) (n : Nat) :
    i.Has ((i.coarsest tie floor n).coefficient * 10 ^ (i.coarsest tie floor n).exponent) := by
  induction n with
  | zero =>
    obtain ⟨d, hd⟩ := Option.isSome_iff_exists.mp hfloor
    rw [coarsest, hd, Option.getD_some]
    exact contains_iff_has.mp (contains_of_nearest? hd)
  | succ n ih =>
    rw [coarsest]
    cases hd : i.nearest? tie (n + 1 + floor) with
    | none => exact ih
    | some d => exact contains_iff_has.mp (contains_of_nearest? hd)

/-! ### The interval of a double -/

theorem exponent_ofParts (m : Nat) (q : Int) : (ofParts m q).exponent = q - 2 := rfl

/-- The last power of ten is less than half of the unit of any double. -/
theorem ten_zpow_finest_lt (hq : Binary.leastExponent ≤ q) :
    (10 : ℚ) ^ finest < 2 * 2 ^ (q - 2) := by
  have hle : (2 : ℚ) ^ (-1075 : ℤ) ≤ 2 ^ (q - 1) := by
    refine zpow_le_zpow_right₀ (by norm_num) ?_
    rw [Binary.leastExponent] at hq
    omega
  have hunit : (2 : ℚ) * 2 ^ (q - 2) = 2 ^ (q - 1) := by
    rw [mul_comm, ← zpow_add_one₀ two_ne_zero]
    congr 1
    omega
  have hlt : (10 : ℚ) ^ finest < 2 ^ (-1075 : ℤ) := by
    rw [finest, zpow_neg, zpow_neg]
    refine inv_strictAnti₀ (by positivity) ?_
    have hnat : 2 ^ 1075 < 10 ^ 324 := by decide +kernel
    exact_mod_cast hnat
  rw [hunit]
  exact hlt.trans_le hle

/-- The multiple of the last power of ten behind a double lies in the interval of the double. -/
theorem contains_finest (hq : Binary.leastExponent ≤ q) :
    let i := ofParts m q
    i.contains finest (i.scaled finest i.value / i.unit finest + 1) = true := by
  intro i
  rw [contains_iff_has]
  have hfactor := i.factor_pos finest
  have hu : (0 : ℚ) < 2 ^ i.exponent := by positivity
  have hstep : (10 : ℚ) ^ finest < 2 * 2 ^ i.exponent := ten_zpow_finest_lt hq
  have hlow : (i.low : ℚ) + 1 ≤ i.value ∨ i.low = i.value := by
    by_cases hm : m = 0
    · right
      simp [i, ofParts, hm]
    · left
      have hnat : i.low + 1 ≤ i.value := by
        simp only [i, ofParts]
        split <;> omega
      exact_mod_cast hnat
  have hhigh : (i.high : ℚ) = i.value + 2 := by
    simp [i, ofParts]
  -- the multiple behind the double is behind it by at most one power
  have hbelow : (i.scaled finest i.value / i.unit finest) * i.unit finest ≤
      i.scaled finest i.value := Nat.div_mul_le_self _ _
  have habove : i.scaled finest i.value <
      (i.scaled finest i.value / i.unit finest + 1) * i.unit finest := by
    have hlt := Nat.lt_div_mul_add (a := i.scaled finest i.value) (i.unit_pos finest)
    rw [Nat.add_mul, Nat.one_mul]
    exact hlt
  generalize i.scaled finest i.value / i.unit finest = below at *
  have hbelow' : (below : ℚ) * 10 ^ finest ≤ i.value * 2 ^ i.exponent := by
    have hcast := Nat.cast_le (α := ℚ).mpr hbelow
    rw [mul_unit_eq_mul_factor, scaled_eq_mul_factor] at hcast
    exact le_of_mul_le_mul_right hcast hfactor
  have habove' : i.value * 2 ^ i.exponent < ((below + 1 : Nat) : ℚ) * 10 ^ finest := by
    have hcast := Nat.cast_lt (α := ℚ).mpr habove
    rw [mul_unit_eq_mul_factor, scaled_eq_mul_factor] at hcast
    exact lt_of_mul_lt_mul_right hcast hfactor.le
  refine has_of_lt ?_ ?_
  · refine lt_of_le_of_lt (mul_le_mul_of_nonneg_right ?_ hu.le) habove'
    rcases hlow with hlow | hlow
    · linarith
    · rw [hlow]
  · rw [hhigh, add_mul, Nat.cast_add, Nat.cast_one, add_mul, one_mul]
    linarith

end Interval

/-! ### The fewest digits -/

/-- **The digits of a double denote a number in its interval.** -/
theorem has_shortest (tie : Tie) (hq : Binary.leastExponent ≤ q) :
    (Interval.ofParts m q).Has
      ((shortest tie m q).coefficient * 10 ^ (shortest tie m q).exponent) :=
  Interval.has_coarsest (Interval.isSome_nearest?_of_contains (Interval.contains_finest hq)) _

/-- A double that is not zero has digits that are not all zero. -/
theorem coefficient_shortest_pos (tie : Tie) (hm : 0 < m) (hq : Binary.leastExponent ≤ q) :
    0 < (shortest tie m q).coefficient := by
  have hhas := (has_shortest tie hq (m := m)).low_le
  have hlow : 0 < (Interval.ofParts m q).low := by
    simp only [Interval.ofParts]
    split <;> omega
  have hpos : (0 : ℚ) < (Interval.ofParts m q).low * 2 ^ (Interval.ofParts m q).exponent := by
    have hcast : (0 : ℚ) < (Interval.ofParts m q).low := by exact_mod_cast hlow
    positivity
  rw [Nat.pos_iff_ne_zero]
  intro hzero
  rw [hzero, Nat.cast_zero, zero_mul] at hhas
  linarith

end Flowchart.Number
