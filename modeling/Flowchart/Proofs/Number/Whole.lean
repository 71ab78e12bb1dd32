import Flowchart.Proofs.Number.Nearest
import Mathlib.Algebra.Order.Floor.Semiring
import Mathlib.Data.Int.Log
import Mathlib.Data.Rat.Floor

/-!
# The double nearest to a whole number

A whole number with many bits is not a double, and is replaced by the nearest one. What *nearest*
means is said here without bits (`Flowchart.Number.IsNearest`): no finite double is nearer to the
number, and if another one is as near, then the last bit of the nearest one is zero.

Two steps lead from there to the whole numbers. The first is that a double is nearest to the numbers
in its interval (`Flowchart.Number.isNearest_double_of_has`), because the mean of two doubles is
never inside the interval of one of them (`Flowchart.Number.sum_le_or_le`). The second is that every
number within range lies in the interval of some double (`Flowchart.Number.exists_has_of_lt`). It is
found by rounding the number in units of its 53rd bit, which may carry into one bit more.
-/

namespace Flowchart.Number

variable {x : Float} {m n k : Nat} {q e : Int} {negative : Bool} {u v w : ℚ}

/-! ### What is nearest -/

/-- The number that the parts of a finite double denote. -/
def Binary.value : Binary → ℚ
  | finite negative m q => if negative then -(m * 2 ^ q) else m * 2 ^ q
  | _ => 0

/-- **The number that a finite double denotes.** -/
def exactValue (x : Float) : ℚ :=
  (Binary.ofFloat x).value

/-- **The double nearest to a number**: the double is finite and has the sign of the number, no
finite double is nearer, and if another one is as near, its own last bit is zero. -/
structure IsNearest (x : Float) (v : ℚ) : Prop where
  isFinite : x.isFinite = true
  sign : x.toBits.toNat < 2 ^ 63 ↔ 0 ≤ v
  le : ∀ y : Float, y.isFinite = true → |exactValue x - v| ≤ |exactValue y - v|
  even : ∀ y : Float, y.isFinite = true → exactValue y ≠ exactValue x →
    |exactValue y - v| = |exactValue x - v| → x.toBits.toNat % 2 = 0

/-- Which of two numbers is nearer depends on the side of them and of their mean. -/
theorem abs_sub_le_abs_sub_iff : |u - v| ≤ |w - v| ↔ 0 ≤ (w - u) * (w + u - 2 * v) := by
  have hsquares : (w - v) ^ 2 - (u - v) ^ 2 = (w - u) * (w + u - 2 * v) := by ring
  rw [← sq_le_sq, ← sub_nonneg, hsquares]

/-! ### The interval of a double -/

/-- The upper end of the interval of a double is half a place above it. -/
theorem high_mul_unit (m : Nat) (q : Int) :
    ((Interval.ofParts m q).high * 2 ^ (q - 2) : ℚ) = (m + 1 / 2) * 2 ^ q := by
  rw [two_zpow_sub_two, Interval.ofParts]
  push_cast
  ring

/-- The lower end is half a place below it, and one quarter for a power of two. -/
theorem low_mul_unit (hm : 0 < m) (q : Int) :
    ((Interval.ofParts m q).low * 2 ^ (q - 2) : ℚ) =
      (m - if m = 2 ^ 52 ∧ Binary.leastExponent < q then 1 / 4 else 1 / 2) * 2 ^ q := by
  rw [two_zpow_sub_two]
  simp only [Interval.ofParts, Nat.pow_eq]
  split
  · rw [Nat.cast_sub (by omega)]
    push_cast
    ring
  · rw [Nat.cast_sub (by omega)]
    push_cast
    ring

/-- The lower end is at most half a place below. -/
theorem le_low_mul_unit (hm : 0 < m) (q : Int) :
    (m - 1 / 2) * 2 ^ q ≤ ((Interval.ofParts m q).low * 2 ^ (q - 2) : ℚ) := by
  have hq : (0 : ℚ) < 2 ^ q := by positivity
  rw [low_mul_unit hm]
  split <;> linarith

/-- **What lies in the interval of a double**: the ends do so unless the mantissa is odd. -/
theorem has_ofParts_iff :
    (Interval.ofParts m q).Has v ↔
      ((Interval.ofParts m q).low * 2 ^ (q - 2) ≤ v ∧
        v ≤ (Interval.ofParts m q).high * 2 ^ (q - 2)) ∧
      (m % 2 = 1 → (Interval.ofParts m q).low * 2 ^ (q - 2) < v ∧
        v < (Interval.ofParts m q).high * 2 ^ (q - 2)) := by
  rw [Interval.Has, Interval.exponent_ofParts]
  by_cases hodd : m % 2 = 1
  · rw [if_neg (by simp [Interval.ofParts, hodd])]
    exact ⟨fun h => ⟨⟨h.1.le, h.2.le⟩, fun _ => h⟩, fun h => h.2 hodd⟩
  · rw [if_pos (by simpa [Interval.ofParts] using hodd)]
    exact ⟨fun h => ⟨h, fun h' => absurd h' hodd⟩, And.left⟩

/-! ### The mean of two doubles -/

/-- The mantissa and the exponent of a finite double are within bounds. -/
theorem bounds_of_ofFloat_eq (hx : Binary.ofFloat x = .finite negative m q) :
    m < 2 ^ 53 ∧ Binary.leastExponent ≤ q := by
  rcases Nat.eq_zero_or_pos m with rfl | hm
  · obtain ⟨sign, biased, fraction, hbits⟩ := exists_hasBits x
    obtain ⟨-, -, ⟨-, -, rfl⟩ | ⟨-, hzero, -⟩⟩ := hbits.of_ofFloat_eq_finite hx
    · exact ⟨by decide, le_refl _⟩
    · omega
  · have hd := isDouble_of_ofFloat_eq hx hm
    exact ⟨hd.lt, hd.least_le⟩

/-- A number that is not positive has its mean with a double below the interval. -/
theorem sum_le_low_of_nonpos (hm : 0 < m) (hw : w ≤ 0) (q : Int) :
    w + m * 2 ^ q ≤ 2 * ((Interval.ofParts m q).low * 2 ^ (q - 2)) := by
  have hlow := le_low_mul_unit hm q
  have hone : (1 : ℚ) ≤ m := by exact_mod_cast hm
  have hmul := mul_le_mul_of_nonneg_right hone (by positivity : (0 : ℚ) ≤ 2 ^ q)
  linarith

/-- So has a double with smaller places: it lies below all doubles that have 53 bits of the larger
ones. -/
theorem sum_le_low_of_lt (hd : IsDouble m q) (hk : k < 2 ^ 53) (he : Binary.leastExponent ≤ e)
    (hlt : e < q) :
    (k * 2 ^ e + m * 2 ^ q : ℚ) ≤ 2 * ((Interval.ofParts m q).low * 2 ^ (q - 2)) := by
  have hnormal : 2 ^ 52 ≤ m := hd.normal.resolve_right (by omega)
  have hq : (0 : ℚ) < 2 ^ q := by positivity
  have hother : (k * 2 ^ e : ℚ) ≤ (2 ^ 52 - 1 / 2) * 2 ^ q := by
    have hk' : (k : ℚ) + 1 ≤ 2 ^ 53 := by exact_mod_cast hk
    have hpow : (2 : ℚ) ^ e ≤ 2 ^ q / 2 := by
      rw [← two_zpow_sub_one]
      exact zpow_le_zpow_right₀ one_le_two (by omega)
    calc (k * 2 ^ e : ℚ) ≤ (2 ^ 53 - 1) * (2 ^ q / 2) :=
          mul_le_mul (by linarith) hpow (by positivity) (by norm_num)
      _ = (2 ^ 52 - 1 / 2) * 2 ^ q := by ring
  rw [low_mul_unit hd.pos]
  split
  · next hpower =>
    rw [hpower.1]
    push_cast
    linarith
  · next hpower =>
    have hm : (2 : ℚ) ^ 52 + 1 ≤ m := by
      have hne : m ≠ 2 ^ 52 := fun heq => hpower ⟨heq, by omega⟩
      have hnat : 2 ^ 52 + 1 ≤ m := by omega
      exact_mod_cast hnat
    have hmul := mul_le_mul_of_nonneg_right hm hq.le
    linarith

/-- A multiple of the place of a double differs from it by at least one place. -/
theorem sum_le_or_le_of_multiple (hne : k ≠ m) (hm : 0 < m) (q : Int) :
    (k * 2 ^ q + m * 2 ^ q : ℚ) ≤ 2 * ((Interval.ofParts m q).low * 2 ^ (q - 2)) ∨
      2 * ((Interval.ofParts m q).high * 2 ^ (q - 2)) ≤ (k * 2 ^ q + m * 2 ^ q : ℚ) := by
  have hq : (0 : ℚ) < 2 ^ q := by positivity
  rcases Nat.lt_or_gt_of_ne hne with hlt | hgt
  · left
    have hlow := le_low_mul_unit hm q
    have hcast : (k : ℚ) + 1 ≤ m := by exact_mod_cast hlt
    have hmul := mul_le_mul_of_nonneg_right hcast hq.le
    linarith
  · right
    have hcast : (m : ℚ) + 1 ≤ k := by exact_mod_cast hgt
    have hmul := mul_le_mul_of_nonneg_right hcast hq.le
    rw [high_mul_unit]
    linarith

/-- **The mean of two doubles is not inside the interval of one of them.** -/
theorem sum_le_or_le (hd : IsDouble m q) (hx : x.isFinite = true)
    (hne : exactValue x ≠ m * 2 ^ q) :
    exactValue x + m * 2 ^ q ≤ 2 * ((Interval.ofParts m q).low * 2 ^ (q - 2)) ∨
      2 * ((Interval.ofParts m q).high * 2 ^ (q - 2)) ≤ exactValue x + m * 2 ^ q := by
  obtain ⟨negative, k, e, hparts⟩ := isFinite_iff.mp hx
  obtain ⟨hk, he⟩ := bounds_of_ofFloat_eq hparts
  rw [exactValue, hparts, Binary.value] at hne ⊢
  cases negative with
  | true =>
    rw [if_pos rfl]
    exact .inl (sum_le_low_of_nonpos hd.pos (neg_nonpos.mpr (by positivity)) q)
  | false =>
    rw [if_neg Bool.false_ne_true] at hne ⊢
    rcases Int.lt_or_le e q with hlt | hle
    · exact .inl (sum_le_low_of_lt hd hk he hlt)
    · -- a double with larger places is a multiple of the smaller ones
      have hmultiple : (k * 2 ^ e : ℚ) = (k * 2 ^ (e - q).toNat : Nat) * 2 ^ q := by
        rw [Nat.cast_mul, mul_assoc, Nat.cast_pow, Nat.cast_two, ← zpow_natCast,
          ← zpow_add₀ two_ne_zero]
        congr 2
        omega
      rw [hmultiple] at hne ⊢
      refine sum_le_or_le_of_multiple (fun heq => hne ?_) hd.pos q
      rw [heq]

/-! ### The numbers in an interval -/

/-- The last bit of a double is the last bit of its mantissa. -/
theorem toBits_double (hd : IsDouble m q) :
    (double false hd).toBits.toNat < 2 ^ 63 ∧ (double false hd).toBits.toNat % 2 = m % 2 := by
  obtain ⟨-, hbiased, hfraction, hbits⟩ := hasBits_double false hd
  rw [Bool.toNat_false] at hbits
  omega

theorem exactValue_double (hd : IsDouble m q) : exactValue (double false hd) = m * 2 ^ q := by
  rw [exactValue, ofFloat_double, Binary.value, if_neg Bool.false_ne_true]

/-- **A double is nearest to the numbers in its interval.** -/
theorem isNearest_double_of_has (hd : IsDouble m q) (hv : (Interval.ofParts m q).Has v) :
    IsNearest (double false hd) v := by
  obtain ⟨hends, hopen⟩ := has_ofParts_iff.mp hv
  obtain ⟨hself, -⟩ := has_ofParts_iff.mp (has_self hd)
  obtain ⟨hsign, hlast⟩ := toBits_double hd
  have hpos : 0 ≤ v := le_trans (by positivity) hends.1
  refine ⟨isFinite_iff.mpr ⟨_, _, _, ofFloat_double false hd⟩, iff_of_true hsign hpos,
    fun y hy => ?_, fun y hy hne heq => ?_⟩
  · rw [exactValue_double, abs_sub_le_abs_sub_iff]
    by_cases hne : exactValue y = m * 2 ^ q
    · rw [hne, sub_self, zero_mul]
    · rcases sum_le_or_le hd hy hne with hsum | hsum
      · exact mul_nonneg_of_nonpos_of_nonpos (by linarith) (by linarith)
      · exact mul_nonneg (by linarith) (by linarith)
  · -- a number as near to another double is an end of the interval
    rw [exactValue_double] at hne heq
    rw [hlast]
    by_contra hodd
    have hstrict := hopen (Nat.mod_two_ne_zero.mp hodd)
    have hle := abs_sub_le_abs_sub_iff.mp heq.le
    rcases sum_le_or_le hd hy hne with hsum | hsum
    · have hlt : exactValue y < m * 2 ^ q := lt_of_le_of_ne (by linarith) hne
      linarith [mul_pos (sub_pos.mpr hlt) (by linarith : 0 < 2 * v - (m * 2 ^ q + exactValue y))]
    · have hlt : m * 2 ^ q < exactValue y := lt_of_le_of_ne (by linarith) (Ne.symm hne)
      linarith [mul_pos (sub_pos.mpr hlt) (by linarith : 0 < m * 2 ^ q + exactValue y - 2 * v)]

/-! ### The double for a number -/

/-- **Every number that is not negative rounds to a natural number.** -/
theorem exists_roundsTo (hv : 0 ≤ v) : ∃ m, RoundsTo v m := by
  have hle : (⌊v⌋₊ : ℚ) ≤ v := Nat.floor_le hv
  have hlt : v < ⌊v⌋₊ + 1 := Nat.lt_floor_add_one v
  generalize ⌊v⌋₊ = n at hle hlt
  rcases lt_trichotomy v (n + 1 / 2) with hhalf | hhalf | hhalf
  · exact ⟨n, by linarith, hhalf.le, fun _ => ⟨by linarith, hhalf⟩⟩
  · -- of the two neighbours the even one is taken
    rcases Nat.mod_two_eq_zero_or_one n with heven | hodd
    · exact ⟨n, by linarith, hhalf.le, fun hodd => by omega⟩
    · refine ⟨n + 1, ?_, ?_, fun heven => by omega⟩ <;> push_cast <;> linarith
  · refine ⟨n + 1, ?_, ?_, fun _ => ⟨?_, ?_⟩⟩ <;> push_cast <;> linarith

/-- **What rounds to the mantissa of a double lies in its interval**, if it is not below the power
of two that has as many bits. -/
theorem has_of_roundsTo (hround : RoundsTo (v / 2 ^ q) m) (hm : 2 ^ 52 ≤ m)
    (hlow : 2 ^ 52 * 2 ^ q ≤ v) : (Interval.ofParts m q).Has v := by
  have hq : (0 : ℚ) < 2 ^ q := by positivity
  obtain ⟨hle, hge, hstrict⟩ := hround
  rw [le_div_iff₀ hq] at hle
  rw [div_le_iff₀ hq] at hge
  rw [lt_div_iff₀ hq, div_lt_iff₀ hq] at hstrict
  rw [has_ofParts_iff, high_mul_unit, low_mul_unit (by omega)]
  split
  · next hpower =>
    have hodd : ¬ m % 2 = 1 := by rw [hpower.1]; decide
    refine ⟨⟨?_, hge⟩, fun h => absurd h hodd⟩
    rw [hpower.1]
    push_cast
    linarith
  · exact ⟨⟨hle, hge⟩, hstrict⟩

/-- **A number below a power of two lies in the interval of the power** if it rounds to the power
with one bit more. -/
theorem has_two_pow_of_roundsTo (hleast : Binary.leastExponent ≤ q)
    (hround : RoundsTo (v / 2 ^ q) (2 ^ 53)) (hhigh : v < 2 ^ 53 * 2 ^ q) :
    (Interval.ofParts (2 ^ 52) (q + 1)).Has v := by
  have hq : (0 : ℚ) < 2 ^ q := by positivity
  have hle := hround.le
  rw [le_div_iff₀ hq] at hle
  have hdouble : (2 : ℚ) ^ (q + 1) = 2 * 2 ^ q := by
    rw [zpow_add_one₀ two_ne_zero, mul_comm]
  rw [has_ofParts_iff, high_mul_unit, low_mul_unit (by decide), if_pos ⟨rfl, by omega⟩, hdouble]
  refine ⟨?_, fun hodd => absurd hodd (by decide)⟩
  push_cast at hle ⊢
  constructor <;> linarith

/-- Half a place above the largest double: from here on, numbers are taken to infinity. -/
def overflowBound : ℚ :=
  (2 ^ 53 - 1 / 2) * 2 ^ (971 : Int)

theorem overflowBound_lt : overflowBound < 2 ^ (1024 : Int) := by
  have hpow : (2 : ℚ) ^ (1024 : Int) = 2 ^ 53 * 2 ^ (971 : Int) := two_zpow_add 53 971
  rw [overflowBound, hpow]
  exact mul_lt_mul_of_pos_right (by norm_num) (by positivity)

theorem two_zpow_lt_overflowBound : 2 ^ (1023 : Int) < overflowBound := by
  have hpow : (2 : ℚ) ^ (1023 : Int) = 2 ^ 52 * 2 ^ (971 : Int) := two_zpow_add 52 971
  rw [overflowBound, hpow]
  exact mul_lt_mul_of_pos_right (by norm_num) (by positivity)

/-- A number with 53 bits before its last place lies in the interval of a double. -/
theorem exists_has (hleast : Binary.leastExponent ≤ q) (hle : q ≤ 971) (hlow : 2 ^ 52 * 2 ^ q ≤ v)
    (hhigh : v < 2 ^ 53 * 2 ^ q) (hbound : v < overflowBound) :
    ∃ m q', IsDouble m q' ∧ 2 ^ 52 ≤ m ∧ (Interval.ofParts m q').Has v := by
  have hq : (0 : ℚ) < 2 ^ q := by positivity
  have hpos : 0 ≤ v := le_trans (by positivity) hlow
  obtain ⟨m, hround⟩ := exists_roundsTo (div_nonneg hpos hq.le)
  have hm : 2 ^ 52 ≤ m := by
    refine le_of_cast_lt_add_one ?_
    have hlow' := (le_div_iff₀ hq).mpr hlow
    have hge := hround.ge
    push_cast
    linarith
  have hm' : m ≤ 2 ^ 53 := by
    refine le_of_cast_lt_add_one ?_
    have hhigh' := (div_lt_iff₀ hq).mpr hhigh
    have hle' := hround.le
    push_cast
    linarith
  rcases Nat.lt_or_eq_of_le hm' with hlt | rfl
  · exact ⟨m, q, ⟨by omega, hlt, hleast, hle, .inl hm⟩, hm, has_of_roundsTo hround hm hlow⟩
  · -- the carry makes one bit more, for which there is room below the bound
    have hroom : q ≠ 971 := by
      intro heq
      have hround' := (le_div_iff₀ hq).mp hround.le
      rw [overflowBound, ← heq] at hbound
      push_cast at hround'
      linarith
    exact ⟨2 ^ 52, q + 1, ⟨by decide, by decide, by omega, by omega, .inl (le_refl _)⟩, le_refl _,
      has_two_pow_of_roundsTo hleast hround hhigh⟩

/-- **Every number within range lies in the interval of a double** with 53 bits. -/
theorem exists_has_of_lt (hlow : 2 ^ (-1022 : Int) ≤ v) (hbound : v < overflowBound) :
    ∃ m q, IsDouble m q ∧ 2 ^ 52 ≤ m ∧ (Interval.ofParts m q).Has v := by
  have hpos : 0 < v := lt_of_lt_of_le (by positivity) hlow
  have hfloor : (2 : ℚ) ^ Int.log 2 v ≤ v := by
    exact_mod_cast Int.zpow_log_le_self one_lt_two hpos
  have hceil : v < (2 : ℚ) ^ (Int.log 2 v + 1) := by
    exact_mod_cast Int.lt_zpow_succ_log_self one_lt_two v
  have hmin : -1022 < Int.log 2 v + 1 := lt_of_two_zpow_lt (hlow.trans_lt hceil)
  have hmax : Int.log 2 v < 1024 :=
    lt_of_two_zpow_lt ((hfloor.trans_lt hbound).trans overflowBound_lt)
  have hleast : Binary.leastExponent = -1074 := rfl
  refine exists_has (q := Int.log 2 v - 52) (by omega) (by omega) ?_ ?_ hbound
  · rw [← two_zpow_add]
    convert hfloor using 2
    omega
  · rw [← two_zpow_add]
    convert hceil using 2
    omega

/-- **Every positive number within range** lies in the interval of a double, unless it is at most
half of the least one. -/
theorem exists_has_or_le (hpos : 0 < v) (hbound : v < overflowBound) :
    (∃ m q, IsDouble m q ∧ (Interval.ofParts m q).Has v) ∨
      v ≤ 2 ^ (Binary.leastExponent - 1) := by
  rcases le_or_gt (2 ^ (-1022 : Int)) v with hlow | hlow
  · obtain ⟨m, q, hd, -, hhas⟩ := exists_has_of_lt hlow hbound
    exact .inl ⟨m, q, hd, hhas⟩
  -- below the normal doubles the places do not get smaller, and the number is rounded to them
  have hq : (0 : ℚ) < 2 ^ Binary.leastExponent := by positivity
  obtain ⟨m, hround⟩ := exists_roundsTo (div_nonneg hpos.le hq.le)
  obtain ⟨hle, hge, hstrict⟩ := hround
  rw [le_div_iff₀ hq] at hle
  rw [div_le_iff₀ hq] at hge
  rw [lt_div_iff₀ hq, div_lt_iff₀ hq] at hstrict
  rcases Nat.eq_zero_or_pos m with rfl | hm
  · right
    rw [two_zpow_sub_one]
    rw [Nat.cast_zero] at hge
    linarith
  · left
    have hm' : m ≤ 2 ^ 52 := by
      refine le_of_cast_lt_add_one (lt_of_mul_lt_mul_right ?_ hq.le)
      have hpow : (2 : ℚ) ^ (-1022 : Int) = 2 ^ 52 * 2 ^ Binary.leastExponent :=
        two_zpow_add 52 Binary.leastExponent
      rw [hpow] at hlow
      push_cast
      linarith
    refine ⟨m, Binary.leastExponent, ⟨hm, by omega, le_refl _, by decide, .inr rfl⟩, ?_⟩
    rw [has_ofParts_iff, high_mul_unit, low_mul_unit hm, if_neg (fun h => lt_irrefl _ h.2)]
    exact ⟨⟨hle, hge⟩, hstrict⟩

/-! ### Whole numbers -/

/-- Zero is converted exactly. -/
theorem isNearest_ofNat_zero : IsNearest (Float.ofNat 0) 0 := by
  have hparts : Binary.ofFloat (Float.ofNat 0) = .finite false 0 Binary.leastExponent := by
    decide +kernel
  have hvalue : exactValue (Float.ofNat 0) = 0 := by
    rw [exactValue, hparts, Binary.value, if_neg Bool.false_ne_true, Nat.cast_zero, zero_mul]
  refine ⟨isFinite_iff.mpr ⟨_, _, _, hparts⟩, by decide +kernel, fun y _ => ?_,
    fun y _ hne heq => absurd ?_ hne⟩
  · rw [hvalue, sub_zero, abs_zero]
    exact abs_nonneg _
  · rw [hvalue] at heq ⊢
    rwa [sub_zero, sub_zero, abs_zero, abs_eq_zero] at heq

/-- A whole number other than zero is converted to a double of 53 bits, in whose interval it is. -/
theorem exists_ofNat_eq (hpos : 0 < n) (hlog : n.log2 < 1023) :
    ∃ (m : Nat) (q : Int) (hd : IsDouble m q), 2 ^ 52 ≤ m ∧ (Interval.ofParts m q).Has n ∧
      Float.ofNat n = double false hd := by
  have hone : (1 : ℚ) ≤ n := by exact_mod_cast hpos
  have hlow : (2 : ℚ) ^ (-1022 : Int) ≤ n :=
    (zpow_le_one_of_nonpos₀ one_le_two (by decide)).trans hone
  have hbound : (n : ℚ) < overflowBound := by
    have hbits := lt_two_zpow_of_floor (v := n) (n := n) (e := 0) (by simp)
    refine (hbits.trans_le ?_).trans two_zpow_lt_overflowBound
    exact zpow_le_zpow_right₀ one_le_two (by omega)
  obtain ⟨m, q, hd, hm, hhas⟩ := exists_has_of_lt hlow hbound
  refine ⟨m, q, hd, hm, hhas, ofScientific_eq_of_has (e := 0) hd hpos ?_⟩
  rwa [zpow_zero, mul_one]

/-- **A whole number is converted to the double nearest to it.** -/
theorem isNearest_ofNat (hlog : n.log2 < 1023) : IsNearest (Float.ofNat n) n := by
  rcases Nat.eq_zero_or_pos n with rfl | hpos
  · exact_mod_cast isNearest_ofNat_zero
  · obtain ⟨m, q, hd, -, hhas, heq⟩ := exists_ofNat_eq hpos hlog
    rw [heq]
    exact isNearest_double_of_has hd hhas

end Flowchart.Number
