import Flowchart.Number.Decimal
import Mathlib.Data.List.Forall2
import Mathlib.Data.Nat.Digits.Defs
import Mathlib.Tactic.Ring

/-!
# Numbers in another base

Which rows of characters spell which numbers is said here from the side of the number
(`Flowchart.Number.Spells`): a number has digits in a base, and each digit has its characters, a
letter from ten on and that in either case. Reading goes the other way, character by character with
the value so far, and is shown to find exactly the numbers that are spelled
(`Flowchart.Number.valueIn?_eq_some_iff`).

A word of 64 bits is read from every such row whose number is small enough, and from such a row with
one plus sign in front of it, and from nothing else (`Flowchart.Number.word64?_eq_some_iff`).
-/

namespace Flowchart.Number

variable {base n d before : Nat} {c : Char} {cs : List Char} {digits : List Nat}

/-! ### Digits and characters -/

/-- **A digit and its character**: from ten on the digits are letters, in either case. -/
def WrittenAs (d : Nat) (c : Char) : Prop :=
  c = Nat.digitChar d ∨ c = (Nat.digitChar d).toUpper

instance (d : Nat) (c : Char) : Decidable (WrittenAs d c) :=
  inferInstanceAs (Decidable (_ ∨ _))

theorem toNat_of_isLower (h : c.isLower = true) : 97 ≤ c.toNat ∧ c.toNat ≤ 122 := by
  have hbounds : (decide ('a'.val ≤ c.val) && decide (c.val ≤ 'z'.val)) = true := h
  rwa [Bool.and_eq_true, decide_eq_true_eq, decide_eq_true_eq, UInt32.le_iff_toNat_le,
    UInt32.le_iff_toNat_le] at hbounds

theorem toNat_of_isUpper (h : c.isUpper = true) : 65 ≤ c.toNat ∧ c.toNat ≤ 90 := by
  have hbounds : 'A'.val ≤ c.val ∧ c.val ≤ 'Z'.val := of_decide_eq_true h
  rwa [UInt32.le_iff_toNat_le, UInt32.le_iff_toNat_le] at hbounds

/-- Every digit is read from its characters. -/
theorem digitValue?_of_writtenAs (hbase : base ≤ 16) (hd : d < base) (h : WrittenAs d c) :
    digitValue? base c = some d := by
  have hsixteen : ∀ d < 16, digitValue? 16 (Nat.digitChar d) = some d ∧
      digitValue? 16 (Nat.digitChar d).toUpper = some d := by decide
  have hread : digitValue? 16 c = some d := by
    obtain ⟨hlower, hupper⟩ := hsixteen d (by omega)
    rcases h with rfl | rfl
    · exact hlower
    · exact hupper
  -- a smaller base only leaves digits out
  rw [digitValue?, Option.filter_eq_some_iff] at hread ⊢
  exact ⟨hread.1, decide_eq_true hd⟩

/-- What is read from a character is a digit that it writes. -/
theorem writtenAs_of_digitValue? (hbase : base ≤ 16) (h : digitValue? base c = some d) :
    d < base ∧ WrittenAs d c := by
  have hletter : ∀ d < 16, 10 ≤ d → (Nat.digitChar d).toNat = d + 87 ∧
      (Nat.digitChar d).toUpper.toNat = d + 55 := by decide
  rw [digitValue?, Option.filter_eq_some_iff] at h
  obtain ⟨hvalue, hlt⟩ := h
  have hd : d < base := of_decide_eq_true hlt
  refine ⟨hd, ?_⟩
  -- the three rows of characters are compared by their numbers
  rw [WrittenAs, ← Char.toNat_inj, ← Char.toNat_inj]
  split at hvalue
  · next hdigit =>
    obtain ⟨hlow, hhigh⟩ := Char.isDigit_iff_toNat.mp hdigit
    obtain rfl := Option.some.inj hvalue
    simp only [Char.reduceToNat] at hlow hhigh ⊢
    left
    rw [Nat.toNat_digitChar_of_lt_ten (by omega)]
    omega
  · split at hvalue
    · next hlower =>
      obtain ⟨hlow, hhigh⟩ := toNat_of_isLower hlower
      obtain rfl := Option.some.inj hvalue
      simp only [Char.reduceToNat] at hd ⊢
      left
      rw [(hletter _ (by omega) (by omega)).1]
      omega
    · split at hvalue
      · next hupper =>
        obtain ⟨hlow, hhigh⟩ := toNat_of_isUpper hupper
        obtain rfl := Option.some.inj hvalue
        simp only [Char.reduceToNat] at hd ⊢
        right
        rw [(hletter _ (by omega) (by omega)).2]
        omega
      · exact nomatch hvalue

/-- **Which digit is read from which character.** -/
theorem digitValue?_eq_some_iff (hbase : base ≤ 16) :
    digitValue? base c = some d ↔ d < base ∧ WrittenAs d c :=
  ⟨writtenAs_of_digitValue? hbase, fun ⟨hd, h⟩ => digitValue?_of_writtenAs hbase hd h⟩

/-! ### Rows of digits -/

/-- A row of characters writes a row of digits of a base. -/
def Writes (base : Nat) (digits : List Nat) (cs : List Char) : Prop :=
  List.Forall₂ (fun d c => d < base ∧ WrittenAs d c) digits cs

/-- **A row of characters spells a number in a base**: it writes one or more digits of the base, the
most significant one first. -/
def Spells (base : Nat) (cs : List Char) (n : Nat) : Prop :=
  ∃ digits, digits ≠ [] ∧ Writes base digits cs ∧ n = Nat.ofDigits base digits.reverse

/-- **Reading finds what is written**, with the digits before it in front. -/
theorem valueIn?_eq_some_iff (hbase : base ≤ 16) :
    valueIn? base cs before = some n ↔
      ∃ digits, Writes base digits cs ∧
        n = base ^ digits.length * before + Nat.ofDigits base digits.reverse := by
  induction cs generalizing before with
  | nil => simp [valueIn?, Writes, eq_comm]
  | cons c cs ih =>
    simp only [valueIn?, Option.bind_eq_bind, Option.bind_eq_some_iff, ih,
      digitValue?_eq_some_iff hbase]
    constructor
    · rintro ⟨d, hd, digits, hdigits, rfl⟩
      refine ⟨d :: digits, .cons hd hdigits, ?_⟩
      rw [Nat.ofDigits_reverse_cons, List.length_cons]
      ring
    · rintro ⟨digits, hdigits, rfl⟩
      cases hdigits with
      | @cons d _ digits _ hd hdigits =>
        refine ⟨d, hd, digits, hdigits, ?_⟩
        rw [Nat.ofDigits_reverse_cons, List.length_cons]
        ring

/-- **A row of characters spells one number at most.** -/
theorem Spells.unique {m : Nat} (hbase : base ≤ 16) (hm : Spells base cs m)
    (hn : Spells base cs n) : m = n := by
  have hread : ∀ {n}, Spells base cs n → valueIn? base cs 0 = some n := by
    rintro n ⟨digits, -, hwrites, rfl⟩
    exact (valueIn?_eq_some_iff hbase).mpr ⟨digits, hwrites, by simp⟩
  exact Option.some.inj ((hread hm).symm.trans (hread hn))

theorem not_spells_nil : ¬ Spells base [] n := by
  rintro ⟨digits, hne, hwrites, -⟩
  cases hwrites
  exact hne rfl

/-- No spelling starts with a plus sign. -/
theorem not_spells_plus (hbase : base ≤ 16) {rest : List Char} : ¬ Spells base ('+' :: rest) n := by
  rintro ⟨digits, -, hwrites, -⟩
  cases hwrites with
  | @cons d _ _ _ hd _ =>
    have hread := (digitValue?_eq_some_iff hbase).mpr hd
    exact nomatch hread

/-- A row of one or more digits is read as a word if its number is small enough. -/
theorem filter_valueIn?_eq_some_iff (hbase : base ≤ 16) :
    (if cs = [] then none else (valueIn? base cs 0).filter (· < UInt64.size)) = some n ↔
      n < 2 ^ 64 ∧ Spells base cs n := by
  by_cases hne : cs = []
  · rw [if_pos hne, hne]
    exact iff_of_false (nomatch ·) fun h => not_spells_nil h.2
  · rw [if_neg hne, Option.filter_eq_some_iff, valueIn?_eq_some_iff hbase, decide_eq_true_eq,
      and_comm]
    simp only [Nat.mul_zero, Nat.zero_add]
    refine and_congr_right fun _ => exists_congr fun digits => ⟨fun ⟨hwrites, hn⟩ => ?_, And.right⟩
    refine ⟨?_, hwrites, hn⟩
    rintro rfl
    cases hwrites
    exact hne rfl

/-- **Which words of 64 bits are read**: those that are spelled, and those that are spelled with one
plus sign in front. -/
theorem word64?_eq_some_iff (hbase : base ≤ 16) :
    word64? base cs = some n ↔
      n < 2 ^ 64 ∧ (Spells base cs n ∨ ∃ rest, cs = '+' :: rest ∧ Spells base rest n) := by
  by_cases hplus : ∃ rest, cs = '+' :: rest
  · obtain ⟨rest, rfl⟩ := hplus
    rw [word64?, filter_valueIn?_eq_some_iff hbase, or_iff_right (not_spells_plus hbase)]
    simp
  · have hnone : ¬ ∃ rest, cs = '+' :: rest ∧ Spells base rest n :=
      fun ⟨rest, heq, _⟩ => hplus ⟨rest, heq⟩
    rw [word64?, filter_valueIn?_eq_some_iff hbase, or_iff_left hnone]
    exact fun rest heq => hplus ⟨rest, heq⟩

end Flowchart.Number
