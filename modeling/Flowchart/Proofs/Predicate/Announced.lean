import Flowchart.Predicate.Value
import Flowchart.Proofs.Number.Digits
import Flowchart.Proofs.Number.Whole

/-!
# Texts that announce a base

A text that starts with a zero and one of the letters `x`, `o` and `b`, in either case, is taken for
an integer in base sixteen, eight or two. Nothing is rounded on the way but once, at the end: the
number is the double nearest to the integer, as long as the integer fits into 64 bits
(`Flowchart.Predicate.Value.toNumber_announced`).

Everything else behind the two characters counts as zero: nothing at all, a minus sign, a separator,
a blank, a digit of a higher base, a character that looks like a digit, an integer of more than
64 bits. There is one exception. A single plus sign in front of the digits is passed over.
-/

namespace Flowchart.Predicate.Value

open Number (IsNearest Spells word64?_eq_some_iff isNearest_ofNat)

variable {s announcement rest : String} {base n : Nat}

/-- What announces a base, with the base. -/
def announcements : List (String × Nat) :=
  [("0x", 16), ("0X", 16), ("0o", 8), ("0O", 8), ("0b", 2), ("0B", 2)]

theorem base_le_of_mem_announcements (h : (announcement, base) ∈ announcements) : base ≤ 16 := by
  simp only [announcements, List.mem_cons, Prod.mk.injEq, List.not_mem_nil, or_false] at h
  omega

/-- What announces a base is found in front of anything, and has two characters. -/
theorem radixOf?_append_of_mem (h : (announcement, base) ∈ announcements) (cs : List Char) :
    radixOf? (announcement.toList ++ cs) = some base ∧
      (announcement.toList ++ cs).drop 2 = cs := by
  simp only [announcements, List.mem_cons, Prod.mk.injEq, List.not_mem_nil, or_false] at h
  rcases h with ⟨rfl, rfl⟩ | ⟨rfl, rfl⟩ | ⟨rfl, rfl⟩ | ⟨rfl, rfl⟩ | ⟨rfl, rfl⟩ | ⟨rfl, rfl⟩ <;>
    exact ⟨rfl, rfl⟩

/-- **A text that announces a base is read in it**, from the third character on. -/
theorem numberIn?_eq_of_announced (h : (announcement, base) ∈ announcements)
    (htrim : Text.trim s = announcement ++ rest) :
    numberIn? s = (Number.word64? base rest.toList).map Float.ofNat := by
  have hchars : Text.trimChars s.toList = announcement.toList ++ rest.toList := by
    rw [← String.toList_append, ← htrim, Text.trim, String.toList_ofList]
  obtain ⟨hradix, hdrop⟩ := radixOf?_append_of_mem h rest.toList
  have hne : announcement.toList ++ rest.toList ≠ [] := by
    intro hnil
    rw [hnil] at hradix
    exact nomatch hradix
  simp only [numberIn?, hchars, if_neg hne, hradix, hdrop]

theorem log2_lt_of_lt (h : n < 2 ^ 64) : n.log2 < 1023 := by
  rcases Nat.eq_zero_or_pos n with rfl | hpos
  · decide
  · exact ((Nat.log2_lt hpos.ne').mpr h).trans (by decide)

/-- A text with a word of 64 bits in it is taken for the double nearest to the word. -/
theorem isNearest_toNumber (hbase : base ≤ 16) (hn : n < 2 ^ 64) {cs : List Char}
    (hnumber : numberIn? s = (Number.word64? base cs).map Float.ofNat)
    (h : Spells base cs n ∨ ∃ digits, cs = '+' :: digits ∧ Spells base digits n) :
    IsNearest (text s).toNumber n := by
  have hnearest := isNearest_ofNat (log2_lt_of_lt hn)
  have hsome : numberIn? s = some (Float.ofNat n) := by
    rw [hnumber, (word64?_eq_some_iff hbase).mpr ⟨hn, h⟩, Option.map_some]
  have hvalue : (text s).toNumber = Float.ofNat n := by
    rw [toNumber, hsome, Option.filter_some_pos hnearest.isFinite, Option.getD_some]
  rwa [hvalue]

/-- **A text that announces a base.** If digits of the base follow, and nothing else, the text is
taken for the double nearest to the integer they spell, unless the integer has more than 64 bits.
One plus sign in front of the digits makes no difference. Whatever else follows, the text is taken
for zero. -/
theorem toNumber_announced (hannounced : (announcement, base) ∈ announcements)
    (htrim : Text.trim s = announcement ++ rest) :
    (∀ n < 2 ^ 64, Spells base rest.toList n → IsNearest (text s).toNumber n) ∧
      (∀ n < 2 ^ 64, ∀ digits, rest.toList = '+' :: digits → Spells base digits n →
        IsNearest (text s).toNumber n) ∧
      ((∀ n < 2 ^ 64, ¬ Spells base rest.toList n ∧
          ∀ digits, rest.toList = '+' :: digits → ¬ Spells base digits n) →
        (text s).toNumber = 0) := by
  have hbase := base_le_of_mem_announcements hannounced
  have hnumber := numberIn?_eq_of_announced hannounced htrim
  refine ⟨fun n hn h => isNearest_toNumber hbase hn hnumber (.inl h),
    fun n hn digits hplus h => isNearest_toNumber hbase hn hnumber (.inr ⟨digits, hplus, h⟩),
    fun hnone => ?_⟩
  have hword : Number.word64? base rest.toList = none := by
    refine Option.eq_none_iff_forall_ne_some.mpr fun n hsome => ?_
    obtain ⟨hn, h | ⟨digits, hplus, h⟩⟩ := (word64?_eq_some_iff hbase).mp hsome
    · exact (hnone n hn).1 h
    · exact (hnone n hn).2 digits hplus h
  rw [toNumber, hnumber, hword]
  rfl

/-- Blanks around and letters of either case do no harm. -/
theorem toNumber_announced_hexadecimal :
    (("0X", 16) ∈ announcements ∧ Text.trim "\u3000 0XfF\t" = "0X" ++ "fF") ∧
      255 < 2 ^ 64 ∧ Spells 16 "fF".toList 255 ∧
      IsNearest (text "\u3000 0XfF\t").toNumber (255 : Nat) := by
  have hannounced : ("0X", 16) ∈ announcements := by decide
  have htrim : Text.trim "\u3000 0XfF\t" = "0X" ++ "fF" := by decide
  have hspells : Spells 16 "fF".toList 255 :=
    ⟨[15, 15], by decide, .cons (by decide) (.cons (by decide) .nil), by decide⟩
  exact ⟨⟨hannounced, htrim⟩, by decide, hspells,
    (toNumber_announced hannounced htrim).1 255 (by decide) hspells⟩

/-- The plus sign is no digit, and yet the text counts as one. -/
theorem toNumber_plus_sign :
    (("0x", 16) ∈ announcements ∧ Text.trim "0x+1" = "0x" ++ "+1") ∧
      (∀ n, ¬ Spells 16 "+1".toList n) ∧ (text "0x+1").toNumber ≠ 0 :=
  ⟨⟨by decide, by decide⟩, fun _ => Number.not_spells_plus (by decide), by decide +kernel⟩

end Flowchart.Predicate.Value
