import Mathlib.Data.List.Induction
import Mathlib.Data.List.Nodup

/-!
# Rows

The nodes of a flowchart, its arrows and the suggestions on a board are rows, and some things are
done to rows again and again: one entry is changed at its place, repetitions are removed, and the
first entry of some kind is looked up. This file has what is needed about them.

Removing repetitions keeps the first entry of every kind. It is described in two ways. By recursion,
the tail of a row is filtered before its own repetitions are removed
(`Flowchart.eraseDupsBy_induction`). In a row that is ordered somehow, what is kept can be told
without recursion: the entries that no entry of their kind comes before
(`Flowchart.mem_eraseDupsBy_iff`). In the same way the first entry of a kind is told
(`Flowchart.find?_eq_some_iff_of_pairwise`).

What is done at one place shows best where a row is written as the part before that place, the entry
there, and the part behind it: a change keeps both parts, and so does taking the entry away.
-/

namespace Flowchart

/-! ### Changing one entry -/

section Modify

variable {α β : Type} {key : α → β} {change : α → α}

/-- A change that a function does not see makes no difference to its values. -/
theorem map_modify_of_eq (h : ∀ a, key (change a) = key a) (as : List α) (i : Nat) :
    (as.modify i change).map key = as.map key := by
  induction as generalizing i with
  | nil => rw [List.modify_nil]
  | cons a as ih =>
    cases i with
    | zero => rw [List.modify_zero_cons, List.map_cons, List.map_cons, h]
    | succ i => rw [List.modify_succ_cons, List.map_cons, List.map_cons, ih]

/-- Where keys are different, the first entry with a key is the only one. -/
theorem modify_findIdx_eq_map [DecidableEq β] {as : List α} (h : (as.map key).Nodup) (k : β) :
    as.modify (as.findIdx (key · = k)) change =
      as.map fun a => if key a = k then change a else a := by
  induction as with
  | nil => rw [List.modify_nil, List.map_nil]
  | cons a as ih =>
    obtain ⟨hnot, hnodup⟩ := List.nodup_cons.mp h
    rw [List.findIdx_cons, List.map_cons]
    by_cases ha : key a = k
    · have hrest : ∀ b ∈ as, (if key b = k then change b else b) = b := by
        refine fun b hb => if_neg fun hkey => hnot ?_
        exact List.mem_map.mpr ⟨b, hb, hkey.trans ha.symm⟩
      rw [decide_eq_true ha, cond_true, List.modify_zero_cons, if_pos ha,
        List.map_congr_left hrest, List.map_id']
    · rw [decide_eq_false ha, cond_false, List.modify_succ_cons, if_neg ha, ih hnodup]

end Modify

/-! ### Removing repetitions -/

section EraseDups

variable {α : Type} {r : α → α → Bool}

/-- Induction along the removal of repetitions: the tail of a row is filtered before its own
repetitions are removed. -/
theorem eraseDupsBy_induction {P : List α → Prop} (nil : P [])
    (cons : ∀ x xs, P (xs.filter fun y => r y x = false) → P (x :: xs)) (xs : List α) : P xs := by
  induction hlength : xs.length using Nat.strongRecOn generalizing xs with
  | ind length ih =>
    cases xs with
    | nil => exact nil
    | cons x xs =>
      have hlt : (xs.filter fun y => r y x = false).length < length := by
        rw [← hlength]
        exact Nat.lt_succ_of_le (List.length_filter_le _ _)
      exact cons x xs (ih _ hlt _ rfl)

theorem eraseDupsBy_sublist (xs : List α) : (xs.eraseDupsBy r).Sublist xs := by
  induction xs using eraseDupsBy_induction (r := r) with
  | nil => exact List.Sublist.refl _
  | cons x xs ih =>
    rw [List.eraseDupsBy_cons]
    exact (ih.trans List.filter_sublist).cons_cons x

/-- **Everything in a row is represented** in what is left of it without repetitions. -/
theorem exists_mem_eraseDupsBy (hrefl : ∀ x, r x x = true) {x : α} {xs : List α} (h : x ∈ xs) :
    ∃ y ∈ xs.eraseDupsBy r, r x y = true := by
  induction xs using eraseDupsBy_induction (r := r) with
  | nil => exact absurd h List.not_mem_nil
  | cons y ys ih =>
    rw [List.eraseDupsBy_cons]
    by_cases hxy : r x y = true
    · exact ⟨y, List.mem_cons_self, hxy⟩
    · have hmem : x ∈ ys := by
        rcases List.mem_cons.mp h with rfl | hmem
        · exact absurd (hrefl x) hxy
        · exact hmem
      obtain ⟨z, hz, hxz⟩ := ih (List.mem_filter.mpr ⟨hmem, by simpa using hxy⟩)
      exact ⟨z, List.mem_cons_of_mem y hz, hxz⟩

theorem pairwise_eraseDupsBy (xs : List α) :
    (xs.eraseDupsBy r).Pairwise fun x y => r y x = false := by
  induction xs using eraseDupsBy_induction (r := r) with
  | nil => exact List.Pairwise.nil
  | cons x xs ih =>
    rw [List.eraseDupsBy_cons, List.pairwise_cons]
    refine ⟨fun y hy => ?_, ih⟩
    simpa using (List.mem_filter.mp ((eraseDupsBy_sublist _).subset hy)).2

/-- **Repetitions can be removed before or after filtering**, if an entry and its repetitions pass
the filter together. -/
theorem eraseDupsBy_filter {p : α → Bool} (hp : ∀ {x y}, r y x = true → p y = p x)
    (xs : List α) : (xs.filter p).eraseDupsBy r = (xs.eraseDupsBy r).filter p := by
  induction xs using eraseDupsBy_induction (r := r) with
  | nil => rfl
  | cons x xs ih =>
    rw [List.eraseDupsBy_cons]
    cases hx : p x with
    | true =>
      rw [List.filter_cons_of_pos hx, List.filter_cons_of_pos hx, List.eraseDupsBy_cons,
        List.filter_comm, ih]
    | false =>
      have hx' : ¬ p x = true := Bool.eq_false_iff.mp hx
      rw [List.filter_cons_of_neg hx', List.filter_cons_of_neg hx', ← ih, List.filter_filter]
      -- the repetitions of the first entry do not pass the filter either
      refine congrArg _ (List.filter_congr fun y _ => ?_)
      cases hy : r y x with
      | false => simp
      | true => simp [hp hy, hx]

/-- Repetitions can be removed before or after a function is applied that tells them. -/
theorem eraseDupsBy_map {β : Type} (f : β → α) (xs : List β) :
    (xs.map f).eraseDupsBy r = (xs.eraseDupsBy fun x y => r (f x) (f y)).map f := by
  induction xs using eraseDupsBy_induction (r := fun x y => r (f x) (f y)) with
  | nil => rfl
  | cons x xs ih =>
    rw [List.map_cons, List.eraseDupsBy_cons, List.eraseDupsBy_cons, List.map_cons, ← ih,
      List.filter_map]
    rfl

/-- **What is kept of an ordered row without repetitions**: the entries that no entry of their kind
comes before. -/
theorem mem_eraseDupsBy_iff {before : α → α → Prop} (hasymm : ∀ {x y}, before x y → ¬ before y x)
    (htrans : ∀ {x y z}, r z y = true → r y x = true → r z x = true) {xs : List α}
    (hxs : xs.Pairwise before) {z : α} :
    z ∈ xs.eraseDupsBy r ↔ z ∈ xs ∧ ∀ y ∈ xs, before y z → r z y = false := by
  induction xs using eraseDupsBy_induction (r := r) with
  | nil => simp
  | cons x xs ih =>
    obtain ⟨hfirst, hrest⟩ := List.pairwise_cons.mp hxs
    rw [List.eraseDupsBy_cons, List.mem_cons, List.mem_cons, ih (hrest.filter _)]
    simp only [List.mem_filter, decide_eq_true_eq, List.forall_mem_cons]
    constructor
    · rintro (rfl | ⟨⟨hz, hzx⟩, hnone⟩)
      · -- nothing comes before the first entry
        exact ⟨.inl rfl, fun hself => absurd hself (hasymm hself),
          fun y hy hyz => absurd hyz (hasymm (hfirst y hy))⟩
      · -- an entry that repeats a repetition of the first one would repeat the first one itself
        refine ⟨.inr hz, fun _ => hzx, fun y hy hyz => ?_⟩
        cases hyx : r y x with
        | false => exact hnone y ⟨hy, hyx⟩ hyz
        | true =>
          refine Bool.eq_false_iff.mpr fun hzy => ?_
          rw [htrans hzy hyx] at hzx
          exact nomatch hzx
    · rintro ⟨rfl | hz, hzx, hnone⟩
      · exact .inl rfl
      · exact .inr ⟨⟨hz, hzx (hfirst z hz)⟩, fun y hy => hnone y hy.1⟩

/-- **What is left of a row without repetitions is in the order of first occurrences.** -/
theorem pairwise_idxOf_eraseDups [DecidableEq α] (xs : List α) :
    xs.eraseDups.Pairwise fun x y => xs.idxOf x < xs.idxOf y := by
  induction xs using List.reverseRecOn with
  | nil => exact List.Pairwise.nil
  | append_singleton xs z ih =>
    -- in front of the last entry nothing changes place
    have hxs : xs.eraseDups.Pairwise fun x y => (xs ++ [z]).idxOf x < (xs ++ [z]).idxOf y := by
      refine ih.imp_of_mem fun {x y} hx hy hlt => ?_
      rwa [List.idxOf_append_of_mem (List.mem_eraseDups.mp hx),
        List.idxOf_append_of_mem (List.mem_eraseDups.mp hy)]
    rw [List.eraseDups_append]
    by_cases hz : z ∈ xs
    · have hnone : [z].removeAll xs = [] := by simp [List.removeAll, hz]
      rwa [hnone, List.eraseDups_nil, List.append_nil]
    · have hnew : ([z].removeAll xs).eraseDups = [z] := by
        simp [List.removeAll, hz, List.eraseDups_cons]
      rw [hnew, List.pairwise_append]
      refine ⟨hxs, List.pairwise_singleton _ z, fun x hx y hy => ?_⟩
      obtain rfl := List.mem_singleton.mp hy
      have hmem := List.mem_eraseDups.mp hx
      rw [List.idxOf_append_of_mem hmem, List.idxOf_append_of_notMem hz]
      exact Nat.lt_of_lt_of_le (List.idxOf_lt_length_of_mem hmem) (Nat.le_add_right _ _)

end EraseDups

/-! ### The first entry of a kind -/

/-- **The first entry of a kind in an ordered row**: the one of that kind that no other one of it
comes before. -/
theorem find?_eq_some_iff_of_pairwise {α : Type} {before : α → α → Prop} {p : α → Bool}
    (hasymm : ∀ {x y}, before x y → ¬ before y x) {xs : List α} (hxs : xs.Pairwise before) {x : α} :
    xs.find? p = some x ↔ x ∈ xs ∧ p x = true ∧ ∀ y ∈ xs, p y = true → ¬ before y x := by
  induction xs with
  | nil => simp
  | cons z zs ih =>
    obtain ⟨hfirst, hrest⟩ := List.pairwise_cons.mp hxs
    rw [List.mem_cons, List.forall_mem_cons]
    by_cases hz : p z = true
    · rw [List.find?_cons_of_pos hz, Option.some.injEq]
      constructor
      · rintro rfl
        exact ⟨.inl rfl, hz, fun _ hself => hasymm hself hself, fun y hy _ => hasymm (hfirst y hy)⟩
      · rintro ⟨rfl | hx, -, hnone, -⟩
        · rfl
        · exact absurd (hfirst x hx) (hnone hz)
    · rw [List.find?_cons_of_neg hz, ih hrest]
      constructor
      · exact fun ⟨hx, hpx, hnone⟩ => ⟨.inr hx, hpx, fun hz' => absurd hz' hz, hnone⟩
      · rintro ⟨rfl | hx, hpx, -, hnone⟩
        · exact absurd hpx hz
        · exact ⟨hx, hpx, hnone⟩

/-! ### Places in a row -/

section Places

variable {α β : Type}

theorem pairwise_snd_zipIdx (as : List α) : as.zipIdx.Pairwise fun x y => x.2 < y.2 := by
  have hplaces : (as.zipIdx.map Prod.snd).Pairwise (· < ·) := by
    rw [List.zipIdx_map_snd]
    exact List.pairwise_lt_range'
  exact List.pairwise_map.mp hplaces

theorem flatMap_fst_zipIdx (f : α → List β) (as : List α) :
    (as.zipIdx.flatMap fun x => f x.1) = as.flatMap f := by
  rw [← List.flatMap_map, List.zipIdx_map_fst]

theorem filterMap_fst_zipIdx (f : α → Option β) (as : List α) :
    (as.zipIdx.filterMap fun x => f x.1) = as.filterMap f := by
  conv_rhs => rw [← List.zipIdx_map_fst 0 as, List.filterMap_map]
  rfl

theorem pairwise_idxOf [DecidableEq α] {as : List α} (h : as.Nodup) :
    as.Pairwise fun x y => as.idxOf x < as.idxOf y := by
  rw [List.pairwise_iff_getElem]
  intro i j hi hj hij
  rwa [h.idxOf_getElem, h.idxOf_getElem]

end Places

/-! ### The entry between two parts of a row -/

section Between

variable {α : Type} {p : α → Bool} {before behind as : List α} {a : α} {i : Nat}

/-- **A place in a row** is where an entry stands between two parts of it. -/
theorem exists_between_iff :
    (∃ before a behind, as = before ++ a :: behind ∧ before.length = i) ↔ i < as.length := by
  constructor
  · rintro ⟨before, a, behind, rfl, rfl⟩
    simp
  · intro h
    exact ⟨as.take i, as[i], as.drop (i + 1), by simp,
      List.length_take_of_le (Nat.le_of_lt h)⟩

theorem getElem?_between : (before ++ a :: behind)[before.length]? = some a := by
  rw [List.getElem?_append_right (Nat.le_refl _), Nat.sub_self, List.getElem?_cons_zero]

/-- The first entry of a kind stands behind those that are not of that kind. -/
theorem findIdx_between (hbefore : ∀ b ∈ before, p b = false) (ha : p a = true) :
    (before ++ a :: behind).findIdx p = before.length := by
  induction before with
  | nil => rw [List.nil_append, List.findIdx_cons, ha, cond_true, List.length_nil]
  | cons b before ih =>
    obtain ⟨hb, hbefore⟩ := List.forall_mem_cons.mp hbefore
    rw [List.cons_append, List.findIdx_cons, hb, cond_false, ih hbefore, List.length_cons]

theorem modify_between (f : α → α) :
    (before ++ a :: behind).modify before.length f = before ++ f a :: behind := by
  induction before with
  | nil => rfl
  | cons b before ih => exact congrArg (b :: ·) ih

theorem eraseP_between (hbefore : ∀ b ∈ before, p b = false) (ha : p a = true) :
    (before ++ a :: behind).eraseP p = before ++ behind := by
  rw [List.eraseP_append_right _ fun b hb => by simp [hbefore b hb], List.eraseP_cons_of_pos ha]

theorem eraseIdx_between : (before ++ a :: behind).eraseIdx before.length = before ++ behind := by
  rw [List.eraseIdx_append_of_length_le (Nat.le_refl _), Nat.sub_self, List.eraseIdx_cons_zero]

end Between

end Flowchart
