import Mathlib.Data.List.Basic

/-!
# Operations that may fail

An operation that may fail returns an `Except`, and such operations are chained. A chain succeeds
exactly if its first part does and the rest succeeds on what that part returned
(`Flowchart.bind_eq_ok_iff`), and it fails with the first failure (`Flowchart.bind_eq_error_iff`).
The same is true of a whole row of steps (`Flowchart.foldlM_append_eq_ok_iff`).
These are the facts by which a chain is taken apart wherever one is reasoned about.
-/

namespace Flowchart

variable {ε α β : Type}

/-- **A chain succeeds** exactly if both of its parts do. -/
theorem bind_eq_ok_iff {x : Except ε α} {f : α → Except ε β} {b : β} :
    x >>= f = .ok b ↔ ∃ a, x = .ok a ∧ f a = .ok b := by
  cases x with
  | error e => simp [bind, Except.bind]
  | ok a => simp [bind, Except.bind]

/-- **A chain fails** exactly if its first part does, or the rest does on what that part
returned. -/
theorem bind_eq_error_iff {x : Except ε α} {f : α → Except ε β} {e : ε} :
    x >>= f = .error e ↔ x = .error e ∨ ∃ a, x = .ok a ∧ f a = .error e := by
  cases x with
  | error e' => simp [bind, Except.bind]
  | ok a => simp [bind, Except.bind]

theorem pure_eq_ok_iff {a b : α} : (pure a : Except ε α) = .ok b ↔ a = b := by
  simp [pure, Except.pure]

theorem bind_pure_eq_ok_iff {x : Except ε α} {f : α → β} {b : β} :
    (x >>= fun a => pure (f a)) = .ok b ↔ ∃ a, x = .ok a ∧ f a = b := by
  simp only [bind_eq_ok_iff, pure_eq_ok_iff]

theorem bind_pure_eq_error_iff {x : Except ε α} {f : α → β} {e : ε} :
    (x >>= fun a => pure (f a)) = .error e ↔ x = .error e := by
  rw [bind_eq_error_iff]
  exact or_iff_left fun ⟨_, _, hreturn⟩ => nomatch hreturn

theorem foldlM_cons_eq_ok_iff {f : β → α → Except ε β} {x : α} {xs : List α} {b c : β} :
    (x :: xs).foldlM f b = .ok c ↔ ∃ middle, f b x = .ok middle ∧ xs.foldlM f middle = .ok c := by
  rw [List.foldlM_cons, bind_eq_ok_iff]

theorem foldlM_append_eq_ok_iff {f : β → α → Except ε β} {xs ys : List α} {b c : β} :
    (xs ++ ys).foldlM f b = .ok c ↔
      ∃ middle, xs.foldlM f b = .ok middle ∧ ys.foldlM f middle = .ok c := by
  rw [List.foldlM_append, bind_eq_ok_iff]

/-- **A row of steps fails** exactly if one of them does, behind others that succeed. -/
theorem foldlM_eq_error_iff {f : β → α → Except ε β} {xs : List α} {b : β} {e : ε} :
    xs.foldlM f b = .error e ↔ ∃ before x behind middle, xs = before ++ x :: behind ∧
      before.foldlM f b = .ok middle ∧ f middle x = .error e := by
  constructor
  · intro h
    induction xs generalizing b with
    | nil => exact nomatch h
    | cons x xs ih =>
      rw [List.foldlM_cons] at h
      cases hx : f b x with
      | error e' =>
        rw [hx] at h
        exact ⟨[], x, xs, b, rfl, rfl, hx.trans h⟩
      | ok next =>
        rw [hx] at h
        obtain ⟨before, y, behind, middle, rfl, hbefore, hy⟩ := ih h
        exact ⟨x :: before, y, behind, middle, rfl,
          foldlM_cons_eq_ok_iff.mpr ⟨next, hx, hbefore⟩, hy⟩
  · rintro ⟨before, x, behind, middle, rfl, hbefore, hx⟩
    rw [List.foldlM_append, hbefore]
    change (x :: behind).foldlM f middle = .error e
    rw [List.foldlM_cons, hx]
    rfl

end Flowchart
