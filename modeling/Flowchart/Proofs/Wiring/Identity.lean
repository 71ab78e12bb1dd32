import Flowchart.Proofs.Rows
import Flowchart.Wiring.Board

/-!
# What a suggestion is known by

A suggestion is known by its number, and whoever has seen the number may use it later, when the
suggestion is long gone and other ones hang on the board. This file shows that the number then means
nothing: it never stands for another suggestion.

The numbers that a board gives out are `1`, `2`, `3` and so on, in the order in which the
suggestions are created, however many of them are taken off in between. What hangs on the board is a
part of what was created, in the same order (`Flowchart.Wiring.Board.Numbered`). So the numbers on
the board increase, and one that is missing there is missing for ever, because a new number is
larger than all those before (`Flowchart.Wiring.Board.not_mem_ids_after`).

The count has no end here. It is the number of suggestions that were created, so while there are
fewer than `2 ^ 64` of them, every number fits into a word of 64 bits.
-/

namespace Flowchart.Wiring

/-- What makes a suggestion the one it is: its number and its match. Whether it is selected may
change. -/
def Suggestion.identity (s : Suggestion) : SuggestionId × Match :=
  (s.id, s.edge)

/-- A suggestion with its selection turned around. -/
def Suggestion.turned (s : Suggestion) : Suggestion :=
  { s with selected := !s.selected }

@[simp]
theorem Suggestion.identity_turned (s : Suggestion) : s.turned.identity = s.identity :=
  rfl

namespace Board

variable {board : Board} {all : List Suggestion} {s t : Suggestion} {id : SuggestionId}

/-- The numbers on the board, in the order of the suggestions. -/
def ids (board : Board) : List SuggestionId :=
  board.pending.map Suggestion.id

theorem mem_ids_of_mem (h : s ∈ board.pending) : s.id ∈ board.ids :=
  List.mem_map_of_mem h

theorem ids_eq_map_identity (board : Board) :
    board.ids = (board.pending.map Suggestion.identity).map Prod.fst := by
  rw [List.map_map]
  rfl

/-! ### Turning a selection around -/

theorem identity_toggle (board : Board) (id : SuggestionId) :
    (board.toggle id).2.pending.map Suggestion.identity =
      board.pending.map Suggestion.identity :=
  map_modify_of_eq Suggestion.identity_turned board.pending _

/-- **A number turns around the suggestion that carries it**, and nothing else. -/
theorem toggle_of_mem (hids : board.ids.Nodup) (hs : s ∈ board.pending) :
    board.toggle s.id = (some (!s.selected),
      { board with
        pending := board.pending.map fun t => if t.id = s.id then t.turned else t }) := by
  have hfind : board.find? s.id = some s := by
    obtain ⟨t, ht⟩ := Option.isSome_iff_exists.mp
      (List.find?_isSome (p := (·.id = s.id)).mpr ⟨s, hs, decide_eq_true rfl⟩)
    have hid : t.id = s.id := by simpa using List.find?_some ht
    rw [find?, ht, List.inj_on_of_nodup_map hids (List.mem_of_find?_eq_some ht) hs hid]
  rw [toggle, hfind, modify_findIdx_eq_map hids]
  rfl

theorem toggle_of_not_mem (h : id ∉ board.ids) : board.toggle id = (none, board) := by
  have hne : ∀ s ∈ board.pending, ¬ s.id = id := fun s hs hid => h (hid ▸ mem_ids_of_mem hs)
  have hfind : board.find? id = none := List.find?_eq_none.mpr (by simpa using hne)
  have hlength : board.pending.length ≤ board.pending.findIdx (·.id = id) :=
    Nat.le_of_eq (List.findIdx_eq_length.mpr (by simpa using hne)).symm
  rw [toggle, hfind, List.modify_eq_self hlength]
  rfl

/-! ### Operations and histories -/

/-- An operation on a board, with what it is given. -/
inductive Operation where
  | compute (g : Graph) (options : Options)
  | toggle (id : SuggestionId)
  | take (scope : Scope)
  | forget (id : NodeId)
  | clear

/-- The board after an operation. -/
def perform (board : Board) : Operation → Board
  | .compute g options => board.compute g options
  | .toggle id => (board.toggle id).2
  | .take scope => (board.take scope).2
  | .forget id => board.forget id
  | .clear => board.clear

/-- The suggestions that an operation creates: those of a new scan. -/
def creates (board : Board) : Operation → List Suggestion
  | .compute g options => (board.compute g options).pending
  | _ => []

/-- **Which suggestions an operation takes off the board**: a new scan replaces them all, and so
does clearing the board without one; those that are meant are taken, and those that touch a node are
forgotten with it. -/
def Operation.Drops (s : Suggestion) : Operation → Prop
  | .compute .. => True
  | .toggle _ => False
  | .take scope => scope.includes s = true
  | .forget id => s.touches id = true
  | .clear => True

/-- The board after some operations. -/
def after (board : Board) (ops : List Operation) : Board :=
  ops.foldl perform board

/-- **The suggestions that some operations create**, in order. -/
def created (board : Board) : List Operation → List Suggestion
  | [] => []
  | op :: ops => board.creates op ++ (board.perform op).created ops

theorem after_append (board : Board) (ops later : List Operation) :
    board.after (ops ++ later) = (board.after ops).after later :=
  List.foldl_append

/-- Matches are numbered one after the other. -/
theorem numbers_number (issued : Nat) (found : List Match) :
    (number issued found).map (·.id.number) = List.range' (issued + 1) found.length := by
  calc (number issued found).map (·.id.number)
      = (found.zipIdx.map Prod.snd).map (issued + 1 + ·) := by
        simp only [number, List.map_map]
        exact List.map_congr_left fun entry _ => Nat.add_right_comm issued entry.2 1
    _ = List.range' (issued + 1) found.length := by
        rw [List.zipIdx_map_snd, List.map_add_range']

/-- **What an operation can do to the board**: a new scan hangs up what it creates, with the next
numbers, and nothing else stays; any other operation creates nothing, and what it leaves hung there
before, in the same order. -/
theorem perform_cases (board : Board) (op : Operation) :
    (∃ found, board.creates op = number board.issued found ∧
      board.perform op = ⟨number board.issued found, board.issued + found.length⟩) ∨
    (board.creates op = [] ∧ (board.perform op).issued = board.issued ∧
      ((board.perform op).pending.map Suggestion.identity).Sublist
        (board.pending.map Suggestion.identity)) := by
  cases op with
  | compute g options => exact .inl ⟨findMatches g options, rfl, rfl⟩
  | toggle id => exact .inr ⟨rfl, rfl, board.identity_toggle id ▸ List.Sublist.refl _⟩
  | take scope => exact .inr ⟨rfl, rfl, List.filter_sublist.map _⟩
  | forget id => exact .inr ⟨rfl, rfl, List.filter_sublist.map _⟩
  | clear => exact .inr ⟨rfl, rfl, List.nil_sublist _⟩

/-! ### The numbers given out -/

/-- **What holds of the suggestions that were created** and the board at any moment. -/
structure Numbered (all : List Suggestion) (board : Board) : Prop where
  /-- The numbers are `1`, `2`, `3`, …, as far as the count. -/
  numbers : all.map (·.id.number) = List.range' 1 board.issued
  /-- What is pending was created, and hangs in the same order. -/
  kept : (board.pending.map Suggestion.identity).Sublist (all.map Suggestion.identity)

theorem numbered_empty : Numbered [] empty :=
  ⟨rfl, List.nil_sublist _⟩

namespace Numbered

theorem length_eq (h : Numbered all board) : all.length = board.issued := by
  simpa using congrArg List.length h.numbers

/-- **An operation goes on with the next numbers.** -/
theorem perform (h : Numbered all board) (op : Operation) :
    Numbered (all ++ board.creates op) (board.perform op) := by
  rcases board.perform_cases op with ⟨found, hcreates, hboard⟩ | ⟨hcreates, hissued, hsub⟩
  · rw [hcreates, hboard]
    refine ⟨?_, ?_⟩
    · rw [List.map_append, h.numbers, numbers_number, Nat.add_comm board.issued 1]
      exact List.range'_append_1
    · rw [List.map_append]
      exact List.sublist_append_right _ _
  · rw [hcreates, List.append_nil]
    exact ⟨hissued ▸ h.numbers, hsub.trans h.kept⟩

/-- All operations go on with the next numbers. -/
theorem after (h : Numbered all board) (ops : List Operation) :
    Numbered (all ++ board.created ops) (board.after ops) := by
  induction ops generalizing all board with
  | nil => simpa [created, Board.after] using h
  | cons op ops ih =>
    rw [created, ← List.append_assoc]
    exact ih (h.perform op)

theorem numbers_sublist (h : Numbered all board) :
    (board.pending.map (·.id.number)).Sublist (List.range' 1 board.issued) := by
  have hnumbers := h.kept.map (·.1.number)
  rw [List.map_map, List.map_map] at hnumbers
  exact h.numbers ▸ hnumbers

/-- **The numbers on the board increase.** -/
theorem pairwise (h : Numbered all board) :
    board.pending.Pairwise (·.id.number < ·.id.number) :=
  List.pairwise_map.mp (List.Pairwise.sublist h.numbers_sublist List.pairwise_lt_range')

theorem nodup_ids (h : Numbered all board) : board.ids.Nodup := by
  refine List.pairwise_map.mpr (h.pairwise.imp fun hlt heq => ?_)
  rw [heq] at hlt
  exact Nat.lt_irrefl _ hlt

theorem le_issued (h : Numbered all board) (hid : id ∈ board.ids) : id.number ≤ board.issued := by
  obtain ⟨s, hs, rfl⟩ := List.mem_map.mp hid
  have hmem := h.numbers_sublist.subset (List.mem_map_of_mem hs)
  have := List.mem_range'_1.mp hmem
  omega

theorem le_issued_of_mem (h : Numbered all board) (hs : s ∈ all) : s.id.number ≤ board.issued := by
  have hmem := List.mem_map_of_mem (f := (·.id.number)) hs
  rw [h.numbers] at hmem
  have := List.mem_range'_1.mp hmem
  omega

end Numbered

/-! ### Numbers that are gone -/

/-- The numbers on the board after an operation: some of those before, or larger ones. -/
theorem mem_ids_or_lt_of_mem_ids_perform {op : Operation} (h : id ∈ (board.perform op).ids) :
    id ∈ board.ids ∨ board.issued < id.number := by
  rcases board.perform_cases op with ⟨found, -, hboard⟩ | ⟨-, -, hsub⟩
  · rw [hboard] at h
    obtain ⟨s, hs, rfl⟩ := List.mem_map.mp h
    exact .inr (number_bounds hs).1
  · rw [ids_eq_map_identity] at h ⊢
    exact .inl ((hsub.map Prod.fst).subset h)

theorem issued_le_perform (board : Board) (op : Operation) :
    board.issued ≤ (board.perform op).issued := by
  rcases board.perform_cases op with ⟨found, -, hboard⟩ | ⟨-, hissued, -⟩
  · rw [hboard]
    exact Nat.le_add_right _ _
  · exact Nat.le_of_eq hissued.symm

/-- **A number that was given out and is gone stays so.** -/
theorem not_mem_ids_after (hle : id.number ≤ board.issued) (hgone : id ∉ board.ids)
    (ops : List Operation) : id ∉ (board.after ops).ids := by
  induction ops generalizing board with
  | nil => exact hgone
  | cons op ops ih =>
    refine ih (Nat.le_trans hle (board.issued_le_perform op)) fun hmem => ?_
    rcases mem_ids_or_lt_of_mem_ids_perform hmem with hold | hnew
    · exact hgone hold
    · -- this one is given out later, so it is above the count
      omega

/-- **When a number leaves the board**: with the operations that take its suggestion off. -/
theorem mem_ids_perform_iff (h : Numbered all board) (hs : s ∈ board.pending) (op : Operation) :
    s.id ∈ (board.perform op).ids ↔ ¬ op.Drops s := by
  have hfilter : ∀ p : Suggestion → Bool,
      s.id ∈ (board.pending.filter p).map Suggestion.id ↔ p s = true := by
    intro p
    constructor
    · intro hmem
      obtain ⟨t, ht, hid⟩ := List.mem_map.mp hmem
      obtain ⟨hmem, hp⟩ := List.mem_filter.mp ht
      exact List.inj_on_of_nodup_map h.nodup_ids hmem hs hid ▸ hp
    · exact fun hp => List.mem_map_of_mem (List.mem_filter.mpr ⟨hs, hp⟩)
  cases op with
  | compute g options =>
    refine iff_of_false (fun hmem => ?_) (not_not_intro trivial)
    obtain ⟨t, ht, hid⟩ := List.mem_map.mp hmem
    -- a new scan numbers its suggestions above all that are pending
    have hlt := (number_bounds ht).1
    have hle := h.le_issued (mem_ids_of_mem hs)
    rw [hid] at hlt
    omega
  | toggle id =>
    refine iff_of_true ?_ not_false
    rw [ids_eq_map_identity, perform, identity_toggle, ← ids_eq_map_identity]
    exact mem_ids_of_mem hs
  | take scope => exact (hfilter (!scope.includes ·)).trans (by simp [Operation.Drops])
  | forget id => exact (hfilter (!·.touches id)).trans (by simp [Operation.Drops])
  | clear => exact iff_of_false List.not_mem_nil (not_not_intro trivial)

/-! ### No number stands for two suggestions -/

/-- **A number stands for one suggestion and no other.** After any operations on a new board, the
suggestions that were created carry the numbers `1`, `2`, `3`, …; those that are pending are some of
them, with the same matches and in the same order, so their numbers increase. Turning around the
selection of a number changes the suggestion that carries it and nothing else, or nothing at all if
none does. A suggestion leaves the board with the operations that take it off and with no others.
Once a suggestion that was created is not pending, its number turns nothing around, whatever happens
later. The count is that of the suggestions that were created, so as long as there are fewer than
`2 ^ 64` of them it fits into 64 bits, and so do their numbers. -/
theorem toggle_after_empty (ops : List Operation) :
    let board := empty.after ops
    let all := empty.created ops
    board.issued = all.length ∧
      all.map (·.id.number) = List.range' 1 all.length ∧
      (board.pending.map Suggestion.identity).Sublist (all.map Suggestion.identity) ∧
      board.pending.Pairwise (·.id.number < ·.id.number) ∧
      (∀ s ∈ board.pending, board.toggle s.id = (some (!s.selected),
        { board with
          pending := board.pending.map fun t => if t.id = s.id then t.turned else t })) ∧
      (∀ id, id ∉ board.ids → board.toggle id = (none, board)) ∧
      (∀ s ∈ board.pending, ∀ op, s.id ∈ (empty.after (ops ++ [op])).ids ↔ ¬ op.Drops s) ∧
      ∀ s ∈ all, s.id ∉ board.ids → ∀ later,
        (empty.after (ops ++ later)).toggle s.id = (none, empty.after (ops ++ later)) := by
  intro board all
  have h : Numbered all board := numbered_empty.after ops
  refine ⟨h.length_eq.symm, h.length_eq ▸ h.numbers, h.kept, h.pairwise,
    fun s hs => toggle_of_mem h.nodup_ids hs, fun id hid => toggle_of_not_mem hid,
    fun s hs op => ?_, fun s hs hgone later => ?_⟩
  · rw [after_append]
    exact mem_ids_perform_iff h hs op
  · rw [after_append]
    exact toggle_of_not_mem (not_mem_ids_after (h.le_issued_of_mem hs) hgone later)

/-- The first suggestion is taken, and a second scan creates the next one in its place: the old
number turns nothing around, the new one does. -/
theorem toggle_after_empty_taken :
    let g : Graph := ⟨[⟨1, ⟨0, 0⟩, .circle, none, ⟨none, none, [], ["n"]⟩⟩,
      ⟨2, ⟨0, 0⟩, .square, none, ⟨none, none, ["n"], []⟩⟩], [], 3⟩
    let ops : List Operation := [.compute g .default, .take .selected]
    let board := empty.after (ops ++ [.compute g .default])
    let old : Suggestion := ⟨⟨1⟩, ⟨1, 2, "n", none, none⟩, true⟩
    let new : Suggestion := ⟨⟨2⟩, ⟨1, 2, "n", none, none⟩, true⟩
    old ∈ empty.created ops ∧ old.id ∉ (empty.after ops).ids ∧ new ∈ board.pending ∧
      board.toggle old.id = (none, board) ∧
      board.toggle new.id = (some false, ⟨[new.turned], 2⟩) := by
  intro g ops board old new
  have hold : old ∈ empty.created ops := by decide +kernel
  have hgone : old.id ∉ (empty.after ops).ids := by decide +kernel
  have hboard : empty.after (ops ++ [.compute g .default]) = ⟨[new], 2⟩ := by decide +kernel
  have hnew : new ∈ board.pending := by
    change new ∈ (empty.after (ops ++ [.compute g .default])).pending
    rw [hboard]
    exact List.mem_singleton_self new
  obtain ⟨-, -, -, -, -, -, -, hnever⟩ := toggle_after_empty ops
  obtain ⟨-, -, -, -, hturn, -⟩ := toggle_after_empty (ops ++ [.compute g .default])
  refine ⟨hold, hgone, hnew, hnever old hold hgone _, (hturn new hnew).trans ?_⟩
  rw [hboard]
  rfl

end Board

end Flowchart.Wiring
