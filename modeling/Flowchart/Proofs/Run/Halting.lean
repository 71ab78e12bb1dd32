import Flowchart.Proofs.Graph.Acyclic
import Flowchart.Proofs.Graph.Reachable
import Flowchart.Proofs.Run.Stepping
import Mathlib.Data.List.Perm.Subperm

/-!
# When an execution halts

An execution that is not edited goes from node to node until it comes to one that no arrow leaves.
There it halts. This file bounds the number of its steps by the number of nodes, in two situations
in which that can be done.

* **The context stays the same.** Then a node decides everything that comes behind it. In particular
  it decides how long it takes to halt from there, so no node is visited twice on the way to a halt
  (`Flowchart.Run.HaltsAlong.exists_trail`). An execution that does not halt while there are new
  nodes left does not halt at all (`Flowchart.Run.Execution.halted_mem_outcomes_or_never`).
* **There is no cycle.** Then the contexts may be different ones in every step, and chosen by
  somebody who wants to keep the execution going. The rank of the node where it stands falls with
  every arrow whatever they choose (`Flowchart.Run.exists_haltsAlong`), so it halts, and soon
  (`Flowchart.Run.Execution.outcomes_of_isAcyclic`).

Both speak of *ways to a halt* (`Flowchart.Run.HaltsAlong`), which are about the graph alone. How an
execution goes along one, by steps or by ticks, is said once
(`Flowchart.Run.HaltsAlong.outcomes_eq`, `Flowchart.Run.HaltsAlong.ticks_eq`).
-/

namespace Flowchart.Run

open Predicate (Context)

variable {g : Graph} {id last : NodeId} {context : Context} {contexts : List Context}
  {moves : List Outcome}

/-! ### Where execution halts -/

/-- **Execution halts at the nodes that no arrow leaves**, and only there. -/
theorem choose?_eq_none_iff (hid : id ∈ g.ids) :
    choose? g id context = none ↔ ∀ edge ∈ g.edges, edge.source ≠ id := by
  have hnode : g.node? id ≠ none := Option.isSome_iff_ne_none.mp (Graph.isSome_node?_iff.mpr hid)
  rw [choose?, List.head?_eq_none_iff, candidates_eq_nil_iff, or_iff_right hnode]

theorem leadsTo_of_choose? {chosen : Candidate} (h : choose? g id context = some chosen) :
    g.LeadsTo id chosen.target := by
  obtain ⟨edge, hplace, hsource, htarget⟩ := exists_edge_of_mem_candidates (List.mem_of_head? h)
  exact ⟨edge, List.mem_of_getElem? hplace, hsource, htarget⟩

/-! ### Ways to a halt -/

/-- **A way to a halt**: with these contexts, one after the other, execution moves on from a node,
and with the last of them it halts. -/
inductive HaltsAlong (g : Graph) : NodeId → List Context → List Outcome → NodeId → Prop where
  /-- It halts at once. -/
  | halt {id : NodeId} {context : Context} (hchosen : choose? g id context = none) :
    HaltsAlong g id [context] [] id
  /-- It moves on, and halts later. -/
  | move {id last : NodeId} {context : Context} {contexts : List Context} {moves : List Outcome}
    {chosen : Candidate} (hchosen : choose? g id context = some chosen)
    (hlater : HaltsAlong g chosen.target contexts moves last) :
    HaltsAlong g id (context :: contexts) (.advanced id chosen :: moves) last

namespace HaltsAlong

/-- Every context but the last is used for a move. -/
theorem length_moves (h : HaltsAlong g id contexts moves last) :
    contexts.length = moves.length + 1 := by
  induction h with
  | halt => rfl
  | move _ _ ih => rw [List.length_cons, List.length_cons, ih]

theorem exists_advanced (h : HaltsAlong g id contexts moves last) :
    ∀ move ∈ moves, ∃ source chosen, move = .advanced source chosen := by
  induction h with
  | halt => exact fun _ hmem => absurd hmem List.not_mem_nil
  | @move id _ _ _ _ chosen _ _ ih =>
    exact List.forall_mem_cons.mpr ⟨⟨id, chosen, rfl⟩, ih⟩

theorem source_ne (h : HaltsAlong g id contexts moves last) (hg : g.HasEnds) (hid : id ∈ g.ids) :
    ∀ edge ∈ g.edges, edge.source ≠ last := by
  induction h with
  | halt hchosen => exact (choose?_eq_none_iff hid).mp hchosen
  | move hchosen _ ih => exact ih (target_mem_ids_of_choose? hg hchosen)

/-! ### Going along a way -/

/-- **An execution goes along the way**: the steps return the moves and a halt, and it is idle
again. -/
theorem outcomes_eq {e : Execution} (h : HaltsAlong g id contexts moves last)
    (hcurrent : e.cursor.current = some id) :
    e.outcomes g contexts = moves ++ [.halted last] ∧ (e.steps g contexts).cursor = .idle := by
  induction h generalizing e with
  | halt hchosen =>
    rw [Execution.outcomes_cons, Execution.steps_cons,
      Execution.step_of_choose?_eq_none hcurrent hchosen]
    exact ⟨rfl, rfl⟩
  | @move _ _ _ _ _ chosen hchosen _ ih =>
    obtain ⟨houtcomes, hidle⟩ := ih (e := e.moveTo chosen.target) rfl
    rw [Execution.outcomes_cons, Execution.steps_cons,
      Execution.step_of_choose? hcurrent hchosen, houtcomes, List.cons_append]
    exact ⟨rfl, hidle⟩

/-- **Ticks go along the way like steps**: only the last of them ends the run. -/
theorem ticks_eq {e : Execution} {token : Token} (h : HaltsAlong g id contexts moves last)
    (hcurrent : e.cursor.current = some id) (htoken : e.isCurrent token = true) :
    e.tickOutcomes token g contexts = (e.outcomes g contexts).map some ∧
      e.ticks token g contexts = e.steps g contexts := by
  induction h generalizing e with
  | halt =>
    rw [Execution.tickOutcomes_cons, Execution.ticks_cons, Execution.tick_of_isCurrent htoken]
    exact ⟨rfl, rfl⟩
  | @move _ _ _ _ _ chosen hchosen _ ih =>
    obtain ⟨houtcomes, hticks⟩ := ih (e := e.moveTo chosen.target) rfl htoken
    rw [Execution.tickOutcomes_cons, Execution.ticks_cons, Execution.tick_of_isCurrent htoken,
      Execution.outcomes_cons, Execution.steps_cons, Execution.step_of_choose? hcurrent hchosen,
      houtcomes, hticks, List.map_cons]
    exact ⟨rfl, rfl⟩

/-- An execution that may go on for longer halts on the way. -/
theorem halted_mem {e : Execution} {done : List Context} (h : HaltsAlong g id done moves last)
    (hcurrent : e.cursor.current = some id) (hdone : done <+: contexts) :
    .halted last ∈ e.outcomes g contexts := by
  obtain ⟨later, rfl⟩ := hdone
  rw [Execution.outcomes_append, (h.outcomes_eq hcurrent).1]
  exact List.mem_append_left _ (List.mem_append_right _ (List.mem_singleton_self _))

end HaltsAlong

/-- **An execution that halts has gone along a way to a halt.** -/
theorem exists_haltsAlong_of_halted {e : Execution} {other : NodeId}
    (hcurrent : e.cursor.current = some id) (h : .halted other ∈ e.outcomes g contexts) :
    ∃ done moves last, done <+: contexts ∧ HaltsAlong g id done moves last := by
  induction contexts generalizing e id with
  | nil => exact absurd h List.not_mem_nil
  | cons context contexts ih =>
    cases hchosen : choose? g id context with
    | none =>
      exact ⟨[context], [], id, ⟨contexts, rfl⟩, .halt hchosen⟩
    | some chosen =>
      rw [Execution.outcomes_cons, Execution.step_of_choose? hcurrent hchosen] at h
      rcases List.mem_cons.mp h with hnow | hlater
      · exact nomatch hnow
      · obtain ⟨done, moves, last, hdone, hhalts⟩ := ih rfl hlater
        exact ⟨context :: done, .advanced id chosen :: moves, last,
          List.cons_prefix_cons.mpr ⟨rfl, hdone⟩, .move hchosen hhalts⟩

/-! ### A fixed context -/

namespace HaltsAlong

/-- **With one context, a node decides how long it takes to halt.** -/
theorem length_unique {other : NodeId} {later : List Context} {moves' : List Outcome}
    (h : HaltsAlong g id contexts moves last) (h' : HaltsAlong g id later moves' other)
    (hfixed : ∀ c ∈ contexts, c = context) (hfixed' : ∀ c ∈ later, c = context) :
    contexts.length = later.length := by
  -- the node and the context decide whether it moves, and where to, so the two ways never part
  induction h generalizing later moves' with
  | halt hchosen =>
    obtain rfl := hfixed _ List.mem_cons_self
    cases h' with
    | halt => rfl
    | move hchosen' =>
      obtain rfl := hfixed' _ List.mem_cons_self
      exact absurd (hchosen.symm.trans hchosen') nofun
  | move hchosen _ ih =>
    obtain rfl := hfixed _ List.mem_cons_self
    cases h' with
    | halt hchosen' =>
      obtain rfl := hfixed' _ List.mem_cons_self
      exact absurd (hchosen'.symm.trans hchosen) nofun
    | move hchosen' hlater' =>
      obtain rfl := hfixed' _ List.mem_cons_self
      obtain rfl := Option.some.inj (hchosen.symm.trans hchosen')
      exact congrArg Nat.succ (ih hlater' (fun c hc => hfixed c (List.mem_cons_of_mem _ hc))
        fun c hc => hfixed' c (List.mem_cons_of_mem _ hc))

/-- **With one context, no node is visited twice on a way to a halt.** Every node on the way is
another number of steps away from the halt. -/
theorem exists_trail (h : HaltsAlong g id contexts moves last) (hg : g.HasEnds) (hid : id ∈ g.ids)
    (hfixed : ∀ c ∈ contexts, c = context) :
    ∃ trail : List NodeId, trail.length = contexts.length ∧ trail.Nodup ∧
      ∀ visited ∈ trail, visited ∈ g.ids ∧
        ∃ later moves, later <:+ contexts ∧ HaltsAlong g visited later moves last := by
  induction h with
  | @halt id other hchosen =>
    refine ⟨[id], rfl, List.nodup_singleton id, fun visited hvisited => ?_⟩
    obtain rfl := List.mem_singleton.mp hvisited
    exact ⟨hid, [other], [], List.suffix_rfl, .halt hchosen⟩
  | @move id last first contexts moves chosen hchosen hlater ih =>
    have hwhole : HaltsAlong g id (first :: contexts) (.advanced id chosen :: moves) last :=
      .move hchosen hlater
    obtain ⟨trail, hlength, hnodup, htrail⟩ := ih (target_mem_ids_of_choose? hg hchosen)
      fun c hc => hfixed c (List.mem_cons_of_mem _ hc)
    refine ⟨id :: trail, congrArg Nat.succ hlength, List.nodup_cons.mpr ⟨fun hmem => ?_, hnodup⟩,
      List.forall_mem_cons.mpr ⟨⟨hid, _, _, List.suffix_rfl, hwhole⟩, fun visited hvisited => ?_⟩⟩
    · -- a later visit would be nearer to the halt than this one
      obtain ⟨-, later, moves', hsuffix, hagain⟩ := htrail id hmem
      have heq := hwhole.length_unique hagain hfixed
        fun c hc => hfixed c (List.mem_cons_of_mem _ (hsuffix.subset hc))
      have hle := hsuffix.length_le
      rw [List.length_cons] at heq
      omega
    · obtain ⟨hmem, later, moves', hsuffix, hhalts⟩ := htrail visited hvisited
      exact ⟨hmem, later, moves', hsuffix.trans (List.suffix_cons _ _), hhalts⟩

/-- With one context, a way to a halt takes no more steps than there are nodes. -/
theorem length_le (h : HaltsAlong g id contexts moves last) (hg : g.HasEnds) (hid : id ∈ g.ids)
    (hfixed : ∀ c ∈ contexts, c = context) : contexts.length ≤ g.nodes.length := by
  obtain ⟨trail, hlength, hnodup, htrail⟩ := h.exists_trail hg hid hfixed
  have hsubset : trail ⊆ g.ids := fun visited hvisited => (htrail visited hvisited).1
  calc contexts.length
      = trail.length := hlength.symm
    _ ≤ g.ids.length := (hnodup.subperm hsubset).length_le
    _ = g.nodes.length := List.length_map Node.id

end HaltsAlong

/-! ### No cycle -/

/-- **Without cycles there is a way to a halt**, whatever the contexts are. It makes no more moves
than the rank of its first node, because every move goes to a node of a lower rank. -/
theorem exists_haltsAlong {rank : NodeId → Nat} (hrank : g.IsRank rank)
    (hlength : rank id < contexts.length) :
    ∃ done moves last, done <+: contexts ∧ moves.length ≤ rank id ∧
      HaltsAlong g id done moves last := by
  induction contexts generalizing id with
  | nil => exact absurd hlength (Nat.not_lt_zero _)
  | cons context contexts ih =>
    cases hchosen : choose? g id context with
    | none => exact ⟨[context], [], id, ⟨contexts, rfl⟩, Nat.zero_le _, .halt hchosen⟩
    | some chosen =>
      have hfalls : rank chosen.target < rank id :=
        hrank.lt_of_transGen (.single (leadsTo_of_choose? hchosen))
      have hrest : rank chosen.target < contexts.length := by
        rw [List.length_cons] at hlength
        omega
      obtain ⟨done, moves, last, hdone, hle, hhalts⟩ := ih hrest
      refine ⟨context :: done, .advanced id chosen :: moves, last,
        List.cons_prefix_cons.mpr ⟨rfl, hdone⟩, ?_, .move hchosen hhalts⟩
      rw [List.length_cons]
      omega

/-- **A short end**: moves along arrows, fewer than there are nodes, and then a node that no arrow
leaves. -/
structure EndsSoon (g : Graph) (moves : List Outcome) (last : NodeId) : Prop where
  exists_advanced : ∀ move ∈ moves, ∃ source chosen, move = .advanced source chosen
  length_lt : moves.length < g.nodes.length
  source_ne : ∀ edge ∈ g.edges, edge.source ≠ last

/-- Without cycles, with a context for every node, every way comes to a short end. -/
theorem exists_endsSoon (hg : g.HasEnds) (hacyclic : g.IsAcyclic) (hid : id ∈ g.ids)
    (hlength : g.nodes.length ≤ contexts.length) :
    ∃ done moves last, done <+: contexts ∧ HaltsAlong g id done moves last ∧
      EndsSoon g moves last := by
  have hrank := hacyclic.card_reachedFrom_lt hg hid
  obtain ⟨done, moves, last, hdone, hle, hhalts⟩ :=
    exists_haltsAlong (hacyclic.isRank hg) (hrank.trans_le hlength)
  exact ⟨done, moves, last, hdone, hhalts, hhalts.exists_advanced, Nat.lt_of_le_of_lt hle hrank,
    hhalts.source_ne hg hid⟩

/-! ### Executions from idle -/

namespace Execution

variable {e : Execution}

/-- **A flowchart that stays the same halts soon or never.** The graph has come about by editing and
by removing nodes; then it is left alone, and the context as well. From idle, an execution that does
not halt in one more step than there are nodes does not halt in any number of steps. -/
theorem halted_mem_outcomes_or_never (hg : g.Reachable) (hidle : e.state = .idle)
    (context : Context) :
    (∃ id, .halted id ∈ e.outcomes g (List.replicate (g.nodes.length + 1) context)) ∨
      ∀ count id, .halted id ∉ e.outcomes g (List.replicate count context) := by
  rw [or_iff_not_imp_right]
  intro hsometimes
  obtain ⟨count, id, hhalted⟩ : ∃ count id,
      .halted id ∈ e.outcomes g (List.replicate count context) := by
    simpa using hsometimes
  have hnone : e.cursor.current = none := state_eq_idle_iff.mp hidle
  cases hfirst : g.first? with
  | none => exact nomatch eq_emptyGraph_of_mem_outcomes hnone hfirst hhalted
  | some first =>
    cases count with
    | zero => exact absurd hhalted List.not_mem_nil
    | succ count =>
      -- the first step does not halt: it enters the first node
      rw [List.replicate_succ, outcomes_cons, step_of_first? hnone hfirst] at hhalted
      have hlater : .halted id ∈ (e.moveTo first.id).outcomes g (List.replicate count context) :=
        (List.mem_cons.mp hhalted).resolve_left nofun
      obtain ⟨done, moves, last, hdone, hhalts⟩ := exists_haltsAlong_of_halted rfl hlater
      have hfixed : ∀ c ∈ done, c = context :=
        fun c hc => List.eq_of_mem_replicate (hdone.subset hc)
      have hle : done.length ≤ g.nodes.length :=
        hhalts.length_le hg.isOrderly.ends (Graph.mem_ids_of_first? hfirst) hfixed
      have hprefix : done <+: List.replicate g.nodes.length context :=
        List.prefix_replicate_iff.mpr ⟨hle, List.eq_replicate_of_mem hfixed⟩
      refine ⟨last, ?_⟩
      rw [List.replicate_succ, outcomes_cons, step_of_first? hnone hfirst]
      exact List.mem_cons_of_mem _ (hhalts.halted_mem rfl hprefix)

/-- Two nodes with arrows to each other: three steps show that no step halts. -/
theorem halted_mem_outcomes_or_never_round :
    let d : Document := ⟨"1.0", [⟨1, ⟨0, 0⟩, .circle, none, .none⟩,
      ⟨2, ⟨0, 0⟩, .square, none, .none⟩], [⟨1, 2, none⟩, ⟨2, 1, none⟩], none⟩
    let g := Graph.ofParts d.nodes d.edges
    d.toGraph = .ok g ∧ initial.state = .idle ∧
      ∀ count id, .halted id ∉ initial.outcomes g (List.replicate count .empty) := by
  intro d g
  have hopen : d.toGraph = .ok g := rfl
  refine ⟨hopen, rfl, (halted_mem_outcomes_or_never (.pristine (.inr ⟨d, hopen⟩)) rfl
    .empty).resolve_left ?_⟩
  rintro ⟨id, hhalted⟩
  have houtcomes : initial.outcomes g (List.replicate 3 .empty) =
      [.entered 1, .advanced 1 ⟨0, 2, .defaultPath⟩, .advanced 2 ⟨1, 1, .defaultPath⟩] := by
    decide +kernel
  change .halted id ∈ initial.outcomes g (List.replicate 3 .empty) at hhalted
  rw [houtcomes] at hhalted
  simp at hhalted

/-- Stepping without cycles: the first node is entered, and a short end comes behind it. -/
theorem exists_steps_to_halt {first : Node} (hg : g.HasEnds) (hacyclic : g.IsAcyclic)
    (hfirst : g.first? = some first) (hnone : e.cursor.current = none)
    (hlength : g.nodes.length < contexts.length) :
    ∃ done moves last, done <+: contexts ∧ done.length ≤ g.nodes.length + 1 ∧
      EndsSoon g moves last ∧ e.outcomes g done = .entered first.id :: (moves ++ [.halted last]) ∧
      (e.steps g done).cursor = .idle := by
  cases contexts with
  | nil => exact absurd hlength (Nat.not_lt_zero _)
  | cons context contexts =>
    obtain ⟨done, moves, last, hdone, hhalts, hsoon⟩ :=
      exists_endsSoon hg hacyclic (Graph.mem_ids_of_first? hfirst) (Nat.le_of_lt_succ hlength)
    obtain ⟨houtcomes, hcursor⟩ := hhalts.outcomes_eq (e := e.moveTo first.id) rfl
    refine ⟨context :: done, moves, last, List.cons_prefix_cons.mpr ⟨rfl, hdone⟩, ?_, hsoon, ?_, ?_⟩
    · rw [List.length_cons, hhalts.length_moves]
      exact Nat.succ_le_succ hsoon.length_lt
    · rw [outcomes_cons, step_of_first? hnone hfirst, houtcomes]
    · rwa [steps_cons, step_of_first? hnone hfirst]

/-- Ticking without cycles: a run that stands on a node comes to a short end. -/
theorem exists_ticks_to_halt {token : Token} (hg : g.HasEnds) (hacyclic : g.IsAcyclic)
    (hid : id ∈ g.ids) (hcurrent : e.cursor.current = some id) (htoken : e.isCurrent token = true)
    (hlength : g.nodes.length ≤ contexts.length) :
    ∃ done moves last, done <+: contexts ∧ done.length ≤ g.nodes.length ∧ EndsSoon g moves last ∧
      e.tickOutcomes token g done = (moves ++ [Outcome.halted last]).map some ∧
      (e.ticks token g done).cursor = .idle := by
  obtain ⟨done, moves, last, hdone, hhalts, hsoon⟩ := exists_endsSoon hg hacyclic hid hlength
  obtain ⟨houtcomes, hcursor⟩ := hhalts.outcomes_eq hcurrent
  obtain ⟨htickOutcomes, hticks⟩ := hhalts.ticks_eq hcurrent htoken
  refine ⟨done, moves, last, hdone, ?_, hsoon, ?_, ?_⟩
  · rw [hhalts.length_moves]
    exact hsoon.length_lt
  · rw [htickOutcomes, houtcomes]
  · rwa [hticks]

/-- **A flowchart without cycles always halts**, whatever its labels say and however the context is
changed from step to step. From idle, the first step enters the first node; then come moves along
arrows, fewer than there are nodes; then the execution halts at a node that no arrow leaves, and it
is idle again. A run that is started from idle begins on the first node, and ticks with its token do
the rest in the same way. -/
theorem outcomes_of_isAcyclic (hg : g.Reachable) (hnodes : 1 ≤ g.nodes.length)
    (hacyclic : g.IsAcyclic) (hidle : e.cursor = .idle)
    (hlength : g.nodes.length < contexts.length) :
    ∃ first, g.first? = some first ∧
      (∃ done moves last, done <+: contexts ∧ done.length ≤ g.nodes.length + 1 ∧
        EndsSoon g moves last ∧ e.outcomes g done = .entered first.id :: (moves ++ [.halted last]) ∧
        (e.steps g done).cursor = .idle) ∧
      ∃ token run, e.beginRun g = (some token, run) ∧ run.cursor = ⟨some first.id, true⟩ ∧
        ∃ done moves last, done <+: contexts ∧ done.length ≤ g.nodes.length ∧
          EndsSoon g moves last ∧
          run.tickOutcomes token g done = (moves ++ [Outcome.halted last]).map some ∧
          (run.ticks token g done).cursor = .idle := by
  have hends := hg.isOrderly.ends
  obtain ⟨first, hfirst⟩ : ∃ first, g.first? = some first :=
    ⟨_, List.head?_eq_some_head (List.ne_nil_of_length_pos hnodes)⟩
  have hnone : e.cursor.current = none := by
    rw [hidle]
    rfl
  -- a run starts from idle on the first node, so its ticks go the way of the steps
  have hbegin : e.beginRun g =
      (some ⟨e.generation + 1⟩, ⟨⟨some first.id, true⟩, e.generation + 1⟩) := by
    simp [beginRun, hidle, Cursor.idle, hfirst]
  exact ⟨first, hfirst, exists_steps_to_halt hends hacyclic hfirst hnone hlength, _, _, hbegin, rfl,
    exists_ticks_to_halt hends hacyclic (Graph.mem_ids_of_first? hfirst) rfl
      (isCurrent_of_beginRun hbegin) (Nat.le_of_lt hlength)⟩

/-- A decision with two ways to the same end, and contexts that change their mind. -/
theorem outcomes_of_isAcyclic_decision :
    let d : Document := ⟨"1.0", [⟨1, ⟨0, 0⟩, .square, some "go", .none⟩,
      ⟨2, ⟨0, 0⟩, .circle, some "n", .none⟩, ⟨3, ⟨0, 0⟩, .triangle, none, .none⟩],
      [⟨1, 2, some "true"⟩, ⟨1, 3, none⟩, ⟨2, 3, some "false"⟩], none⟩
    let g := Graph.ofParts d.nodes d.edges
    let contexts : List Context :=
      [.empty, .ofList [("go", .bool true)], .ofList [("n", .bool true)], .empty]
    d.toGraph = .ok g ∧ 1 ≤ g.nodes.length ∧ g.IsAcyclic ∧ initial.cursor = .idle ∧
      g.nodes.length < contexts.length ∧
      ∃ done moves last, done <+: contexts ∧ done.length ≤ 4 ∧ EndsSoon g moves last ∧
        initial.outcomes g done = .entered 1 :: (moves ++ [.halted last]) := by
  intro d g contexts
  have hopen : d.toGraph = .ok g := rfl
  have hacyclic : g.IsAcyclic := by
    have hrank : g.IsRank fun id => 3 - id.toNat := by decide
    exact hrank.isAcyclic
  have hlength : g.nodes.length < contexts.length := by decide
  obtain ⟨first, hfirst, ⟨done, moves, last, hdone, hle, hsoon, houtcomes, -⟩, -⟩ :=
    outcomes_of_isAcyclic (.pristine (.inr ⟨d, hopen⟩)) (by decide) hacyclic
      (rfl : initial.cursor = .idle) hlength
  obtain rfl := Option.some.inj hfirst
  exact ⟨hopen, by decide, hacyclic, rfl, hlength, done, moves, last, hdone, hle, hsoon, houtcomes⟩

end Execution

end Flowchart.Run
