import Flowchart.Proofs.Playback.Interleaving

/-!
# Playback as it is operated

`Flowchart.Playback` has one ticker and a clock, while `Flowchart.SharedPlayback` has any number of
tasks that may tick at any time. This file shows that the first is a case of the second: whatever
calls are made, and however much time passes between them, the session and the published cursor are
those of some row of sections (`Flowchart.Playback.exists_sections_of_calls`). So what holds of all
interleavings holds of playback.

Only the session has to agree. A ticker that is taken away stays among the tasks, where it can do
no harm, and so `Flowchart.SharedPlayback.Follows` asks of the tasks only that the ticker be one of
them.
-/

namespace Flowchart

open SharedPlayback (Section)

namespace Playback

/-- A call, or some time that passes. -/
inductive Call where
  | perform (action : Session.Action)
  | step
  | reset
  | stop
  | toggle (hasClock : Bool)
  | advance (milliseconds : Nat)
  | finish
  deriving DecidableEq

/-- The playback after a call. -/
def call (p : Playback) : Call → Playback
  | .perform action => (p.locked fun s => s.perform action).2
  | .step => p.step.2
  | .reset => p.reset
  | .stop => p.stop.2
  | .toggle hasClock => (p.toggle hasClock).2
  | .advance milliseconds => p.advance milliseconds
  | .finish => p.finish

end Playback

namespace SharedPlayback

theorem after_append (p : SharedPlayback) (sections later : List Section) :
    p.after (sections ++ later) = (p.after sections).after later :=
  List.foldl_append

/-! ### Following a playback -/

/-- A shared playback **follows** a playback: it has the same session and the same published cursor,
and the ticker, if there is one, ticks for one of its tasks. -/
structure Follows (q : SharedPlayback) (p : Playback) : Prop where
  broadcast_eq : q.broadcast = p.broadcast
  ticker_mem : ∀ ticker, p.ticker = some ticker → ∃ task ∈ q.tasks, task.token = ticker.token

/-- A playback **leads** to another one by sections: whatever follows the first can follow the
second after some sections. -/
def Leads (p p' : Playback) : Prop :=
  ∀ q, Follows q p → ∃ sections, Follows (q.after sections) p'

theorem leads_refl (p : Playback) : Leads p p :=
  fun _ hq => ⟨[], hq⟩

theorem Leads.trans {p p' p'' : Playback} (h : Leads p p') (h' : Leads p' p'') : Leads p p'' := by
  intro q hq
  obtain ⟨sections, hq'⟩ := h q hq
  obtain ⟨later, hq''⟩ := h' _ hq'
  exact ⟨sections ++ later, after_append q sections later ▸ hq''⟩

/-- What a section makes of the session, with the same ticker or without one. -/
theorem leads_of_section {p p' : Playback} (sec : Section)
    (hsection : ∀ tasks spawned, ((⟨p.broadcast, tasks, spawned⟩ : SharedPlayback).enter sec) =
      ⟨p'.broadcast, tasks, spawned⟩)
    (hticker : p'.ticker = p.ticker ∨ p'.ticker = none) : Leads p p' := by
  rintro ⟨_, tasks, spawned⟩ ⟨rfl, hmem⟩
  refine ⟨[sec], ?_⟩
  change Follows (SharedPlayback.enter _ sec) p'
  rw [hsection]
  refine ⟨rfl, fun ticker hsome => ?_⟩
  rcases hticker with hsame | hnone
  · exact hmem ticker (hsame ▸ hsome)
  · rw [hnone] at hsome
    exact nomatch hsome

/-- The time is nothing that is followed. -/
theorem leads_of_eq {p p' : Playback} (hbroadcast : p'.broadcast = p.broadcast)
    (hticker : p'.ticker = p.ticker ∨ p'.ticker = none) : Leads p p' := by
  refine fun q hq => ⟨[], hq.broadcast_eq.trans hbroadcast.symm, fun ticker hsome => ?_⟩
  rcases hticker with hsame | hnone
  · exact hq.ticker_mem ticker (hsame ▸ hsome)
  · rw [hnone] at hsome
    exact nomatch hsome

/-! ### The calls -/

theorem leads_stop (p : Playback) : Leads p p.stop.2 :=
  leads_of_section .stop (fun _ _ => rfl) (Or.inr rfl)

/-- A run that starts spawns the task for which the new ticker ticks. -/
theorem leads_toggle (p : Playback) (hasClock : Bool) : Leads p (p.toggle hasClock).2 := by
  unfold Playback.toggle
  split
  · exact leads_stop p
  · split
    · exact leads_refl p
    · rintro ⟨_, tasks, spawned⟩ ⟨rfl, hmem⟩
      refine ⟨[.begin], ?_⟩
      change Follows (SharedPlayback.enter _ .begin) _
      unfold Playback.locked enter
      obtain ⟨token?, b⟩ := p.broadcast.locked Session.beginRun
      cases token? with
      | none => exact ⟨rfl, hmem⟩
      | some token =>
        refine ⟨rfl, fun ticker hsome => ?_⟩
        obtain rfl := Option.some.inj hsome
        exact ⟨⟨spawned, token⟩, List.mem_append_right _ (List.mem_singleton_self _), rfl⟩

/-- A tick of the ticker is one of its task, which goes on exactly if the ticker does. -/
theorem leads_tick (p : Playback) : Leads p p.tick := by
  cases hticker : p.ticker with
  | none =>
    have htick : p.tick = p := by rw [Playback.tick, hticker]
    rw [htick]
    exact leads_refl p
  | some ticker =>
    rintro ⟨_, tasks, spawned⟩ ⟨rfl, hmem⟩
    obtain ⟨task, htask, htoken⟩ := hmem ticker hticker
    have htick : p.tick = ⟨(p.broadcast.tick ticker.token).2,
        if (p.broadcast.tick ticker.token).1 then
          some { ticker with next := ticker.next + ticker.period } else none,
        max p.now ticker.next⟩ := by
      rw [Playback.tick, hticker]
    have henter : (SharedPlayback.mk p.broadcast tasks spawned).enter (.tick task) =
        ⟨(p.broadcast.tick ticker.token).2,
          if (p.broadcast.tick ticker.token).1 then tasks else tasks.erase task, spawned⟩ := by
      rw [enter, if_pos htask, htoken]
    refine ⟨[.tick task], ?_⟩
    change Follows (SharedPlayback.enter _ (.tick task)) _
    rw [htick, henter]
    refine ⟨rfl, fun later hsome => ?_⟩
    cases hgoes : (p.broadcast.tick ticker.token).1 with
    | false =>
      rw [hgoes] at hsome
      exact absurd hsome.symm (Option.some_ne_none later)
    | true =>
      rw [hgoes] at hsome
      obtain rfl := Option.some.inj hsome
      exact ⟨task, htask, htoken⟩

theorem leads_runUntil (time count : Nat) (p : Playback) : Leads p (p.runUntil time count) := by
  induction count generalizing p with
  | zero => exact leads_refl p
  | succ count ih =>
    unfold Playback.runUntil
    split
    · split
      · exact (leads_tick p).trans (ih p.tick)
      · exact leads_refl p
    · exact leads_refl p

theorem leads_ticks (count : Nat) (p : Playback) : Leads p (p.ticks count) := by
  induction count generalizing p with
  | zero => exact leads_refl p
  | succ count ih =>
    unfold Playback.ticks
    split
    · exact (leads_tick p).trans (ih p.tick)
    · exact leads_refl p

/-- **Every call is made of sections.** -/
theorem leads_call (p : Playback) (c : Playback.Call) : Leads p (p.call c) := by
  cases c with
  | perform action => exact leads_of_section (.perform action) (fun _ _ => rfl) (Or.inl rfl)
  | step => exact leads_of_section .step (fun _ _ => rfl) (Or.inl rfl)
  | reset => exact leads_of_section .reset (fun _ _ => rfl) (Or.inr rfl)
  | stop => exact leads_stop p
  | toggle hasClock => exact leads_toggle p hasClock
  | advance milliseconds =>
    exact (leads_runUntil _ _ p).trans (leads_of_eq rfl (Or.inl rfl))
  | finish => exact (leads_ticks _ p).trans (leads_of_eq rfl (Or.inr rfl))

end SharedPlayback

namespace Playback

/-- **Playback is an interleaving of sections.** Whatever calls are made and however much time
passes, some row of sections leads to the same session and the same published cursor. -/
theorem exists_sections_of_calls (session : Session) (calls : List Call) :
    ∃ sections, ((SharedPlayback.start session).after sections).broadcast =
      (calls.foldl call (start session)).broadcast := by
  have hleads : ∀ p, SharedPlayback.Leads p (calls.foldl call p) := by
    induction calls with
    | nil => exact SharedPlayback.leads_refl
    | cons c calls ih => exact fun p => (SharedPlayback.leads_call p c).trans (ih (p.call c))
  have hstart : SharedPlayback.Follows (.start session) (start session) :=
    ⟨rfl, fun _ h => nomatch h⟩
  obtain ⟨sections, hfollows⟩ := hleads (start session) _ hstart
  exact ⟨sections, hfollows.broadcast_eq⟩

theorem published_of_calls (session : Session) (calls : List Call) :
    (calls.foldl call (start session)).broadcast.published =
      (calls.foldl call (start session)).session.cursor := by
  obtain ⟨sections, heq⟩ := exists_sections_of_calls session calls
  rw [Playback.session, ← heq]
  exact SharedPlayback.published_after rfl sections

end Playback

end Flowchart
