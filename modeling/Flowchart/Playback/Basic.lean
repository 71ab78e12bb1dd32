import Flowchart.Session

/-!
# Playback

When a session is shared, between a person and the ticks of a run, every access to it is one locked
section: it has the session to itself, and before it lets go it publishes the cursor, whether or not
the cursor has moved. Whoever watches sees the cursor that was published last, and can tell that
something was published by how often that has happened.

Playback moves a session on by itself: while a run is in progress, a ticker makes a tick after each
interval. At most one ticker exists. It ends with the first tick that finds its run over or ends it,
and it is taken away when the run is stopped or reset, or when another run starts.

Deleting the node on which the execution stands ends the run, but leaves the ticker; its next tick
finds the run over.

Time is a number of milliseconds. It stands still except in `advance`, which lets a given time pass,
and in `finish`, which lets pass what the ticker needs. A ticker that has not ended after as many
ticks as there are nodes, and one more, moves in a circle and never ends, so waiting for it has no
end either; `finish` gives up at that point.
-/

namespace Flowchart

/-! ### A session whose cursor is published -/

/-- A session with the cursor that was published last, and the number of publications. -/
structure Broadcast where
  session : Session
  published : Run.Cursor
  publications : Nat
  deriving DecidableEq

namespace Broadcast

/-- A session whose cursor is there to be watched from the start. -/
def start (session : Session) : Broadcast :=
  ⟨session, session.cursor, 0⟩

/-- **A locked section**: an operation on the session, followed by the publication of the cursor. -/
def locked {α : Type} (b : Broadcast) (operation : Session → α × Session) : α × Broadcast :=
  let (reply, session) := operation b.session
  (reply, ⟨session, session.cursor, b.publications + 1⟩)

/-- **What is published is the cursor**, after every locked section. -/
theorem published_locked {α : Type} (b : Broadcast) (operation : Session → α × Session) :
    (b.locked operation).2.published = (b.locked operation).2.session.cursor := rfl

/-- **A tick of a run**, which tells whether the run goes on. -/
def tick (b : Broadcast) (token : Run.Token) : Bool × Broadcast :=
  let (outcome?, b) := b.locked fun s => s.tick token
  (outcome?.isSome && b.session.cursor.running, b)

end Broadcast

/-! ### Playback -/

/-- A ticker: the run it ticks for, and when. -/
structure Ticker where
  token : Run.Token
  /-- The time of the next tick. -/
  next : Nat
  period : Nat
  deriving DecidableEq

/-- A session under playback. -/
structure Playback where
  broadcast : Broadcast
  ticker : Option Ticker
  now : Nat
  deriving DecidableEq

namespace Playback

/-- Playback of a session, where nothing runs yet. -/
def start (session : Session) : Playback :=
  ⟨.start session, none, 0⟩

/-- The session. -/
def session (p : Playback) : Session :=
  p.broadcast.session

/-- An operation on the session. -/
def locked {α : Type} (p : Playback) (operation : Session → α × Session) : α × Playback :=
  let (reply, broadcast) := p.broadcast.locked operation
  (reply, { p with broadcast })

/-- Takes the ticker away. -/
def dropTicker (p : Playback) : Playback :=
  { p with ticker := none }

/-- One step, outside of any run. -/
def step (p : Playback) : Run.Outcome × Playback :=
  p.locked Session.step

/-- Back to idle. -/
def reset (p : Playback) : Playback :=
  (p.locked fun s => ((), s.reset)).2.dropTicker

/-- **Stops the run**, and returns whether there was one. -/
def stop (p : Playback) : Bool × Playback :=
  let (wasRunning, p) := p.locked Session.endRun
  (wasRunning, p.dropTicker)

/-- What starting or stopping a run came to. -/
inductive Toggled where
  | started
  | stopped
  | nothingToRun
  deriving DecidableEq

/-- Why no run can be started. -/
inductive Error where
  /-- There is nothing that could make the ticks. -/
  | noClock
  deriving DecidableEq

/-- The message of an error. -/
def Error.message : Error → String
  | noClock => "Playback requires a running Tokio runtime to schedule ticks"

/-- **Stops the run in progress, or starts one.** A run can be started only where a clock makes the
ticks; the first one comes after one interval. -/
def toggle (p : Playback) (hasClock : Bool) : Except Error Toggled × Playback :=
  if p.session.cursor.running then (.ok .stopped, p.stop.2)
  else if !hasClock then (.error .noClock, p)
  else
    match p.locked Session.beginRun with
    | (none, p) => (.ok .nothingToRun, p)
    | (some token, p) =>
      let period := p.session.config.tickInterval.toNat
      (.ok .started, { p with ticker := some ⟨token, p.now + period, period⟩ })

/-- **The next tick of the ticker**, at its time. -/
def tick (p : Playback) : Playback :=
  match p.ticker with
  | none => p
  | some ticker =>
    let (goesOn, broadcast) := p.broadcast.tick ticker.token
    { broadcast
      ticker := if goesOn then some { ticker with next := ticker.next + ticker.period } else none
      now := max p.now ticker.next }

/-- Makes the ticks that are due up to a time, but no more than a given number of them. -/
def runUntil (time : Nat) : Nat → Playback → Playback
  | 0, p => p
  | count + 1, p =>
    match p.ticker with
    | some ticker => if ticker.next ≤ time then runUntil time count p.tick else p
    | none => p

/-- **Lets time pass**, with the ticks that are due on the way. As a period has at least one
millisecond, there are no more of them than milliseconds. -/
def advance (p : Playback) (milliseconds : Nat) : Playback :=
  let time := p.now + milliseconds
  { p.runUntil time (milliseconds + 1) with now := time }

/-- Makes a number of ticks, or fewer if the ticker ends. -/
def ticks : Nat → Playback → Playback
  | 0, p => p
  | count + 1, p => if p.ticker.isSome then ticks count p.tick else p

/-- **Waits for the end of the ticker**, as long as it takes, and returns at once if there is
none. -/
def finish (p : Playback) : Playback :=
  (ticks (p.session.graph.nodes.length + 2) p).dropTicker

end Playback

end Flowchart
