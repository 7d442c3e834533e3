/-
# LeaseLock.Rehearsal.Performance -- an exclusive run over scripted answers

The task of a rehearsed run sleeps for some virtual milliseconds and then ends in a given way, or
crashes at once when it is started. Extension `k` is due `k` intervals after the claim and runs then
or as soon as the extension before it is done, whichever is later; ticks that were missed are made up
for. When the task ends, an extension that is still running is dropped. Timers go off on whole
milliseconds, a started one counted whole.
-/
import LeaseLock.Exclusive
import LeaseLock.Rehearsal.Timeline

namespace LeaseLock.Rehearsal

/-- A task: how long it sleeps and how it ends then, or how it crashes when it is started. -/
structure Task (α : Type) where
  sleep : Nat
  ending : TaskEnd α
  crashAtStart : Option String := none
deriving Repr, Inhabited

/-- **Performance**: a timeline, how often the task was started and slept to its end, and what the
clock read at instant zero. Clocks are running for a while when a rehearsal begins. -/
structure Performance where
  timeline : Timeline
  started : Nat := 0
  finished : Nat := 0
  boot : Duration := .ofSeconds 1
deriving Inhabited

namespace Timeline

/-- The instant at which extension `k` is due, counted from the claim. -/
def due (start : Nat) (every : Duration) (k : Nat) : Nat :=
  start + Duration.millisUp ⟨k * every.nanos⟩

/-- How many extensions are due by the end of the task. -/
def ticks (start stop : Nat) (every : Duration) : Nat :=
  (stop - start) * 1000000 / every.nanos

/-- Extends the lease at each of the next `left` ticks, from tick `k` on, until the task ends at
`stop`; gives the error of the first extension that fails. -/
def extending (e : Extension) (start stop : Nat) :
    Nat → Nat → Timeline → Timeline × Option LockError × List Event
  | 0, _, t => ({ t with now := stop }, none, [])
  | left + 1, k, t =>
    let begins := max t.now (due start e.every k)
    if stop ≤ begins then ({ t with now := stop }, none, [])
    else
      match e.call.runUntil stop { t with now := begins } with
      | (t, .error _) => (t, none, [])
      | (t, .ok ⟨_, .error err, events⟩) => (t, some err, events)
      | (t, .ok ⟨_, .ok (), events⟩) =>
        let (t, failure, later) := extending e start stop left (k + 1) t
        (t, failure, events ++ later)

end Timeline

namespace Performance

variable {α : Type}

/-- The task at work while its lease is extended at the first `ticks` ticks. -/
def workExtended (task : Task α) (p : Performance) (e : Extension) (ticks : Nat) :
    Performance × Stop α × List Event :=
  let start := p.timeline.now
  match p.timeline.extending e start (start + task.sleep) ticks 1 with
  | (t, some err, events) => ({ p with timeline := t }, .leaseLost err, events)
  | (t, none, events) =>
    ({ p with timeline := t, finished := p.finished + 1 }, .ended task.ending, events)

/-- The task at work under the lease. -/
def work (task : Task α) (p : Performance) (extension : Option Extension) :
    Performance × Stop α × List Event :=
  let p := { p with started := p.started + 1 }
  match task.crashAtStart with
  | some text => (p, .ended (.crashed text), [])
  | none =>
    let start := p.timeline.now
    let stop := start + task.sleep
    match extension with
    | none =>
      ({ p with timeline := { p.timeline with now := stop }, finished := p.finished + 1 },
        .ended task.ending, [])
    | some e => workExtended task p e (Timeline.ticks start stop e.every)

/-- **The stage of a rehearsal**, with virtual time and scripted answers. -/
def stage (task : Task α) : Stage Performance α where
  perform p call :=
    let (t, finished) := call.run Timeline.serve p.timeline
    ({ p with timeline := t }, finished)
  performWithin p budget call :=
    match call.runUntil (p.timeline.now + budget.millisUp) p.timeline with
    | (t, .ok finished) => ({ p with timeline := t }, some finished)
    | (t, .error _) => ({ p with timeline := t }, none)
  work := work task
  clock p := p.boot.plus (.ofMillis p.timeline.now)

/-- **Rehearsal of an exclusive run** from instant zero, with one script for all its statements. -/
def ofScript (d : Dialect) (key : String) (o : ExclusiveOptions) (fresh : Token) (task : Task α)
    (script : List Answer) : Performance × ExclusiveResult α × List Event :=
  Exclusive.run (stage task) d key o fresh { timeline := { script } }

end Performance

end LeaseLock.Rehearsal
