/-
# LeaseLock.Exclusive -- a task under a lease

An exclusive run checks its options, acquires the key, lets the task work while the lease is extended
on a schedule, and releases the key. What happens in between is left to a **stage**: it carries lock
operations through at its database and lets time pass while the task works. So one definition of the
run serves a rehearsal in virtual time as well as a real table.

`Exclusive.conclude` says whose word counts in the end: a task's own failure or crash beats whatever
the release reports, a lost lease beats a successful release, and only a task that returned leaves
the last word to the release.
-/
import LeaseLock.Handle

namespace LeaseLock

/-! ## Endings -/

/-- How a task ends by itself. -/
inductive TaskEnd (α : Type) where
  | returned (value : α)
  | failed (text : String)
  /-- The task broke off without a result; the breakdown goes on after the release. -/
  | crashed (text : String)
deriving Repr, Inhabited

/-- Why the work under a lease stops. -/
inductive Stop (α : Type) where
  | ended (e : TaskEnd α)
  /-- An extension failed, and the task was dropped. -/
  | leaseLost (e : LockError)
deriving Repr, Inhabited

/-- What the caller of an exclusive run gets. -/
inductive ExclusiveResult (α : Type) where
  | value (a : α)
  | error (e : ExclusiveError)
  | crashed (text : String)
deriving Repr, Inhabited

/-! ## Stages -/

/-- The extension of a lease, and how often it is due. -/
structure Extension where
  every : Duration
  call : Call Handle (Except LockError Unit)

/-- **Stage**: the world in which an exclusive run takes place. -/
structure Stage (ω α : Type) where
  /-- Carries a lock operation through. -/
  perform : ω → Call Handle (Except LockError Unit) →
    ω × Call.Finished Handle (Except LockError Unit)
  /-- Carries a lock operation through, unless it takes longer than the budget. -/
  performWithin : ω → Duration → Call Handle (Except LockError Unit) →
    ω × Option (Call.Finished Handle (Except LockError Unit))
  /-- Starts the task, extends the lease whenever this is due, and stops at the end of the task or
  at the first extension that fails. -/
  work : ω → Option Extension → ω × Stop α × List Event
  /-- The reading of the clock that extensions are scheduled on. -/
  clock : ω → Duration

/-! ## The run -/

namespace Exclusive

/-- The checks before any statement, in their order: time to live, interval, table, key. -/
def prepare (d : Dialect) (key : String) (o : ExclusiveOptions) :
    Except ConfigError (Manager × Handle) := do
  if o.lockTtl.isZero then throw (.invalidTtl o.lockTtl)
  match o.extendEvery with
  | some interval => if interval.isZero then throw (.invalidExtendInterval interval)
  | none => pure ()
  let manager ← Manager.ofConfig d o.config
  let handle ← Handle.ofKey key
  return (manager, handle)

/-- An extension that notes in the log why the task is being stopped. -/
def extension (m : Manager) (h : Handle) (ttl : Duration) : Call Handle (Except LockError Unit) :=
  (h.extend m ttl).logging fun
    | .error e => [.stoppingTask h.key e]
    | .ok () => []

/-- Whether the first extension has a due time at all: clocks count signed 64-bit seconds, so an
interval that leads to `2 ^ 63` seconds or more lies beyond the last instant. -/
def schedulable (now : Duration) : Option Duration → Bool
  | none => true
  | some interval => (now.plus interval).seconds < Nat.pow 2 63

/-- The breakdown of a run whose first extension has no due time. -/
def beyondClock : String := "overflow when adding duration to instant"

/-- **Precedence** of what the caller gets, and the note on a release that failed after a failed
task. -/
def conclude {α : Type} (key : String) :
    Stop α → Except LockError Unit → ExclusiveResult α × List Event
  | .ended (.returned a), .ok () => (.value a, [])
  | .ended (.returned _), .error e => (.error (.lock e), [])
  | .ended (.failed text), .ok () => (.error (.task text), [])
  | .ended (.failed text), .error e => (.error (.task text), [.releaseFailed key e])
  | .ended (.crashed text), _ => (.crashed text, [])
  | .leaseLost e, _ => (.error (.lock e), [])

/-- The outcome of a release with a budget; running over it is a timeout. -/
def releaseOutcome (key : String) (budget : Duration) :
    Option (Call.Finished Handle (Except LockError Unit)) → Except LockError Unit × List Event
  | some finished => (finished.result, finished.events)
  | none => (.error (.transport key .release (.timeout budget)), [])

/-- **Exclusive run** of a task for `key`. The task is not started unless the key was acquired. A
run whose first extension lies beyond the clock breaks down when it sets its schedule up, which is
here before its task starts, and leaves its row behind. -/
def run {ω α : Type} (stage : Stage ω α) (d : Dialect) (key : String) (o : ExclusiveOptions)
    (fresh : Token) (w : ω) : ω × ExclusiveResult α × List Event :=
  match prepare d key o with
  | .error e => (w, .error (.lock (.config e)), [])
  | .ok (m, idle) =>
    let (w, acquired) := stage.perform w (idle.acquire m fresh o.lockTtl)
    match acquired.result with
    | .error e => (w, .error (.lock e), acquired.events)
    | .ok () =>
      if schedulable (stage.clock w) o.extendEvery then
        let h := acquired.state
        let (w, stop, noted) := stage.work w <|
          o.extendEvery.map fun interval => ⟨interval, extension m h o.lockTtl⟩
        let (w, answer) := stage.performWithin w o.releaseTimeout (h.release m)
        let (released, logged) := releaseOutcome key o.releaseTimeout answer
        let (result, remark) := conclude key stop released
        (w, result, acquired.events ++ noted ++ logged ++ remark)
      else (w, .crashed beyondClock, acquired.events)

end Exclusive

end LeaseLock
