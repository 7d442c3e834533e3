/-
# LeaseLock.Rehearsal.Session -- handles over scripted answers

A session takes handles of one manager through a list of steps. Virtual time runs on from step to
step; every step has a script of its own, and may be cancelled after some milliseconds. A cancelled
step leaves its handle with what the call held when it was dropped.
-/
import LeaseLock.Handle
import LeaseLock.Rehearsal.Timeline

namespace LeaseLock.Rehearsal

/-! ## Steps and reports -/

/-- A lock operation on one of `n` handles, or a purge. -/
inductive Action (n : Nat) where
  | acquire (lock : Fin n) (ttl : Duration)
  | extend (lock : Fin n) (ttl : Duration)
  | release (lock : Fin n)
  | purge
deriving DecidableEq, Repr

/-- An operation with the answers to its statements. -/
structure Step (n : Nat) where
  action : Action n
  script : List Answer
  /-- The milliseconds after which the operation is dropped. -/
  cancelAfter : Option Nat
deriving Repr

/-- How a step came out. -/
inductive StepResult where
  | done
  | purged (rows : Nat)
  | cancelled
  | failed (e : LockError)
deriving DecidableEq, Repr, Inhabited

/-- What one step shows. -/
structure Report where
  result : StepResult
  exchanges : List Exchange
  /-- How many scripted answers no statement took. -/
  unused : Nat
  events : List Event
  /-- The step's handle afterwards; a purge has none. -/
  handle : Option Handle
deriving Repr, Inhabited

/-! ## Running -/

/-- A session between two steps. -/
structure Session (n : Nat) where
  manager : Manager
  handles : Vector Handle n
  now : Nat := 0
  /-- How many tokens have been offered to claims. -/
  minted : Nat := 0

namespace Session

variable {n : Nat}

/-- A session with an idle handle for each key. -/
def start (m : Manager) (handles : Vector Handle n) : Session n := { manager := m, handles }

/-- Runs a call from the session's current instant, with the step's script and patience. -/
def perform {σ α : Type} (s : Session n) (script : List Answer) (cancelAfter : Option Nat)
    (call : Call σ α) : Timeline × Except σ (Call.Finished σ α) :=
  let t : Timeline := { now := s.now, script }
  match cancelAfter with
  | some patience => call.runUntil (s.now + patience) t
  | none =>
    let (t, finished) := call.run Timeline.serve t
    (t, .ok finished)

/-- The report on an ended call. -/
def report (t : Timeline) (result : StepResult) (events : List Event) (handle : Option Handle) :
    Report :=
  ⟨result, t.exchanges, t.script.length, events, handle⟩

/-- Carries out an operation on one handle. -/
def onHandle (s : Session n) (script : List Answer) (cancelAfter : Option Nat) (lock : Fin n)
    (call : Call Handle (Except LockError Unit)) : Session n × Report :=
  match s.perform script cancelAfter call with
  | (t, .error held) =>
    ({ s with now := t.now, handles := s.handles.set lock held },
      report t .cancelled [] (some held))
  | (t, .ok ⟨handle, result, events⟩) =>
    let result := match result with
      | .ok () => .done
      | .error e => .failed e
    ({ s with now := t.now, handles := s.handles.set lock handle },
      report t result events (some handle))

/-- Carries out a purge. -/
def onTable (s : Session n) (script : List Answer) (cancelAfter : Option Nat)
    (call : Call Unit (Except LockError Nat)) : Session n × Report :=
  match s.perform script cancelAfter call with
  | (t, .error ()) => ({ s with now := t.now }, report t .cancelled [] none)
  | (t, .ok ⟨(), result, events⟩) =>
    let result := match result with
      | .ok rows => .purged rows
      | .error e => .failed e
    ({ s with now := t.now }, report t result events none)

/-- **One step.** `mint` gives the token for the claim with a given number. -/
def step (mint : Nat → Token) (s : Session n) (p : Step n) : Session n × Report :=
  match p.action with
  | .acquire lock ttl =>
    let call := s.handles[lock].acquire s.manager (mint s.minted) ttl
    { s with minted := s.minted + 1 }.onHandle p.script p.cancelAfter lock call
  | .extend lock ttl =>
    s.onHandle p.script p.cancelAfter lock (s.handles[lock].extend s.manager ttl)
  | .release lock => s.onHandle p.script p.cancelAfter lock (s.handles[lock].release s.manager)
  | .purge => s.onTable p.script p.cancelAfter s.manager.purge

/-- **The reports of a list of steps.** -/
def reports (mint : Nat → Token) (s : Session n) : List (Step n) → List Report
  | [] => []
  | p :: ps =>
    let (s, shown) := s.step mint p
    shown :: s.reports mint ps

end Session

end LeaseLock.Rehearsal
