/-
# LeaseLock.Sqlite.Session -- handles over a SQLite table

A session takes handles of one manager through a list of steps on one database. A step may carry a
blip for its first statement; a blip that no statement met is forgotten at the next step. The task of
an exclusive run is itself a list of steps on the same handles, table and clock. No time passes while
a statement runs, so no limit is ever overrun and no extension falls due; the clock that would call
for it stands still.
-/
import LeaseLock.Exclusive
import LeaseLock.Sqlite.Database

namespace LeaseLock.Sqlite

/-! ## Steps and reports -/

/-- What a step does, with `n` handles and tasks that return values of type `α`. -/
inductive Action (n : Nat) (α : Type) where
  | createTable
  | dropTable
  | insertRow (row : Row String)
  /-- Moves the clock by some milliseconds, forwards or back. -/
  | advance (ms : Int)
  | acquire (lock : Fin n) (ttl : Duration)
  | extend (lock : Fin n) (ttl : Duration)
  | release (lock : Fin n)
  | purge
  /-- An exclusive run whose task carries out the inner steps and then ends as given; the release
  meets a blip of its own. -/
  | exclusive (key : String) (options : ExclusiveOptions) (inside : List (Option Blip × Action n α))
      (ending : TaskEnd α) (releaseBlip : Option Blip)

/-- A step: an action, and the blip that its first statement meets. -/
abbrev Step (n : Nat) (α : Type) := Option Blip × Action n α

/-- How a step came out. -/
inductive StepResult (α : Type) where
  /-- A statement of the step's own affected so many rows. -/
  | affected (rows : Nat)
  | statementFailed (e : StatementError)
  | advanced
  | done
  | purged (rows : Nat)
  | failed (e : LockError)
  | exclusive (r : ExclusiveResult α)
deriving Inhabited

/-- What one step shows: its result, the rows afterwards in the order of their keys, the handle it
was about, and the reports of its inner steps if its task was started. -/
inductive Report (α : Type) where
  | of (result : StepResult α) (rows : Option (List (Row String))) (handle : Option Handle)
      (inside : Option (List (Report α)))

/-! ## Running -/

/-- A session between two steps. -/
structure Session (n : Nat) where
  manager : Manager
  database : Database
  handles : Vector Handle n
  /-- How many tokens have been offered to claims. -/
  minted : Nat := 0

namespace Session

variable {n : Nat} {α : Type}

/-- A session with an idle handle for each key, at a clock, without a table. -/
def start (m : Manager) (clock : Int) (handles : Vector Handle n) : Session n :=
  { manager := m, database := { tableName := m.tableName, clock }, handles }

/-- The report on a step that has come out. -/
def report (s : Session n) (result : StepResult α) (handle : Option Handle := none)
    (inside : Option (List (Report α)) := none) : Report α :=
  .of result (s.database.table.map Table.sorted) handle inside

/-- Runs a statement of the step's own. -/
def onDatabase (s : Session n) (effect : Database.Effect) : Session n × Report α :=
  let (db, result) := s.database.run effect
  let s := { s with database := db }
  match result with
  | .ok rows => (s, s.report (.affected rows))
  | .error e => (s, s.report (.statementFailed e))

/-- Carries a lock operation through. -/
def perform {σ β : Type} (s : Session n) (call : Call σ β) : Session n × Call.Finished σ β :=
  let (db, finished) := call.run Database.serve s.database
  ({ s with database := db }, finished)

/-- Carries out an operation on one handle. -/
def onHandle (s : Session n) (lock : Fin n) (call : Call Handle (Except LockError Unit)) :
    Session n × Report α :=
  let (s, finished) := s.perform call
  let s := { s with handles := s.handles.set lock finished.state lock.isLt }
  match finished.result with
  | .ok () => (s, s.report .done finished.state)
  | .error e => (s, s.report (.failed e) finished.state)

/-- Carries out a purge. -/
def onTable (s : Session n) (call : Call Unit (Except LockError Nat)) : Session n × Report α :=
  let (s, finished) := s.perform call
  match finished.result with
  | .ok rows => (s, s.report (.purged rows))
  | .error e => (s, s.report (.failed e))

/-- The session with the blip that the next statement meets. -/
def withBlip (s : Session n) (blip : Option Blip) : Session n :=
  { s with database := { s.database with blip } }

/-- **The stage of an exclusive run on the database**: the task is a list of steps, and the release
meets the given blip. The world also keeps what the task's steps have shown. -/
def stage (task : Session n → Session n × List (Report α)) (ending : TaskEnd α)
    (releaseBlip : Option Blip) : Stage (Session n × Option (List (Report α))) α where
  perform w call :=
    let (s, finished) := w.1.perform call
    ((s, w.2), finished)
  performWithin w _ call :=
    let (s, finished) := w.1.perform call
    ((s, w.2), some finished)
  work w _ :=
    let (s, shown) := task w.1
    ((s.withBlip releaseBlip, some shown), .ended ending, [])
  clock _ := .ofSeconds 1

end Session

variable {n : Nat} {α : Type}

mutual

/-- **One action.** `mint` gives the token for the claim with a given number. -/
def Action.run (mint : Nat → Token) : Action n α → Session n → Session n × Report α
  | .createTable, s => s.onDatabase (Database.create s.database.tableName)
  | .dropTable, s => s.onDatabase (Database.drop s.database.tableName)
  | .insertRow row, s => s.onDatabase (Database.insert s.database.tableName row)
  | .advance ms, s =>
    let s := { s with database := { s.database with clock := s.database.clock + ms } }
    (s, s.report .advanced)
  | .acquire lock ttl, s =>
    let call := s.handles[lock].acquire s.manager (mint s.minted) ttl
    { s with minted := s.minted + 1 }.onHandle lock call
  | .extend lock ttl, s => s.onHandle lock (s.handles[lock].extend s.manager ttl)
  | .release lock, s => s.onHandle lock (s.handles[lock].release s.manager)
  | .purge, s => s.onTable s.manager.purge
  | .exclusive key options inside ending releaseBlip, s =>
    let stage := Session.stage (fun s => runAll mint inside s) ending releaseBlip
    let ((s', shown), result, _) :=
      Exclusive.run stage s.manager.dialect key options (mint s.minted)
        ({ s with minted := s.minted + 1 }, none)
    (s', s'.report (.exclusive result) none shown)

/-- **A list of steps**, one after the other. -/
def runAll (mint : Nat → Token) :
    List (Option Blip × Action n α) → Session n → Session n × List (Report α)
  | [], s => (s, [])
  | (blip, action) :: rest, s =>
    let (s, shown) := action.run mint (s.withBlip blip)
    let (s, later) := runAll mint rest s
    (s, shown :: later)

end

end LeaseLock.Sqlite
