/-
# LeaseLock.Sqlite.Database -- a SQLite database with one lease table

The database has a clock that moves only when it is told to, and a table that may be missing. Three
kinds of table name mean something to SQLite, in any case of letters: names that begin with `sqlite_`
cannot be created, four of these stand for its own catalogues, and `excluded` is also the name that an
upsert gives to the row that it wanted to insert. A **blip** lets the next statement's answer get lost
with its connection, either before the statement ran or after it ran; a statement that fails by itself
reports its own error.
-/
import LeaseLock.Call
import LeaseLock.Sqlite.Clock

namespace LeaseLock.Sqlite

/-- When a connection breaks that loses an answer. -/
inductive Blip where
  /-- Before the statement runs. -/
  | before
  /-- After the statement ran. -/
  | after
deriving DecidableEq, Repr, Inhabited

/-- **Database**: the name of its lease table, its clock in milliseconds since 1970-01-01 00:00 UTC,
the table itself, and the blip that the next statement meets. -/
structure Database where
  tableName : String
  clock : Int
  table : Option (Table String) := none
  blip : Option Blip := none
deriving Inhabited

namespace Database

/-! ## Names -/

/-- Whether SQLite keeps a table name to itself. -/
def isReserved (table : String) : Bool := "sqlite_".toList.isPrefixOf (table.toList.map Char.toLower)

/-- The catalogue that a table name stands for. -/
def catalogue? (table : String) : Option String :=
  match String.ofList (table.toList.map Char.toLower) with
  | "sqlite_master" | "sqlite_schema" => some "sqlite_master"
  | "sqlite_temp_master" | "sqlite_temp_schema" => some "sqlite_temp_master"
  | _ => none

/-- Whether the table's name is the one that an upsert gives to the row that it wanted to insert. In
such a table that name means the row that is there already. -/
def shadowsProposal (table : String) : Bool := table.toList.map Char.toLower = "excluded".toList

/-! ## Errors -/

/-- A failure with a result code of SQLite. -/
def failure (code : Nat) (message : String) : StatementError :=
  .ofDriver (.database (.sqlite code message))

/-- The name cannot be given to a table. -/
def reservedName (table : String) : StatementError :=
  failure 1 ("object name reserved for internal use: " ++ table)

/-- No table of this name can be read or written: there is none, or it is a catalogue. -/
def noSuchTable (table : String) : StatementError :=
  match catalogue? table with
  | some c => failure 1 ("table " ++ c ++ " may not be modified")
  | none => failure 1 ("no such table: " ++ table)

/-- No table of this name can be dropped. -/
def notDroppable (table : String) : StatementError :=
  match catalogue? table with
  | some c => failure 1 ("table " ++ c ++ " may not be dropped")
  | none => failure 1 ("no such table: " ++ table)

/-- A broken rule of the table. -/
def violated (table : String) : Violation → StatementError
  | .notNull column => failure 1299 ("NOT NULL constraint failed: " ++ table ++ "." ++ column)
  | .duplicateKey => failure 1555 ("UNIQUE constraint failed: " ++ table ++ ".lock_key")

/-- The connection broke. -/
def connectionReset : StatementError := .database (.bare "connection reset")

/-! ## Statements -/

/-- One statement: what it does to the table, and the affected rows. -/
abbrev Effect := Option (Table String) → Except StatementError (Nat × Option (Table String))

/-- Runs one statement, with the blip that waits for it. A failed statement changes nothing. -/
def run (db : Database) (effect : Effect) : Database × Except StatementError Nat :=
  let calm := { db with blip := none }
  if db.blip = some .before then (calm, .error connectionReset)
  else
    match effect db.table with
    | .error e => (calm, .error e)
    | .ok (rows, table) =>
      ({ calm with table },
        if db.blip = some .after then .error connectionReset else .ok rows)

/-- Creates the table unless it exists. -/
def create (name : String) : Effect := fun table =>
  if isReserved name then .error (reservedName name) else .ok (0, some (table.getD ∅))

/-- Drops the table. -/
def drop (name : String) : Effect
  | none => .error (notDroppable name)
  | some _ => .ok (0, none)

/-- Inserts a given row. -/
def insert (name : String) (r : Row String) : Effect
  | none => .error (noSuchTable name)
  | some t =>
    match t.insert? r with
    | none => .error (violated name .duplicateKey)
    | some t => .ok (1, some t)

section Shadowing

variable {δ : Type} [LT δ] [DecidableLT δ]

/-- An upsert into a table whose name shadows the proposed row: where the key has a row, the row's own
values are written back to it. -/
def upsertInPlace (m : Moment δ) (args : List Argument) (t : Table δ)
    (key token ttl : Slot) (replaceIf : Condition) : Except Violation (Nat × Table δ) := do
  let r ← Command.newRow m args key token ttl
  match t.row? r.key with
  | some old => return (if replaceIf.holds m args old then 1 else 0, t)
  | none => return (1, (t.insert? r).getD t)

/-- What a command does to a table of a given name. -/
def effectOn (name : String) (m : Moment δ) (args : List Argument) (t : Table δ)
    (c : Command) : Except Violation (Nat × Table δ) :=
  match c, shadowsProposal name with
  | .upsert key token ttl replaceIf, true => upsertInPlace m args t key token ttl replaceIf
  | c, _ => c.effect m args t

end Shadowing

/-- Carries out a command with bound values at an instant of the clock. -/
def command (name : String) (clock : Int) (c : Command) (args : List Argument) : Effect
  | none => .error (noSuchTable name)
  | some t =>
    match effectOn name (moment clock) args t c with
    | .error v => .error (violated name v)
    | .ok (rows, t) => .ok (rows, some t)

/-- **Answering** a request. A table of another name does not exist. -/
def serve (db : Database) (r : Request) : Database × Reply :=
  let s := r.statement
  let effect : Effect :=
    if s.table = db.tableName then command s.table db.clock s.command r.arguments
    else fun _ => .error (noSuchTable s.table)
  let (db, result) := db.run effect
  (db, .answered result)

end Database

end LeaseLock.Sqlite
