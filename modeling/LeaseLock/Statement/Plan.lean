/-
# LeaseLock.Statement.Plan -- the statements of each backend

A lease table needs five kinds of statement: its definition, a claim, a release, an extension, and a
purge of what has expired. A claim takes the key if it is free, expired, or carries one of the two
tokens that the claiming handle may have written. SQLite and Postgres claim with an upsert, SQL
Server with a merge; MySQL first updates a row that may be taken over and inserts a new one if there
was none, so that a duplicate key at the insert means that the key is held.
-/
import LeaseLock.Statement.Argument
import LeaseLock.Statement.Spelling

namespace LeaseLock

/-! ## Statements -/

/-- **Statement**: a command on a named table, with what its slots stand for. -/
structure Statement where
  backend : Backend
  table : String
  command : Command
  /-- What slots 1, 2, … stand for. -/
  parameters : List Parameter
deriving DecidableEq, Repr, Inhabited

namespace Statement

/-- The SQL text. -/
def sql (s : Statement) : String := s.backend.text s.table (s.command.pieces s.backend)

/-- The values bound to the placeholders, slot by slot. -/
def bind (s : Statement) (v : LeaseValues) : List Argument := v.bind s.parameters

end Statement

/-- How a backend claims a key. A claim succeeds when one of its statements affects a row. -/
inductive ClaimPlan where
  /-- One statement that inserts, takes over, or leaves a live foreign row alone. -/
  | single (claim : Statement)
  /-- The insert runs when the update has found no row to take over. -/
  | updateThenInsert (update insert : Statement)
deriving DecidableEq, Repr, Inhabited

namespace ClaimPlan

/-- The statements of a plan, in the order in which they may run. -/
def statements : ClaimPlan → List Statement
  | .single claim => [claim]
  | .updateThenInsert update insert => [update, insert]

end ClaimPlan

/-! ## The backends -/

/-- The default name of the lease table. -/
def defaultTableName : String := "distributed_locks"

/-- The width of the key column in characters, and the greatest length of a key in bytes. -/
def maxKeyLength : Nat := 255

/-- The width of the token column: a hyphenated token. -/
def tokenLength : Nat := 36

/-- A row that a claim may overwrite: expired, or carrying the previous or the unconfirmed token. -/
def Condition.claimable (previous unconfirmed : Slot) : Condition :=
  .or .expired (.ownerIn previous unconfirmed)

/-- The row of a key while it carries one of two tokens. -/
def Condition.owned (key first second : Slot) : Condition :=
  .and (.keyIs key) (.ownerIn first second)

namespace Backend

/-- The definition of the lease table, harmless where the table exists. -/
def tableDefinition : Backend → List Piece
  | .sqlite =>
    [.words "CREATE TABLE IF NOT EXISTS ", .table,
      .words " (\n    lock_key TEXT NOT NULL PRIMARY KEY,\n    owner_token TEXT NOT NULL,\n    expires_at TEXT NOT NULL\n)"]
  | .mysql =>
    [.words "CREATE TABLE IF NOT EXISTS ", .table, .words " (\n    lock_key VARCHAR(",
      .words (Numeral.decimal maxKeyLength), .words ") NOT NULL,\n    owner_token VARCHAR(",
      .words (Numeral.decimal tokenLength),
      .words ") NOT NULL,\n    expires_at DATETIME(6) NOT NULL,\n    PRIMARY KEY (lock_key)\n) ENGINE=InnoDB"]
  | .postgres =>
    [.words "CREATE TABLE IF NOT EXISTS ", .table, .words " (\n    lock_key VARCHAR(",
      .words (Numeral.decimal maxKeyLength), .words ") PRIMARY KEY,\n    owner_token VARCHAR(",
      .words (Numeral.decimal tokenLength),
      .words ") NOT NULL,\n    expires_at TIMESTAMPTZ NOT NULL\n)"]
  | .mssql =>
    [.words "IF OBJECT_ID(N'", .tableText, .words "', N'U') IS NULL\nCREATE TABLE ", .table,
      .words " (\n    lock_key NVARCHAR(", .words (Numeral.decimal maxKeyLength),
      .words ") NOT NULL PRIMARY KEY,\n    owner_token NVARCHAR(",
      .words (Numeral.decimal tokenLength),
      .words ") NOT NULL,\n    expires_at DATETIME2(6) NOT NULL\n)"]

/-- The text that defines the lease table. -/
def createTable (b : Backend) (table : String) : String := b.text table b.tableDefinition

/-- The unit in which a backend takes a time to live. -/
def ttlParameter : Backend → Parameter
  | .mssql => .ttlMillis
  | _ => .ttlMicros

/-- **Claim**: insert the key's row, or take over a row that may be overwritten. -/
def claim (b : Backend) (table : String) : ClaimPlan :=
  match b with
  | .sqlite | .postgres =>
    .single ⟨b, table, .upsert 1 2 3 (.claimable 4 5),
      [.key, .token, b.ttlParameter, .previousToken, .unconfirmedToken]⟩
  | .mssql =>
    .single ⟨b, table, .merge 1 2 3 (.claimable 4 5),
      [.key, .token, b.ttlParameter, .previousToken, .unconfirmedToken]⟩
  | .mysql =>
    .updateThenInsert
      ⟨b, table, .takeOver 1 2 (.and (.keyIs 3) (.claimable 4 5)),
        [.token, b.ttlParameter, .key, .previousToken, .unconfirmedToken]⟩
      ⟨b, table, .insert 1 2 3, [.key, .token, b.ttlParameter]⟩

/-- **Release**: delete the key's row while it carries one of the handle's tokens. -/
def release (b : Backend) (table : String) : Statement :=
  ⟨b, table, .delete (.owned 1 2 3), [.key, .token, .unconfirmedToken]⟩

/-- **Extension**: move the deadline of the key's row while it carries one of the handle's tokens and
is live. -/
def extend (b : Backend) (table : String) : Statement :=
  match b with
  | .sqlite | .mysql =>
    ⟨b, table, .prolong 1 (.and (.owned 2 3 4) .live),
      [b.ttlParameter, .key, .token, .unconfirmedToken]⟩
  | .postgres | .mssql =>
    ⟨b, table, .prolong 3 (.and (.owned 1 2 4) .live),
      [.key, .token, b.ttlParameter, .unconfirmedToken]⟩

/-- **Purge**: delete every expired row. -/
def purge (b : Backend) (table : String) : Statement := ⟨b, table, .delete .expired, []⟩

end Backend

/-- The text that defines the lease table under its default name. -/
def Dialect.defaultTableDefinition (d : Dialect) : String :=
  d.backend.createTable defaultTableName

end LeaseLock
