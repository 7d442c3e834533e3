/-
# LeaseLock.Statement.Spelling -- commands in the words of a server

A command is spelled as a list of **pieces**: fixed words, the quoted name of the table, and the
placeholders. Only the pieces `table` and `tableText` depend on the table's name, so the words of a
statement are the same for every table. Placeholders are `?` for SQLite and MySQL, where the `n`-th
one stands for slot `n`, and carry their number elsewhere: `$n` for Postgres, `@Pn` for SQL Server.
-/
import LeaseLock.Dialect
import LeaseLock.Statement.Command

namespace LeaseLock

/-! ## Pieces -/

/-- A piece of a statement's text. -/
inductive Piece where
  /-- Fixed words. -/
  | words (s : String)
  /-- The table's name as a quoted identifier. -/
  | table
  /-- The table's name inside a string literal, whose quotes belong to the words around it. -/
  | tableText
  /-- The placeholder of a parameter. -/
  | slot (i : Slot)
deriving DecidableEq, Repr, Inhabited

namespace Backend

/-- The table's name as a quoted identifier. -/
def quoteName (b : Backend) (table : String) : String :=
  match b with
  | .sqlite | .postgres => "\"" ++ table ++ "\""
  | .mysql => "`" ++ table ++ "`"
  | .mssql => "[" ++ table ++ "]"

/-- The placeholder of the parameter in a slot. -/
def placeholder (b : Backend) (i : Slot) : String :=
  match b with
  | .sqlite | .mysql => "?"
  | .postgres => "$" ++ Numeral.decimal i
  | .mssql => "@P" ++ Numeral.decimal i

/-- The text of one piece. -/
def pieceText (b : Backend) (table : String) : Piece → String
  | .words s => s
  | .table => b.quoteName table
  | .tableText => table
  | .slot i => b.placeholder i

/-- The text of a list of pieces for a table. -/
def text (b : Backend) (table : String) (pieces : List Piece) : String :=
  String.join (pieces.map (b.pieceText table))

/-! ## Instants -/

/-- The current instant of the database. -/
def nowWords : Backend → String
  | .sqlite => "strftime('%Y-%m-%d %H:%M:%f', 'now')"
  | .mysql => "UTC_TIMESTAMP(6)"
  | .postgres => "NOW()"
  | .mssql => "SYSUTCDATETIME()"

/-- The current instant plus the time to live in a slot: microseconds, and for SQL Server
milliseconds, split so that each part fits a 32-bit integer. -/
def deadline (b : Backend) (ttl : Slot) : List Piece :=
  match b with
  | .sqlite =>
    [.words "strftime('%Y-%m-%d %H:%M:%f', julianday('now') + ", .slot ttl,
      .words " / 86400000000.0)"]
  | .mysql => [.words "UTC_TIMESTAMP(6) + INTERVAL ", .slot ttl, .words " MICROSECOND"]
  | .postgres => [.words "NOW() + ", .slot ttl, .words "::float8 * INTERVAL '1 microsecond'"]
  | .mssql =>
    [.words "DATEADD(millisecond, CAST(", .slot ttl,
      .words " % 1000 AS INT), DATEADD(second, CAST(", .slot ttl,
      .words " / 1000 AS INT), SYSUTCDATETIME()))"]

end Backend

/-! ## Conditions -/

namespace Condition

/-- Whether the condition is a disjunction, which needs parentheses inside a conjunction. -/
def isOr : Condition → Bool
  | .or _ _ => true
  | _ => false

/-- Puts pieces into parentheses. -/
def parenthesize (pieces : List Piece) : List Piece :=
  .words "(" :: pieces ++ [.words ")"]

/-- The pieces of a condition. `row` stands before every column name. -/
def pieces (b : Backend) (row : List Piece) : Condition → List Piece
  | .keyIs key => row ++ [.words "lock_key = ", .slot key]
  | .ownerIn first second =>
    row ++ [.words "owner_token IN (", .slot first, .words ", ", .slot second, .words ")"]
  | .expired => row ++ [.words "expires_at <= ", .words b.nowWords]
  | .live => row ++ [.words "expires_at > ", .words b.nowWords]
  | .and p q =>
    (if p.isOr then parenthesize (p.pieces b row) else p.pieces b row) ++ .words " AND " ::
      (if q.isOr then parenthesize (q.pieces b row) else q.pieces b row)
  | .or p q => p.pieces b row ++ .words " OR " :: q.pieces b row

end Condition

/-! ## Commands -/

namespace Backend

/-- The alias that an upsert gives to the table. -/
def upsertAlias : Backend → List Piece
  | .postgres => [.words " AS l"]
  | _ => []

/-- How an upsert names the row that is there already. -/
def presentRow : Backend → List Piece
  | .postgres => [.words "l."]
  | _ => [.table, .words "."]

/-- How an upsert names the row that it wanted to insert. -/
def proposedRow : Backend → String
  | .postgres => "EXCLUDED"
  | _ => "excluded"

end Backend

namespace Command

/-- The values of a new row, in the order of its columns. -/
def rowValues (b : Backend) (key token ttl : Slot) : List Piece :=
  [.words "VALUES (", .slot key, .words ", ", .slot token, .words ", "] ++ b.deadline ttl ++
    [.words ")"]

/-- **Spelling** of a command for a backend. -/
def pieces (b : Backend) : Command → List Piece
  | .upsert key token ttl replaceIf =>
    [.words "INSERT INTO ", .table] ++ b.upsertAlias ++
      [.words " (lock_key, owner_token, expires_at)\n"] ++ rowValues b key token ttl ++
      [.words "\nON CONFLICT (lock_key) DO UPDATE\nSET owner_token = ", .words b.proposedRow,
        .words ".owner_token, expires_at = ", .words b.proposedRow,
        .words ".expires_at\nWHERE "] ++
      replaceIf.pieces b b.presentRow
  | .merge key token ttl replaceIf =>
    [.words "MERGE INTO ", .table, .words " WITH (HOLDLOCK) AS target\nUSING (SELECT ", .slot key,
      .words " AS lock_key) AS source\nON target.lock_key = source.lock_key\nWHEN MATCHED AND "] ++
      Condition.parenthesize (replaceIf.pieces b [.words "target."]) ++
      [.words " THEN\n    UPDATE SET owner_token = ", .slot token, .words ", expires_at = "] ++
      b.deadline ttl ++
      [.words "\nWHEN NOT MATCHED THEN\n    INSERT (lock_key, owner_token, expires_at) "] ++
      rowValues b key token ttl ++ [.words ";"]
  | .insert key token ttl =>
    [.words "INSERT INTO ", .table, .words " (lock_key, owner_token, expires_at) "] ++
      rowValues b key token ttl
  | .takeOver token ttl rows =>
    [.words "UPDATE ", .table, .words " SET owner_token = ", .slot token,
      .words ", expires_at = "] ++ b.deadline ttl ++ [.words "\nWHERE "] ++ rows.pieces b []
  | .prolong ttl rows =>
    [.words "UPDATE ", .table, .words " SET expires_at = "] ++ b.deadline ttl ++
      [.words "\nWHERE "] ++ rows.pieces b []
  | .delete rows => [.words "DELETE FROM ", .table, .words " WHERE "] ++ rows.pieces b []

end Command

end LeaseLock
