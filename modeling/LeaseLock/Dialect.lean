/-
# LeaseLock.Dialect -- the SQL dialects a lease table can live in

Five names are known. Two of them, `postgres` and `pgx`, speak the same SQL, so statements are built
for four **backends**. A dialect is read from its exact name, or from JSON: a text that is a name, or
an object whose only member has a name for its key and null for its value.
-/
import LeaseLock.Json.Basic

namespace LeaseLock

/-- A family of servers that share the spelling of statements. -/
inductive Backend where
  | sqlite
  | mysql
  | postgres
  | mssql
deriving DecidableEq, Repr, Inhabited

/-- **Dialect**: a server together with the driver that talks to it. -/
inductive Dialect where
  | sqlite
  | mysql
  | postgres
  | pgx
  | mssql
deriving DecidableEq, Repr, Inhabited

namespace Dialect

/-- Every dialect, in listing order. -/
def all : List Dialect := [.sqlite, .mysql, .postgres, .pgx, .mssql]

/-- The name by which callers select the dialect. -/
def name : Dialect → String
  | .sqlite => "sqlite3"
  | .mysql => "mysql"
  | .postgres => "postgres"
  | .pgx => "pgx"
  | .mssql => "mssql"

/-- The dialect of a name, spelled exactly. -/
def ofName? (s : String) : Option Dialect := all.find? fun d => d.name = s

/-- The family whose statements the dialect uses. -/
def backend : Dialect → Backend
  | .sqlite => .sqlite
  | .mysql => .mysql
  | .postgres | .pgx => .postgres
  | .mssql => .mssql

/-- The JSON form of a dialect: its name. -/
def toJson (d : Dialect) : Json := .ofString d.name

/-- The dialect that a JSON value stands for. -/
def ofJson? : Json → Option Dialect
  | .text t => do ofName? (← t.decode?)
  | .object [(key, .null)] => do ofName? (← key.decode?)
  | _ => none

end Dialect

end LeaseLock
