/-
# LeaseLock.Config -- settings of a lock manager and of an exclusive run

`Config` names the lease table and may limit the time of one statement. It is built step by step, or
read from JSON: an object with the members `table_name` and `statement_timeout_ms`, each at most once
and either left out, other members ignored; or an array of the two values in this order, from which
trailing values may be left out. What is left out has its default.
-/
import LeaseLock.Duration
import LeaseLock.Json.Parser
import LeaseLock.Json.Printer
import LeaseLock.Statement.Plan

namespace LeaseLock

/-! ## Manager settings -/

/-- **Settings of a lock manager**. -/
structure Config where
  /-- The lease table. -/
  tableName : String := defaultTableName
  /-- The time limit of one statement in milliseconds; without one, as long as the driver waits. -/
  timeoutMillis : Option UInt64 := none
deriving DecidableEq, Repr, Inhabited

namespace Config

/-- The same settings with another table. -/
def withTableName (c : Config) (name : String) : Config := { c with tableName := name }

/-- The same settings with a time limit, cut to whole milliseconds and to 64 bits. -/
def withTimeout (c : Config) (limit : Duration) : Config :=
  { c with timeoutMillis := some (UInt64.ofNat (min limit.millis (UInt64.size - 1))) }

/-- The time limit of one statement. -/
def timeout? (c : Config) : Option Duration :=
  c.timeoutMillis.map fun ms => Duration.ofMillis ms.toNat

/-! ### JSON -/

/-- The JSON form of a time limit. -/
def timeoutToJson : Option UInt64 → Json
  | none => .null
  | some ms => .ofNat ms.toNat

/-- The JSON form of settings. -/
def toJson (c : Config) : Json :=
  .object [(Json.Text.ofString "table_name", .ofString c.tableName),
    (Json.Text.ofString "statement_timeout_ms", timeoutToJson c.timeoutMillis)]

/-- The compact JSON text of settings. -/
def serialized (c : Config) : String := c.toJson.compact

/-- The time limit of a JSON value: null, or digits that stand for a 64-bit number. -/
def timeoutOfJson? : Json → Option (Option UInt64)
  | .null => some none
  | .number numeral => do
    let n ← Numeral.decimal? numeral
    if n < UInt64.size then some (some (UInt64.ofNat n)) else none
  | _ => none

/-- The value of the member `name`, read by `read?`: the default if it is missing, nothing if it is
repeated or unreadable. -/
def member? {α : Type} (members : List (String × Json)) (name : String) (default : α)
    (read? : Json → Option α) : Option α :=
  match members.filter fun m => m.1 = name with
  | [] => some default
  | [(_, v)] => read? v
  | _ => none

/-- **Settings of a JSON value.** -/
def ofJson? : Json → Option Config
  | .object members => do
    let members ← members.mapM fun m => do some ((← m.1.decode?), m.2)
    some
      { tableName := (← member? members "table_name" defaultTableName Json.string?)
        timeoutMillis := (← member? members "statement_timeout_ms" none timeoutOfJson?) }
  | .array [] => some {}
  | .array [name] => do some { tableName := (← name.string?) }
  | .array [name, limit] => do
    some { tableName := (← name.string?), timeoutMillis := (← timeoutOfJson? limit) }
  | _ => none

/-- Settings of a JSON text. -/
def parse? (s : String) : Option Config := do ofJson? (← Json.parse? s)

end Config

/-! ## Options of an exclusive run -/

/-- **Options of an exclusive run**. -/
structure ExclusiveOptions where
  /-- The time to live of the lease, at the claim and at every extension. -/
  lockTtl : Duration := .ofSeconds 60
  /-- How often the lease is extended while the task runs. -/
  extendEvery : Option Duration := none
  /-- The time that the final release may take. -/
  releaseTimeout : Duration := .ofSeconds 5
  config : Config := {}
deriving DecidableEq, Repr, Inhabited

/-- The same options with an extension every half time to live. -/
def ExclusiveOptions.withAutoExtend (o : ExclusiveOptions) : ExclusiveOptions :=
  { o with extendEvery := some o.lockTtl.half }

end LeaseLock
