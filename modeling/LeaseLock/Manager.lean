/-
# LeaseLock.Manager -- one lease table in one dialect

A manager binds a dialect, a lease table and the time limit of statements. It never touches the
database on its own; it turns the values of a lease call into requests, and runs claim plans: the
insert of a two-step claim is sent when the update has found no row, and a duplicate key at that
insert counts as no row.
-/
import LeaseLock.Call
import LeaseLock.Config
import LeaseLock.TableName

namespace LeaseLock

/-- **Lock manager**. -/
structure Manager where
  dialect : Dialect
  tableName : String
  timeout : Option Duration
deriving DecidableEq, Repr, Inhabited

namespace Manager

/-! ## Construction -/

/-- A manager for a table whose name is a plain word. -/
def ofConfig (d : Dialect) (c : Config) : Except ConfigError Manager := do
  TableName.check c.tableName
  return ⟨d, c.tableName, c.timeout?⟩

/-- A manager for a dialect given by name. The name is judged before the table. -/
def ofDialectName (name : String) (c : Config) : Except ConfigError Manager :=
  match Dialect.ofName? name with
  | none => .error (.unknownDialect name)
  | some d => ofConfig d c

/-! ## Statements -/

/-- The text that defines the lease table. -/
def createTable (m : Manager) : String := m.dialect.backend.createTable m.tableName

/-- How the manager claims a key. -/
def claimPlan (m : Manager) : ClaimPlan := m.dialect.backend.claim m.tableName

/-- The statement that releases a key. -/
def releaseStatement (m : Manager) : Statement := m.dialect.backend.release m.tableName

/-- The statement that extends a lease. -/
def extendStatement (m : Manager) : Statement := m.dialect.backend.extend m.tableName

/-- The statement that purges expired rows. -/
def purgeStatement (m : Manager) : Statement := m.dialect.backend.purge m.tableName

/-! ## Requests -/

variable {σ α : Type}

/-- The request for one statement with the values of a lease call. -/
def request (m : Manager) (s : Statement) (v : LeaseValues) : Request :=
  ⟨s, s.bind v, m.timeout⟩

/-- Sends one statement and goes on with its affected rows. -/
def send (m : Manager) (s : Statement) (v : LeaseValues) (held : σ)
    (next : Except TransportError Nat → Call σ α) : Call σ α :=
  .ask (m.request s v) held fun reply => next reply.rows

/-- **Claim**: goes on with whether the key's row is now ours. -/
def claim (m : Manager) (v : LeaseValues) (held : σ)
    (next : Except TransportError Bool → Call σ α) : Call σ α :=
  match m.claimPlan with
  | .single s => m.send s v held fun rows => next (rows.map (0 < ·))
  | .updateThenInsert update insert =>
    m.send update v held fun
      | .error e => next (.error e)
      | .ok n =>
        if 0 < n then next (.ok true)
        else .ask (m.request insert v) held fun reply => next (reply.insertedRows.map (0 < ·))

/-- **Purge**: deletes every expired row and gives their number. -/
def purge (m : Manager) : Call Unit (Except LockError Nat) :=
  m.send m.purgeStatement ⟨"", "", "", "", .zero⟩ () fun
    | .error e => .done () (.error (.transport m.tableName .purgeExpired e)) []
    | .ok n => .done () (.ok n) [.purged n m.tableName]

end Manager

end LeaseLock
