/-
# LeaseLock.Error -- why a lock operation did not succeed

Callers branch on the cause: a configuration error is final, contention is expected, a transport
error leaves open who owns the lease, and a lost lease means that the work under it outlived its
time to live. Each type lists its causes and has one function that gives their wording.
-/
import LeaseLock.Duration
import LeaseLock.Fault

namespace LeaseLock

/-! ## Configuration -/

/-- **Configuration error**: input that no retry can make acceptable. -/
inductive ConfigError where
  | unknownDialect (name : String)
  | emptyKey
  /-- The key has `length` bytes where at most `limit` are allowed. -/
  | keyTooLong (length limit : Nat)
  | invalidTableName (name : String)
  | invalidTtl (ttl : Duration)
  | invalidExtendInterval (interval : Duration)
deriving DecidableEq, Repr, Inhabited

/-- The wording of a configuration error. -/
def ConfigError.message : ConfigError → String
  | .unknownDialect name => "unsupported SQL dialect: " ++ Quoted.quote name
  | .emptyKey => "lock key must not be empty"
  | .keyTooLong length limit =>
    "lock key is " ++ Numeral.decimal length ++ " bytes, at most " ++ Numeral.decimal limit ++
      " are allowed"
  | .invalidTableName name => "invalid lock table name: " ++ Quoted.quote name
  | .invalidTtl ttl => "lock TTL must be positive, got " ++ ttl.text
  | .invalidExtendInterval interval =>
    "lease extension interval must be positive, got " ++ interval.text

/-! ## One statement -/

/-- **Statement error**: how one statement failed. -/
inductive StatementError where
  /-- The statement met a row with the same key. -/
  | duplicateKey (cause : Fault)
  | database (cause : Fault)
deriving DecidableEq, Repr, Inhabited

namespace StatementError

/-- Sorts what a driver reports: a duplicate key is told apart from everything else. -/
def ofDriver (f : Fault) : StatementError :=
  if f.databaseError?.any DatabaseError.isDuplicateKey then .duplicateKey f else .database f

/-- The fault that the driver reported. -/
def cause : StatementError → Fault
  | .duplicateKey cause | .database cause => cause

/-- Whether the statement met a row with the same key. -/
def isDuplicateKey : StatementError → Bool
  | .duplicateKey _ => true
  | .database _ => false

/-- The wording of a statement error. -/
def message : StatementError → String
  | .duplicateKey cause => "unique constraint violated: " ++ cause.text
  | .database cause => cause.text

end StatementError

/-- **Transport error**: why a statement had no definite outcome. -/
inductive TransportError where
  /-- No answer came within the limit. -/
  | timeout (limit : Duration)
  | database (cause : Fault)
deriving DecidableEq, Repr, Inhabited

namespace TransportError

/-- A failed statement as a transport error; the distinction of duplicate keys is dropped. -/
def ofStatement (e : StatementError) : TransportError := .database e.cause

/-- The wording of a transport error. -/
def message : TransportError → String
  | .timeout limit => "statement did not complete within " ++ limit.text
  | .database cause => cause.text

/-- The texts of the errors below a transport error, outermost first. -/
def causes : TransportError → List String
  | .timeout _ => []
  | .database cause => cause.chain.map Fault.text

end TransportError

/-! ## One lock operation -/

/-- **Lock error**: how a lock operation failed. -/
inductive LockError where
  | config (e : ConfigError)
  /-- A live lease of another owner blocks the key. -/
  | contention (key : String)
  /-- The database could not be asked, or did not answer; who owns the lease is unknown. -/
  | transport (key : String) (operation : Operation) (e : TransportError)
  /-- No row carried the handle's token: the lease expired, and may have been taken over. -/
  | lostLease (key : String)
deriving DecidableEq, Repr, Inhabited

namespace LockError

/-- The wording of a lock error. -/
def message : LockError → String
  | .config e => e.message
  | .contention key => "lock " ++ Quoted.quote key ++ " is held by another owner"
  | .transport key operation e => operation.failed key ++ e.message
  | .lostLease key => "lease on lock " ++ Quoted.quote key ++ " expired or was taken over"

/-- The key that the error refers to. -/
def key? : LockError → Option String
  | .config _ => none
  | .contention key | .transport key _ _ | .lostLease key => some key

/-- The operation that failed on its way to the database. -/
def operation? : LockError → Option Operation
  | .transport _ operation _ => some operation
  | _ => none

/-- The texts of the errors below a lock error, outermost first. -/
def causes : LockError → List String
  | .transport _ _ e => e.message :: e.causes
  | _ => []

/-- Whether the input was at fault. -/
def isConfig : LockError → Bool
  | .config _ => true
  | _ => false

/-- Whether another owner holds the key. -/
def isContention : LockError → Bool
  | .contention _ => true
  | _ => false

/-- Whether the outcome at the database is unknown. -/
def isTransport : LockError → Bool
  | .transport _ _ _ => true
  | _ => false

/-- Whether the lease had ended before the operation. -/
def isLostLease : LockError → Bool
  | .lostLease _ => true
  | _ => false

/-- Whether a statement overran its limit. -/
def isTimeout : LockError → Bool
  | .transport _ _ (.timeout _) => true
  | _ => false

end LockError

/-! ## One exclusive run -/

/-- **Error of an exclusive run**: the lock's, or the task's own. -/
inductive ExclusiveError where
  | lock (e : LockError)
  | task (text : String)
deriving DecidableEq, Repr, Inhabited

/-- The wording of an exclusive run's error. -/
def ExclusiveError.message : ExclusiveError → String
  | .lock e => e.message
  | .task text => "exclusive task failed: " ++ text

end LeaseLock
