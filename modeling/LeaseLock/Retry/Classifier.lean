/-
# LeaseLock.Retry.Classifier -- which single errors are worth another try

A classifier looks at one fault and says whether it is worth retrying. Classifiers of a caller's own
are given by a `Criterion`; the built-in ones know what each server and driver reports when a
transaction lost against another one or the connection broke.
-/
import LeaseLock.Fault

namespace LeaseLock

/-- **Classifier**: a judgement on one fault. A labelled classifier shows up in the record of a
check. -/
structure Classifier where
  label : Option String
  accepts : Fault → Bool
deriving Inhabited

/-! ## Criteria -/

/-- What a classifier of a caller's own goes by. -/
inductive Criterion where
  | always (verdict : Bool)
  /-- The text of the fault contains this one. -/
  | textContains (part : String)
  | hasKind (kind : FaultKind)
  /-- The fault is a server's error with exactly this code. -/
  | hasCode (code : String)
deriving DecidableEq, Repr, Inhabited

namespace Criterion

/-- Whether `part` stands somewhere in the list. -/
def occursIn (part : List Char) : List Char → Bool
  | [] => part.isEmpty
  | c :: cs => part.isPrefixOf (c :: cs) || occursIn part cs

/-- Whether a fault meets the criterion. -/
def accepts : Criterion → Fault → Bool
  | .always verdict, _ => verdict
  | .textContains part, f => occursIn part.toList f.text.toList
  | .hasKind kind, f => f.kind? = some kind
  | .hasCode code, f => f.databaseError?.any fun e => e.code? = some code

end Criterion

/-! ## Built-in judgements -/

/-- Postgres: a deadlock, a serialization failure, or a prepared statement that has become stale and
that the driver prepares again. -/
def postgresRetryable (e : DatabaseError) : Bool :=
  e.code? = some "40P01" || e.code? = some "40001" ||
    (e.code? = some "0A000" && e.message = "cached plan must not change result type")

/-- SQLite: the low byte of the result code says that the database or a table is locked. -/
def sqliteRetryable (e : DatabaseError) : Bool :=
  match e.code?.bind fun code => Numeral.signed32? code.toList with
  | none => false
  | some code => code % 256 = 5 || code % 256 = 6

/-- MySQL: a deadlock, or a wait for a lock that took too long. -/
def mysqlRetryable (e : DatabaseError) : Bool :=
  e.mysqlNumber? = some 1213 || e.mysqlNumber? = some 1205

/-- Whether the driver lost its connection. -/
def Fault.isCommunication : Fault → Bool
  | .communication _ => true
  | _ => false

namespace Classifier

/-- The built-in classifier of both Postgres drivers. -/
def postgres : Classifier := ⟨none, fun f => f.databaseError?.any postgresRetryable⟩

/-- The built-in classifier of SQLite. -/
def sqlite : Classifier := ⟨none, fun f => f.databaseError?.any sqliteRetryable⟩

/-- The built-in classifier of MySQL, which also retries a lost connection. -/
def mysql : Classifier :=
  ⟨none, fun f => f.databaseError?.any mysqlRetryable || f.isCommunication⟩

end Classifier

end LeaseLock
