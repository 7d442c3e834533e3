/-
# LeaseLock.Fault -- what a driver or a server reports, with its causes

A fault is an error together with the errors that it wraps. `Fault.text` is what it prints,
`Fault.source?` the error directly below it, and `Fault.chain` the fault and all errors below it,
outermost first. Some faults print the text of what they wrap, so a text may occur several times
along a chain. `Fault.kind?` is the kind of error that a listener can tell it to be.
-/
import LeaseLock.Text.Numeral
import LeaseLock.Text.Quoted

namespace LeaseLock

/-! ## Database errors -/

/-- Which rule of the schema a statement broke, as far as the driver can tell. -/
inductive ConstraintKind where
  | unique
  | foreignKey
  | notNull
  | check
  | other
deriving DecidableEq, Repr, Inhabited

/-- An error that the database server itself reported. -/
inductive DatabaseError where
  /-- A server with a free-form code. -/
  | general (code : Option String) (message : String) (constraint : ConstraintKind)
  /-- MySQL: an error number and, where the server gives one, the five characters of its state. -/
  | mysql (number : Nat) (state : Option String) (message : String)
  /-- SQLite: an extended result code. -/
  | sqlite (code : Nat) (message : String)
deriving DecidableEq, Repr, Inhabited

namespace DatabaseError

/-- The code by which a caller can recognise the error. -/
def code? : DatabaseError → Option String
  | .general code _ _ => code
  | .mysql _ state _ => state
  | .sqlite code _ => some (Numeral.decimal code)

/-- The server's message. -/
def message : DatabaseError → String
  | .general _ message _ => message
  | .mysql _ _ message => message
  | .sqlite _ message => message

/-- The error number of a MySQL server. -/
def mysqlNumber? : DatabaseError → Option Nat
  | .mysql number _ _ => some number
  | _ => none

/-- What the error prints. -/
def text : DatabaseError → String
  | .general _ message _ => message
  | .mysql number (some state) message =>
    Numeral.decimal number ++ " (" ++ state ++ "): " ++ message
  | .mysql number none message => Numeral.decimal number ++ ": " ++ message
  | .sqlite code message => "(code: " ++ Numeral.decimal code ++ ") " ++ message

/-- The MySQL error numbers of a duplicate key. -/
def mysqlDuplicateKey : List Nat := [1022, 1062, 1169, 1586, 1859]

/-- The SQLite result codes of a broken unique constraint and a broken primary key. -/
def sqliteDuplicateKey : List Nat := [2067, 1555]

/-- Whether the statement met a row with the same key. -/
def isDuplicateKey : DatabaseError → Bool
  | .general _ _ constraint => constraint = .unique
  | .mysql number _ _ => mysqlDuplicateKey.contains number
  | .sqlite code _ => sqliteDuplicateKey.contains code

end DatabaseError

/-! ## Lock operations -/

/-- The lock operation that touched the database. -/
inductive Operation where
  | acquire
  | extend
  | release
  | purgeExpired
deriving DecidableEq, Repr, Inhabited

namespace Operation

/-- The operation's name in messages. -/
def name : Operation → String
  | .acquire => "acquire"
  | .extend => "extend"
  | .release => "release"
  | .purgeExpired => "purge_expired"

/-- The beginning of a message on an operation that failed on a key. -/
def failed (o : Operation) (key : String) : String :=
  o.name ++ " of lock " ++ Quoted.quote key ++ " failed: "

end Operation

/-! ## Faults -/

/-- **Fault**: an error and the errors below it. -/
inductive Fault where
  /-- An error of no known kind, with nothing below it. -/
  | bare (text : String)
  /-- A plain error with nothing below it. -/
  | plain (text : String)
  /-- A plain error that wraps another and prints a text of its own. -/
  | context (text : String) (cause : Fault)
  /-- An error of the operating system. -/
  | io (text : String)
  /-- The driver lost the connection to the server; an error of the operating system is below it. -/
  | communication (text : String)
  /-- The driver could not read the server's answer. -/
  | protocol (text : String)
  | noRow
  | poolTimedOut
  | poolClosed
  | workerCrashed
  /-- The driver could not decode a value. -/
  | decoding (cause : Fault)
  /-- The driver was set up wrongly. -/
  | configuration (cause : Fault)
  /-- The server reported an error; its own report is below it. -/
  | database (e : DatabaseError)
  /-- A statement failed, because of a duplicate key or for another reason. -/
  | statement (duplicateKey : Bool) (cause : Fault)
  /-- A statement had no definite outcome. -/
  | transport (cause : Fault)
  /-- A lock operation failed on its way to the database. -/
  | lock (key : String) (operation : Operation) (cause : Fault)
deriving DecidableEq, Repr, Inhabited

/-- The kinds of error that a listener can recognise. -/
inductive FaultKind where
  | plain
  | io
  | driver
  | transport
  | lock
deriving DecidableEq, Repr, Inhabited

namespace Fault

/-- What the fault prints. -/
def text : Fault → String
  | .bare text => text
  | .plain text => text
  | .context text _ => text
  | .io text => text
  | .communication text => "error communicating with database: " ++ text
  | .protocol text => "encountered unexpected or invalid data: " ++ text
  | .noRow => "no rows returned by a query that expected to return at least one row"
  | .poolTimedOut => "pool timed out while waiting for an open connection"
  | .poolClosed => "attempted to acquire a connection on a closed pool"
  | .workerCrashed => "attempted to communicate with a crashed background worker"
  | .decoding cause => "error occurred while decoding: " ++ cause.text
  | .configuration cause => "error with configuration: " ++ cause.text
  | .database e => "error returned from database: " ++ e.text
  | .statement true cause => "unique constraint violated: " ++ cause.text
  | .statement false cause => cause.text
  | .transport cause => cause.text
  | .lock key operation cause => operation.failed key ++ cause.text

/-- The error directly below. -/
def source? : Fault → Option Fault
  | .bare _ | .plain _ | .io _ | .protocol _ => none
  | .noRow | .poolTimedOut | .poolClosed | .workerCrashed => none
  | .communication text => some (.io text)
  | .database e => some (.bare e.text)
  | .context _ cause | .decoding cause | .configuration cause => some cause
  | .statement _ cause | .transport cause => some cause
  | .lock _ _ cause => some (.transport cause)

/-- **Causes**: all errors below, outermost first. -/
def causes : Fault → List Fault
  | .bare _ | .plain _ | .io _ | .protocol _ => []
  | .noRow | .poolTimedOut | .poolClosed | .workerCrashed => []
  | .communication text => [.io text]
  | .database e => [.bare e.text]
  | .context _ cause | .decoding cause | .configuration cause => cause :: cause.causes
  | .statement _ cause | .transport cause => cause :: cause.causes
  | .lock _ _ cause => .transport cause :: cause :: cause.causes

/-- **Chain**: the fault and all errors below it, outermost first. -/
def chain (f : Fault) : List Fault := f :: f.causes

/-- The causes are what one reaches by going from source to source. -/
theorem causes_eq (f : Fault) :
    f.causes = match f.source? with
      | none => []
      | some s => s.chain := by
  cases f <;> rfl

/-- The kind that a listener can tell the fault to be. -/
def kind? : Fault → Option FaultKind
  | .plain _ | .context _ _ => some .plain
  | .io _ => some .io
  | .communication _ | .protocol _ | .noRow | .poolTimedOut | .poolClosed => some .driver
  | .workerCrashed | .decoding _ | .configuration _ | .database _ => some .driver
  | .transport _ => some .transport
  | .lock _ _ _ => some .lock
  | .bare _ | .statement _ _ => none

/-- The server's error, where the fault is one. -/
def databaseError? : Fault → Option DatabaseError
  | .database e => some e
  | _ => none

end Fault

end LeaseLock
