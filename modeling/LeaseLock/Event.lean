/-
# LeaseLock.Event -- what is written to the log

Lock operations record what happened at the database, not what they were asked to do. Each record is
a debug line of its own; keys are quoted, so a record never spans two lines.
-/
import LeaseLock.Error

namespace LeaseLock

/-- **Event**: one record of the log. -/
inductive Event where
  | acquired (key : String) (ttl : Duration)
  | extended (key : String) (ttl : Duration)
  | released (key : String)
  /-- A release found no row that carried the handle's token. -/
  | foreignAtRelease (key : String)
  | purged (rows : Nat) (table : String)
  /-- An extension failed, so the task under the lease is dropped. -/
  | stoppingTask (key : String) (e : LockError)
  /-- The release after a failed task failed as well. -/
  | releaseFailed (key : String) (e : LockError)
deriving DecidableEq, Repr, Inhabited

namespace Event

/-- The wording of an event. -/
def message : Event → String
  | .acquired key ttl => "acquired lock " ++ Quoted.quote key ++ " for " ++ ttl.text
  | .extended key ttl => "extended lock " ++ Quoted.quote key ++ " by " ++ ttl.text
  | .released key => "released lock " ++ Quoted.quote key
  | .foreignAtRelease key => "lock " ++ Quoted.quote key ++ " was no longer ours at release"
  | .purged rows table =>
    "purged " ++ Numeral.decimal rows ++ " expired lock rows from " ++ table
  | .stoppingTask key e =>
    "stopping task on " ++ Quoted.quote key ++ ": extension failed: " ++ e.message
  | .releaseFailed key e =>
    "release after failed task on " ++ Quoted.quote key ++ ": " ++ e.message

/-- The line of the log. -/
def line (e : Event) : String := "DEBUG " ++ e.message

end Event

end LeaseLock
