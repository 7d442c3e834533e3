/-
# LeaseLock.TableName -- names and keys that a caller may choose

A table name ends up inside quotes in SQL text, so only plain words pass: an ASCII letter or
underscore, then ASCII letters, digits and underscores, at most sixty-four in all. A key is bound as
a value and may hold any text, but must be nonempty and fit its column.
-/
import LeaseLock.Error
import LeaseLock.Statement.Plan

namespace LeaseLock

/-- The greatest length of a table name in bytes. -/
def maxTableNameLength : Nat := 64

namespace TableName

/-- Characters that may open a name. -/
def isOpening (c : Char) : Bool := c.isAlpha || c == '_'

/-- Characters that may follow. -/
def isFollowing (c : Char) : Bool := c.isAlphanum || c == '_'

/-- Whether the name is a plain word of admissible length. -/
def isPlain (name : String) : Bool :=
  match name.toList with
  | [] => false
  | c :: cs =>
    isOpening c && cs.all isFollowing && decide (name.utf8ByteSize ≤ maxTableNameLength)

/-- Accepts a plain word. -/
def check (name : String) : Except ConfigError Unit :=
  if isPlain name then .ok () else .error (.invalidTableName name)

end TableName

/-- Accepts a key that is nonempty and fits its column. -/
def checkKey (key : String) : Except ConfigError Unit :=
  if key.isEmpty then .error .emptyKey
  else if key.utf8ByteSize ≤ maxKeyLength then .ok ()
  else .error (.keyTooLong key.utf8ByteSize maxKeyLength)

end LeaseLock
