/-
# LeaseLock.Statement.Command -- what a lease statement does

Statements are kept by meaning, apart from any server's spelling. The lease table has the columns
`lock_key` (the primary key), `owner_token` and `expires_at`. A command names its parameters by
**slot**: slot `n` is the `n`-th parameter of the statement, counted from one. Deadlines are always
the current instant of the database plus the time to live in a slot.
-/

namespace LeaseLock

/-- The position of a parameter, counted from one. -/
abbrev Slot := Nat

/-- A condition on one row of the lease table. -/
inductive Condition where
  /-- The row is the row of this key. -/
  | keyIs (key : Slot)
  /-- The row's token is one of two. -/
  | ownerIn (first second : Slot)
  /-- The row's deadline is not after the current instant. -/
  | expired
  /-- The row's deadline is after the current instant. -/
  | live
  | and (p q : Condition)
  | or (p q : Condition)
deriving DecidableEq, Repr, Inhabited

/-- **Command**: the effect of one statement on the lease table. -/
inductive Command where
  /-- Inserts a row; where the key has one already, overwrites it if the condition holds of it. -/
  | upsert (key token ttl : Slot) (replaceIf : Condition)
  /-- The same effect, decided by matching the key first and under a lock on its place. -/
  | merge (key token ttl : Slot) (replaceIf : Condition)
  /-- Inserts a row; fails where the key has one already. -/
  | insert (key token ttl : Slot)
  /-- Sets token and deadline of every row that meets the condition. -/
  | takeOver (token ttl : Slot) (rows : Condition)
  /-- Sets the deadline of every row that meets the condition. -/
  | prolong (ttl : Slot) (rows : Condition)
  /-- Deletes every row that meets the condition. -/
  | delete (rows : Condition)
deriving DecidableEq, Repr, Inhabited

end LeaseLock
