/-
# LeaseLock.Statement.Argument -- the values behind the placeholders

A statement lists what each of its slots stands for (`Parameter`). One execution has the values of a
lease call (`LeaseValues`), and `LeaseValues.argument` gives the bound value of a parameter. An absent
token is bound as the empty text. A time to live is bound as a signed 64-bit number of whole
microseconds, or of whole milliseconds with whole seconds that still fit 32 bits; more is cut to the
greatest such number.
-/
import LeaseLock.Duration

namespace LeaseLock

/-- What a slot of a statement stands for. -/
inductive Parameter where
  | key
  /-- The token that a claim writes, and that a release or an extension matches. -/
  | token
  /-- The token that the handle held before a claim. -/
  | previousToken
  /-- The token of an earlier claim whose answer never came. -/
  | unconfirmedToken
  | ttlMicros
  | ttlMillis
deriving DecidableEq, Repr, Inhabited

/-- A bound value. -/
inductive Argument where
  | text (s : String)
  | int (n : Int)
deriving DecidableEq, Repr, Inhabited

/-- The values of one lease call. -/
structure LeaseValues where
  key : String
  token : String
  previousToken : String
  unconfirmedToken : String
  ttl : Duration
deriving DecidableEq, Repr, Inhabited

/-- The greatest number of microseconds that is bound: the greatest signed 64-bit integer. -/
def maxTtlMicros : Nat := Nat.pow 2 63 - 1

/-- The greatest number of milliseconds that is bound: the greatest signed 32-bit number of whole
seconds. -/
def maxTtlMillis : Nat := (Nat.pow 2 31 - 1) * 1000

namespace LeaseValues

/-- **Bound value** of a parameter. -/
def argument (v : LeaseValues) : Parameter → Argument
  | .key => .text v.key
  | .token => .text v.token
  | .previousToken => .text v.previousToken
  | .unconfirmedToken => .text v.unconfirmedToken
  | .ttlMicros => .int (min v.ttl.micros maxTtlMicros)
  | .ttlMillis => .int (min v.ttl.millis maxTtlMillis)

/-- The bound values of a list of parameters, in their order. -/
def bind (v : LeaseValues) (parameters : List Parameter) : List Argument :=
  parameters.map v.argument

end LeaseValues

end LeaseLock
