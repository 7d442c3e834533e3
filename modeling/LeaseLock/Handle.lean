/-
# LeaseLock.Handle -- one lease on one key

A handle is idle until a claim succeeds and idle again after a release. Ownership is proven by a
token that is fresh for every claim and that the database compares on release and extension, so a
handle whose lease has expired and was taken over cannot disturb the new owner.

When the answer to a claim gets lost, nobody knows whether its row was written. The handle then keeps
the token that it held and remembers the attempted one as **unconfirmed**; the next claim is made
with that same token, and extension and release match either. An absent token is sent as the empty
text. While a claim is under way its token is in neither field.
-/
import LeaseLock.Manager
import LeaseLock.Token

namespace LeaseLock

/-- **Handle** for one key of the lease table. -/
structure Handle where
  key : String
  /-- The token of the last successful claim, while the handle believes that it holds the lease. -/
  token : Option Token := none
  /-- The token of a claim whose outcome is unknown. -/
  unconfirmed : Option Token := none
deriving DecidableEq, Repr, Inhabited

namespace Handle

/-- An idle handle for an admissible key. -/
def ofKey (key : String) : Except ConfigError Handle := do
  checkKey key
  return { key }

/-- Whether the handle believes that it holds the lease. The lease may have expired at the database. -/
def isHeld (h : Handle) : Bool := h.token.isSome

/-- Whether the handle knows of no row that might be its own. -/
def isIdle (h : Handle) : Bool := h.token.isNone && h.unconfirmed.isNone

/-- The token that the next claim sends: the unconfirmed one, or a fresh one. -/
def nextToken (h : Handle) (fresh : Token) : Token := h.unconfirmed.getD fresh

/-- The values of a claim with a given token. -/
def claimValues (h : Handle) (token : Token) (ttl : Duration) : LeaseValues :=
  ⟨h.key, token, h.token.getD "", token, ttl⟩

/-- The values by which the handle's own row is found. -/
def ownValues (h : Handle) (ttl : Duration) : LeaseValues :=
  ⟨h.key, h.token.getD "", "", h.unconfirmed.getD "", ttl⟩

/-- **Acquire**: claims the key for `ttl`, measured on the database's clock. Contention leaves the
handle idle; a transport error leaves what it held and records the token that was sent. -/
def acquire (h : Handle) (m : Manager) (fresh : Token) (ttl : Duration) :
    Call Handle (Except LockError Unit) :=
  if ttl.isZero then .done h (.error (.config (.invalidTtl ttl))) [] else
  let token := h.nextToken fresh
  let waiting := { h with unconfirmed := none }
  m.claim (h.claimValues token ttl) waiting fun
    | .error e =>
      .done { waiting with unconfirmed := some token } (.error (.transport h.key .acquire e)) []
    | .ok false => .done { waiting with token := none } (.error (.contention h.key)) []
    | .ok true => .done { waiting with token := some token } (.ok ()) [.acquired h.key ttl]

/-- **Extend**: moves the deadline to `ttl` from now while the lease is ours and live. The handle
never changes. -/
def extend (h : Handle) (m : Manager) (ttl : Duration) : Call Handle (Except LockError Unit) :=
  if ttl.isZero then .done h (.error (.config (.invalidTtl ttl))) []
  else if h.isIdle then .done h (.error (.lostLease h.key)) []
  else m.send m.extendStatement (h.ownValues ttl) h fun
    | .error e => .done h (.error (.transport h.key .extend e)) []
    | .ok 0 => .done h (.error (.lostLease h.key)) []
    | .ok (_ + 1) => .done h (.ok ()) [.extended h.key ttl]

/-- **Release**: deletes the key's row if it carries a token of ours. Any answer leaves the handle
idle; a transport error leaves it as it was, so that the release can be tried again. -/
def release (h : Handle) (m : Manager) : Call Handle (Except LockError Unit) :=
  if h.isIdle then .done h (.error (.lostLease h.key)) []
  else m.send m.releaseStatement (h.ownValues .zero) h fun
    | .error e => .done h (.error (.transport h.key .release e)) []
    | .ok 0 => .done { h with token := none, unconfirmed := none } (.error (.lostLease h.key))
        [.foreignAtRelease h.key]
    | .ok (_ + 1) => .done { h with token := none, unconfirmed := none } (.ok ())
        [.released h.key]

end Handle

end LeaseLock
