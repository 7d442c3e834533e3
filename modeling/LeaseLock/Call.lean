/-
# LeaseLock.Call -- lock operations that wait for the database

A `Call` is a lock operation in progress. Either it is done, with the state it leaves behind, its
result and its log; or it has sent one request and waits for the reply. While it waits it also knows
what is left behind if its caller gives up at this point (`held`): nothing that the operation would
have written later. A call asks finitely many requests on every path, so any way of answering
requests runs it to its end by structural recursion (`Call.run`).
-/
import LeaseLock.Event
import LeaseLock.Statement.Plan

namespace LeaseLock

/-! ## Requests and replies -/

/-- One statement with its bound values, and the time that the caller grants it. -/
structure Request where
  statement : Statement
  arguments : List Argument
  limit : Option Duration
deriving DecidableEq, Repr, Inhabited

/-- **Reply** to a request. -/
inductive Reply where
  /-- The database answered in time: a number of affected rows, or an error. -/
  | answered (result : Except StatementError Nat)
  /-- No answer came within the request's limit; the statement may still take effect. -/
  | overran (limit : Duration)
deriving Repr, Inhabited

namespace Reply

/-- The affected rows of a reply. -/
def rows : Reply → Except TransportError Nat
  | .answered (.ok n) => .ok n
  | .answered (.error e) => .error (.ofStatement e)
  | .overran limit => .error (.timeout limit)

/-- The affected rows of an insert whose duplicate key means that the key is held. -/
def insertedRows : Reply → Except TransportError Nat
  | .answered (.error (.duplicateKey _)) => .ok 0
  | r => r.rows

end Reply

/-! ## Calls -/

/-- **Call**: an operation on a state of type `σ` with a result of type `α`. -/
inductive Call (σ α : Type) where
  | done (state : σ) (result : α) (events : List Event)
  | ask (request : Request) (held : σ) (resume : Reply → Call σ α)

namespace Call

variable {σ α : Type}

/-- Adds to the log of a call what its result calls for. -/
def logging (note : α → List Event) : Call σ α → Call σ α
  | .done state result events => .done state result (events ++ note result)
  | .ask request held resume => .ask request held fun r => (resume r).logging note

/-- The end of a call that has been carried through. -/
structure Finished (σ α : Type) where
  state : σ
  result : α
  events : List Event

/-- **Running** a call in a world that answers every request. -/
def run {ω : Type} (serve : ω → Request → ω × Reply) : ω → Call σ α → ω × Finished σ α
  | w, .done state result events => (w, ⟨state, result, events⟩)
  | w, .ask request _ resume =>
    let (w', reply) := serve w request
    (resume reply).run serve w'

end Call

end LeaseLock
