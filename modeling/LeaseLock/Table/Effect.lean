/-
# LeaseLock.Table.Effect -- what commands do to a lease table

`Command.effect` gives each command the meaning that SQL gives to its text: which rows it reads,
which it writes, how many it affects (an update counts the rows that it matched), and when it fails
instead. An unknown comparison counts as false. A slot without a value of its type is null. Nothing
is written by a command that fails.

A `Moment` is an instant as the database sees it while it runs one statement: the deadline text or
value that stands for now, and the deadlines that it can compute. Either may be null.
-/
import LeaseLock.Statement.Argument
import LeaseLock.Statement.Command
import LeaseLock.Table.Basic

namespace LeaseLock

/-! ## Bound values -/

namespace Argument

/-- The text bound to a slot. -/
def textAt? (args : List Argument) (i : Slot) : Option String :=
  match i, args[i - 1]? with
  | _ + 1, some (.text s) => some s
  | _, _ => none

/-- The number bound to a slot. -/
def intAt? (args : List Argument) (i : Slot) : Option Int :=
  match i, args[i - 1]? with
  | _ + 1, some (.int n) => some n
  | _, _ => none

end Argument

/-! ## Instants -/

/-- **Moment**: the current instant of a database, and the deadlines that lie a given time to live
after it. -/
structure Moment (δ : Type) where
  now : Option δ
  after : Int → Option δ

/-! ## Conditions -/

variable {δ : Type} [LT δ] [DecidableLT δ]

/-- Whether a row is known to meet a condition. -/
def Condition.holds (m : Moment δ) (args : List Argument) (r : Row δ) : Condition → Bool
  | .keyIs key => Argument.textAt? args key = some r.key
  | .ownerIn first second =>
    Argument.textAt? args first = some r.token || Argument.textAt? args second = some r.token
  | .expired => m.now.any fun now => ¬ now < r.deadline
  | .live => m.now.any fun now => now < r.deadline
  | .and p q => p.holds m args r && q.holds m args r
  | .or p q => p.holds m args r || q.holds m args r

/-! ## Effects -/

/-- Why a command fails. -/
inductive Violation where
  /-- A null would be written to this column. -/
  | notNull (column : String)
  /-- The key has a row already. -/
  | duplicateKey
deriving DecidableEq, Repr, Inhabited

namespace Command

/-- The token to be written; null is refused. -/
def tokenFor (args : List Argument) (token : Slot) : Except Violation String :=
  match Argument.textAt? args token with
  | some s => .ok s
  | none => .error (.notNull "owner_token")

/-- The deadline to be written; null is refused. -/
def deadlineFor (m : Moment δ) (args : List Argument) (ttl : Slot) : Except Violation δ :=
  match (Argument.intAt? args ttl).bind m.after with
  | some d => .ok d
  | none => .error (.notNull "expires_at")

/-- The row to be inserted; nulls are refused. -/
def newRow (m : Moment δ) (args : List Argument) (key token ttl : Slot) :
    Except Violation (Row δ) := do
  let some key := Argument.textAt? args key | throw (.notNull "lock_key")
  return ⟨key, (← tokenFor args token), (← deadlineFor m args ttl)⟩

/-- Overwrites the row of a key by a row with the same key. -/
def overwrite (t : Table δ) (r : Row δ) : Table δ :=
  t.modify (fun old => old.key = r.key) (fun _ => r.token) r.deadline

/-- **Effect** of a command: the number of affected rows and the table afterwards, or a failure. -/
def effect (m : Moment δ) (args : List Argument) (t : Table δ) :
    Command → Except Violation (Nat × Table δ)
  | .upsert key token ttl replaceIf => do
    let r ← newRow m args key token ttl
    match t.row? r.key with
    | some old =>
      if replaceIf.holds m args old then return (1, overwrite t r) else return (0, t)
    | none => return (1, (t.insert? r).getD t)
  | .merge key token ttl replaceIf =>
    match (Argument.textAt? args key).bind t.row? with
    | some old =>
      if replaceIf.holds m args old then do
        return (1, overwrite t (← newRow m args key token ttl))
      else return (0, t)
    | none => do
      let r ← newRow m args key token ttl
      return (1, (t.insert? r).getD t)
  | .insert key token ttl => do
    let r ← newRow m args key token ttl
    match t.insert? r with
    | some t' => return (1, t')
    | none => throw .duplicateKey
  | .takeOver token ttl rows =>
    let picked (r : Row δ) : Bool := rows.holds m args r
    if t.count picked = 0 then .ok (0, t)
    else do
      let s ← tokenFor args token
      let d ← deadlineFor m args ttl
      return (t.count picked, t.modify picked (fun _ => s) d)
  | .prolong ttl rows =>
    let picked (r : Row δ) : Bool := rows.holds m args r
    if t.count picked = 0 then .ok (0, t)
    else do
      let d ← deadlineFor m args ttl
      return (t.count picked, t.modify picked Row.token d)
  | .delete rows =>
    let picked (r : Row δ) : Bool := rows.holds m args r
    .ok (t.count picked, t.erase picked)

end Command

end LeaseLock
