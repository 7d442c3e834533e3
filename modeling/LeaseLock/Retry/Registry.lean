/-
# LeaseLock.Retry.Registry -- classifiers in order, per dialect

A registry holds one judge for each dialect that has any classifier. A classifier that is registered
for a dialect with a judge joins it: the new judge asks the old one first, and the classifier only
where the old one does not accept. A check walks a fault's chain from the outermost error inwards
until the judge accepts an error. A registry is a value: a copy of it goes its own way.
-/
import LeaseLock.Dialect
import LeaseLock.Error
import LeaseLock.Retry.Classifier

namespace LeaseLock

/-! ## Verdicts -/

/-- The outcome of a check: the verdict, and who was asked about which fault, in order. -/
structure Verdict where
  retryable : Bool
  asked : List (Classifier × Fault)
deriving Inhabited

namespace Verdict

/-- Nobody accepts, since nobody is asked. -/
def unasked : Verdict := ⟨false, []⟩

/-- The verdict of asking on only where the first verdict does not accept. -/
def orElse (first rest : Verdict) : Verdict :=
  if first.retryable then first else ⟨rest.retryable, first.asked ++ rest.asked⟩

end Verdict

/-! ## Judges -/

/-- **Judge**: classifiers that act as one, on one fault. -/
def Judge : Type := Fault → Verdict

namespace Judge

/-- A classifier on its own. -/
def ofClassifier (c : Classifier) : Judge := fun f => ⟨c.accepts f, [(c, f)]⟩

/-- Asks the earlier judge, and the later one only where the earlier does not accept. -/
def orElse (earlier later : Judge) : Judge := fun f => (earlier f).orElse (later f)

/-- Asks about each fault in order, up to the first that is accepted. -/
def along (judge : Judge) : List Fault → Verdict
  | [] => .unasked
  | f :: fs => (judge f).orElse (along judge fs)

end Judge

/-! ## Registries -/

/-- **Registry**: the judge of each dialect that has one. -/
structure Registry where
  judges : Dialect → Option Judge
deriving Inhabited

namespace Registry

/-- No classifier at all: nothing is retryable. -/
def empty : Registry := ⟨fun _ => none⟩

/-- The registry that has `judge` for dialect `d` and is the same elsewhere. -/
def set (r : Registry) (d : Dialect) (judge : Option Judge) : Registry :=
  ⟨fun d' => if d' = d then judge else r.judges d'⟩

/-- Adds a classifier behind those of its dialect. -/
def register (r : Registry) (d : Dialect) (c : Classifier) : Registry :=
  r.set d <| some <| match r.judges d with
    | some earlier => earlier.orElse (.ofClassifier c)
    | none => .ofClassifier c

/-- Drops all classifiers of a dialect. -/
def unregister (r : Registry) (d : Dialect) : Registry := r.set d none

/-- The built-in classifiers. SQL Server has none. -/
def defaults : Registry :=
  empty |>.register .postgres .postgres |>.register .pgx .postgres |>.register .sqlite .sqlite
    |>.register .mysql .mysql

/-- The dialects that have a classifier. -/
def dialects (r : Registry) : List Dialect :=
  Dialect.all.filter fun d => (r.judges d).isSome

/-- **Check** of a fault and everything below it. -/
def check (r : Registry) (d : Dialect) (f : Fault) : Verdict :=
  match r.judges d with
  | some judge => judge.along f.chain
  | none => .unasked

/-- **Check of a lock error.** A timeout is always worth a retry; any other transport error is
checked from the transport error inwards; every other lock error is final. -/
def checkLock (r : Registry) (d : Dialect) : LockError → Verdict
  | .transport _ _ (.timeout _) => ⟨true, []⟩
  | .transport _ _ (.database cause) => r.check d (.transport cause)
  | .config _ | .contention _ | .lostLease _ => ⟨false, []⟩

end Registry

end LeaseLock
