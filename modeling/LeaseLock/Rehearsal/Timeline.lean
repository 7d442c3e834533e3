/-
# LeaseLock.Rehearsal.Timeline -- scripted answers in virtual time

A rehearsal answers requests from a script. Time is virtual, counts whole milliseconds, and passes
only while a statement takes its delay. A statement takes the first answer of the script when it
starts, even if its caller gives up on it; with an empty script it fails at once. A statement whose
delay is the limit itself still completes; a longer one ends at the limit without an answer.
-/
import LeaseLock.Call

namespace LeaseLock

namespace Rehearsal

/-- A scripted answer: the milliseconds that the statement takes, and its result. -/
structure Answer where
  delay : Nat := 0
  result : Except StatementError Nat
deriving Repr, Inhabited

/-- The answer of a script that has run out. -/
def Answer.exhausted : Answer := ⟨0, .error (.database (.bare "script exhausted"))⟩

/-- A statement that was sent, and when. -/
structure Exchange where
  time : Nat
  request : Request
deriving Repr, Inhabited

/-- **Timeline** of a rehearsal: the current millisecond, the answers left, and the statements sent
so far, last one first. -/
structure Timeline where
  now : Nat := 0
  script : List Answer := []
  sent : List Exchange := []
deriving Inhabited

namespace Timeline

/-- The statements sent so far, in order. -/
def exchanges (t : Timeline) : List Exchange := t.sent.reverse

/-- The answer that the next statement takes, and the script left behind it. -/
def next (t : Timeline) : Answer × List Answer :=
  match t.script with
  | [] => (.exhausted, [])
  | a :: rest => (a, rest)

/-- How long a request with this limit takes, and its reply. -/
def settle (a : Answer) : Option Duration → Nat × Reply
  | none => (a.delay, .answered a.result)
  | some limit =>
    if a.delay ≤ limit.millisUp then (a.delay, .answered a.result)
    else (limit.millisUp, .overran limit)

/-- **Answering** one request. -/
def serve (t : Timeline) (r : Request) : Timeline × Reply :=
  let (answer, rest) := t.next
  let (taken, reply) := settle answer r.limit
  (⟨t.now + taken, rest, ⟨t.now, r⟩ :: t.sent⟩, reply)

end Timeline

end Rehearsal

/-- **Running up to a deadline.** A call that is not done by then is dropped at the deadline and
leaves behind what it held; done exactly then counts as done. -/
def Call.runUntil {σ α : Type} (deadline : Nat) :
    Rehearsal.Timeline → Call σ α → Rehearsal.Timeline × Except σ (Call.Finished σ α)
  | t, .done state result events => (t, .ok ⟨state, result, events⟩)
  | t, .ask request held resume =>
    let (t, reply) := t.serve request
    if t.now ≤ deadline then (resume reply).runUntil deadline t
    else (⟨deadline, t.script, t.sent⟩, .error held)

end LeaseLock
