/-
# LeaseLock.Proofs.SqliteDatabase -- the database that answers is the server of the deployments

Deployments know a server by the outcome of its statements (`Request.outcome`). SQLite's database
answers with just that, in the words of SQLite, as long as its table is there and no connection
breaks.
-/
import LeaseLock.Proofs.System
import LeaseLock.Sqlite.Database

namespace LeaseLock.Sqlite.Database

/-- **Ready**: the database has the table of this name, with these rows, and loses no answer. -/
structure Ready (db : Database) (table : String) (t : Table String) : Prop where
  name : db.tableName = table
  there : db.table = some t
  calm : db.blip = none

variable {db : Database} {table : String} {t : Table String} {r : Request}

/-- **A ready database** answers a request with its outcome, and keeps the table that it leaves. -/
theorem Ready.serve_eq (ready : db.Ready table t) (hback : r.statement.backend = .sqlite)
    (htable : r.statement.table = table) :
    db.serve r = ({ db with table := some (r.outcome (moment db.clock) t).2 },
      .answered ((r.outcome (moment db.clock) t).1.mapError (violated table))) := by
  obtain ⟨name, clock, table?, blip?⟩ := db
  obtain ⟨rfl, rfl, rfl⟩ := ready
  replace htable : r.statement.table = name := htable
  have effect : r.effect (moment clock) t =
      effectOn r.statement.table (moment clock) r.arguments t r.statement.command := by
    rw [Request.effect, Statement.effect, hback]
  unfold serve run Request.outcome
  dsimp only
  rw [if_pos htable, effect, ← htable]
  unfold command
  dsimp only
  rw [if_neg (by simp)]
  cases effectOn r.statement.table (moment clock) r.arguments t r.statement.command with
  | error v => rfl
  | ok p => rfl

end LeaseLock.Sqlite.Database
