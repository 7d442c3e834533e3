import LeaseLock.Rehearsal.Performance
import LeaseLock.Rehearsal.Session
import LeaseLock.Retry.Registry
import LeaseLock.Sqlite.Session
import LeaseLock.Proofs.Statement
import LeaseLock.Proofs.System
import LeaseLock.Proofs.Ownership
import LeaseLock.Proofs.MutualExclusion
import LeaseLock.Proofs.Tracking
import LeaseLock.Proofs.History
import LeaseLock.Proofs.Stage
import LeaseLock.Proofs.ExclusiveRun
import LeaseLock.Proofs.LateStatements
import LeaseLock.Proofs.LeaseTable
import LeaseLock.Proofs.Granting
import LeaseLock.Proofs.Waiting
import LeaseLock.Proofs.TwoStepClaim
import LeaseLock.Proofs.Transcript
import LeaseLock.Proofs.ReleaseOnExit
import LeaseLock.Proofs.Calendar
import LeaseLock.Proofs.Rounding
import LeaseLock.Proofs.SqliteClock
import LeaseLock.Proofs.Cancellation
import LeaseLock.Proofs.ForeignRow
import LeaseLock.Proofs.LeftBehind
import LeaseLock.Proofs.Purging
import LeaseLock.Proofs.Registration
import LeaseLock.Proofs.Numeral
import LeaseLock.Proofs.Verdicts
import LeaseLock.Proofs.AcquireOutcome
import LeaseLock.Proofs.SqliteDatabase
import LeaseLock.Proofs.Horizon
import LeaseLock.Proofs.Gregorian
import LeaseLock.Proofs.TextOrder
import LeaseLock.Proofs.TokenDiscipline
import LeaseLock.Proofs.Precedence
import LeaseLock.Proofs.Film
import LeaseLock.Proofs.Lifetime
import LeaseLock.Proofs.KeepAlive
import LeaseLock.Proofs.PlainWord
import LeaseLock.Proofs.SqlText
import LeaseLock.Proofs.Placeholders
import LeaseLock.Proofs.CallerData
import LeaseLock.Proofs.TtlWidths
import LeaseLock.Proofs.JsonText
import LeaseLock.Proofs.ConfigText
import LeaseLock.Proofs.DurationText
import LeaseLock.Proofs.QuotedText
import LeaseLock.Proofs.Wording
