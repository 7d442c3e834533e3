/-
# LeaseLock.Sqlite.Clock -- SQLite's reading of the clock

SQLite's date functions know instants from noon of 24 November 4714 BC, where Julian days begin, to
the end of the year 9999; any other is null. A clock that shows the very beginning counts as one that
was never set, and now is null then, too. Otherwise now is the clock itself, to the millisecond. A
deadline is computed through a Julian day: the clock's and the time to live, in days, are added in
binary floating point, and the sum is rounded to the nearest millisecond.
-/
import LeaseLock.Sqlite.Binary
import LeaseLock.Sqlite.Calendar
import LeaseLock.Table.Effect

namespace LeaseLock.Sqlite

/-- The milliseconds from the beginning of Julian days to 1970-01-01 00:00 UTC. -/
def epochOffset : Int := 210866760000000

/-- The first millisecond, counted from the beginning of Julian days, after the year 9999. -/
def endOfTime : Int := 464269060800000

/-- The text of an instant that is given by the milliseconds since the beginning of Julian days. -/
def textOfJulian (j : Int) : Option String :=
  if 0 ≤ j ∧ j < endOfTime then some (Calendar.timestamp (j - epochOffset)) else none

/-- The Julian day on which a time to live in microseconds ends that begins at instant `j`. -/
def julianDayAfter (j : Int) (micros : Int) : Rat :=
  Binary.round
    (Binary.round (mkRat j 86400000) + Binary.round (Binary.round micros / 86400000000))

/-- The instant of a Julian day, rounded to the millisecond, if SQLite knows it. -/
def instantOfDay (day : Rat) : Option Int :=
  if 0 ≤ day ∧ day < mkRat 10746969 2 then
    some (Binary.round (Binary.round (day * 86400000) + mkRat 1 2)).floor
  else none

/-- Whether an instant, in milliseconds since the beginning of Julian days, is one that SQLite takes
from its clock. -/
def isClockInstant (j : Int) : Bool := 0 < j && j < endOfTime

/-- The text of now when the clock shows `clock`. -/
def nowText (clock : Int) : Option String :=
  let j := clock + epochOffset
  if isClockInstant j then textOfJulian j else none

/-- The deadline text of a time to live in microseconds that begins when the clock shows `clock`. -/
def deadlineText (clock micros : Int) : Option String :=
  let j := clock + epochOffset
  if isClockInstant j then (instantOfDay (julianDayAfter j micros)).bind textOfJulian else none

/-- **Moment** of SQLite at a clock in milliseconds since 1970-01-01 00:00 UTC. -/
def moment (clock : Int) : Moment String where
  now := nowText clock
  after := deadlineText clock

end LeaseLock.Sqlite
