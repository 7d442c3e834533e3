/-
# LeaseLock.Sqlite.Calendar -- instants as sortable text

An instant is a number of milliseconds since 1970-01-01 00:00 UTC. Its text is the date of the
proleptic Gregorian calendar and the time of day, `YYYY-MM-DD HH:MM:SS.mmm`, with every field padded
to its width, so that texts of the years 0000 to 9999 sort like the instants.

Dates are found by counting days from the first of March of the year zero, which puts the leap day at
the end of its year and makes the calendar repeat every 400 years of 146097 days.
-/
import LeaseLock.Text.Numeral

namespace LeaseLock.Calendar

/-- A date of the proleptic Gregorian calendar. The year zero comes before the year one. -/
structure Date where
  year : Int
  month : Nat
  day : Nat
deriving DecidableEq, Repr, Inhabited

/-- Milliseconds of a day. -/
def dayMillis : Int := 86400000

/-- Days of 400 years. -/
def eraDays : Nat := 146097

/-- The year of an era, counted from zero, in which a day of the era lies; years begin in March. -/
def yearOfEra (day : Nat) : Nat :=
  (day - day / 1460 + day / 36524 - day / 146096) / 365

/-- The first day of a year of an era. -/
def startOfYear (year : Nat) : Nat := 365 * year + year / 4 - year / 100

/-- The month, counted from March as zero, in which a day of such a year lies. -/
def monthOfYear (day : Nat) : Nat := (5 * day + 2) / 153

/-- The first day of a month, both counted from March. -/
def startOfMonth (month : Nat) : Nat := (153 * month + 2) / 5

/-- The date of a day, counted from 1970-01-01 as zero. -/
def dateOfDay (z : Int) : Date :=
  let sinceEpoch := z + 719468
  let era := sinceEpoch / eraDays
  let day := (sinceEpoch % eraDays).toNat
  let year := yearOfEra day
  let dayOfYear := day - startOfYear year
  let month := monthOfYear dayOfYear
  { year := 400 * era + year + (if month < 10 then 0 else 1)
    month := if month < 10 then month + 3 else month - 9
    day := dayOfYear - startOfMonth month + 1 }

/-- A year in at least four characters, the minus sign of a year before zero among them. -/
def yearText (year : Int) : List Char :=
  if year < 0 then
    let digits := Numeral.digits 10 year.natAbs
    '-' :: (if digits.length < 3 then Numeral.padded 10 3 year.natAbs else digits)
  else
    let digits := Numeral.digits 10 year.natAbs
    if digits.length < 4 then Numeral.padded 10 4 year.natAbs else digits

/-- The text of a date. -/
def Date.text (d : Date) : List Char :=
  yearText d.year ++ '-' :: Numeral.padded 10 2 d.month ++ '-' :: Numeral.padded 10 2 d.day

/-- The text of a time of day, given in milliseconds since midnight. -/
def timeText (ms : Nat) : List Char :=
  Numeral.padded 10 2 (ms / 3600000) ++ ':' :: Numeral.padded 10 2 (ms / 60000 % 60) ++
    ':' :: Numeral.padded 10 2 (ms / 1000 % 60) ++ '.' :: Numeral.padded 10 3 (ms % 1000)

/-- **Text of an instant**. -/
def timestamp (ms : Int) : String :=
  String.ofList ((dateOfDay (ms / dayMillis)).text ++ ' ' :: timeText (ms % dayMillis).toNat)

end LeaseLock.Calendar
