/-
# LeaseLock.Duration -- spans of time, exact to the nanosecond

A duration is a whole number of nanoseconds. Coarser units are read off by truncation, so no unit
ever stands for more time than the duration has. The text of a duration names the largest of the
units `s`, `ms`, `µs`, `ns` that does not exceed it and gives the exact decimal value in that unit.
-/
import LeaseLock.Text.Numeral

namespace LeaseLock

/-- **Duration**: a span of time in nanoseconds. -/
structure Duration where
  /-- The length in nanoseconds. -/
  nanos : Nat
deriving DecidableEq, Repr, Inhabited

namespace Duration

/-! ## Units -/

/-- The duration of `secs` seconds and `subsec` nanoseconds. -/
def ofParts (secs subsec : Nat) : Duration := ⟨secs * 1000000000 + subsec⟩

/-- The duration of `n` whole seconds. -/
def ofSeconds (n : Nat) : Duration := ofParts n 0

/-- The duration of `n` whole milliseconds. -/
def ofMillis (n : Nat) : Duration := ⟨n * 1000000⟩

/-- The empty duration. -/
def zero : Duration := ⟨0⟩

/-- Whole seconds. -/
def seconds (d : Duration) : Nat := d.nanos / 1000000000

/-- The nanoseconds beyond the last whole second. -/
def subsecNanos (d : Duration) : Nat := d.nanos % 1000000000

/-- Whole milliseconds. -/
def millis (d : Duration) : Nat := d.nanos / 1000000

/-- Whole microseconds. -/
def micros (d : Duration) : Nat := d.nanos / 1000

/-- Milliseconds, a started one counted whole: the tick at which a timer set to `d` goes off. -/
def millisUp (d : Duration) : Nat := (d.nanos + 999999) / 1000000

/-- Half of the duration, rounded down to the nanosecond. -/
def half (d : Duration) : Duration := ⟨d.nanos / 2⟩

/-- The two durations one after the other. -/
def plus (d e : Duration) : Duration := ⟨d.nanos + e.nanos⟩

/-- Whether the duration is empty. -/
def isZero (d : Duration) : Bool := d.nanos == 0

/-! ## Text -/

/-- The exact decimal value of `n / 10 ^ places`, without trailing zeros and without a bare point. -/
def decimalText (n places : Nat) : List Char :=
  let whole := Numeral.digits 10 (n / Nat.pow 10 places)
  let fraction := (Numeral.padded 10 places n).reverse.dropWhile (· == '0') |>.reverse
  if fraction.isEmpty then whole else whole ++ '.' :: fraction

/-- **Text of a duration**: the exact value in the largest unit that does not exceed it. -/
def text (d : Duration) : String :=
  String.ofList <|
    if 1000000000 ≤ d.nanos then decimalText d.nanos 9 ++ ['s']
    else if 1000000 ≤ d.nanos then decimalText d.nanos 6 ++ ['m', 's']
    else if 1000 ≤ d.nanos then decimalText d.nanos 3 ++ ['µ', 's']
    else decimalText d.nanos 0 ++ ['n', 's']

end Duration

end LeaseLock
