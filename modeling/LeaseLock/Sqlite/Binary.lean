/-
# LeaseLock.Sqlite.Binary -- rounding to 53 significant bits

The arithmetic of SQLite's date functions is done in binary floating point. `Binary.round` takes an
exact rational number to the nearest number `m * 2 ^ e` with a whole `m` of 53 bits, a tie going to
the even `m`. The exponent is not bounded, since the numbers of dates are far from both ends.
-/

namespace LeaseLock.Binary

/-- The number of significant bits. -/
def precision : Nat := 53

/-- The whole number nearest to `n / d`, a tie going to the even one. -/
def nearest (n d : Nat) : Nat :=
  let q := n / d
  let r := n % d
  if 2 * r < d then q else if d < 2 * r then q + 1 else if q % 2 = 0 then q else q + 1

/-- An exponent `e` for which `n / d / 2 ^ e` has 53 bits before the point, given that the guess is
that exponent or one more. -/
def settle (n d : Nat) (guess : Int) : Int :=
  let half := 1 <<< (precision - 1)
  match guess with
  | .ofNat e => if half * (d <<< e) ≤ n then guess else guess - 1
  | .negSucc e => if half * d ≤ n <<< (e + 1) then guess else guess - 1

/-- The exponent of the last bit of `n / d`. -/
def exponent (n d : Nat) : Int :=
  settle n d (Int.ofNat n.log2 - Int.ofNat d.log2 - Int.ofNat (precision - 1))

/-- A positive quotient rounded to 53 significant bits. -/
def roundQuotient (n d : Nat) : Rat :=
  match exponent n d with
  | .ofNat e => mkRat (nearest n (d <<< e) <<< e) 1
  | .negSucc e => mkRat (nearest (n <<< (e + 1)) d) (1 <<< (e + 1))

/-- **Rounding** of a rational number to 53 significant bits. -/
def round (q : Rat) : Rat :=
  match q.num with
  | .ofNat 0 => 0
  | .ofNat n => roundQuotient n q.den
  | .negSucc n => -roundQuotient (n + 1) q.den

end LeaseLock.Binary
