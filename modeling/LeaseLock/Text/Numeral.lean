/-
# LeaseLock.Text.Numeral -- positional numerals

Numbers are written in a base of at most sixteen with the digits `0` to `9` and `a` to `f`, either
without leading zeros (`digits`) or cut to a fixed width (`padded`). Decimal text is read back by
`decimal?`, which knows ASCII digits only, and `signed32?` reads the numerals of a 32-bit integer.
-/

namespace LeaseLock.Numeral

/-! ## Writing -/

/-- The character of a digit value below sixteen. -/
def digit (d : Nat) : Char :=
  Char.ofNat (if d < 10 then 48 + d else 87 + d)

/-- **Numeral without leading zeros** in base `b`, most significant digit first; zero is `0`. -/
def digits (b n : Nat) : List Char :=
  if 2 ≤ b ∧ b ≤ n then digits b (n / b) ++ [digit (n % b)] else [digit n]
termination_by n
decreasing_by exact Nat.div_lt_self (by omega) (by omega)

/-- The `width` lowest digits of `n` in base `b`, zeros included. -/
def padded (b : Nat) : Nat → Nat → List Char
  | 0, _ => []
  | width + 1, n => padded b width (n / b) ++ [digit (n % b)]

/-- The decimal numeral of `n`. -/
def decimal (n : Nat) : String := String.ofList (digits 10 n)

/-- The decimal numeral of an integer, with `-` before a negative one. -/
def signed (n : Int) : String :=
  if n < 0 then "-" ++ decimal n.natAbs else decimal n.natAbs

/-! ## Reading -/

/-- The value of an ASCII digit. -/
def digit? (c : Char) : Option Nat :=
  if '0' ≤ c ∧ c ≤ '9' then some (c.toNat - 48) else none

/-- The value of a run of ASCII digits read after `acc`; refuses any other character. -/
def decimalFrom? (acc : Nat) : List Char → Option Nat
  | [] => some acc
  | c :: cs => do decimalFrom? (10 * acc + (← digit? c)) cs

/-- The value of a nonempty run of ASCII digits, leading zeros allowed. -/
def decimal? : List Char → Option Nat
  | [] => none
  | c :: cs => decimalFrom? 0 (c :: cs)

/-- The value of a signed 32-bit integer: one optional sign, then ASCII digits and nothing else. -/
def signed32? : List Char → Option Int
  | '-' :: cs => do
    let n ← decimal? cs
    if n ≤ Nat.pow 2 31 then some (-(n : Int)) else none
  | '+' :: cs => nonnegative cs
  | cs => nonnegative cs
where
  /-- A numeral without a sign, up to the greatest 32-bit integer. -/
  nonnegative (cs : List Char) : Option Int := do
    let n ← decimal? cs
    if n < Nat.pow 2 31 then some (n : Int) else none

end LeaseLock.Numeral
