/-
# LeaseLock.Json.Basic -- JSON values as they are written

A value keeps what a reader may still have to judge: numbers keep their numeral, and texts keep their
escapes, so that a text with half of a surrogate pair is a value like any other until somebody asks
which characters it stands for (`Text.decode?`). Members of an object keep their order and repeats.
-/
import LeaseLock.Text.Numeral

namespace LeaseLock

namespace Json

/-! ## Texts -/

/-- One unit of a text: a character, or a sixteen-bit code unit given by an escape. -/
inductive TextUnit where
  | char (c : Char)
  | code (unit : Nat)
deriving DecidableEq, Repr, Inhabited

/-- A text between double quotes, unit by unit. -/
abbrev Text := List TextUnit

namespace Text

/-- The text that stands for the characters of a string, without escapes. -/
def ofString (s : String) : Text := s.toList.map .char

/-- A code unit that opens a surrogate pair. -/
def isHigh (unit : Nat) : Bool := 0xd800 ≤ unit && unit < 0xdc00

/-- A code unit that closes a surrogate pair. -/
def isLow (unit : Nat) : Bool := 0xdc00 ≤ unit && unit < 0xe000

/-- The code point of a surrogate pair. -/
def pairValue (high low : Nat) : Nat := 0x10000 + (high - 0xd800) * 0x400 + (low - 0xdc00)

/-- The characters of a text. A high surrogate must be followed by the escape of a low one, and a
low one must not stand alone. -/
def chars? : Text → Option (List Char)
  | [] => some []
  | .char c :: rest => (chars? rest).map (c :: ·)
  | .code high :: .code low :: rest =>
    if isHigh high then
      if isLow low then (chars? rest).map (Char.ofNat (pairValue high low) :: ·) else none
    else if isLow high then none
    else (chars? (.code low :: rest)).map (Char.ofNat high :: ·)
  | .code unit :: rest =>
    if isHigh unit || isLow unit then none else (chars? rest).map (Char.ofNat unit :: ·)

/-- **Decoding**: the string that a text stands for, if its escapes pair up. -/
def decode? (t : Text) : Option String := (chars? t).map String.ofList

end Text

end Json

/-! ## Values -/

/-- **JSON value**. -/
inductive Json where
  | null
  | bool (b : Bool)
  /-- A number by its numeral. -/
  | number (numeral : List Char)
  | text (t : Json.Text)
  | array (elements : List Json)
  | object (members : List (Json.Text × Json))
deriving Inhabited

namespace Json

/-- The text value of a string. -/
def ofString (s : String) : Json := .text (Text.ofString s)

/-- The number value of a natural number. -/
def ofNat (n : Nat) : Json := .number (Numeral.digits 10 n)

/-- The string of a text value whose escapes pair up. -/
def string? : Json → Option String
  | .text t => t.decode?
  | _ => none

/-- The value of a numeral that is written with digits alone: no sign, fraction or exponent. -/
def nat? : Json → Option Nat
  | .number numeral => Numeral.decimal? numeral
  | _ => none

end Json

end LeaseLock
