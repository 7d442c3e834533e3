/-
# LeaseLock.Json.Token -- from characters to the words of JSON

`Token.scan` reads a text character by character. Where it stands is a `Scan.Mode`: between tokens,
inside a text or one of its escapes, inside a numeral at a known stage, or inside one of the three
words. Space, tab, line feed and carriage return may stand between tokens and mean nothing. A raw
control character never stands inside a text.
-/
import LeaseLock.Json.Basic

namespace LeaseLock.Json

/-- The words of JSON. -/
inductive Token where
  | openArray
  | closeArray
  | openObject
  | closeObject
  | comma
  | colon
  | null
  | bool (b : Bool)
  | number (numeral : List Char)
  | text (t : Text)
deriving DecidableEq, Repr, Inhabited

/-! ## Numerals -/

/-- How far a numeral has been read. -/
inductive NumeralStage where
  /-- After the minus sign. -/
  | minus
  /-- After a leading zero, which no digit may follow. -/
  | zero
  /-- Among the digits of the whole part. -/
  | whole
  /-- After the decimal point. -/
  | point
  /-- Among the digits of the fraction. -/
  | fraction
  /-- After the mark of the exponent. -/
  | mark
  /-- After the sign of the exponent. -/
  | markSign
  /-- Among the digits of the exponent. -/
  | exponent
deriving DecidableEq, Repr, Inhabited

namespace NumeralStage

/-- Whether the character is an ASCII digit. -/
def isDigit (c : Char) : Bool := '0' ≤ c && c ≤ '9'

/-- The stage after one more character, if a numeral may go on with it. -/
def next? : NumeralStage → Char → Option NumeralStage
  | .minus, c => if c = '0' then some .zero else if isDigit c then some .whole else none
  | .zero, c =>
    if c = '.' then some .point else if c = 'e' ∨ c = 'E' then some .mark else none
  | .whole, c =>
    if isDigit c then some .whole else if c = '.' then some .point
    else if c = 'e' ∨ c = 'E' then some .mark else none
  | .point, c => if isDigit c then some .fraction else none
  | .fraction, c =>
    if isDigit c then some .fraction else if c = 'e' ∨ c = 'E' then some .mark else none
  | .mark, c =>
    if isDigit c then some .exponent else if c = '+' ∨ c = '-' then some .markSign else none
  | .markSign, c => if isDigit c then some .exponent else none
  | .exponent, c => if isDigit c then some .exponent else none

/-- Whether a numeral may end at this stage. -/
def complete : NumeralStage → Bool
  | .zero | .whole | .fraction | .exponent => true
  | .minus | .point | .mark | .markSign => false

end NumeralStage

/-! ## The scan -/

/-- Where a scan stands. What has been read of the current token is kept backwards. -/
inductive Scan.Mode where
  | between
  | text (done : List TextUnit)
  | escape (done : List TextUnit)
  /-- Inside a hexadecimal escape: digits left, and the value so far. -/
  | code (done : List TextUnit) (left value : Nat)
  | number (stage : NumeralStage) (done : List Char)
  /-- Inside a word: the characters still due, and the token it stands for. -/
  | word (due : List Char) (token : Token)
deriving Repr, Inhabited

/-- A scan: where it stands, and the tokens behind it, last one first. -/
structure Scan where
  mode : Scan.Mode
  done : List Token
deriving Inhabited

namespace Scan

/-- Whether the character may stand between tokens. -/
def isBlank (c : Char) : Bool := c = ' ' || c = '\n' || c = '\t' || c = '\r'

/-- The value of a hexadecimal digit of either case. -/
def hexDigit? (c : Char) : Option Nat :=
  if '0' ≤ c ∧ c ≤ '9' then some (c.toNat - 48)
  else if 'a' ≤ c ∧ c ≤ 'f' then some (c.toNat - 87)
  else if 'A' ≤ c ∧ c ≤ 'F' then some (c.toNat - 55)
  else none

/-- The character that a one-letter escape stands for. -/
def escaped? : Char → Option Char
  | '"' => some '"'
  | '\\' => some '\\'
  | '/' => some '/'
  | 'b' => some '\x08'
  | 'f' => some '\x0c'
  | 'n' => some '\n'
  | 'r' => some '\r'
  | 't' => some '\t'
  | _ => none

/-- Reads a character between tokens. -/
def start? (done : List Token) (c : Char) : Option Scan :=
  if isBlank c then some ⟨.between, done⟩ else
  match c with
  | '[' => some ⟨.between, .openArray :: done⟩
  | ']' => some ⟨.between, .closeArray :: done⟩
  | '\x7b' => some ⟨.between, .openObject :: done⟩
  | '\x7d' => some ⟨.between, .closeObject :: done⟩
  | ',' => some ⟨.between, .comma :: done⟩
  | ':' => some ⟨.between, .colon :: done⟩
  | '"' => some ⟨.text [], done⟩
  | '-' => some ⟨.number .minus ['-'], done⟩
  | 'n' => some ⟨.word ['u', 'l', 'l'] .null, done⟩
  | 't' => some ⟨.word ['r', 'u', 'e'] (.bool true), done⟩
  | 'f' => some ⟨.word ['a', 'l', 's', 'e'] (.bool false), done⟩
  | c =>
    if c = '0' then some ⟨.number .zero [c], done⟩
    else if NumeralStage.isDigit c then some ⟨.number .whole [c], done⟩
    else none

/-- **One step of a scan.** A character that cannot go on with a complete numeral ends it and is
read again between tokens. -/
def step? : Scan → Char → Option Scan
  | ⟨.between, done⟩, c => start? done c
  | ⟨.text units, done⟩, c =>
    if c = '"' then some ⟨.between, .text units.reverse :: done⟩
    else if c = '\\' then some ⟨.escape units, done⟩
    else if c < ' ' then none
    else some ⟨.text (.char c :: units), done⟩
  | ⟨.escape units, done⟩, c =>
    if c = 'u' then some ⟨.code units 4 0, done⟩
    else (escaped? c).map fun e => ⟨.text (.char e :: units), done⟩
  | ⟨.code units left value, done⟩, c => do
    let value := 16 * value + (← hexDigit? c)
    if left ≤ 1 then some ⟨.text (.code value :: units), done⟩
    else some ⟨.code units (left - 1) value, done⟩
  | ⟨.number stage numeral, done⟩, c =>
    match stage.next? c with
    | some stage => some ⟨.number stage (c :: numeral), done⟩
    | none => if stage.complete then start? (.number numeral.reverse :: done) c else none
  | ⟨.word due token, done⟩, c =>
    match due with
    | [] => none
    | [d] => if c = d then some ⟨.between, token :: done⟩ else none
    | d :: due => if c = d then some ⟨.word due token, done⟩ else none

/-- The tokens of a scan that has reached the end of its text. -/
def finish? : Scan → Option (List Token)
  | ⟨.between, done⟩ => some done.reverse
  | ⟨.number stage numeral, done⟩ =>
    if stage.complete then some (.number numeral.reverse :: done).reverse else none
  | _ => none

end Scan

/-- **Tokens of a text**, or nothing where the text has a piece that is no token. -/
def Token.scan? (cs : List Char) : Option (List Token) := do
  (← cs.foldlM Scan.step? ⟨.between, []⟩).finish?

end LeaseLock.Json
