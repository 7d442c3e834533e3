/-
# LeaseLock.Token -- the marks of ownership

A token is a random UUID of version 4 in its usual text: thirty-two lower-case hexadecimal digits in
groups of eight, four, four, four and twelve, with `4` at the head of the third group and one of `8`,
`9`, `a`, `b` at the head of the fourth. So a minted token has thirty-six characters and is never
empty.

Nobody can name a random token before it is drawn. `Token.freeBlock` keeps this promise without
drawing: it finds a block of tokens, one per claim, none of which begins like a text known beforehand.
-/
import LeaseLock.Text.Numeral

namespace LeaseLock

/-- **Token**: the mark that one claim writes into its row. -/
abbrev Token := String

namespace Token

/-- The token made of 122 random bits: the lowest ones fill the last group, and so on upwards. -/
def ofRandom (bits : Nat) : Token :=
  String.ofList <|
    Numeral.padded 16 8 (bits >>> 90) ++ '-' :: Numeral.padded 16 4 (bits >>> 74) ++
      '-' :: '4' :: Numeral.padded 16 3 (bits >>> 62) ++
      '-' :: Numeral.digit (8 + (bits >>> 60) % 4) :: Numeral.padded 16 3 (bits >>> 48) ++
      '-' :: Numeral.padded 16 12 bits

/-- How many tokens a block has. -/
def blockSize : Nat := 1 <<< 62

/-- The token with a given number in a block. The tokens of one block have their first eighteen
characters in common. -/
def ofBlock (block number : Nat) : Token := ofRandom (block * blockSize + number)

/-- How the tokens of a block begin; or how a text begins, as far as tells its block. -/
def head (s : String) : List Char := s.toList.take 18

/-- The first block without a token that begins like a known text. One more block is tried than there
are known texts, so one is found. -/
def freeBlock (known : List String) : Nat :=
  ((List.range (known.length + 1)).find? fun block =>
    known.all fun s => head s != head (ofBlock block 0)).getD 0

/-- Whether a character is a lower-case hexadecimal digit. -/
def isHexDigit (c : Char) : Bool := ('0' ≤ c && c ≤ '9') || ('a' ≤ c && c ≤ 'f')

/-- What stands at each place of a minted token: a hyphen, the version, the variant, or any
hexadecimal digit. -/
def fits (place : Nat) (c : Char) : Bool :=
  if place = 8 ∨ place = 13 ∨ place = 18 ∨ place = 23 then c == '-'
  else if place = 14 then c == '4'
  else if place = 19 then ['8', '9', 'a', 'b'].contains c
  else isHexDigit c

/-- Whether a text has the form of a minted token. -/
def isMinted (s : String) : Bool :=
  s.length == 36 && s.toList.zipIdx.all fun p => fits p.2 p.1

end Token

end LeaseLock
