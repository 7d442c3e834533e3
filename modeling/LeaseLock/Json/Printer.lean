/-
# LeaseLock.Json.Printer -- a value as compact text

No blanks; members in their order; numbers by their numeral. In a text only the double quote, the
backslash and the characters below U+0020 are escaped, five of these by a letter and the others by
four lower-case hexadecimal digits. A code unit that was given by an escape is written as one.
-/
import LeaseLock.Json.Basic

namespace LeaseLock.Json

/-- A sixteen-bit code unit as an escape. -/
def codeEscape (unit : Nat) : List Char := '\\' :: 'u' :: Numeral.padded 16 4 unit

/-- A character between the quotes. -/
def charText (c : Char) : List Char :=
  match c with
  | '"' => ['\\', '"']
  | '\\' => ['\\', '\\']
  | '\x08' => ['\\', 'b']
  | '\x0c' => ['\\', 'f']
  | '\n' => ['\\', 'n']
  | '\r' => ['\\', 'r']
  | '\t' => ['\\', 't']
  | c => if c < ' ' then codeEscape c.toNat else [c]

/-- One unit of a text between the quotes. -/
def TextUnit.written : TextUnit → List Char
  | .char c => charText c
  | .code unit => codeEscape unit

/-- A text with its quotes. -/
def Text.written (t : Text) : List Char := '"' :: t.flatMap TextUnit.written ++ ['"']

mutual

/-- The characters of a value. -/
def written : Json → List Char
  | .null => ['n', 'u', 'l', 'l']
  | .bool true => ['t', 'r', 'u', 'e']
  | .bool false => ['f', 'a', 'l', 's', 'e']
  | .number numeral => numeral
  | .text t => t.written
  | .array elements => '[' :: writtenElements elements ++ [']']
  | .object members => '\x7b' :: writtenMembers members ++ ['\x7d']

/-- The elements of an array, with commas between. -/
def writtenElements : List Json → List Char
  | [] => []
  | [v] => written v
  | v :: vs => written v ++ ',' :: writtenElements vs

/-- The members of an object, with commas between. -/
def writtenMembers : List (Text × Json) → List Char
  | [] => []
  | [(k, v)] => k.written ++ ':' :: written v
  | (k, v) :: ms => k.written ++ ':' :: written v ++ ',' :: writtenMembers ms

end

/-- **Compact text** of a value. -/
def compact (v : Json) : String := String.ofList v.written

end LeaseLock.Json
