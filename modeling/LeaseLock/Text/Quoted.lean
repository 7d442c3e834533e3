/-
# LeaseLock.Text.Quoted -- caller's text inside a message

Text that a caller supplied is written between double quotes. A quote and a backslash get a
backslash; tab, carriage return, line feed and NUL have a letter each; any other character that has no
printed form of its own, is shown as nothing, or would attach to the character before it, is written
as its hexadecimal code point. So quoted text stays on one line, nothing in it goes unseen, and the
caller's text cannot end it.
-/
import LeaseLock.Text.Numeral
import LeaseLock.Text.Unprintable
import LeaseLock.Text.Ignorable
import LeaseLock.Text.Combining

namespace LeaseLock.Quoted

/-- Whether a character would not be seen as itself. -/
def isHidden (c : Char) : Bool :=
  Unprintable.contains c || Ignorable.contains c || Combining.contains c

/-- The written form of one character between the quotes. -/
def escape (c : Char) : List Char :=
  match c with
  | '"' => ['\\', '"']
  | '\\' => ['\\', '\\']
  | '\t' => ['\\', 't']
  | '\r' => ['\\', 'r']
  | '\n' => ['\\', 'n']
  | '\x00' => ['\\', '0']
  | c =>
    if isHidden c then
      ['\\', 'u', '\x7b'] ++ Numeral.digits 16 c.toNat ++ ['\x7d']
    else [c]

/-- **Quoted text**: every character in its written form, between double quotes. -/
def quote (s : String) : String :=
  String.ofList ('"' :: s.toList.flatMap escape ++ ['"'])

end LeaseLock.Quoted
