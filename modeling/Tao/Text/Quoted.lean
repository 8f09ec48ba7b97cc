/-
  Quoted text.

  A text is quoted by putting it between double quotes and writing some characters as escapes: the
  null character, tab, carriage return, line feed, backslash and double quote have short escapes;
  characters without ink and characters that would attach to their neighbour are written by their
  code point in hexadecimal.  An apostrophe stands for itself.
-/
import Tao.Text.Unprintable
import Tao.Text.Extending

namespace Tao.Text

/-- The escape that names a code point in lower case hexadecimal. -/
def codePointEscape (c : Char) : List Char :=
  ['\\', 'u', '\x7b'] ++ Nat.toDigits 16 c.toNat ++ ['\x7d']

/-- How one character is written inside a quoted text. -/
def escapeChar (c : Char) : List Char :=
  if c = '\x00' then ['\\', '0']
  else if c = '\t' then ['\\', 't']
  else if c = '\r' then ['\\', 'r']
  else if c = '\n' then ['\\', 'n']
  else if c = '\\' then ['\\', '\\']
  else if c = '"' then ['\\', '"']
  else if isExtending c || isUnprintable c then codePointEscape c
  else [c]

/-- The text between double quotes, with escapes. -/
def quoted (text : String) : String :=
  "\"" ++ String.ofList (text.toList.flatMap escapeChar) ++ "\""

end Tao.Text
